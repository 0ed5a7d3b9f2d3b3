/-
The slab allocator's invariant, and the four moves that keep it.

# The invariant

`Inv` is about a set `live` of object addresses: the objects handed out
and not freed, control areas of off-slab caches among them. Every slab on
a list has its pages to itself — `page_link` names it, so two slabs never
share a page — and its free chain visits exactly the objects that are not
live. That the bytes of two objects never meet follows from where a slab's
pages are.

# The moves

An object is taken from a slab (`Inv.allocOne`), a slab is set up
(`Inv.newSlab`), an object goes back (`Inv.freeOne`), an unused slab is
taken down (`Inv.dropSlab`). Setting a slab up and taking it down leave
`live` as it is: for an off-slab cache the control object only changes
hands, from the caller's objects to the control areas and back. So the
calls of `kmem_cache_alloc` and `kmem_cache_free` inside one another are
ordinary calls, and need no case of their own.
-/
import MipsUcore.Kern.Kmalloc
import MipsUcore.Kern.Proofs.PageAllocation
import MipsUcore.Lib.Chain

namespace MipsUcore.Kern

open Threads Function

namespace Kmem

-- ===== the configuration

/-- What the thirteen configurations have in common. -/
structure ConfigOk (config : Nat → CacheConfig) (c : Nat) : Prop where
  num_pos : 0 < (config c).num
  num_lt : (config c).num < bufctlEnd
  size : (config c).objsize = 2 ^ (config c).objsizeShift
  fits : (config c).offset + (config c).num * (config c).objsize
    ≤ pgsize * 2 ^ (config c).pageOrder
  order_le : (config c).pageOrder ≤ maxOrder
  control : (config c).offSlab = false →
    sizeofSlab + (config c).num * sizeofBufctl ≤ (config c).offset
  offSlab : (config c).offSlab = true → (config c).slabCachep < slabCacheNum ∧
    (config (config c).slabCachep).offSlab = false ∧
    sizeofSlab + (config c).num * sizeofBufctl
      ≤ (config (config c).slabCachep).objsize

/-- The caches as `slab_init` leaves them. -/
def bootConfig (c : Nat) : CacheConfig :=
  (slabConfig c).getD ⟨0, 0, 0, 0, false, 0, 0⟩

/-- No panic and no failed assertion in `slab_init`. -/
theorem slabConfig_boot : ∀ c < slabCacheNum,
    slabConfig c = some (bootConfig c) := by
  decide

theorem bootConfig_ok : ∀ c < slabCacheNum, ConfigOk bootConfig c := by
  intro c hc
  have hnum : ∀ c < slabCacheNum, 0 < (bootConfig c).num ∧
      (bootConfig c).num < bufctlEnd := by decide
  have hsize : ∀ c < slabCacheNum,
      (bootConfig c).objsize = 2 ^ (bootConfig c).objsizeShift ∧
      (bootConfig c).offset + (bootConfig c).num * (bootConfig c).objsize
        ≤ pgsize * 2 ^ (bootConfig c).pageOrder := by decide
  have horder : ∀ c < slabCacheNum, (bootConfig c).pageOrder ≤ maxOrder := by
    decide
  have hcontrol : ∀ c < slabCacheNum, (bootConfig c).offSlab = false →
      sizeofSlab + (bootConfig c).num * sizeofBufctl
        ≤ (bootConfig c).offset := by decide
  have hoff : ∀ c < slabCacheNum, (bootConfig c).offSlab = true →
      (bootConfig c).slabCachep < slabCacheNum ∧
      (bootConfig (bootConfig c).slabCachep).offSlab = false ∧
      sizeofSlab + (bootConfig c).num * sizeofBufctl
        ≤ (bootConfig (bootConfig c).slabCachep).objsize := by decide
  exact ⟨(hnum c hc).1, (hnum c hc).2, (hsize c hc).1, (hsize c hc).2,
    horder c hc, hcontrol c hc, hoff c hc⟩

-- ===== the invariant

/-- The slab `a` is on a list of the cache `c`. -/
def IsSlab (s : Kmem) (c a : Nat) : Prop :=
  c < slabCacheNum ∧ (a ∈ s.slabsFull c ∨ a ∈ s.slabsNotfull c)

/-- The page an address lies in. -/
def pageAt (y : Nat) : Nat := (y - kernbase) / pgsize

/-- The address of the object `i` of a slab. -/
def objAddr (s : Kmem) (c a i : Nat) : Nat :=
  (s.slab a).sMem + i * (s.config c).objsize

/-- The slab owns `2^page_order` pages of the zone from `page` on; they
are not among those (`base`) that others had before. -/
structure Placed (z n : Nat) (base : Set Nat) (s : Kmem) (c a page : Nat) :
    Prop where
  sMem_eq : (s.slab a).sMem = page2kva page + (s.config c).offset
  offset_eq : (s.slab a).offset = (s.config c).offset
  onSlab : (s.config c).offSlab = false → a = page2kva page
  inside : z ≤ page ∧ page + 2 ^ (s.config c).pageOrder ≤ z + n
  pages : ∀ q, page ≤ q → q < page + 2 ^ (s.config c).pageOrder →
    (s.pmm.page q).slab = true ∧ s.pageCache q = c ∧ s.pageSlab q = a ∧
      q ∉ s.pmm.freeSet ∧ q ∉ base

/-- The free chain of a slab visits each object that is not live, once. -/
def Chained (s : Kmem) (live : Set Nat) (c a : Nat) : Prop :=
  ∃ l, Chain (s.slab a).bufctl bufctlEnd (s.slab a).free l ∧ l.Nodup ∧
    (∀ i, i ∈ l ↔ i < (s.config c).num ∧ s.objAddr c a i ∉ live) ∧
    (s.slab a).inuse + l.length = (s.config c).num

/-- The slabs are in order; `live` are the objects in use. -/
structure Inv (z n : Nat) (base : Set Nat) (s : Kmem) (live : Set Nat) :
    Prop where
  good : s.pmm.Good z n
  config : s.config = bootConfig
  others : base ⊆ Set.Ico z (z + n) \ s.pmm.freeSet
  placed : ∀ c a, s.IsSlab c a → ∃ page, Placed z n base s c a page
  chained : ∀ c a, s.IsSlab c a → Chained s live c a
  owned : ∀ q, z ≤ q → q < z + n → q ∉ s.pmm.freeSet → q ∉ base →
    ∃ c a page, s.IsSlab c a ∧ Placed z n base s c a page ∧ page ≤ q ∧
      q < page + 2 ^ (s.config c).pageOrder
  nodupFull : ∀ c, (s.slabsFull c).Nodup
  nodupNotfull : ∀ c, (s.slabsNotfull c).Nodup
  full : ∀ c < slabCacheNum, ∀ a ∈ s.slabsFull c,
    (s.slab a).inuse = (s.config c).num
  notfull : ∀ c < slabCacheNum, ∀ a ∈ s.slabsNotfull c,
    (s.slab a).inuse < (s.config c).num
  live_obj : ∀ x ∈ live, ∃ c a i, s.IsSlab c a ∧ i < (s.config c).num ∧
    x = s.objAddr c a i
  control : ∀ c a, s.IsSlab c a → (s.config c).offSlab = true →
    a ∈ live ∧ s.pageCache (pageAt a) = (s.config c).slabCachep

variable {z n : Nat} {base live : Set Nat} {s t : Kmem}
  {a a' b c c' i k page q x y : Nat}

theorem Inv.config_ok (h : Inv z n base s live) (hs : s.IsSlab c a) :
    ConfigOk s.config c := by
  rw [h.config]
  exact bootConfig_ok c hs.1

-- ===== where bytes are

/-- A byte of a slab's pages lies in one of them. -/
theorem pageAt_mem (hy : page2kva page ≤ y)
    (hy' : y < page2kva page + pgsize * k) :
    kernbase ≤ y ∧ page ≤ pageAt y ∧ pageAt y < page + k := by
  unfold page2kva pgsize at *
  unfold pageAt pgsize
  omega

/-- The bytes of an object lie in its slab's pages. -/
theorem Placed.obj_inside (h : Placed z n base s c a page)
    (hc : ConfigOk s.config c) (hi : i < (s.config c).num)
    (hy : s.objAddr c a i ≤ y)
    (hy' : y < s.objAddr c a i + (s.config c).objsize) :
    page2kva page + (s.config c).offset ≤ y ∧
      y < page2kva page + pgsize * 2 ^ (s.config c).pageOrder := by
  have hfits := hc.fits
  have hmul : (i + 1) * (s.config c).objsize
      ≤ (s.config c).num * (s.config c).objsize :=
    Nat.mul_le_mul_right _ hi
  rw [Nat.add_mul] at hmul
  unfold objAddr at hy hy'
  rw [h.sMem_eq] at hy hy'
  omega

/-- A byte in the pages of two slabs: they are one. -/
theorem Placed.eq_of_byte {page' : Nat}
    (h : Placed z n base s c a page) (h' : Placed z n base s c' a' page')
    (hy : page2kva page ≤ y ∧
      y < page2kva page + pgsize * 2 ^ (s.config c).pageOrder)
    (hy' : page2kva page' ≤ y ∧
      y < page2kva page' + pgsize * 2 ^ (s.config c').pageOrder) :
    c = c' ∧ a = a' := by
  obtain ⟨-, hlo, hhi⟩ := pageAt_mem hy.1 hy.2
  obtain ⟨-, hlo', hhi'⟩ := pageAt_mem hy'.1 hy'.2
  obtain ⟨-, hc, ha, -⟩ := h.pages _ hlo hhi
  obtain ⟨-, hc', ha', -⟩ := h'.pages _ hlo' hhi'
  exact ⟨hc.symm.trans hc', ha.symm.trans ha'⟩

theorem ConfigOk.objsize_pos {config : Nat → CacheConfig}
    (h : ConfigOk config c) : 0 < (config c).objsize := by
  rw [h.size]
  exact Nat.two_pow_pos _

variable (h : Inv z n base s live)

section
include h

/-- Objects that share a byte are one. -/
theorem Inv.obj_eq_of_byte {i' : Nat}
    (hs : s.IsSlab c a) (hs' : s.IsSlab c' a') (hi : i < (s.config c).num)
    (hi' : i' < (s.config c').num)
    (hy : s.objAddr c a i ≤ y ∧ y < s.objAddr c a i + (s.config c).objsize)
    (hy' : s.objAddr c' a' i' ≤ y ∧
      y < s.objAddr c' a' i' + (s.config c').objsize) :
    c = c' ∧ a = a' ∧ i = i' := by
  obtain ⟨page, hp⟩ := h.placed c a hs
  obtain ⟨page', hp'⟩ := h.placed c' a' hs'
  have hin := hp.obj_inside (h.config_ok hs) hi hy.1 hy.2
  have hin' := hp'.obj_inside (h.config_ok hs') hi' hy'.1 hy'.2
  obtain ⟨rfl, rfl⟩ := hp.eq_of_byte hp' ⟨by omega, hin.2⟩ ⟨by omega, hin'.2⟩
  refine ⟨rfl, rfl, ?_⟩
  unfold objAddr at hy hy'
  -- the same multiple of the object size below the byte
  by_contra hne
  rcases Nat.lt_or_gt_of_ne hne with hlt | hlt
  · have := Nat.mul_le_mul_right (s.config c).objsize hlt
    rw [Nat.succ_mul] at this
    omega
  · have := Nat.mul_le_mul_right (s.config c).objsize hlt
    rw [Nat.succ_mul] at this
    omega

theorem Inv.objAddr_inj {i' : Nat}
    (hs : s.IsSlab c a) (hs' : s.IsSlab c' a') (hi : i < (s.config c).num)
    (hi' : i' < (s.config c').num)
    (heq : s.objAddr c a i = s.objAddr c' a' i') :
    c = c' ∧ a = a' ∧ i = i' := by
  have hpos := (h.config_ok hs).objsize_pos
  have hpos' := (h.config_ok hs').objsize_pos
  exact h.obj_eq_of_byte hs hs' hi hi' (y := s.objAddr c a i) (by omega)
    (by omega)

/-- A slab belongs to one cache. -/
theorem Inv.cache_unique (hs : s.IsSlab c a)
    (hs' : s.IsSlab c' a) : c = c' := by
  obtain ⟨page, hp⟩ := h.placed c a hs
  obtain ⟨page', hp'⟩ := h.placed c' a hs'
  have hsame : page = page' := by
    have h1 := hp.sMem_eq
    have h2 := hp'.sMem_eq
    rw [← hp.offset_eq] at h1
    rw [← hp'.offset_eq, h1] at h2
    unfold page2kva pgsize at h2
    omega
  subst hsame
  have hpos := Nat.two_pow_pos (s.config c).pageOrder
  have hpos' := Nat.two_pow_pos (s.config c').pageOrder
  obtain ⟨-, hc, -⟩ := hp.pages page (Nat.le_refl _) (by omega)
  obtain ⟨-, hc', -⟩ := hp'.pages page (Nat.le_refl _) (by omega)
  exact hc.symm.trans hc'

end

-- ===== what moves leave alone

/-- A slab keeps its place when its control area's two fields, its pages'
links and flags and the configuration stay. -/
theorem Placed.congr (h : Placed z n base s c a page)
    (hconf : t.config = s.config) (hmem : (t.slab a).sMem = (s.slab a).sMem)
    (hoff : (t.slab a).offset = (s.slab a).offset)
    (hpages : ∀ q, page ≤ q → q < page + 2 ^ (s.config c).pageOrder →
      (t.pmm.page q).slab = (s.pmm.page q).slab ∧
        t.pageCache q = s.pageCache q ∧ t.pageSlab q = s.pageSlab q ∧
        (q ∈ t.pmm.freeSet → q ∈ s.pmm.freeSet)) :
    Placed z n base t c a page where
  sMem_eq := by rw [hmem, hconf, h.sMem_eq]
  offset_eq := by rw [hoff, hconf, h.offset_eq]
  onSlab := by
    rw [hconf]
    exact h.onSlab
  inside := by
    rw [hconf]
    exact h.inside
  pages := by
    rw [hconf]
    intro q hq hq'
    obtain ⟨hf, hc, ha, hfree⟩ := hpages q hq hq'
    obtain ⟨hf', hc', ha', hfree', hbase⟩ := h.pages q hq hq'
    exact ⟨hf.trans hf', hc.trans hc', ha.trans ha',
      fun hmem => hfree' (hfree hmem), hbase⟩

/-- A slab keeps its chain when its control area stays and none of its
objects changes hands. -/
theorem Chained.congr {live' : Set Nat}
    (h : Chained s live c a) (hconf : t.config = s.config)
    (hslab : t.slab a = s.slab a) (hlive : ∀ i < (s.config c).num,
      (s.objAddr c a i ∈ live' ↔ s.objAddr c a i ∈ live)) :
    Chained t live' c a := by
  obtain ⟨l, hchain, hnodup, hmem, hcount⟩ := h
  have haddr : ∀ i, t.objAddr c a i = s.objAddr c a i := by
    intro i
    rw [objAddr, objAddr, hslab, hconf]
  refine ⟨l, ?_, hnodup, ?_, ?_⟩
  · rw [hslab]
    exact hchain
  · intro i
    rw [hmem, hconf, haddr]
    constructor
    · rintro ⟨hi, hnot⟩
      exact ⟨hi, fun hin => hnot ((hlive i hi).1 hin)⟩
    · rintro ⟨hi, hnot⟩
      exact ⟨hi, fun hin => hnot ((hlive i hi).2 hin)⟩
  · rw [hslab, hconf]
    exact hcount

-- ===== the lists

section Lists

variable {c a c' b : Nat}

variable {f g : Nat → List Nat}

theorem mem_push : b ∈ update f c (a :: f c) c' ↔
    (c' = c ∧ b = a) ∨ b ∈ f c' := by
  by_cases hc : c' = c
  · subst hc
    simp
  · simp [hc]

theorem nodup_push (h : ∀ c, (f c).Nodup) (ha : a ∉ f c) (c' : Nat) :
    (update f c (a :: f c) c').Nodup := by
  by_cases hc : c' = c
  · subst hc
    simpa [ha] using h c'
  · simpa [hc] using h c'

/-- Off its list and onto `f`: it was on one of the two before. -/
theorem mem_move (hf : (f c').Nodup) (hg : (g c').Nodup)
    (hs : a ∈ f c ∨ a ∈ g c) (hone : a ∈ f c' ∨ a ∈ g c' → c' = c) :
    (b ∈ update (fun c => (f c).erase a) c (a :: (f c).erase a) c' ∨
      b ∈ (g c').erase a) ↔ b ∈ f c' ∨ b ∈ g c' := by
  rw [mem_push (f := fun c => (f c).erase a), hf.mem_erase_iff,
    hg.mem_erase_iff]
  by_cases hba : b = a
  · subst hba
    refine ⟨?_, fun hb => .inl (.inl ⟨hone hb, rfl⟩)⟩
    rintro ((⟨rfl, -⟩ | hb) | hb)
    · exact hs
    · exact absurd rfl hb.1
    · exact absurd rfl hb.1
  · simp [hba]

end Lists

-- ===== an object taken from its slab

section
include h

/-- One slab's control area and place on the lists change; the other slabs
and their objects do not. -/
theorem Inv.of_update {u : Kmem} {live' : Set Nat}
    (hs : s.IsSlab c a) (hpmm : u.pmm = s.pmm)
    (hconf : u.config = s.config) (hcache : u.pageCache = s.pageCache)
    (hpage : u.pageSlab = s.pageSlab)
    (hother : ∀ b, b ≠ a → u.slab b = s.slab b)
    (hmem : (u.slab a).sMem = (s.slab a).sMem)
    (hoff : (u.slab a).offset = (s.slab a).offset)
    (hslabs : ∀ c' b, u.IsSlab c' b ↔ s.IsSlab c' b)
    (hchain : Chained u live' c a)
    (hkeep : ∀ c' b, s.IsSlab c' b → b ≠ a → ∀ i < (s.config c').num,
      (s.objAddr c' b i ∈ live' ↔ s.objAddr c' b i ∈ live))
    (hobj : ∀ x ∈ live', x ∈ live ∨
      ∃ i < (s.config c).num, x = s.objAddr c a i)
    (hctl : ∀ c' b, s.IsSlab c' b → (s.config c').offSlab = true → b ∈ live')
    (hnf : ∀ c', (u.slabsFull c').Nodup)
    (hnn : ∀ c', (u.slabsNotfull c').Nodup)
    (hfull : ∀ c' < slabCacheNum, ∀ b ∈ u.slabsFull c',
      (u.slab b).inuse = (s.config c').num)
    (hnotfull : ∀ c' < slabCacheNum, ∀ b ∈ u.slabsNotfull c',
      (u.slab b).inuse < (s.config c').num) : Inv z n base u live' := by
  have hplace : ∀ c' b page, Placed z n base s c' b page →
      Placed z n base u c' b page := by
    intro c' b page hp
    have hpages : ∀ q, page ≤ q → q < page + 2 ^ (s.config c').pageOrder →
        (u.pmm.page q).slab = (s.pmm.page q).slab ∧
          u.pageCache q = s.pageCache q ∧ u.pageSlab q = s.pageSlab q ∧
          (q ∈ u.pmm.freeSet → q ∈ s.pmm.freeSet) := by
      intro q _ _
      rw [hpmm, hcache, hpage]
      exact ⟨rfl, rfl, rfl, id⟩
    by_cases hb : b = a
    · subst hb
      exact hp.congr hconf hmem hoff hpages
    · exact hp.congr hconf (by rw [hother b hb]) (by rw [hother b hb]) hpages
  have haddr : ∀ c' b i, u.objAddr c' b i = s.objAddr c' b i := by
    intro c' b i
    by_cases hb : b = a
    · subst hb
      rw [objAddr, objAddr, hmem, hconf]
    · rw [objAddr, objAddr, hother b hb, hconf]
  constructor
  case good =>
    rw [hpmm]
    exact h.good
  case config => exact hconf.trans h.config
  case others =>
    rw [hpmm]
    exact h.others
  case placed =>
    intro c' b hb
    obtain ⟨page, hp⟩ := h.placed c' b ((hslabs c' b).1 hb)
    exact ⟨page, hplace c' b page hp⟩
  case chained =>
    intro c' b hb
    have hb' := (hslabs c' b).1 hb
    by_cases hba : b = a
    · subst hba
      rw [h.cache_unique hb' hs]
      exact hchain
    · exact (h.chained c' b hb').congr hconf (hother b hba)
        (hkeep c' b hb' hba)
  case owned =>
    intro q hq hq' hfree hbase
    rw [hpmm] at hfree
    obtain ⟨c', b, page, hb, hp, hle, hlt⟩ := h.owned q hq hq' hfree hbase
    refine ⟨c', b, page, (hslabs c' b).2 hb, hplace c' b page hp, hle, ?_⟩
    rw [hconf]
    exact hlt
  case nodupFull => exact hnf
  case nodupNotfull => exact hnn
  case full =>
    rw [hconf]
    exact hfull
  case notfull =>
    rw [hconf]
    exact hnotfull
  case live_obj =>
    intro x hx
    rw [hconf]
    rcases hobj x hx with hx | ⟨i, hi, rfl⟩
    · obtain ⟨c', b, i, hb, hi, rfl⟩ := h.live_obj x hx
      exact ⟨c', b, i, (hslabs c' b).2 hb, hi, (haddr c' b i).symm⟩
    · exact ⟨c, a, i, (hslabs c a).2 hs, hi, (haddr c a i).symm⟩
  case control =>
    intro c' b hb hoff'
    have hb' := (hslabs c' b).1 hb
    rw [hconf] at hoff'
    rw [hconf, hcache]
    exact ⟨hctl c' b hb' hoff', (h.control c' b hb' hoff').2⟩

/-- A slab with a free object: the first of its chain. -/
theorem Inv.first_free (hc : c < slabCacheNum) (ha : a ∈ s.slabsNotfull c) :
    ∃ l, Chain (s.slab a).bufctl bufctlEnd
        ((s.slab a).bufctl (s.slab a).free) l ∧
      ((s.slab a).free :: l).Nodup ∧ (∀ i, i ∈ (s.slab a).free :: l ↔
        i < (s.config c).num ∧ s.objAddr c a i ∉ live) ∧
      (s.slab a).inuse + 1 + l.length = (s.config c).num := by
  obtain ⟨l, hchain, hnodup, hmem, hcount⟩ := h.chained c a ⟨hc, .inr ha⟩
  have hlt := h.notfull c hc a ha
  cases l with
  | nil =>
    rw [List.length_nil] at hcount
    omega
  | cons i l =>
    have hstart := hchain.start_eq
    rw [hstart]
    rw [List.length_cons] at hcount
    exact ⟨l, hchain.tail, hnodup, hmem, by omega⟩

theorem Inv.notMem_full (hc : c < slabCacheNum)
    (ha : a ∈ s.slabsNotfull c) : a ∉ s.slabsFull c := by
  intro hf
  have h1 := h.full c hc a hf
  have h2 := h.notfull c hc a ha
  omega

/-- Off its list and onto the full one of its cache. -/
theorem Inv.isSlab_moveFull (hs : s.IsSlab c a) (c' b : Nat) :
    ((s.listDel a).addFull c a).IsSlab c' b ↔ s.IsSlab c' b :=
  and_congr_right fun hc => mem_move (h.nodupFull c') (h.nodupNotfull c')
    hs.2 fun ha => h.cache_unique ⟨hc, ha⟩ hs

/-- Off its list and onto the other one of its cache. -/
theorem Inv.isSlab_moveNotfull (hs : s.IsSlab c a) (c' b : Nat) :
    ((s.listDel a).addNotfull c a).IsSlab c' b ↔ s.IsSlab c' b := by
  refine and_congr_right fun hc => ?_
  rw [or_comm, or_comm (a := b ∈ s.slabsFull c')]
  exact mem_move (h.nodupNotfull c') (h.nodupFull c') hs.2.symm
    fun ha => h.cache_unique ⟨hc, ha.symm⟩ hs

end

/-- What it leaves alone. -/
theorem alloc_one_same (s : Kmem) (c a : Nat) :
    (s.kmemCacheAllocOne c a).1.pmm = s.pmm ∧
      (s.kmemCacheAllocOne c a).1.config = s.config ∧
      (s.kmemCacheAllocOne c a).1.pageCache = s.pageCache ∧
      (s.kmemCacheAllocOne c a).1.pageSlab = s.pageSlab := by
  simp only [kmemCacheAllocOne]
  split <;> exact ⟨rfl, rfl, rfl, rfl⟩

theorem alloc_one_slab (s : Kmem) (c a : Nat) :
    (s.kmemCacheAllocOne c a).1.slab = update s.slab a
      { s.slab a with
        inuse := (s.slab a).inuse + 1
        free := (s.slab a).bufctl (s.slab a).free } := by
  simp only [kmemCacheAllocOne]
  split <;> rfl

@[simp] theorem alloc_one_slab_self (s : Kmem) (c a : Nat) :
    (s.kmemCacheAllocOne c a).1.slab a =
      { s.slab a with
        inuse := (s.slab a).inuse + 1
        free := (s.slab a).bufctl (s.slab a).free } := by
  rw [alloc_one_slab, update_self]

theorem alloc_one_slab_other (s : Kmem) (c a : Nat) (h : b ≠ a) :
    (s.kmemCacheAllocOne c a).1.slab b = s.slab b := by
  rw [alloc_one_slab, update_of_ne h]

section
include h

/-- What the lists hold after `kmem_cache_alloc_one`. -/
theorem Inv.alloc_one_lists (hc : c < slabCacheNum)
    (ha : a ∈ s.slabsNotfull c) :
    (∀ c' b, (s.kmemCacheAllocOne c a).1.IsSlab c' b ↔ s.IsSlab c' b) ∧
      (∀ c', ((s.kmemCacheAllocOne c a).1.slabsFull c').Nodup) ∧
      (∀ c', ((s.kmemCacheAllocOne c a).1.slabsNotfull c').Nodup) ∧
      (∀ c' b, b ∈ (s.kmemCacheAllocOne c a).1.slabsFull c' →
        b ∈ s.slabsFull c' ∨ (c' = c ∧ b = a ∧
          (s.slab a).bufctl (s.slab a).free = bufctlEnd)) ∧
      ∀ c' b, b ∈ (s.kmemCacheAllocOne c a).1.slabsNotfull c' →
        b ∈ s.slabsNotfull c' ∧
          (b = a → (s.slab a).bufctl (s.slab a).free ≠ bufctlEnd) := by
  have hs : s.IsSlab c a := ⟨hc, .inr ha⟩
  by_cases hend : (s.slab a).bufctl (s.slab a).free = bufctlEnd
  · have hfull : (s.kmemCacheAllocOne c a).1.slabsFull
        = ((s.listDel a).addFull c a).slabsFull := by
      simp only [kmemCacheAllocOne, if_pos hend]
      rfl
    have hnot : (s.kmemCacheAllocOne c a).1.slabsNotfull
        = (s.listDel a).slabsNotfull := by
      simp only [kmemCacheAllocOne, if_pos hend]
      rfl
    unfold IsSlab
    rw [hfull, hnot]
    refine ⟨h.isSlab_moveFull hs, ?_, ?_, ?_, ?_⟩
    · refine nodup_push (fun c' => (h.nodupFull c').erase a) ?_
      exact (h.nodupFull c).not_mem_erase
    · exact fun c' => (h.nodupNotfull c').erase a
    · intro c' b hb
      rcases mem_push.1 hb with ⟨rfl, rfl⟩ | hb
      · exact .inr ⟨rfl, rfl, hend⟩
      · exact .inl (List.mem_of_mem_erase hb)
    · intro c' b hb
      obtain ⟨hne, hb⟩ := (h.nodupNotfull c').mem_erase_iff.1 hb
      exact ⟨hb, fun hba => absurd hba hne⟩
  · have hfull : (s.kmemCacheAllocOne c a).1.slabsFull = s.slabsFull := by
      simp only [kmemCacheAllocOne, if_neg hend]
      rfl
    have hnot : (s.kmemCacheAllocOne c a).1.slabsNotfull = s.slabsNotfull := by
      simp only [kmemCacheAllocOne, if_neg hend]
      rfl
    unfold IsSlab
    rw [hfull, hnot]
    exact ⟨fun _ _ => Iff.rfl, h.nodupFull, h.nodupNotfull,
      fun _ _ hb => .inl hb, fun _ _ hb => ⟨hb, fun _ => hend⟩⟩

/-- `kmem_cache_alloc_one` takes an object that was not live. -/
theorem Inv.allocOne (hc : c < slabCacheNum) (ha : a ∈ s.slabsNotfull c) :
    Inv z n base (s.kmemCacheAllocOne c a).1
        (insert (s.kmemCacheAllocOne c a).2 live) ∧
      (s.kmemCacheAllocOne c a).2 ∉ live := by
  have hs : s.IsSlab c a := ⟨hc, .inr ha⟩
  obtain ⟨l, hchain, hnodup, hmem, hcount⟩ := h.first_free hc ha
  obtain ⟨hnum, hdead⟩ := (hmem _).1 List.mem_cons_self
  obtain ⟨hslabs, hnf, hnn, hfull, hnot⟩ := h.alloc_one_lists hc ha
  obtain ⟨hpmm, hconf, hcache, hlink⟩ := alloc_one_same s c a
  refine ⟨h.of_update hs hpmm hconf hcache hlink
    (fun b hb => alloc_one_slab_other s c a hb) ?_ ?_ hslabs ?_ ?_ ?_ ?_
    hnf hnn ?_ ?_, hdead⟩
  · rw [alloc_one_slab_self]
  · rw [alloc_one_slab_self]
  · -- the rest of the chain
    refine ⟨l, ?_, hnodup.tail, ?_, ?_⟩
    · rw [alloc_one_slab_self]
      exact hchain
    · intro i
      have haddr : (s.kmemCacheAllocOne c a).1.objAddr c a i
          = s.objAddr c a i := by
        rw [objAddr, alloc_one_slab_self, hconf, objAddr]
      rw [haddr, hconf, Set.mem_insert_iff, not_or]
      constructor
      · intro hi
        obtain ⟨hlt, hdead'⟩ := (hmem i).1 (List.mem_cons_of_mem _ hi)
        refine ⟨hlt, ?_, hdead'⟩
        intro heq
        obtain ⟨-, -, rfl⟩ := h.objAddr_inj hs hs hlt hnum heq
        exact (List.nodup_cons.1 hnodup).1 hi
      · rintro ⟨hlt, hne, hdead'⟩
        rcases List.mem_cons.1 ((hmem i).2 ⟨hlt, hdead'⟩) with rfl | hi
        · exact absurd rfl hne
        · exact hi
    · rw [alloc_one_slab_self, hconf]
      exact hcount
  · intro c' b hb hba i hi
    rw [Set.mem_insert_iff, or_iff_right]
    intro heq
    exact hba (h.objAddr_inj hb hs hi hnum heq).2.1
  · rintro x (rfl | hx)
    · exact .inr ⟨_, hnum, rfl⟩
    · exact .inl hx
  · exact fun c' b hb hoff => .inr (h.control c' b hb hoff).1
  · intro c' hc' b hmoved
    rcases hfull c' b hmoved with hb | ⟨rfl, rfl, hend⟩
    · have hba : b ≠ a := by
        rintro rfl
        rw [h.cache_unique ⟨hc', .inl hb⟩ hs] at hb
        exact h.notMem_full hc ha hb
      rw [alloc_one_slab_other s c a hba]
      exact h.full c' hc' b hb
    · rw [alloc_one_slab_self]
      rw [hend] at hchain
      have hnil : l = [] := hchain.eq_nil
      rw [hnil] at hcount
      exact hcount
  · intro c' hc' b hstays
    obtain ⟨hb, hend⟩ := hnot c' b hstays
    by_cases hba : b = a
    · subst hba
      rw [h.cache_unique ⟨hc', .inr hb⟩ hs, alloc_one_slab_self]
      have hne : l ≠ [] := by
        rintro rfl
        exact hend rfl hchain.eq_stop
      have := List.length_pos_iff.2 hne
      show (s.slab b).inuse + 1 < (s.config c).num
      omega
    · rw [alloc_one_slab_other s c a hba]
      exact h.notfull c' hc' b hb

end

-- ===== pages taken and given back

/-- The page allocator moves on, and the pages that others hold with it;
the slabs' pages stay theirs. -/
theorem Inv.of_pmm (h : Inv z n base s live) {p : Buddy} {base' : Set Nat}
    (hgood : p.Good z n) (hothers : base' ⊆ Set.Ico z (z + n) \ p.freeSet)
    (hkeep : ∀ q, q ∉ s.pmm.freeSet → q ∉ base →
      (p.page q).slab = (s.pmm.page q).slab ∧ q ∉ p.freeSet ∧ q ∉ base')
    (hback : ∀ q, q ∉ p.freeSet → q ∉ base' → q ∉ s.pmm.freeSet ∧ q ∉ base) :
    Inv z n base' { s with pmm := p } live := by
  have hplace : ∀ c a page, Placed z n base s c a page →
      Placed z n base' { s with pmm := p } c a page := by
    intro c a page hp
    refine ⟨hp.sMem_eq, hp.offset_eq, hp.onSlab, hp.inside, ?_⟩
    intro q hq hq'
    obtain ⟨hslab, hcache, hlink, hfree, hbase⟩ := hp.pages q hq hq'
    obtain ⟨hsame, hfree', hbase'⟩ := hkeep q hfree hbase
    exact ⟨hsame.trans hslab, hcache, hlink, hfree', hbase'⟩
  constructor
  case good => exact hgood
  case config => exact h.config
  case others => exact hothers
  case placed =>
    intro c a hs
    obtain ⟨page, hp⟩ := h.placed c a hs
    exact ⟨page, hplace c a page hp⟩
  case chained => exact h.chained
  case owned =>
    intro q hq hq' hfree hbase
    obtain ⟨hfree', hbase'⟩ := hback q hfree hbase
    obtain ⟨c, a, page, hs, hp, hin⟩ := h.owned q hq hq' hfree' hbase'
    exact ⟨c, a, page, hs, hplace c a page hp, hin⟩
  case nodupFull => exact h.nodupFull
  case nodupNotfull => exact h.nodupNotfull
  case full => exact h.full
  case notfull => exact h.notfull
  case live_obj => exact h.live_obj
  case control => exact h.control

theorem slab_of_usage {p p' : Buddy} (h : p.usage q = p'.usage q) :
    (p.page q).slab = (p'.page q).slab :=
  congrArg Prod.snd h

/-- `alloc_pages`: what it returns joins the pages of others. -/
theorem Inv.takePages (h : Inv z n base s live) (hk : 0 < k) (hle : k ≤ 1024) :
    s.pmm.allocPages k = some (s.pmm, none) ∨
      ∃ p page, s.pmm.allocPages k = some (p, some page) ∧ z ≤ page ∧
        page + k ≤ z + n ∧ Disjoint base (Set.Ico page (page + k)) ∧
        Inv z n (base ∪ Set.Ico page (page + k)) { s with pmm := p } live ∧
        (∀ q, (p.page q).ref = (s.pmm.page q).ref) ∧
        ∀ q ∈ Set.Ico page (page + k), (p.page q).ref = 0 := by
  obtain ⟨_, -, ⟨hnone, -⟩ | ⟨p, i, hrun, hg, hsub, hcover, hus⟩⟩ :=
    Buddy.allocPages_spec h.good hk hle
  · exact .inl hnone
  · right
    have hin : Set.Ico (z + i) (z + i + k) ⊆ s.pmm.freeSet := by
      rintro x ⟨hx, hx'⟩
      refine h.good.mem_freeSet.2 ⟨x - z, hsub ⟨?_, ?_⟩, ?_⟩ <;> omega
    have hfree : p.freeSet = s.pmm.freeSet \ Set.Ico (z + i) (z + i + k) :=
      Buddy.freeSet_congr h.good hg rfl hcover
    have hlast : i + k ≤ n := by
      have := h.good.cover_lt (hsub (a := i + k - 1) ⟨by omega, by omega⟩)
      omega
    have href : ∀ q, (p.page q).ref = (s.pmm.page q).ref :=
      fun q => congrArg Prod.fst (congrFun hus q)
    refine ⟨p, z + i, hrun, by omega, by omega, ?_, ?_, href, ?_⟩
    · rw [Set.disjoint_left]
      exact fun q hq hq' => (h.others hq).2 (hin hq')
    · refine h.of_pmm hg ?_ ?_ ?_
      · rw [hfree]
        rintro q (hq | hq)
        · exact ⟨(h.others hq).1, fun hq' => (h.others hq).2 hq'.1⟩
        · exact ⟨⟨by have := hq.1; omega, by have := hq.2; omega⟩,
            fun hq' => hq'.2 hq⟩
      · intro q hq hbase
        refine ⟨slab_of_usage (congrFun hus q), ?_, ?_⟩
        · rw [hfree]
          exact fun hq' => hq hq'.1
        · rintro (hq' | hq')
          · exact hbase hq'
          · exact hq (hin hq')
      · intro q hq hbase
        rw [hfree] at hq
        exact ⟨fun hq' => hq ⟨hq', fun hin' => hbase (.inr hin')⟩,
          fun hq' => hbase (.inl hq')⟩
    · rintro q ⟨hlo, hhi⟩
      have hclean := h.good.clean (q - z) (hsub ⟨by omega, by omega⟩)
      rw [Nat.add_sub_cancel' (by omega)] at hclean
      exact (href q).trans (congrArg Prod.fst hclean)

/-- `free_pages` of pages that no slab owns. -/
theorem Inv.givePages {p : Nat} (h : Inv z n (base ∪ Set.Ico p (p + k)) s live)
    (hdis : Disjoint base (Set.Ico p (p + k))) (hk : 0 < k) (hle : k ≤ 1024) :
    ∃ t, s.pmm.freePages p k = some t ∧ Inv z n base { s with pmm := t } live ∧
      ∀ q ∈ base, (t.page q).ref = (s.pmm.page q).ref := by
  have hin : ∀ x, p ≤ x → x < p + k →
      (z ≤ x ∧ x < z + n) ∧ x ∉ s.pmm.freeSet :=
    fun x hx hx' => h.others (.inr ⟨hx, hx'⟩)
  obtain ⟨b, rfl⟩ : ∃ b, p = z + b := by
    refine ⟨p - z, ?_⟩
    have := (hin p (Nat.le_refl p) (by omega)).1
    omega
  have hlast := (hin (z + b + k - 1) (by omega) (by omega)).1
  have hout : Disjoint (Set.Ico b (b + k)) (Blocks.cover (s.pmm.blocks z)) := by
    rw [Set.disjoint_left]
    rintro x ⟨hx, hx'⟩ hcover
    refine (hin (z + x) (by omega) (by omega)).2 ?_
    exact h.good.mem_freeSet.2 ⟨x, hcover, rfl⟩
  have hlt : k < 2 ^ (maxOrder + 1) := Nat.lt_of_le_of_lt hle (by decide)
  obtain ⟨t, hrun, hfreed⟩ :=
    Buddy.freePages_spec h.good hk hlt (by omega) hout
  have hfree : ∀ q, q ∈ t.freeSet ↔
      q ∈ s.pmm.freeSet ∨ q ∈ Set.Ico (z + b) (z + b + k) := by
    intro q
    rw [hfreed.good.mem_freeSet, h.good.mem_freeSet, hfreed.cover_eq]
    constructor
    · rintro ⟨i, ⟨hi, hi'⟩ | hi, rfl⟩
      · exact .inr ⟨by omega, by omega⟩
      · exact .inl ⟨i, hi, rfl⟩
    · rintro (⟨i, hi, rfl⟩ | ⟨hq, hq'⟩)
      · exact ⟨i, .inr hi, rfl⟩
      · exact ⟨q - z, .inl ⟨by omega, by omega⟩, by omega⟩
  have hsame : ∀ q ∈ base, (t.page q).ref = (s.pmm.page q).ref := by
    intro q hq
    have hq' : ¬(z + b ≤ q ∧ q < z + b + k) :=
      fun hin' => Set.disjoint_left.1 hdis hq hin'
    have husage : t.usage q = s.pmm.usage q := by
      rw [hfreed.usage_eq, if_neg hq']
    exact congrArg Prod.fst husage
  refine ⟨t, hrun, h.of_pmm hfreed.good ?_ ?_ ?_, hsame⟩
  · intro q hq
    refine ⟨(h.others (.inl hq)).1, ?_⟩
    rw [hfree]
    rintro (hq' | hq')
    · exact (h.others (.inl hq)).2 hq'
    · exact Set.disjoint_left.1 hdis hq hq'
  · intro q hq hbase
    have hq' : ¬(z + b ≤ q ∧ q < z + b + k) := fun hin' => hbase (.inr hin')
    refine ⟨slab_of_usage ?_, ?_, fun hb => hbase (.inl hb)⟩
    · rw [hfreed.usage_eq, if_neg hq']
    · rw [hfree]
      rintro (hin | hin)
      · exact hq hin
      · exact hq' hin
  · intro q hq hbase
    rw [hfree] at hq
    refine ⟨fun hq' => hq (.inl hq'), ?_⟩
    rintro (hb | hb)
    · exact hbase hb
    · exact hq (.inr hb)

-- ===== a slab is set up

/-- The control areas that are objects of another cache. -/
def controls (s : Kmem) : Set Nat :=
  {a | ∃ c, s.IsSlab c a ∧ (s.config c).offSlab = true}

section
include h

/-- A live object lies in the pages of its slab. -/
theorem Inv.live_placed (hx : x ∈ live) :
    ∃ c a page i, s.IsSlab c a ∧ Placed z n base s c a page ∧
      i < (s.config c).num ∧ x = s.objAddr c a i ∧
      page2kva page + (s.config c).offset ≤ x ∧
      x < page2kva page + pgsize * 2 ^ (s.config c).pageOrder := by
  obtain ⟨c, a, i, hs, hi, rfl⟩ := h.live_obj x hx
  obtain ⟨page, hp⟩ := h.placed c a hs
  have hpos := (h.config_ok hs).objsize_pos
  have hin := hp.obj_inside (h.config_ok hs) hi (Nat.le_refl _) (by omega)
  exact ⟨c, a, page, i, hs, hp, hi, rfl, hin⟩

/-- No live object lies in a page of others. -/
theorem Inv.live_notMem (hx : x ∈ live) : pageAt x ∉ base := by
  obtain ⟨c, a, page, i, -, hp, -, -, hlo, hhi⟩ := h.live_placed hx
  obtain ⟨-, hle, hlt⟩ := pageAt_mem (Nat.le_of_add_right_le hlo) hhi
  exact (hp.pages _ hle hlt).2.2.2.2

end

@[simp] theorem pageAt_page2kva (page : Nat) :
    pageAt (page2kva page) = page := by
  unfold pageAt page2kva pgsize
  omega

theorem page2kva_inj {page' : Nat} (h : page2kva page = page2kva page') :
    page = page' := by
  rw [← pageAt_page2kva page, h, pageAt_page2kva]

section
include h

/-- No slab has its control area at the start of a page of others. -/
theorem Inv.fresh_page (hpage : page ∈ base)
    (c : Nat) : ¬s.IsSlab c (page2kva page) := by
  intro hs
  cases hoff : (s.config c).offSlab with
  | false =>
    obtain ⟨page', hp⟩ := h.placed c _ hs
    obtain rfl := page2kva_inj (hp.onSlab hoff)
    have hpos := Nat.two_pow_pos (s.config c).pageOrder
    exact (hp.pages page (Nat.le_refl _) (by omega)).2.2.2.2 hpage
  | true =>
    have hout := h.live_notMem (h.control c _ hs hoff).1
    rw [pageAt_page2kva] at hout
    exact hout hpage

/-- A live object that is no control area of an off-slab cache is no
control area at all: those at the start of a slab come before its objects. -/
theorem Inv.fresh_object (ha : a ∈ live)
    (hctl : a ∉ s.controls) (c : Nat) : ¬s.IsSlab c a := by
  intro hs
  have hon : (s.config c).offSlab = false := by
    cases hoff : (s.config c).offSlab with
    | false => rfl
    | true => exact absurd ⟨c, hs, hoff⟩ hctl
  obtain ⟨page, hp⟩ := h.placed c a hs
  obtain ⟨c', a', page', i, hs', hp', -, -, hlo, hhi⟩ := h.live_placed ha
  have hcontrol := (h.config_ok hs).control hon
  have hsize : sizeofSlab = 24 := rfl
  have hfits := (h.config_ok hs).fits
  have hstart := hp.onSlab hon
  obtain ⟨rfl, rfl⟩ := hp.eq_of_byte hp' (y := a) ⟨by omega, by omega⟩
    ⟨by omega, hhi⟩
  -- one slab: the object would lie before the first one
  have hmem := hp.sMem_eq
  have hmem' := hp'.sMem_eq
  omega

end

/-- The slab `kmem_cache_grow` sets up at `page`, with its control area
at `a`. -/
def install (s : Kmem) (c a page : Nat) : Kmem :=
  (((s.setSlab a
    { s.slab a with
      inuse := 0, offset := (s.config c).offset
      sMem := page2kva page + (s.config c).offset }).markPages c a page
    (1 <<< (s.config c).pageOrder)).linkAll a (s.config c).num).addNotfull c a

@[simp] theorem install_config (s : Kmem) (c a page : Nat) :
    (s.install c a page).config = s.config :=
  rfl

@[simp] theorem install_slab_self (s : Kmem) (c a page : Nat) :
    (s.install c a page).slab a =
      { sMem := page2kva page + (s.config c).offset
        inuse := 0
        offset := (s.config c).offset
        free := 0
        bufctl := update (fun i => if i < (s.config c).num then i + 1
            else (s.slab a).bufctl i) ((s.config c).num - 1) bufctlEnd } := by
  simp [install, addNotfull, linkAll, markPages, setSlab]

theorem install_slab_other (s : Kmem) (c a page : Nat) (h : b ≠ a) :
    (s.install c a page).slab b = s.slab b := by
  simp [install, addNotfull, linkAll, markPages, setSlab, h]

theorem install_isSlab (s : Kmem) (hc : c < slabCacheNum)
    (a page c' b : Nat) : (s.install c a page).IsSlab c' b ↔
      (c' = c ∧ b = a) ∨ s.IsSlab c' b := by
  have hnot : b ∈ (s.install c a page).slabsNotfull c' ↔
      (c' = c ∧ b = a) ∨ b ∈ s.slabsNotfull c' :=
    mem_push
  have hfull : (s.install c a page).slabsFull = s.slabsFull := rfl
  unfold IsSlab
  rw [hnot]
  constructor
  · rintro ⟨hc', hb | hb | hb⟩
    · exact .inr ⟨hc', .inl hb⟩
    · exact .inl hb
    · exact .inr ⟨hc', .inr hb⟩
  · rintro (⟨rfl, rfl⟩ | ⟨hc', hb | hb⟩)
    · exact ⟨hc, .inr (.inl ⟨rfl, rfl⟩)⟩
    · exact ⟨hc', .inl hb⟩
    · exact ⟨hc', .inr (.inr hb)⟩

/-- The marks on a page of the new slab. -/
theorem install_page_in (s : Kmem) (hq : page ≤ q)
    (hq' : q < page + 2 ^ (s.config c).pageOrder) :
    ((s.install c a page).pmm.page q).slab = true ∧
      (s.install c a page).pageCache q = c ∧
      (s.install c a page).pageSlab q = a := by
  rw [← Nat.one_shiftLeft] at hq'
  have hin : page ≤ q ∧ q < page + 1 <<< (s.config c).pageOrder := ⟨hq, hq'⟩
  simp [install, addNotfull, linkAll, markPages, setSlab, Buddy.setPages, hin]

theorem install_page_out (s : Kmem)
    (hq : ¬(page ≤ q ∧ q < page + 2 ^ (s.config c).pageOrder)) :
    (s.install c a page).pmm.page q = s.pmm.page q ∧
      (s.install c a page).pageCache q = s.pageCache q ∧
      (s.install c a page).pageSlab q = s.pageSlab q := by
  rw [← Nat.one_shiftLeft] at hq
  simp [install, addNotfull, linkAll, markPages, setSlab, Buddy.setPages, hq]

/-- Making a slab counts no references. -/
theorem install_ref (s : Kmem) (c a page q : Nat) :
    ((s.install c a page).pmm.page q).ref = (s.pmm.page q).ref := by
  show (if page ≤ q ∧ q < page + 1 <<< (s.config c).pageOrder then
    { s.pmm.page q with slab := true } else s.pmm.page q).ref = _
  split <;> rfl

/-- The live objects' pages keep their cache. -/
theorem Inv.install_pageCache (h : Inv z n
      (base ∪ Set.Ico page (page + 2 ^ (s.config c).pageOrder)) s live)
    (a : Nat) (hy : y ∈ live) :
    (s.install c a page).pageCache (pageAt y) = s.pageCache (pageAt y) := by
  have hout := h.live_notMem hy
  exact (s.install_page_out (a := a) fun hq => hout (.inr hq)).2.1

/-- The chain of a new slab visits all its objects. -/
theorem install_chain (s : Kmem) (hc : ConfigOk s.config c) (a page : Nat) :
    Chain ((s.install c a page).slab a).bufctl bufctlEnd
      ((s.install c a page).slab a).free (List.range' 0 (s.config c).num) := by
  have hpos := hc.num_pos
  have hlt := hc.num_lt
  rw [install_slab_self]
  obtain ⟨m, hm⟩ : ∃ m, (s.config c).num = m + 1 :=
    ⟨(s.config c).num - 1, by omega⟩
  rw [hm]
  show Chain (update (fun i => if i < m + 1 then i + 1
    else (s.slab a).bufctl i) m bufctlEnd) bufctlEnd 0 (List.range' 0 (m + 1))
  refine Chain.range' ?_ (by omega) ?_
  · rw [Nat.zero_add]
    exact update_self _ _ _
  · intro i _ hi
    rw [update_of_ne (by omega), if_pos (by omega)]

/-- A slab is set up on pages that no slab owns; its control area is at
their start or in a live object that is no control area yet. -/
theorem Inv.newSlab (hc : c < slabCacheNum) (h : Inv z n
      (base ∪ Set.Ico page (page + 2 ^ (s.config c).pageOrder)) s live)
    (hdis : Disjoint base (Set.Ico page (page + 2 ^ (s.config c).pageOrder)))
    (hin : z ≤ page ∧ page + 2 ^ (s.config c).pageOrder ≤ z + n)
    (hon : (s.config c).offSlab = false → a = page2kva page)
    (hoff : (s.config c).offSlab = true →
      a ∈ live ∧ s.pageCache (pageAt a) = (s.config c).slabCachep)
    (hnew : ∀ c', ¬s.IsSlab c' a) :
    Inv z n base (s.install c a page) live := by
  have hok : ConfigOk s.config c := by
    rw [h.config]
    exact bootConfig_ok c hc
  have hne : ∀ c' b, s.IsSlab c' b → b ≠ a := by
    rintro c' b hb rfl
    exact hnew c' hb
  -- the slabs that were there
  have hkeep : ∀ c' b page', s.IsSlab c' b →
      Placed z n (base ∪ Set.Ico page (page + 2 ^ (s.config c).pageOrder)) s
        c' b page' → Placed z n base (s.install c a page) c' b page' := by
    intro c' b page' hb hp
    refine ⟨?_, ?_, hp.onSlab, hp.inside, ?_⟩
    · rw [install_slab_other s c a page (hne c' b hb)]
      exact hp.sMem_eq
    · rw [install_slab_other s c a page (hne c' b hb)]
      exact hp.offset_eq
    · intro q hq hq'
      obtain ⟨hslab, hcache, hlink, hfree, hbase⟩ := hp.pages q hq hq'
      obtain ⟨hslab', hcache', hlink'⟩ :=
        s.install_page_out (a := a) fun hq => hbase (.inr hq)
      rw [hslab', hcache', hlink']
      exact ⟨hslab, hcache, hlink, hfree, fun hq => hbase (.inl hq)⟩
  -- the new one
  have hplace : Placed z n base (s.install c a page) c a page := by
    refine ⟨?_, ?_, hon, hin, ?_⟩
    · rw [install_slab_self]
      rfl
    · rw [install_slab_self]
      rfl
    · intro q hq hq'
      obtain ⟨hslab, hcache, hlink⟩ := s.install_page_in (a := a) hq hq'
      refine ⟨hslab, hcache, hlink, ?_, ?_⟩
      · exact (h.others (.inr ⟨hq, hq'⟩)).2
      · exact fun hb => Set.disjoint_left.1 hdis hb ⟨hq, hq'⟩
  have haddr : ∀ c' b i, s.IsSlab c' b →
      (s.install c a page).objAddr c' b i = s.objAddr c' b i := by
    intro c' b i hb
    rw [objAddr, install_slab_other s c a page (hne c' b hb)]
    rfl
  constructor
  case good =>
    refine Buddy.Good.setSlab h.good true fun q hq hq' => ?_
    rw [Nat.one_shiftLeft] at hq'
    exact (h.others (.inr ⟨hq, hq'⟩)).2
  case config => exact h.config
  case others => exact fun q hq => h.others (.inl hq)
  case placed =>
    intro c' b hb
    rcases (s.install_isSlab hc a page c' b).1 hb with ⟨rfl, rfl⟩ | hb
    · exact ⟨page, hplace⟩
    · obtain ⟨page', hp⟩ := h.placed c' b hb
      exact ⟨page', hkeep c' b page' hb hp⟩
  case chained =>
    intro c' b hb
    rcases (s.install_isSlab hc a page c' b).1 hb with ⟨rfl, rfl⟩ | hb
    · refine ⟨_, s.install_chain hok b page, List.nodup_range', ?_, ?_⟩
      · intro i
        rw [List.mem_range'_1]
        refine ⟨fun hi => ⟨by rw [install_config]; omega, fun hlive => ?_⟩,
          fun hi => ⟨Nat.zero_le _, by rw [install_config] at hi; omega⟩⟩
        -- a live object lies in pages of a slab that was there
        have hpos := hok.objsize_pos
        have hobj := hplace.obj_inside hok (y := _)
          (Nat.lt_of_lt_of_eq hi.2 (Nat.zero_add _)) (Nat.le_refl _)
          (Nat.lt_add_of_pos_right hpos)
        obtain ⟨-, hle, hlt⟩ := pageAt_mem (Nat.le_of_add_right_le hobj.1)
          hobj.2
        exact h.live_notMem hlive (.inr ⟨hle, hlt⟩)
      · rw [install_slab_self, List.length_range', Nat.zero_add]
        rfl
    · refine (h.chained c' b hb).congr rfl
        (install_slab_other s c a page (hne c' b hb)) fun _ _ => Iff.rfl
  case owned =>
    intro q hq hq' hfree hbase
    by_cases hp : q ∈ Set.Ico page (page + 2 ^ (s.config c).pageOrder)
    · refine ⟨c, a, page, ?_, hplace, hp.1, hp.2⟩
      exact (s.install_isSlab hc a page c a).2 (.inl ⟨rfl, rfl⟩)
    · have hbase' : q ∉ base ∪
          Set.Ico page (page + 2 ^ (s.config c).pageOrder) := by
        rintro (hb | hb)
        · exact hbase hb
        · exact hp hb
      obtain ⟨c', b, page', hb, hp', hin'⟩ := h.owned q hq hq' hfree hbase'
      refine ⟨c', b, page', ?_, hkeep c' b page' hb hp', hin'⟩
      exact (s.install_isSlab hc a page c' b).2 (.inr hb)
  case nodupFull => exact h.nodupFull
  case nodupNotfull =>
    refine nodup_push h.nodupNotfull fun ha => ?_
    exact hnew c ⟨hc, .inr ha⟩
  case full =>
    intro c' hc' b hb
    rw [install_slab_other s c a page (hne c' b ⟨hc', .inl hb⟩)]
    exact h.full c' hc' b hb
  case notfull =>
    intro c' hc' b hb
    rcases mem_push.1 hb with ⟨rfl, rfl⟩ | hb
    · rw [install_slab_self]
      exact hok.num_pos
    · rw [install_slab_other s c a page (hne c' b ⟨hc', .inr hb⟩)]
      exact h.notfull c' hc' b hb
  case live_obj =>
    intro x hx
    obtain ⟨c', b, i, hb, hi, rfl⟩ := h.live_obj x hx
    refine ⟨c', b, i, ?_, hi, (haddr c' b i hb).symm⟩
    exact (s.install_isSlab hc a page c' b).2 (.inr hb)
  case control =>
    intro c' b hb hoff'
    have hmine : b ∈ live ∧
        s.pageCache (pageAt b) = (s.config c').slabCachep := by
      rcases (s.install_isSlab hc a page c' b).1 hb with ⟨rfl, rfl⟩ | hb
      · exact hoff hoff'
      · exact h.control c' b hb hoff'
    exact ⟨hmine.1, (h.install_pageCache a hmine.1).trans hmine.2⟩

-- ===== an object goes back

/-- The number of live objects of a slab. -/
theorem Inv.inuse_eq (h : Inv z n base s live) (hs : s.IsSlab c a) :
    (s.slab a).inuse =
      {i | i < (s.config c).num ∧ s.objAddr c a i ∈ live}.ncard := by
  obtain ⟨l, -, hnodup, hmem, hcount⟩ := h.chained c a hs
  have hset : {i | i < (s.config c).num ∧ s.objAddr c a i ∈ live}
      = ((Finset.range (s.config c).num \ l.toFinset : Finset Nat) :
        Set Nat) := by
    ext i
    rw [Finset.coe_sdiff, Set.mem_sdiff, Finset.mem_coe, Finset.mem_coe,
      Finset.mem_range, List.mem_toFinset, hmem]
    constructor
    · rintro ⟨hi, hlive⟩
      exact ⟨hi, fun hin => hin.2 hlive⟩
    · rintro ⟨hi, hlive⟩
      exact ⟨hi, Classical.not_not.1 fun hdead => hlive ⟨hi, hdead⟩⟩
  have hsub : l.toFinset ⊆ Finset.range (s.config c).num := by
    intro i hi
    rw [Finset.mem_range]
    exact ((hmem i).1 (List.mem_toFinset.1 hi)).1
  rw [hset, Set.ncard_coe_finset, Finset.card_sdiff_of_subset hsub,
    Finset.card_range, List.toFinset_card_of_nodup hnodup]
  omega

theorem finite_objs (k : Nat) (P : Nat → Prop) : {i | i < k ∧ P i}.Finite :=
  (Set.finite_lt_nat k).subset fun _ hi => hi.1

theorem Inv.inuse_pos (h : Inv z n base s live) (hs : s.IsSlab c a)
    (hi : i < (s.config c).num) (hx : s.objAddr c a i ∈ live) :
    0 < (s.slab a).inuse := by
  rw [h.inuse_eq hs, Set.ncard_pos (finite_objs _ _)]
  exact ⟨i, hi, hx⟩

/-- The object `i` in front of the chain. -/
def putBack (s : Kmem) (a i : Nat) : Kmem :=
  s.setSlab a
    { s.slab a with
      bufctl := update (s.slab a).bufctl i (s.slab a).free
      free := i
      inuse := (s.slab a).inuse - 1 }

@[simp] theorem putBack_slab_self (s : Kmem) (a i : Nat) :
    (s.putBack a i).slab a =
      { s.slab a with
        bufctl := update (s.slab a).bufctl i (s.slab a).free
        free := i
        inuse := (s.slab a).inuse - 1 } :=
  update_self _ _ _

theorem putBack_slab_other (s : Kmem) (i : Nat) (h : b ≠ a) :
    (s.putBack a i).slab b = s.slab b :=
  update_of_ne h _ _

/-- The number of an object from its address. -/
theorem objnr_eq (hc : ConfigOk s.config c) (a i : Nat) :
    (s.objAddr c a i - (s.slab a).sMem) >>> (s.config c).objsizeShift = i := by
  rw [objAddr, Nat.add_sub_cancel_left, Nat.shiftRight_eq_div_pow, ← hc.size,
    Nat.mul_div_cancel _ hc.objsize_pos]

/-- The state `kmem_cache_free_one` leaves when the slab stays in use. -/
def returned (s : Kmem) (c a i : Nat) : Kmem :=
  if (s.slab a).inuse - 1 = (s.config c).num - 1 then
    ((s.putBack a i).listDel a).addNotfull c a
  else s.putBack a i

theorem returned_slab (s : Kmem) (c a i : Nat) :
    (s.returned c a i).slab = (s.putBack a i).slab := by
  unfold returned
  split <;> rfl

section
include h

/-- What the lists hold then. -/
theorem Inv.returned_lists (hs : s.IsSlab c a)
    (hpos : 0 < (s.slab a).inuse) (i : Nat) :
    (∀ c' b, (s.returned c a i).IsSlab c' b ↔ s.IsSlab c' b) ∧
      (∀ c', ((s.returned c a i).slabsFull c').Nodup) ∧
      (∀ c', ((s.returned c a i).slabsNotfull c').Nodup) ∧
      (∀ c' < slabCacheNum, ∀ b, b ∈ (s.returned c a i).slabsFull c' →
        b ∈ s.slabsFull c' ∧ b ≠ a) ∧
      ∀ c' b, b ∈ (s.returned c a i).slabsNotfull c' →
        b ∈ s.slabsNotfull c' ∨ (c' = c ∧ b = a) := by
  by_cases hfull : (s.slab a).inuse - 1 = (s.config c).num - 1
  · have heq : s.returned c a i = ((s.putBack a i).listDel a).addNotfull c a :=
      if_pos hfull
    rw [heq]
    refine ⟨h.isSlab_moveNotfull hs, fun c' => (h.nodupFull c').erase a, ?_,
      ?_, ?_⟩
    · refine nodup_push (fun c' => (h.nodupNotfull c').erase a) ?_
      exact (h.nodupNotfull c).not_mem_erase
    · exact fun c' _ b hb => ((h.nodupFull c').mem_erase_iff.1 hb).symm
    · intro c' b hb
      rcases mem_push.1 hb with hb | hb
      · exact .inr hb
      · exact .inl (List.mem_of_mem_erase hb)
  · have heq : s.returned c a i = s.putBack a i := if_neg hfull
    rw [heq]
    refine ⟨fun _ _ => Iff.rfl, h.nodupFull, h.nodupNotfull, ?_,
      fun _ _ hb => .inl hb⟩
    intro c' hc' b hb
    refine ⟨hb, ?_⟩
    rintro rfl
    have hb' : b ∈ s.slabsFull c' := hb
    have huse := h.full c' hc' b hb'
    rw [h.cache_unique ⟨hc', .inl hb'⟩ hs] at huse
    omega

/-- The objects of other slabs are not this one. -/
theorem Inv.mem_sdiff_obj {j : Nat}
    (hs : s.IsSlab c a) (hi : i < (s.config c).num) (hb : s.IsSlab c' b)
    (hj : j < (s.config c').num) (hne : b ≠ a) :
    s.objAddr c' b j ∈ live \ {s.objAddr c a i} ↔ s.objAddr c' b j ∈ live := by
  refine ⟨fun hx => hx.1, fun hx => ⟨hx, fun heq => ?_⟩⟩
  exact hne (h.objAddr_inj hb hs hj hi heq).2.1

theorem Inv.control_sdiff (hx : x ∉ s.controls)
    (hs : s.IsSlab c a) (hoff : (s.config c).offSlab = true) :
    a ∈ live \ {x} := by
  refine ⟨(h.control c a hs hoff).1, ?_⟩
  rintro rfl
  exact hx ⟨c, hs, hoff⟩

/-- An object goes back to a slab with more in use. -/
theorem Inv.freeOne (hs : s.IsSlab c a)
    (hi : i < (s.config c).num) (hx : s.objAddr c a i ∈ live)
    (hctl : s.objAddr c a i ∉ s.controls) :
    Inv z n base (s.returned c a i) (live \ {s.objAddr c a i}) := by
  have hpos := h.inuse_pos hs hi hx
  obtain ⟨l, hchain, hnodup, hmem, hcount⟩ := h.chained c a hs
  obtain ⟨hslabs, hnf, hnn, hfull, hnot⟩ := h.returned_lists hs hpos i
  have hlt := (h.config_ok hs).num_lt
  have hout : i ∉ l := fun hin => ((hmem i).1 hin).2 hx
  have hslab : (s.returned c a i).slab a = (s.putBack a i).slab a := by
    rw [returned_slab]
  have hother : ∀ b, b ≠ a → (s.returned c a i).slab b = s.slab b := by
    intro b hb
    rw [returned_slab, putBack_slab_other s i hb]
  have hsame : (s.returned c a i).pmm = s.pmm ∧
      (s.returned c a i).config = s.config ∧
      (s.returned c a i).pageCache = s.pageCache ∧
      (s.returned c a i).pageSlab = s.pageSlab := by
    unfold returned
    split <;> exact ⟨rfl, rfl, rfl, rfl⟩
  obtain ⟨hpmm, hconf, hcache, hlink⟩ := hsame
  refine h.of_update hs hpmm hconf hcache hlink hother ?_ ?_ hslabs ?_ ?_ ?_
    (fun c' b hb hoff => h.control_sdiff hctl hb hoff) hnf hnn ?_ ?_
  · rw [hslab, putBack_slab_self]
  · rw [hslab, putBack_slab_self]
  · refine ⟨i :: l, ?_, List.nodup_cons.2 ⟨hout, hnodup⟩, ?_, ?_⟩
    · rw [hslab, putBack_slab_self]
      exact hchain.push hout (by omega)
    · intro j
      have haddr : (s.returned c a i).objAddr c a j = s.objAddr c a j := by
        rw [objAddr, hslab, putBack_slab_self, hconf, objAddr]
      rw [haddr, hconf, List.mem_cons]
      constructor
      · rintro (rfl | hj)
        · exact ⟨hi, fun hin => hin.2 rfl⟩
        · obtain ⟨hj, hdead⟩ := (hmem j).1 hj
          exact ⟨hj, fun hin => hdead hin.1⟩
      · rintro ⟨hj, hdead⟩
        by_cases hji : j = i
        · exact .inl hji
        · refine .inr ((hmem j).2 ⟨hj, fun hin => hdead ⟨hin, ?_⟩⟩)
          exact fun heq => hji (h.objAddr_inj hs hs hj hi heq).2.2
    · rw [hslab, putBack_slab_self, hconf]
      show (s.slab a).inuse - 1 + (l.length + 1) = (s.config c).num
      omega
  · exact fun c' b hb hne j hj => h.mem_sdiff_obj hs hi hb hj hne
  · exact fun x hx => .inl hx.1
  · intro c' hc' b hb
    obtain ⟨hb, hne⟩ := hfull c' hc' b hb
    rw [hother b hne]
    exact h.full c' hc' b hb
  · intro c' hc' b hb
    by_cases hne : b = a
    · subst hne
      rw [h.cache_unique ((hslabs c' b).1 ⟨hc', .inr hb⟩) hs, hslab,
        putBack_slab_self]
      show (s.slab b).inuse - 1 < (s.config c).num
      omega
    · rw [hother b hne]
      rcases hnot c' b hb with hb | hb
      · exact h.notfull c' hc' b hb
      · exact absurd hb.2 hne

end

-- ===== a slab is taken down

section
include h

/-- The one object of a slab in use once. -/
theorem Inv.only_live {j : Nat} (hs : s.IsSlab c a) (hi : i < (s.config c).num)
    (hx : s.objAddr c a i ∈ live) (hone : (s.slab a).inuse = 1)
    (hj : j < (s.config c).num) (hy : s.objAddr c a j ∈ live) : j = i := by
  rw [h.inuse_eq hs] at hone
  exact (Set.ncard_le_one (finite_objs _ _)).1 hone.le j ⟨hj, hy⟩ i ⟨hi, hx⟩

/-- The slab off its list, its last object back, its pages unmarked. -/
def dismantle (s : Kmem) (c a i page : Nat) : Kmem :=
  { (s.putBack a i).listDel a with
    pmm := s.pmm.setPages page (1 <<< (s.config c).pageOrder)
      fun p => { p with slab := false } }

theorem Inv.dismantle_isSlab (c a i page c' b : Nat) :
    (s.dismantle c a i page).IsSlab c' b ↔ s.IsSlab c' b ∧ b ≠ a := by
  have hfull : b ∈ (s.dismantle c a i page).slabsFull c' ↔
      b ≠ a ∧ b ∈ s.slabsFull c' :=
    (h.nodupFull c').mem_erase_iff
  have hnot : b ∈ (s.dismantle c a i page).slabsNotfull c' ↔
      b ≠ a ∧ b ∈ s.slabsNotfull c' :=
    (h.nodupNotfull c').mem_erase_iff
  unfold IsSlab
  tauto

end

theorem dismantle_slab_other (s : Kmem) (c i page : Nat) (h : b ≠ a) :
    (s.dismantle c a i page).slab b = s.slab b :=
  putBack_slab_other s i h

/-- A slab whose last object goes back leaves its pages to others. -/
theorem Inv.dropSlab (h : Inv z n base s live) (hs : s.IsSlab c a)
    (hp : Placed z n base s c a page) (hi : i < (s.config c).num)
    (hx : s.objAddr c a i ∈ live)
    (hctl : s.objAddr c a i ∉ s.controls) (hone : (s.slab a).inuse = 1) :
    Inv z n (base ∪ Set.Ico page (page + 2 ^ (s.config c).pageOrder))
      (s.dismantle c a i page) (live \ {s.objAddr c a i}) := by
  have hslabs := h.dismantle_isSlab c a i page
  have hmine : ∀ q ∈ Set.Ico page (page + 2 ^ (s.config c).pageOrder),
      s.pageSlab q = a ∧ q ∉ s.pmm.freeSet :=
    fun q hq => ⟨(hp.pages q hq.1 hq.2).2.2.1, (hp.pages q hq.1 hq.2).2.2.2.1⟩
  have hkeep : ∀ c' b page', b ≠ a → Placed z n base s c' b page' →
      Placed z n (base ∪ Set.Ico page (page + 2 ^ (s.config c).pageOrder))
        (s.dismantle c a i page) c' b page' := by
    intro c' b page' hne hb
    refine ⟨?_, ?_, hb.onSlab, hb.inside, ?_⟩
    · rw [dismantle_slab_other s c i page hne]
      exact hb.sMem_eq
    · rw [dismantle_slab_other s c i page hne]
      exact hb.offset_eq
    · intro q hq hq'
      obtain ⟨hslab, hcache, hlink, hfree, hbase⟩ := hb.pages q hq hq'
      have hout : q ∉ Set.Ico page (page + 2 ^ (s.config c).pageOrder) :=
        fun hin => hne (hlink.symm.trans (hmine q hin).1)
      have hpage : (s.dismantle c a i page).pmm.page q = s.pmm.page q := by
        refine if_neg fun hin => hout ?_
        rw [Nat.one_shiftLeft] at hin
        exact hin
      rw [hpage]
      refine ⟨hslab, hcache, hlink, hfree, ?_⟩
      rintro (hq | hq)
      · exact hbase hq
      · exact hout hq
  have haddr : ∀ c' b j, b ≠ a →
      (s.dismantle c a i page).objAddr c' b j = s.objAddr c' b j := by
    intro c' b j hne
    rw [objAddr, dismantle_slab_other s c i page hne]
    rfl
  constructor
  case good =>
    refine Buddy.Good.setSlab h.good false fun q hq hq' => ?_
    rw [Nat.one_shiftLeft] at hq'
    exact (hmine q ⟨hq, hq'⟩).2
  case config => exact h.config
  case others =>
    rintro q (hq | hq)
    · exact h.others hq
    · have hin := hp.inside
      exact ⟨⟨Nat.le_trans hin.1 hq.1, Nat.lt_of_lt_of_le hq.2 hin.2⟩,
        (hmine q hq).2⟩
  case placed =>
    intro c' b hb
    obtain ⟨hb, hne⟩ := (hslabs c' b).1 hb
    obtain ⟨page', hp'⟩ := h.placed c' b hb
    exact ⟨page', hkeep c' b page' hne hp'⟩
  case chained =>
    intro c' b hb
    obtain ⟨hb, hne⟩ := (hslabs c' b).1 hb
    exact (h.chained c' b hb).congr rfl (dismantle_slab_other s c i page hne)
      fun j hj => h.mem_sdiff_obj hs hi hb hj hne
  case owned =>
    intro q hq hq' hfree hbase
    obtain ⟨c', b, page', hb, hp', hin⟩ :=
      h.owned q hq hq' hfree fun hq => hbase (.inl hq)
    have hne : b ≠ a := by
      rintro rfl
      refine hbase (.inr ?_)
      obtain rfl := h.cache_unique hb hs
      have hsame : page = page' := by
        have h1 := hp.sMem_eq
        rw [hp'.sMem_eq] at h1
        exact page2kva_inj (Nat.add_right_cancel h1.symm)
      rw [hsame]
      exact hin
    exact ⟨c', b, page', (hslabs c' b).2 ⟨hb, hne⟩, hkeep c' b page' hne hp',
      hin⟩
  case nodupFull => exact fun c' => (h.nodupFull c').erase a
  case nodupNotfull => exact fun c' => (h.nodupNotfull c').erase a
  case full =>
    intro c' hc' b hb
    obtain ⟨hne, hb⟩ := (h.nodupFull c').mem_erase_iff.1 hb
    rw [dismantle_slab_other s c i page hne]
    exact h.full c' hc' b hb
  case notfull =>
    intro c' hc' b hb
    obtain ⟨hne, hb⟩ := (h.nodupNotfull c').mem_erase_iff.1 hb
    rw [dismantle_slab_other s c i page hne]
    exact h.notfull c' hc' b hb
  case live_obj =>
    rintro x ⟨hlive, hne⟩
    obtain ⟨c', b, j, hb, hj, rfl⟩ := h.live_obj x hlive
    have hba : b ≠ a := by
      rintro rfl
      obtain rfl := h.cache_unique hb hs
      exact hne (by rw [h.only_live hs hi hx hone hj hlive]; rfl)
    exact ⟨c', b, j, (hslabs c' b).2 ⟨hb, hba⟩, hj, (haddr c' b j hba).symm⟩
  case control =>
    intro c' b hb hoff
    obtain ⟨hb, -⟩ := (hslabs c' b).1 hb
    exact ⟨h.control_sdiff hctl hb hoff, (h.control c' b hb hoff).2⟩

end Kmem

end MipsUcore.Kern
