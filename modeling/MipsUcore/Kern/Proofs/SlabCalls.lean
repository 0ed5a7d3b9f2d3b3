/-
What `kmalloc` and `kfree` do, over whole histories of calls.

# From the moves to the calls

`Own` is the invariant of `Slab` with the objects in use told apart: those
the callers hold and the control areas of off-slab caches. In between the
calls every slab is in use. An allocation for an off-slab cache first takes
pages, which count as pages of others meanwhile, then calls itself for the
control area: the inner call sees nothing but an `Own` state with more
pages of others, so its result is the one of any call. The last free of an
off-slab slab is the mirror image: its control area becomes an object the
caller holds, and the inner call frees it.

# The history

`History` adds one call at a time and keeps what is held with the sizes
asked for. `slab_allocator_sound` says what holds after every history.
-/
import MipsUcore.Kern.Proofs.Slab

namespace MipsUcore.Kern

open Threads

namespace Kmem

variable {z n : Nat} {base held : Set Nat} {s t : Kmem}
  {live : Set Nat} {a c i page size x : Nat}

/-- The callers hold the objects `held`; no slab is empty. -/
structure Own (z n : Nat) (base : Set Nat) (s : Kmem) (held : Set Nat) :
    Prop where
  inv : Inv z n base s (held ∪ s.controls)
  apart : Disjoint held s.controls
  busy : ∀ c a, s.IsSlab c a → 0 < (s.slab a).inuse

theorem controls_congr (hslabs : ∀ c a, t.IsSlab c a ↔ s.IsSlab c a)
    (hconf : t.config = s.config) : t.controls = s.controls := by
  ext a
  constructor
  · rintro ⟨c, hs, hoff⟩
    rw [hconf] at hoff
    exact ⟨c, (hslabs c a).1 hs, hoff⟩
  · rintro ⟨c, hs, hoff⟩
    rw [← hconf] at hoff
    exact ⟨c, (hslabs c a).2 hs, hoff⟩

-- ===== the pages

/-- Where a byte of an object is. -/
theorem Inv.obj_page (h : Inv z n base s live)
    {y : Nat} (hs : s.IsSlab c a) (hi : i < (s.config c).num)
    (hy : s.objAddr c a i ≤ y)
    (hy' : y < s.objAddr c a i + (s.config c).objsize) :
    kva2page s.pmm.npage y = some (pageAt y) ∧
      (s.pmm.page (pageAt y)).slab = true ∧ s.pageCache (pageAt y) = c ∧
      s.pageSlab (pageAt y) = a := by
  obtain ⟨page, hp⟩ := h.placed c a hs
  have hin := hp.obj_inside (h.config_ok hs) hi hy hy'
  obtain ⟨hbase, hle, hlt⟩ := pageAt_mem (by omega) hin.2
  obtain ⟨hslab, hcache, hlink, -⟩ := hp.pages _ hle hlt
  refine ⟨if_pos ⟨hbase, ?_⟩, hslab, hcache, hlink⟩
  have hinside := hp.inside
  have hbound := h.good.bound
  show pageAt y < s.pmm.npage
  omega

/-- The page of an object's address names its cache and its slab. -/
theorem Inv.objAddr_page (h : Inv z n base s live)
    (hs : s.IsSlab c a) (hi : i < (s.config c).num) :
    kva2page s.pmm.npage (s.objAddr c a i) = some (pageAt (s.objAddr c a i)) ∧
      (s.pmm.page (pageAt (s.objAddr c a i))).slab = true ∧
      s.pageCache (pageAt (s.objAddr c a i)) = c ∧
      s.pageSlab (pageAt (s.objAddr c a i)) = a :=
  h.obj_page hs hi (Nat.le_refl _)
    (Nat.lt_add_of_pos_right (h.config_ok hs).objsize_pos)

/-- Where an object is: its cache, its slab, and where the objects of that
slab begin. -/
def place (s : Kmem) (x : Nat) : Nat × Nat × Nat :=
  (s.pageCache (pageAt x), s.pageSlab (pageAt x),
    (s.slab (s.pageSlab (pageAt x))).sMem)

theorem place_congr (hcache : t.pageCache (pageAt x) = s.pageCache (pageAt x))
    (hslab : t.pageSlab (pageAt x) = s.pageSlab (pageAt x))
    (hmem : (t.slab (s.pageSlab (pageAt x))).sMem
      = (s.slab (s.pageSlab (pageAt x))).sMem) : t.place x = s.place x := by
  rw [place, hcache, hslab, hmem]
  rfl

theorem Inv.place_obj (h : Inv z n base s live)
    (hs : s.IsSlab c a) (hi : i < (s.config c).num) :
    s.place (s.objAddr c a i) = (c, a, (s.slab a).sMem) := by
  obtain ⟨-, -, hcache, hslab⟩ := h.objAddr_page hs hi
  rw [place, hcache, hslab]

theorem alloc_one_place (s : Kmem) (c a x : Nat) :
    (s.kmemCacheAllocOne c a).1.place x = s.place x := by
  obtain ⟨-, -, hcache, hlink⟩ := alloc_one_same s c a
  refine place_congr (by rw [hcache]) (by rw [hlink]) ?_
  by_cases hba : s.pageSlab (pageAt x) = a
  · rw [hba, alloc_one_slab_self]
  · rw [alloc_one_slab_other s c a hba]

/-- A new slab is put where no object is. -/
theorem Inv.install_place (h : Inv z n
      (base ∪ Set.Ico page (page + 2 ^ (s.config c).pageOrder)) s live)
    (hfresh : ∀ c', ¬s.IsSlab c' a) (hx : x ∈ live) :
    (s.install c a page).place x = s.place x := by
  have hout := h.live_notMem hx
  obtain ⟨-, hcache, hslab⟩ :=
    s.install_page_out (a := a) fun hq => hout (.inr hq)
  refine place_congr hcache hslab ?_
  obtain ⟨c', a', i, hs, hi, rfl⟩ := h.live_obj x hx
  rw [(h.objAddr_page hs hi).2.2.2]
  rw [install_slab_other s c a page fun heq => hfresh c' (heq ▸ hs)]

-- ===== allocation

/-- The outcome of `kmem_cache_alloc` for the cache `c`. -/
structure Given (z n : Nat) (base : Set Nat) (s : Kmem) (held : Set Nat)
    (c : Nat) (t : Kmem) (r : Option Nat) : Prop where
  failed : r = none → Own z n base t held
  taken : ∀ x, r = some x → Own z n base t (insert x held) ∧ x ∉ held ∧
    t.pageCache (pageAt x) = c
  controls : s.controls ⊆ t.controls
  frame : ∀ y ∈ held ∪ s.controls, t.place y = s.place y
  ref : ∀ q ∈ base, (t.pmm.page q).ref = (s.pmm.page q).ref

/-- One object from a slab; that slab alone may have been empty. -/
theorem Inv.takeFirst (h : Inv z n base s (held ∪ s.controls))
    (hapart : Disjoint held s.controls) (hc : c < slabCacheNum)
    (ha : a ∈ s.slabsNotfull c)
    (hbusy : ∀ c' b, s.IsSlab c' b → b ≠ a → 0 < (s.slab b).inuse) :
    Given z n base s held c (s.kmemCacheAllocOne c a).1
      (some (s.kmemCacheAllocOne c a).2) := by
  have hs : s.IsSlab c a := ⟨hc, .inr ha⟩
  obtain ⟨hinv, hnew⟩ := h.allocOne hc ha
  obtain ⟨hslabs, -⟩ := h.alloc_one_lists hc ha
  obtain ⟨l, -, -, hmem, -⟩ := h.first_free hc ha
  obtain ⟨hnum, -⟩ := (hmem _).1 List.mem_cons_self
  obtain ⟨hpmm, hconf, hcache, -⟩ := alloc_one_same s c a
  have hctl := controls_congr hslabs hconf
  refine ⟨nofun, ?_, hctl.symm.subset, fun y _ => alloc_one_place s c a y,
    fun q _ => by rw [hpmm]⟩
  rintro x ⟨⟩
  refine ⟨⟨?_, ?_, ?_⟩, fun hin => hnew (.inl hin), ?_⟩
  · rw [hctl, Set.insert_union]
    exact hinv
  · rw [hctl, Set.disjoint_insert_left]
    exact ⟨fun hin => hnew (.inr hin), hapart⟩
  · intro c' b hb
    by_cases hba : b = a
    · subst hba
      rw [alloc_one_slab_self]
      exact Nat.succ_pos _
    · rw [alloc_one_slab_other s c a hba]
      exact hbusy c' b ((hslabs c' b).1 hb) hba
  · rw [hcache]
    exact (h.objAddr_page hs hnum).2.2.1

/-- What `kmem_cache_grow` leaves: nothing new, or a slab in front. -/
structure Grown (z n : Nat) (base : Set Nat) (s : Kmem) (held : Set Nat)
    (c : Nat) (t : Kmem) (ok : Bool) : Prop where
  failed : ok = false → Own z n base t held
  added : ok = true → Inv z n base t (held ∪ t.controls) ∧
    Disjoint held t.controls ∧ ∃ a l, t.slabsNotfull c = a :: l ∧
      ∀ c' b, t.IsSlab c' b → b ≠ a → 0 < (t.slab b).inuse
  controls : s.controls ⊆ t.controls
  frame : ∀ y ∈ held ∪ s.controls, t.place y = s.place y
  ref : ∀ q ∈ base, (t.pmm.page q).ref = (s.pmm.page q).ref

theorem order_size (hc : c < slabCacheNum) : 0 < 2 ^ (bootConfig c).pageOrder ∧
      2 ^ (bootConfig c).pageOrder ≤ 1024 := by
  have hle := (bootConfig_ok c hc).order_le
  refine ⟨Nat.two_pow_pos _, ?_⟩
  calc 2 ^ (bootConfig c).pageOrder ≤ 2 ^ maxOrder :=
        Nat.pow_le_pow_right (by decide) hle
    _ = 1024 := by decide

/-- The control areas after a slab is set up. -/
theorem install_controls (s : Kmem) (hc : c < slabCacheNum)
    (a page : Nat) : (s.install c a page).controls =
      {b | b = a ∧ (s.config c).offSlab = true} ∪ s.controls := by
  ext b
  constructor
  · rintro ⟨c', hb, hoff⟩
    rcases (s.install_isSlab hc a page c' b).1 hb with ⟨rfl, rfl⟩ | hb
    · exact .inl ⟨rfl, hoff⟩
    · exact .inr ⟨c', hb, hoff⟩
  · rintro (⟨rfl, hoff⟩ | ⟨c', hb, hoff⟩)
    · exact ⟨c, (s.install_isSlab hc b page c b).2 (.inl ⟨rfl, rfl⟩), hoff⟩
    · exact ⟨c', (s.install_isSlab hc a page c' b).2 (.inr hb), hoff⟩

/-- A slab that was set up stands in front of its list; the others are in
use as before. -/
theorem install_front (s : Kmem) (hc : c < slabCacheNum) (a page : Nat)
    (hbusy : ∀ c' b, s.IsSlab c' b → 0 < (s.slab b).inuse) :
    ∃ a' l, (s.install c a page).slabsNotfull c = a' :: l ∧
      ∀ c' b, (s.install c a page).IsSlab c' b → b ≠ a' →
        0 < ((s.install c a page).slab b).inuse := by
  refine ⟨a, s.slabsNotfull c, Function.update_self _ _ _, ?_⟩
  intro c' b hb hne
  rw [install_slab_other s c a page hne]
  rcases (s.install_isSlab hc a page c' b).1 hb with ⟨-, rfl⟩ | hb
  · exact absurd rfl hne
  · exact hbusy c' b hb

variable (h : Own z n base s held)

section
include h

/-- `kmem_cache_grow` of an on-slab cache. -/
theorem Own.grow_onSlab (hc : c < slabCacheNum)
    (hon : (bootConfig c).offSlab = false)
    (alloc : Kmem → Nat → Option (Kmem × Option Nat)) :
    ∃ t ok, kmemCacheGrow alloc s c = some (t, ok) ∧
      Grown z n base s held c t ok := by
  have hconf := h.inv.config
  obtain ⟨hpos, hle⟩ := order_size hc
  rw [← hconf] at hpos hle hon
  rcases h.inv.takePages hpos hle with hnone |
    ⟨p, page, hrun, hz, hn, hdis, hinv, href, -⟩
  · refine ⟨s, false, ?_, fun _ => h, nofun, subset_rfl, fun _ _ => rfl,
      fun _ _ => rfl⟩
    rw [← Nat.one_shiftLeft] at hnone
    simp only [kmemCacheGrow, hnone, Option.bind_some, Option.elim_none]
  · have hfresh : page ∈ base ∪
        Set.Ico page (page + 2 ^ (s.config c).pageOrder) :=
      .inr ⟨Nat.le_refl _, by omega⟩
    have hnew := Inv.newSlab (s := { s with pmm := p }) hc hinv hdis
      ⟨hz, hn⟩ (fun _ => rfl)
      (fun hoff => absurd (hon.symm.trans hoff) Bool.false_ne_true)
      (hinv.fresh_page hfresh)
    have hctl : (install { s with pmm := p } c (page2kva page) page).controls
        = s.controls := by
      rw [install_controls _ hc]
      have hnone : {b | b = page2kva page ∧ (s.config c).offSlab = true}
          = (∅ : Set Nat) := by
        rw [hon]
        simp
      exact (congrArg (· ∪ s.controls) hnone).trans (Set.empty_union _)
    refine ⟨install { s with pmm := p } c (page2kva page) page, true, ?_,
      nofun, fun _ => ⟨?_, ?_, install_front _ hc _ _ h.busy⟩,
      hctl.symm.subset, ?_, fun q _ => (install_ref _ _ _ _ q).trans (href q)⟩
    · rw [← Nat.one_shiftLeft] at hrun
      simp only [kmemCacheGrow, hrun, Option.bind_some, Option.elim_some,
        kmemCacheSlabmgmt, hon, Bool.false_eq_true, if_false, Option.map_some]
      rfl
    · rw [hctl]
      exact hnew
    · rw [hctl]
      exact h.apart
    · exact fun y hy => hinv.install_place (hinv.fresh_page hfresh) hy

/-- `kmem_cache_grow` of an off-slab cache, over the call that allocates
the control area. -/
theorem Own.grow_offSlab (hc : c < slabCacheNum)
    (hoff : (bootConfig c).offSlab = true)
    {alloc : Kmem → Nat → Option (Kmem × Option Nat)}
    (halloc : ∀ base' s', Own z n base' s' held →
      ∃ t r, alloc s' (bootConfig c).slabCachep = some (t, r) ∧
        Given z n base' s' held (bootConfig c).slabCachep t r) :
    ∃ t ok, kmemCacheGrow alloc s c = some (t, ok) ∧
      Grown z n base s held c t ok := by
  have hconf := h.inv.config
  obtain ⟨hpos, hle⟩ := order_size hc
  rw [← hconf] at hpos hle hoff halloc
  rcases h.inv.takePages hpos hle with hnone |
    ⟨p, page, hrun, hz, hn, hdis, hinv, href, -⟩
  · refine ⟨s, false, ?_, fun _ => h, nofun, subset_rfl, fun _ _ => rfl,
      fun _ _ => rfl⟩
    rw [← Nat.one_shiftLeft] at hnone
    simp only [kmemCacheGrow, hnone, Option.bind_some, Option.elim_none]
  · obtain ⟨u, r, hcall, hgiven⟩ := halloc _ { s with pmm := p }
      ⟨hinv, h.apart, h.busy⟩
    rw [← Nat.one_shiftLeft] at hrun
    cases r with
    | none =>
      -- no control area: the pages go back
      have hown := hgiven.failed rfl
      obtain ⟨q, hfree, hback, hrefs⟩ := hown.inv.givePages hdis hpos hle
      refine ⟨{ u with pmm := q }, false, ?_, fun _ =>
        ⟨hback, hown.apart, hown.busy⟩, nofun, hgiven.controls,
        hgiven.frame, fun x hx =>
          (hrefs x hx).trans ((hgiven.ref x (.inl hx)).trans (href x))⟩
      rw [← Nat.one_shiftLeft] at hfree
      simp only [kmemCacheGrow, hrun, Option.bind_some, Option.elim_some,
        kmemCacheSlabmgmt, hoff, if_true, hcall, Option.map_some,
        Option.elim_none, hfree]
    | some a =>
      obtain ⟨hown, hout, hcache⟩ := hgiven.taken a rfl
      have hconf' : u.config = s.config := hown.inv.config.trans hconf.symm
      have hu := hown.inv
      have hlive : a ∈ insert a held ∪ u.controls :=
        .inl (Set.mem_insert a held)
      have hnctl : a ∉ u.controls :=
        fun hin => Set.disjoint_left.1 hown.apart (Set.mem_insert a held) hin
      have hoff' : (u.config c).offSlab = true := by
        rw [hconf']
        exact hoff
      rw [← hconf'] at hu hdis hcache hn
      have hnew := Inv.newSlab hc hu hdis ⟨hz, hn⟩
        (fun hon => absurd (hon.symm.trans hoff') Bool.false_ne_true)
        (fun _ => ⟨hlive, hcache⟩) (hown.inv.fresh_object hlive hnctl)
      have hctl : (u.install c a page).controls = insert a u.controls := by
        rw [install_controls _ hc]
        ext b
        simp [hoff']
      refine ⟨u.install c a page, true, ?_, nofun,
        fun _ => ⟨?_, ?_, install_front _ hc _ _ hown.busy⟩, ?_, ?_,
        fun x hx => (install_ref _ _ _ _ x).trans
          ((hgiven.ref x (.inl hx)).trans (href x))⟩
      · simp only [kmemCacheGrow, hrun, Option.bind_some, Option.elim_some,
          kmemCacheSlabmgmt, hoff, if_true, hcall, Option.map_some]
        rw [← hconf']
        rfl
      · rw [hctl, Set.union_insert, ← Set.insert_union]
        exact hnew
      · rw [hctl, Set.disjoint_insert_right]
        exact ⟨hout, hown.apart.mono_left (Set.subset_insert a held)⟩
      · rw [hctl]
        exact hgiven.controls.trans (Set.subset_insert a _)
      · intro y hy
        have hy' : y ∈ insert a held ∪ u.controls :=
          hy.imp (fun h => .inr h) fun h => hgiven.controls h
        rw [hu.install_place (hown.inv.fresh_object hlive hnctl) hy']
        exact hgiven.frame y hy

end

theorem alloc_cons {l : List Nat} (fuel : Nat)
    (h : s.slabsNotfull c = a :: l) : kmemCacheAlloc (fuel + 1) s c
      = some ((s.kmemCacheAllocOne c a).1,
        some (s.kmemCacheAllocOne c a).2) := by
  rw [kmemCacheAlloc, h]

section
include h

/-- `kmem_cache_alloc`, given what `kmem_cache_grow` does. -/
theorem Own.alloc_of_grow {fuel : Nat} (hc : c < slabCacheNum)
    (hgrow : ∃ t ok, kmemCacheGrow (kmemCacheAlloc (fuel + 1)) s c
      = some (t, ok) ∧ Grown z n base s held c t ok) :
    ∃ t r, kmemCacheAlloc (fuel + 2) s c = some (t, r) ∧
      Given z n base s held c t r := by
  cases hlist : s.slabsNotfull c with
  | cons a l =>
    have ha : a ∈ s.slabsNotfull c := by simp [hlist]
    exact ⟨_, _, alloc_cons _ hlist,
      h.inv.takeFirst h.apart hc ha fun c' b hb _ => h.busy c' b hb⟩
  | nil =>
    obtain ⟨u, ok, hrun, hgrown⟩ := hgrow
    rw [kmemCacheAlloc, hlist]
    simp only [hrun]
    cases ok with
    | false =>
      exact ⟨u, none, rfl, fun _ => hgrown.failed rfl, nofun,
        hgrown.controls, hgrown.frame, hgrown.ref⟩
    | true =>
      -- `try_again`, with the new slab in front
      obtain ⟨hinv, hapart, a, l, hfront, hbusy⟩ := hgrown.added rfl
      have ha : a ∈ u.slabsNotfull c := by simp [hfront]
      have hgiven := hinv.takeFirst hapart hc ha hbusy
      refine ⟨_, _, alloc_cons _ hfront, hgiven.failed, hgiven.taken,
        hgrown.controls.trans hgiven.controls, fun y hy => ?_,
        fun q hq => (hgiven.ref q hq).trans (hgrown.ref q hq)⟩
      exact (hgiven.frame y (hy.imp_right fun h => hgrown.controls h)).trans
        (hgrown.frame y hy)

theorem Own.alloc_onSlab (fuel : Nat)
    (hc : c < slabCacheNum) (hon : (bootConfig c).offSlab = false) :
    ∃ t r, kmemCacheAlloc (fuel + 2) s c = some (t, r) ∧
      Given z n base s held c t r :=
  h.alloc_of_grow hc (h.grow_onSlab hc hon _)

/-- `kmem_cache_alloc` returns, for every cache. -/
theorem Own.alloc (hc : c < slabCacheNum) :
    ∃ t r, kmemCacheAlloc depth s c = some (t, r) ∧
      Given z n base s held c t r := by
  cases hoff : (bootConfig c).offSlab with
  | false => exact h.alloc_onSlab 1 hc hoff
  | true =>
    obtain ⟨hc', hon, -⟩ := (bootConfig_ok c hc).offSlab hoff
    refine h.alloc_of_grow hc (h.grow_offSlab hc hoff fun base' s' h' => ?_)
    exact h'.alloc_onSlab 0 hc' hon

end

-- ===== freeing

section
include h

/-- The slab an object of `held` belongs to. -/
theorem Own.locate (hx : x ∈ held) :
    ∃ a i, s.IsSlab (s.pageCache (pageAt x)) a ∧
      i < (s.config (s.pageCache (pageAt x))).num ∧
      x = s.objAddr (s.pageCache (pageAt x)) a i := by
  obtain ⟨c, a, i, hs, hi, rfl⟩ := h.inv.live_obj x (.inl hx)
  rw [(h.inv.objAddr_page hs hi).2.2.1]
  exact ⟨a, i, hs, hi, rfl⟩

/-- The slab's last object goes back, and its pages; its control area is
then the caller's, if it was an object. -/
theorem Own.drop (hs : s.IsSlab c a)
    (hi : i < (s.config c).num) (hx : s.objAddr c a i ∈ held)
    (hone : (s.slab a).inuse = 1) :
    ∃ page p, kva2page s.pmm.npage ((s.slab a).sMem - (s.slab a).offset)
        = some page ∧
      (∀ j < 1 <<< (s.config c).pageOrder,
        (s.pmm.page (page + j)).slab = true) ∧
      (s.dismantle c a i page).pmm.freePages page
        (1 <<< (s.config c).pageOrder) = some p ∧
      Own z n base { s.dismantle c a i page with pmm := p }
        ({b | b = a ∧ (s.config c).offSlab = true} ∪
          held \ {s.objAddr c a i}) := by
  obtain ⟨page, hp⟩ := h.inv.placed c a hs
  have hsize := order_size hs.1
  rw [← h.inv.config] at hsize
  have hnctl : s.objAddr c a i ∉ s.controls := Set.disjoint_left.1 h.apart hx
  have hdrop := h.inv.dropSlab hs hp hi (.inl hx) hnctl hone
  have hdis : Disjoint base
      (Set.Ico page (page + 2 ^ (s.config c).pageOrder)) := by
    rw [Set.disjoint_left]
    exact fun q hq hin => (hp.pages q hin.1 hin.2).2.2.2.2 hq
  obtain ⟨p, hfree, hinv, -⟩ := hdrop.givePages hdis hsize.1 hsize.2
  rw [← Nat.one_shiftLeft] at hfree
  have hkva : kva2page s.pmm.npage ((s.slab a).sMem - (s.slab a).offset)
      = some page := by
    have hinside := hp.inside
    have hbound := h.inv.good.bound
    rw [hp.sMem_eq, hp.offset_eq]
    unfold kva2page page2kva pgsize
    rw [if_pos (by omega)]
    congr 1
    omega
  refine ⟨page, p, hkva, ?_, hfree, ?_⟩
  · intro j hj
    exact (hp.pages (page + j) (by omega) (by omega)).1
  have hslabs := h.inv.dismantle_isSlab c a i page
  -- the control areas are the old ones without this slab's
  have hctl : ({ s.dismantle c a i page with pmm := p } : Kmem).controls
      = s.controls \ {a} := by
    ext b
    constructor
    · rintro ⟨c', hb, hoff⟩
      obtain ⟨hb, hne⟩ := (hslabs c' b).1 hb
      exact ⟨⟨c', hb, hoff⟩, hne⟩
    · rintro ⟨⟨c', hb, hoff⟩, hne⟩
      exact ⟨c', (hslabs c' b).2 ⟨hb, hne⟩, hoff⟩
  have hmine : a ∈ s.controls ↔ (s.config c).offSlab = true := by
    constructor
    · rintro ⟨c', hb, hoff⟩
      rw [← h.inv.cache_unique hb hs]
      exact hoff
    · exact fun hoff => ⟨c, hs, hoff⟩
  constructor
  case inv =>
    rw [hctl]
    convert hinv using 1
    ext b
    constructor
    · rintro ((⟨rfl, hoff⟩ | ⟨hb, hne⟩) | ⟨hb, -⟩)
      · have hb := hmine.2 hoff
        exact ⟨.inr hb, fun heq => hnctl (heq ▸ hb)⟩
      · exact ⟨.inl hb, hne⟩
      · exact ⟨.inr hb, fun heq => hnctl (heq ▸ hb)⟩
    · rintro ⟨hb | hb, hne⟩
      · exact .inl (.inr ⟨hb, hne⟩)
      · by_cases hba : b = a
        · subst hba
          exact .inl (.inl ⟨rfl, hmine.1 hb⟩)
        · exact .inr ⟨hb, hba⟩
  case apart =>
    rw [hctl, Set.disjoint_left]
    rintro b (⟨rfl, -⟩ | ⟨hb, -⟩) ⟨hb', hne⟩
    · exact hne rfl
    · exact Set.disjoint_left.1 h.apart hb hb'
  case busy =>
    intro c' b hb
    obtain ⟨hb, hne⟩ := (hslabs c' b).1 hb
    have hsame : ({ s.dismantle c a i page with pmm := p } : Kmem).slab b
        = s.slab b := dismantle_slab_other s c i page hne
    rw [hsame]
    exact h.busy c' b hb

/-- The object goes back to a slab that stays in use. -/
theorem Own.giveBack (hs : s.IsSlab c a)
    (hi : i < (s.config c).num) (hx : s.objAddr c a i ∈ held)
    (hmore : (s.slab a).inuse ≠ 1) :
    Own z n base (s.returned c a i) (held \ {s.objAddr c a i}) := by
  have hnctl : s.objAddr c a i ∉ s.controls := Set.disjoint_left.1 h.apart hx
  have hpos := h.busy c a hs
  have hinv := h.inv.freeOne hs hi (.inl hx) hnctl
  obtain ⟨hslabs, -⟩ := h.inv.returned_lists hs hpos i
  have hconf : (s.returned c a i).config = s.config := by
    unfold returned
    split <;> rfl
  have hctl := controls_congr hslabs hconf
  constructor
  case inv =>
    rw [hctl]
    convert hinv using 1
    rw [Set.union_sdiff_distrib, Set.sdiff_singleton_eq_self hnctl]
  case apart =>
    rw [hctl]
    exact h.apart.mono_left Set.sdiff_subset
  case busy =>
    intro c' b hb
    rw [returned_slab]
    by_cases hba : b = a
    · subst hba
      rw [putBack_slab_self]
      show 0 < (s.slab b).inuse - 1
      omega
    · rw [putBack_slab_other s i hba]
      exact h.busy c' b ((hslabs c' b).1 hb)

end

/-- `kmem_slab_destroy` when its assertions hold. -/
theorem destroy_eq {free : Kmem → Nat → Nat → Option Kmem} {p : Buddy}
    (hkva : kva2page t.pmm.npage ((t.slab a).sMem - (t.slab a).offset)
      = some page)
    (hflags : ∀ j < 1 <<< (t.config c).pageOrder,
      (t.pmm.page (page + j)).slab = true)
    (hrun : (t.pmm.setPages page (1 <<< (t.config c).pageOrder)
      fun p => { p with slab := false }).freePages page
        (1 <<< (t.config c).pageOrder) = some p) :
    kmemSlabDestroy free t c a =
      if (t.config c).offSlab then
        free { t with pmm := p } (t.config c).slabCachep a
      else some { t with pmm := p } := by
  simp only [kmemSlabDestroy, hkva, Option.bind_some, if_pos hflags, hrun]

theorem putBack_place (s : Kmem) (a i : Nat) :
    (s.putBack a i).place = s.place := by
  ext1 x
  refine place_congr rfl rfl ?_
  by_cases hba : s.pageSlab (pageAt x) = a
  · rw [hba, putBack_slab_self]
  · rw [putBack_slab_other s i hba]

/-- `kmem_cache_free`: the outcome. -/
def Freed (z n : Nat) (base : Set Nat) (s : Kmem) (held : Set Nat)
    (t : Kmem) : Prop :=
  Own z n base t held ∧ t.place = s.place

section
include h

/-- `kmem_cache_free_one`, over the call that frees the control area. -/
theorem Own.freeOne_spec (hs : s.IsSlab c a)
    (hi : i < (s.config c).num) (hx : s.objAddr c a i ∈ held)
    {free : Kmem → Nat → Nat → Option Kmem}
    (hfree : (s.config c).offSlab = true → ∀ s' objs,
      Own z n base s' objs → a ∈ objs →
      s'.pageCache (pageAt a) = (s.config c).slabCachep →
      ∃ t, free s' (s.config c).slabCachep a = some t ∧
        Freed z n base s' (objs \ {a}) t) :
    ∃ t, kmemCacheFreeOne free s c a (s.objAddr c a i) = some t ∧
      Freed z n base s (held \ {s.objAddr c a i}) t := by
  have hpos := h.busy c a hs
  by_cases hone : (s.slab a).inuse = 1
  · obtain ⟨page, p, hkva, hflags, hrun, hown⟩ := h.drop hs hi hx hone
    have hzero : (s.slab a).inuse - 1 = 0 := by omega
    have hcall : kmemCacheFreeOne free s c a (s.objAddr c a i)
        = if (s.config c).offSlab then
            free { s.dismantle c a i page with pmm := p }
              (s.config c).slabCachep a
          else some { s.dismantle c a i page with pmm := p } := by
      have hstate : (s.setSlab a
          { s.slab a with
            bufctl := Function.update (s.slab a).bufctl i (s.slab a).free
            free := i
            inuse := 0 }) = s.putBack a i := by
        rw [putBack, hzero]
      have hkva' : kva2page s.pmm.npage
          (((s.putBack a i).slab a).sMem - ((s.putBack a i).slab a).offset)
          = some page := by
        rw [putBack_slab_self]
        exact hkva
      simp only [kmemCacheFreeOne, objnr_eq (h.inv.config_ok hs), hzero,
        if_true, hstate]
      exact destroy_eq (t := (s.putBack a i).listDel a) hkva' hflags hrun
    rw [hcall]
    cases hoff : (s.config c).offSlab with
    | false =>
      refine ⟨_, rfl, ?_, putBack_place s a i⟩
      rw [hoff] at hown
      convert hown using 1
      simp
    | true =>
      rw [hoff] at hown
      have hctl : a ∈ s.controls := ⟨c, hs, hoff⟩
      have hout : a ∉ held := fun hin => Set.disjoint_left.1 h.apart hin hctl
      obtain ⟨t, hcall, hown', hcache⟩ := hfree hoff _ _ hown
        (.inl ⟨rfl, rfl⟩) (h.inv.control c a hs hoff).2
      refine ⟨t, hcall, ?_, hcache.trans (putBack_place s a i)⟩
      convert hown' using 1
      ext b
      constructor
      · rintro hb
        exact ⟨.inr hb, fun hba => hout (hba ▸ hb.1)⟩
      · rintro ⟨⟨rfl, -⟩ | hb, hne⟩
        · exact absurd rfl hne
        · exact hb
  · refine ⟨s.returned c a i, ?_, h.giveBack hs hi hx hone, ?_⟩
    · have hmore : ¬(s.slab a).inuse - 1 = 0 := by omega
      simp only [kmemCacheFreeOne, objnr_eq (h.inv.config_ok hs), if_neg hmore]
      unfold returned
      split <;> rfl
    · unfold returned
      split
      · exact putBack_place s a i
      · exact putBack_place s a i

/-- `kmem_cache_free`, over the call that frees the control area. -/
theorem Own.free_step {fuel : Nat} (hx : x ∈ held)
    (hfree : ∀ a, (s.config (s.pageCache (pageAt x))).offSlab = true →
      ∀ s' objs, Own z n base s' objs → a ∈ objs →
      s'.pageCache (pageAt a)
        = (s.config (s.pageCache (pageAt x))).slabCachep →
      ∃ t, kmemCacheFree fuel s'
          (s.config (s.pageCache (pageAt x))).slabCachep a = some t ∧
        Freed z n base s' (objs \ {a}) t) :
    ∃ t, kmemCacheFree (fuel + 1) s (s.pageCache (pageAt x)) x = some t ∧
      Freed z n base s (held \ {x}) t := by
  obtain ⟨a, i, hs, hi, heq⟩ := h.locate hx
  obtain ⟨hkva, hslab, -, hlink⟩ := h.inv.objAddr_page hs hi
  rw [← heq] at hkva hslab hlink
  have hspec := h.freeOne_spec hs hi (heq ▸ hx) (hfree a)
  rw [← heq] at hspec
  rw [kmemCacheFree, hkva, Option.bind_some, if_pos hslab, hlink]
  exact hspec

/-- `kmem_cache_free` returns, for every object that is held. -/
theorem Own.free (hx : x ∈ held) :
    ∃ t, kmemCacheFree depth s (s.pageCache (pageAt x)) x = some t ∧
      Freed z n base s (held \ {x}) t := by
  refine h.free_step hx fun a hoff s' objs h' ha hcache => ?_
  obtain ⟨b, -, hs, -⟩ := h.locate hx
  obtain ⟨-, hon, -⟩ := (h.inv.config_ok hs).offSlab hoff
  have hconf : s'.config = s.config := h'.inv.config.trans h.inv.config.symm
  rw [← hcache] at hon ⊢
  rw [← hconf] at hon
  exact h'.free_step ha fun _ hoff =>
    absurd (hon.symm.trans hoff) Bool.false_ne_true

end

-- ===== the calls

/-- The cache of an object, by the page its address lies in. -/
def cacheOf (s : Kmem) (x : Nat) : Nat := s.pageCache (pageAt x)

theorem sizeOrder_spec (hsize : size ≤ 131072) :
    ∃ order, sizeOrder size = some order ∧ minSizeOrder ≤ order ∧
      order < minSizeOrder + slabCacheNum ∧ size ≤ 2 ^ order := by
  have hsome : (sizeOrder size).isSome := by
    unfold sizeOrder
    rw [List.find?_isSome]
    refine ⟨17, by decide, ?_⟩
    rw [decide_eq_true_eq]
    exact hsize
  obtain ⟨order, horder⟩ := Option.isSome_iff_exists.1 hsome
  have hmem := List.mem_of_find?_eq_some horder
  have hle := List.find?_some horder
  rw [List.mem_range'_1] at hmem
  rw [decide_eq_true_eq, Nat.one_shiftLeft] at hle
  exact ⟨order, horder, hmem.1, hmem.2, hle⟩

theorem bootConfig_objsize : ∀ c < slabCacheNum,
    (bootConfig c).objsize = 2 ^ (minSizeOrder + c) := by
  decide

section
include h

/-- `kmalloc` returns: an object of a cache that is large enough, or a null
pointer. -/
theorem Own.kmalloc_given (hpos : 1 ≤ size) (hle : size ≤ 131072) :
    ∃ c t r, s.kmalloc size = some (t, r) ∧ Given z n base s held c t r ∧
      size ≤ (bootConfig c).objsize := by
  obtain ⟨order, horder, hlo, hhi, hfit⟩ := sizeOrder_spec hle
  have hc : order - minSizeOrder < slabCacheNum := by omega
  obtain ⟨t, r, hrun, hgiven⟩ := h.alloc hc
  refine ⟨order - minSizeOrder, t, r, ?_, hgiven, ?_⟩
  · rw [kmalloc, if_neg (by omega), horder, Option.bind_some, hrun]
  · rw [bootConfig_objsize _ hc, Nat.add_sub_cancel' hlo]
    exact hfit

theorem Own.kmalloc_spec (hpos : 1 ≤ size) (hle : size ≤ 131072) :
    ∃ t r, s.kmalloc size = some (t, r) ∧ (r = none → Own z n base t held) ∧
      (∀ x, r = some x → Own z n base t (insert x held) ∧ x ∉ held ∧
        size ≤ (t.config (t.cacheOf x)).objsize) ∧
      ∀ y ∈ held, t.cacheOf y = s.cacheOf y := by
  obtain ⟨c, t, r, hrun, hgiven, hfit⟩ := h.kmalloc_given hpos hle
  refine ⟨t, r, hrun, hgiven.failed, ?_, fun y hy => ?_⟩
  · intro x hx
    obtain ⟨hown, hout, hcache⟩ := hgiven.taken x hx
    refine ⟨hown, hout, ?_⟩
    rw [cacheOf, hcache, hown.inv.config]
    exact hfit
  · exact congrArg Prod.fst (hgiven.frame y (.inl hy))

/-- `kfree` takes back an object that is held. -/
theorem Own.kfree_spec (hx : x ∈ held) :
    ∃ t, s.kfree x = some t ∧ Own z n base t (held \ {x}) ∧
      t.place = s.place := by
  obtain ⟨a, i, hs, hi, heq⟩ := h.locate hx
  have hkva := (h.inv.objAddr_page hs hi).1
  rw [← heq] at hkva
  obtain ⟨t, hrun, hown, hcache⟩ := h.free hx
  refine ⟨t, ?_, hown, hcache⟩
  rw [kfree, hkva]
  exact hrun

end

-- ===== the pages in use

/-- Every slab has an object in use. -/
theorem Own.exists_live (h : Own z n base s held) (hs : s.IsSlab c a) :
    ∃ i < (s.config c).num, s.objAddr c a i ∈ held ∪ s.controls := by
  have hpos := h.busy c a hs
  rw [h.inv.inuse_eq hs] at hpos
  exact Set.nonempty_of_ncard_ne_zero hpos.ne'

/-- A slab stays where it is as long as its objects do. -/
theorem Inv.slab_of_place (h : Inv z n base s live)
    {m : Nat} (hx : x ∈ live) (hplace : s.place x = (c, a, m)) :
    s.IsSlab c a ∧ (s.slab a).sMem = m := by
  obtain ⟨c', a', i, hs, hi, rfl⟩ := h.live_obj x hx
  rw [h.place_obj hs hi] at hplace
  cases hplace
  exact ⟨hs, rfl⟩

section
include h

/-- While the objects stay where they are, no page of a slab is freed. -/
theorem Own.freeSet_subset (h' : Inv z n base t live)
    (hlive : held ∪ s.controls ⊆ live)
    (hframe : ∀ y ∈ held ∪ s.controls, t.place y = s.place y) :
    t.pmm.freeSet ⊆ s.pmm.freeSet := by
  intro q hq
  have hin := h'.good.freeSet_subset hq
  by_contra hused
  by_cases hbase : q ∈ base
  · exact (h'.others hbase).2 hq
  obtain ⟨c, a, page, hs, hp, hle, hlt⟩ :=
    h.inv.owned q hin.1 hin.2 hused hbase
  obtain ⟨i, hi, hx⟩ := h.exists_live hs
  have hplace := (hframe _ hx).trans (h.inv.place_obj hs hi)
  obtain ⟨hs', hmem⟩ := h'.slab_of_place (hlive hx) hplace
  -- the slab begins at the same page
  obtain ⟨page', hp'⟩ := h'.placed c a hs'
  have hconf : t.config = s.config := h'.config.trans h.inv.config.symm
  have hsame : page' = page := by
    have heq := (hp'.sMem_eq.symm.trans hmem).trans hp.sMem_eq
    rw [hconf] at heq
    exact page2kva_inj (Nat.add_right_cancel heq)
  rw [← hsame] at hle hlt
  rw [← hconf] at hlt
  exact (hp'.pages q hle hlt).2.2.2.1 hq

/-- A slab of an off-slab cache has an object the callers hold: a control
area is in another cache. -/
theorem Own.exists_held (hs : s.IsSlab c a)
    (hoff : (s.config c).offSlab = true) :
    ∃ i < (s.config c).num, s.objAddr c a i ∈ held := by
  obtain ⟨i, hi, hx | ⟨c', hs', hoff'⟩⟩ := h.exists_live hs
  · exact ⟨i, hi, hx⟩
  · have hcache := (h.inv.control c' _ hs' hoff').2
    rw [(h.inv.objAddr_page hs hi).2.2.1] at hcache
    obtain ⟨-, hon, -⟩ := (h.inv.config_ok hs').offSlab hoff'
    rw [← hcache] at hon
    cases hoff.symm.trans hon

theorem Own.controls_subset {base' : Set Nat} (h' : Own z n base' t held)
    (hframe : ∀ y ∈ held, t.place y = s.place y) :
    s.controls ⊆ t.controls := by
  rintro a ⟨c, hs, hoff⟩
  obtain ⟨i, hi, hx⟩ := h.exists_held hs hoff
  have hplace := (hframe _ hx).trans (h.inv.place_obj hs hi)
  refine ⟨c, (h'.inv.slab_of_place (.inl hx) hplace).1, ?_⟩
  rw [h'.inv.config, ← h.inv.config]
  exact hoff

/-- When the same objects are held again, where they were, the pages are
back. -/
theorem Own.restored (h' : Own z n base t held)
    (hframe : ∀ y ∈ held ∪ s.controls, t.place y = s.place y) :
    t.controls = s.controls ∧ t.pmm.freeSet = s.pmm.freeSet ∧
      t.pmm.nrFreePages = s.pmm.nrFreePages := by
  have hctl : t.controls = s.controls :=
    (h'.controls_subset h fun y hy => (hframe y (.inl hy)).symm).antisymm
      (h.controls_subset h' fun y hy => hframe y (.inl hy))
  have hfree : t.pmm.freeSet = s.pmm.freeSet := by
    refine (h.freeSet_subset h'.inv (by rw [hctl]) hframe).antisymm ?_
    refine h'.freeSet_subset h.inv (by rw [hctl]) fun y hy => ?_
    rw [hctl] at hy
    exact (hframe y hy).symm
  refine ⟨hctl, hfree, ?_⟩
  rw [h'.inv.good.count, h.inv.good.count,
    h'.inv.good.blocks_eq h.inv.good hfree]

/-- An object is in use: it is not on the chain of its slab. -/
def Live (s : Kmem) (x : Nat) : Prop :=
  ∃ c a i l, s.IsSlab c a ∧ i < (s.config c).num ∧ x = s.objAddr c a i ∧
    Chain (s.slab a).bufctl bufctlEnd (s.slab a).free l ∧ i ∉ l

theorem Own.live_iff : s.Live x ↔ x ∈ held ∪ s.controls := by
  constructor
  · rintro ⟨c, a, i, l, hs, hi, rfl, hl, hnot⟩
    obtain ⟨l', hl', -, hmem, -⟩ := h.inv.chained c a hs
    obtain rfl := hl.unique hl'
    by_contra hout
    exact hnot ((hmem i).2 ⟨hi, hout⟩)
  · intro hx
    obtain ⟨c, a, i, hs, hi, rfl⟩ := h.inv.live_obj x hx
    obtain ⟨l, hl, -, hmem, -⟩ := h.inv.chained c a hs
    exact ⟨c, a, i, l, hs, hi, rfl, hl, fun hin => ((hmem i).1 hin).2 hx⟩

/-- `kmem_cache_alloc` only takes pages. -/
theorem Given.freeSet_subset {r : Option Nat}
    (hg : Given z n base s held c t r) : t.pmm.freeSet ⊆ s.pmm.freeSet := by
  cases r with
  | none =>
    exact h.freeSet_subset (hg.failed rfl).inv
      (Set.union_subset_union_right held hg.controls) hg.frame
  | some x =>
    refine h.freeSet_subset (hg.taken x rfl).1.inv ?_ hg.frame
    exact Set.union_subset_union (Set.subset_insert x held) hg.controls

end

-- ===== histories

/-- The states a history of calls leads to, with the objects held then and
the sizes that were asked for. Only what is held is freed. -/
inductive History (s₀ : Kmem) : Kmem → Set (Nat × Nat) → Prop
  | start : History s₀ s₀ ∅
  | kmalloc {s t : Kmem} {held : Set (Nat × Nat)} {size : Nat}
      {r : Option Nat} : History s₀ s held → 1 ≤ size → size ≤ 131072 →
      s.kmalloc size = some (t, r) →
      History s₀ t (held ∪ {p | r = some p.1 ∧ p.2 = size})
  | kfree {s t : Kmem} {held : Set (Nat × Nat)} {x size : Nat} :
      History s₀ s held → (x, size) ∈ held → s.kfree x = some t →
      History s₀ t (held \ {(x, size)})

/-- The addresses of what is held. -/
def addrs (held : Set (Nat × Nat)) : Set Nat := {x | ∃ size, (x, size) ∈ held}

theorem addrs_empty : addrs ∅ = ∅ := by
  ext x
  simp [addrs]

/-- `Own`, with the sizes. -/
structure Sized (z n : Nat) (base : Set Nat) (s : Kmem)
    (held : Set (Nat × Nat)) : Prop where
  own : Own z n base s (addrs held)
  once : ∀ p ∈ held, ∀ q ∈ held, p.1 = q.1 → p = q
  size : ∀ p ∈ held, p.2 ≤ (s.config (s.cacheOf p.1)).objsize

/-- Sizes are kept with the objects' caches. -/
theorem Sized.size_of_frame {held : Set (Nat × Nat)}
    (h : Sized z n base s held) (hconf : t.config = bootConfig)
    (hframe : ∀ y ∈ addrs held, t.cacheOf y = s.cacheOf y) {p : Nat × Nat}
    (hp : p ∈ held) : p.2 ≤ (t.config (t.cacheOf p.1)).objsize := by
  rw [hconf, hframe p.1 ⟨p.2, hp⟩, ← h.own.inv.config]
  exact h.size p hp

theorem History.sized {s₀ : Kmem} {held : Set (Nat × Nat)}
    (h₀ : Own z n base s₀ ∅) (h : History s₀ s held) :
    Sized z n base s held := by
  induction h with
  | start =>
    refine ⟨?_, nofun, nofun⟩
    rw [addrs_empty]
    exact h₀
  | @kmalloc s t held size r _ hpos hle hrun ih =>
    obtain ⟨t', r', hrun', hnone, hsome, hframe⟩ :=
      ih.own.kmalloc_spec hpos hle
    obtain ⟨rfl, rfl⟩ : t = t' ∧ r = r' := by simpa [hrun] using hrun'
    cases r with
    | none =>
      have hnew : held ∪ {p | none = some p.1 ∧ p.2 = size} = held := by simp
      rw [hnew]
      have hown := hnone rfl
      exact ⟨hown, ih.once, fun p hp =>
        ih.size_of_frame hown.inv.config hframe hp⟩
    | some x =>
      obtain ⟨hown, hout, hfit⟩ := hsome x rfl
      have hfresh : ∀ p ∈ held, p.1 ≠ x := by
        rintro p hp rfl
        exact hout ⟨p.2, hp⟩
      refine ⟨?_, ?_, ?_⟩
      · have haddrs : addrs (held ∪ {p | some x = some p.1 ∧ p.2 = size})
            = insert x (addrs held) := by
          ext y
          constructor
          · rintro ⟨m, hm | ⟨hy, -⟩⟩
            · exact .inr ⟨m, hm⟩
            · exact .inl (Option.some.inj hy).symm
          · rintro (rfl | ⟨m, hm⟩)
            · exact ⟨size, .inr ⟨rfl, rfl⟩⟩
            · exact ⟨m, .inl hm⟩
        rw [haddrs]
        exact hown
      · rintro p (hp | ⟨hp, hp'⟩) q (hq | ⟨hq, hq'⟩) heq
        · exact ih.once p hp q hq heq
        · exact absurd (heq.trans (Option.some.inj hq).symm) (hfresh p hp)
        · exact absurd (heq.symm.trans (Option.some.inj hp).symm) (hfresh q hq)
        · exact Prod.ext heq (hp'.trans hq'.symm)
      · rintro p (hp | ⟨hp, hp'⟩)
        · exact ih.size_of_frame hown.inv.config hframe hp
        · rw [hp', ← Option.some.inj hp]
          exact hfit
  | @kfree s t held x size _ hx hrun ih =>
    obtain ⟨t', hrun', hown, hcache⟩ := ih.own.kfree_spec ⟨size, hx⟩
    obtain rfl : t = t' := by simpa [hrun] using hrun'
    refine ⟨?_, fun p hp q hq => ih.once p hp.1 q hq.1, fun p hp => ?_⟩
    · have haddrs : addrs (held \ {(x, size)}) = addrs held \ {x} := by
        ext y
        constructor
        · rintro ⟨m, hm, hne⟩
          refine ⟨⟨m, hm⟩, ?_⟩
          rintro rfl
          exact hne (ih.once _ hm _ hx rfl)
        · rintro ⟨⟨m, hm⟩, hne⟩
          exact ⟨m, hm, fun heq => hne (Prod.mk.inj heq).1⟩
      rw [haddrs]
      exact hown
    · refine ih.size_of_frame hown.inv.config (fun y _ => ?_) hp.1
      exact congrArg Prod.fst (congrFun hcache y)

-- ===== what always holds

/-- The bytes of an object, by its cache. -/
def bytes (s : Kmem) (x : Nat) : Set Nat :=
  Set.Ico x (x + (s.config (s.cacheOf x)).objsize)

/-- The bytes of a slab's `slab_t` and `bufctl` array. -/
def controlArea (s : Kmem) (c a : Nat) : Set Nat :=
  Set.Ico a (a + (sizeofSlab + (s.config c).num * sizeofBufctl))

/-- The pages of a slab, as `kmem_slab_destroy` finds them. -/
def slabPages (s : Kmem) (c a : Nat) : Set Nat :=
  Set.Ico (pageAt ((s.slab a).sMem - (s.slab a).offset))
    (pageAt ((s.slab a).sMem - (s.slab a).offset)
      + 2 ^ (s.config c).pageOrder)

/-- The objects in use: those held and the off-slab control areas. -/
def inUse (s : Kmem) (held : Set (Nat × Nat)) : Set Nat :=
  addrs held ∪ s.controls

/-- The slab allocator is in order; `held` are the callers' objects and
`base` the pages others had before. -/
structure Sound (z n : Nat) (base : Set Nat) (s : Kmem)
    (held : Set (Nat × Nat)) : Prop where
  size : ∀ p ∈ held, p.2 ≤ (s.config (s.cacheOf p.1)).objsize
  disjoint : ∀ p ∈ held, ∀ q ∈ held, p ≠ q →
    Disjoint (s.bytes p.1) (s.bytes q.1)
  control : ∀ p ∈ held, ∀ c a, s.IsSlab c a →
    Disjoint (s.bytes p.1) (s.controlArea c a)
  pages : ∀ p ∈ held, ∃ c a i, s.IsSlab c a ∧ i < (s.config c).num ∧
    p.1 = s.objAddr c a i ∧ ∀ y ∈ s.bytes p.1,
      (s.pmm.page (pageAt y)).slab = true ∧ s.pageCache (pageAt y) = c ∧
        s.pageSlab (pageAt y) = a
  chain : ∀ c a, s.IsSlab c a → ∃ l,
    Chain (s.slab a).bufctl bufctlEnd (s.slab a).free l ∧ l.Nodup ∧
      ∀ i, i ∈ l ↔ i < (s.config c).num ∧ s.objAddr c a i ∉ s.inUse held
  inuse : ∀ c a, s.IsSlab c a → (s.slab a).inuse =
    {i | i < (s.config c).num ∧ s.objAddr c a i ∈ s.inUse held}.ncard
  lists : ∀ c a, s.IsSlab c a →
    (a ∈ s.slabsFull c ↔ (s.slab a).inuse = (s.config c).num) ∧
    (a ∈ s.slabsNotfull c ↔
      0 < (s.slab a).inuse ∧ (s.slab a).inuse < (s.config c).num)
  nodup : ∀ c, (s.slabsFull c).Nodup ∧ (s.slabsNotfull c).Nodup
  others : base ⊆ Set.Ico z (z + n) \ s.pmm.freeSet
  owned : (Set.Ico z (z + n) \ s.pmm.freeSet) \ base =
    {q | ∃ c a, s.IsSlab c a ∧ q ∈ s.slabPages c a}

theorem Placed.slabPages_eq (h : Placed z n base s c a page) :
    s.slabPages c a = Set.Ico page (page + 2 ^ (s.config c).pageOrder) := by
  rw [slabPages, h.sMem_eq, h.offset_eq, Nat.add_sub_cancel, pageAt_page2kva]

/-- Objects do not meet control areas. -/
theorem Own.disjoint_control (h : Own z n base s held) (hx : x ∈ held)
    (hs : s.IsSlab c a) : Disjoint (s.bytes x) (s.controlArea c a) := by
  obtain ⟨b, i, hb, hi, heq⟩ := h.locate hx
  rw [Set.disjoint_left]
  rintro y ⟨hlo, hhi⟩ ⟨hlo', hhi'⟩
  have hok := h.inv.config_ok hs
  cases hoff : (s.config c).offSlab with
  | false =>
    -- at the start of the slab's own pages, before its objects
    obtain ⟨page, hp⟩ := h.inv.placed _ _ hb
    obtain ⟨page', hp'⟩ := h.inv.placed c a hs
    have hin := hp.obj_inside (h.inv.config_ok hb) hi (y := y)
      (by rw [← heq]; exact hlo) (by rw [← heq]; exact hhi)
    have hcontrol := hok.control hoff
    have hfits := hok.fits
    have hstart := hp'.onSlab hoff
    obtain ⟨hc, rfl⟩ := hp.eq_of_byte hp' (y := y) ⟨by omega, hin.2⟩
      ⟨by omega, by omega⟩
    have h1 := hp.sMem_eq
    have h2 := hp'.sMem_eq
    omega
  | true =>
    -- inside an object that is not held
    obtain ⟨hlive, hcache⟩ := h.inv.control c a hs hoff
    obtain ⟨c', a', j, hs', hj, ha⟩ := h.inv.live_obj a hlive
    have hc' : s.pageCache (pageAt a) = c' := by
      rw [ha]
      exact (h.inv.objAddr_page hs' hj).2.2.1
    obtain ⟨-, -, hfits⟩ := hok.offSlab hoff
    rw [← hcache, hc'] at hfits
    obtain ⟨rfl, rfl, rfl⟩ := h.inv.obj_eq_of_byte hb hs' hi hj (y := y)
      ⟨by rw [← heq]; exact hlo, by rw [← heq]; exact hhi⟩
      ⟨by omega, by omega⟩
    refine Set.disjoint_left.1 h.apart hx ?_
    rw [heq, ← ha]
    exact ⟨c, hs, hoff⟩

/-- Everything of `Sound` is in `Sized`. -/
theorem Sized.sound {held : Set (Nat × Nat)} (h : Sized z n base s held) :
    Sound z n base s held := by
  have hown := h.own
  have hinv := hown.inv
  constructor
  case size => exact h.size
  case disjoint =>
    intro p hp q hq hne
    obtain ⟨a, i, hs, hi, heq⟩ := hown.locate ⟨p.2, hp⟩
    obtain ⟨a', i', hs', hi', heq'⟩ := hown.locate ⟨q.2, hq⟩
    rw [Set.disjoint_left]
    rintro y ⟨hlo, hhi⟩ ⟨hlo', hhi'⟩
    obtain ⟨hc, rfl, rfl⟩ := hinv.obj_eq_of_byte hs hs' hi hi' (y := y)
      ⟨by rw [← heq]; exact hlo, by rw [← heq]; exact hhi⟩
      ⟨by rw [← heq']; exact hlo', by rw [← heq']; exact hhi'⟩
    rw [← hc, ← heq] at heq'
    exact hne (h.once p hp q hq heq'.symm)
  case control =>
    exact fun p hp c a hs => hown.disjoint_control ⟨p.2, hp⟩ hs
  case pages =>
    intro p hp
    obtain ⟨a, i, hs, hi, heq⟩ := hown.locate ⟨p.2, hp⟩
    refine ⟨_, a, i, hs, hi, heq, ?_⟩
    rintro y ⟨hlo, hhi⟩
    exact (hinv.obj_page hs hi (by rw [← heq]; exact hlo)
      (by rw [← heq]; exact hhi)).2
  case chain =>
    intro c a hs
    obtain ⟨l, hchain, hnodup, hmem, -⟩ := hinv.chained c a hs
    exact ⟨l, hchain, hnodup, hmem⟩
  case inuse => exact fun c a hs => hinv.inuse_eq hs
  case lists =>
    intro c a hs
    have hpos := hown.busy c a hs
    rcases hs.2 with hin | hin
    · have hfull := hinv.full c hs.1 a hin
      refine ⟨⟨fun _ => hfull, fun _ => hin⟩, fun hn => ?_, ?_⟩
      · exact absurd hin (hinv.notMem_full hs.1 hn)
      · rintro ⟨-, hlt⟩
        omega
    · have hlt := hinv.notfull c hs.1 a hin
      refine ⟨⟨fun hf => ?_, ?_⟩, fun _ => ⟨hpos, hlt⟩, fun _ => hin⟩
      · exact absurd hf (hinv.notMem_full hs.1 hin)
      · intro heq
        omega
  case nodup => exact fun c => ⟨hinv.nodupFull c, hinv.nodupNotfull c⟩
  case others => exact hinv.others
  case owned =>
    ext q
    constructor
    · rintro ⟨⟨⟨hlo, hhi⟩, hfree⟩, hbase⟩
      obtain ⟨c, a, page, hs, hp, hin⟩ := hinv.owned q hlo hhi hfree hbase
      refine ⟨c, a, hs, ?_⟩
      rw [hp.slabPages_eq]
      exact hin
    · rintro ⟨c, a, hs, hq⟩
      obtain ⟨page, hp⟩ := hinv.placed c a hs
      rw [hp.slabPages_eq] at hq
      obtain ⟨-, -, -, hfree, hbase⟩ := hp.pages q hq.1 hq.2
      have hinside := hp.inside
      exact ⟨⟨⟨Nat.le_trans hinside.1 hq.1, Nat.lt_of_lt_of_le hq.2 hinside.2⟩,
        hfree⟩, hbase⟩

/-- When nothing is held there is no slab: the control areas alone do not
keep one, since they are objects of on-slab caches. -/
theorem Own.no_slab (h : Own z n base s ∅) (c a : Nat) : ¬s.IsSlab c a := by
  intro hs
  obtain ⟨i, -, hx | ⟨c', hs', hoff⟩⟩ := h.exists_live hs
  · exact hx
  · obtain ⟨j, -, hx⟩ := h.exists_held hs' hoff
    exact hx

/-- The free pages are then what they were. -/
theorem Own.freeSet_restored {p : Buddy} (h : Own z n base s ∅)
    (hp : p.Accounted z n base) : s.pmm.freeSet = p.freeSet := by
  have hbase : base = Set.Ico z (z + n) \ s.pmm.freeSet := by
    refine h.inv.others.antisymm fun q ⟨⟨hlo, hhi⟩, hfree⟩ => ?_
    by_contra hb
    obtain ⟨c, a, -, hs, -⟩ := h.inv.owned q hlo hhi hfree hb
    exact h.no_slab c a hs
  rw [← Set.sdiff_sdiff_cancel_left h.inv.good.freeSet_subset, ← hbase,
    hp.rest, Set.sdiff_sdiff_cancel_left hp.good.freeSet_subset]

theorem slabInit_eq (s : Kmem) : s.slabInit = some { s with
      config := bootConfig
      slabsFull := fun _ => []
      slabsNotfull := fun _ => [] } := by
  refine if_pos ?_
  intro i hi
  rw [slabConfig_boot i hi]
  rfl

/-- After `slab_init` nothing is held and there is no slab. -/
theorem own_start {s₀ : Kmem} (hp : s.pmm.Accounted z n base)
    (hinit : s.slabInit = some s₀) : Own z n base s₀ ∅ := by
  obtain rfl := Option.some.inj ((slabInit_eq s).symm.trans hinit)
  have hnone : ∀ c a, ¬IsSlab { s with
      config := bootConfig
      slabsFull := fun _ => []
      slabsNotfull := fun _ => [] } c a := by
    rintro c a ⟨-, ha | ha⟩ <;> cases ha
  refine ⟨?_, Set.empty_disjoint _, fun c a hs => absurd hs (hnone c a)⟩
  constructor
  case good => exact hp.good
  case config => rfl
  case others => exact hp.rest.subset
  case placed => exact fun c a hs => absurd hs (hnone c a)
  case chained => exact fun c a hs => absurd hs (hnone c a)
  case owned =>
    intro q hq hq' hfree hbase
    rw [hp.rest] at hbase
    exact absurd ⟨⟨hq, hq'⟩, hfree⟩ hbase
  case nodupFull => exact fun _ => List.nodup_nil
  case nodupNotfull => exact fun _ => List.nodup_nil
  case full => exact fun _ _ _ ha => absurd ha List.not_mem_nil
  case notfull => exact fun _ _ _ ha => absurd ha List.not_mem_nil
  case live_obj =>
    rintro x (hx | ⟨c, hs, -⟩)
    · exact hx.elim
    · exact absurd hs (hnone c x)
  case control => exact fun c a hs => absurd hs (hnone c a)

/-- The slab allocator over the page allocator, after any history of calls:
no two objects share a byte, none touches a control area, the chains and
the lists are right, every call returns, and when nothing is held the pages
are back. -/
theorem slab_allocator_sound (b : Buddy) (hzone : b.zoneNum = 0)
    (hn : 0 < n) (hbound : z + n ≤ b.npage) {b₀ : Buddy}
    {allocated : Set Nat} (hinit : b.boot.initMemmap z n = some b₀)
    {s s₀ t : Kmem} (hreach : b₀.Reached s.pmm allocated)
    (hboot : s.slabInit = some s₀) {held : Set (Nat × Nat)}
    (h : History s₀ t held) :
    Sound z n allocated t held ∧
      (∀ size, 1 ≤ size → size ≤ 131072 →
        ∃ u r, t.kmalloc size = some (u, r)) ∧
      (∀ p ∈ held, ∃ u, t.kfree p.1 = some u) ∧
      (held = ∅ → (∀ c a, ¬t.IsSlab c a) ∧
        t.pmm.nrFreePages = s.pmm.nrFreePages) := by
  have hacc := hreach.accounted (Buddy.accounted_start hzone hn hbound hinit)
  have hsized := h.sized (own_start hacc hboot)
  refine ⟨hsized.sound, ?_, ?_, ?_⟩
  · intro size hpos hle
    obtain ⟨u, r, hrun, -⟩ := hsized.own.kmalloc_spec hpos hle
    exact ⟨u, r, hrun⟩
  · intro p hp
    obtain ⟨u, hrun, -⟩ := hsized.own.kfree_spec ⟨p.2, hp⟩
    exact ⟨u, hrun⟩
  · rintro rfl
    have hown : Own z n allocated t ∅ := by
      rw [← addrs_empty]
      exact hsized.own
    refine ⟨hown.no_slab, ?_⟩
    have hfree := hown.freeSet_restored hacc
    rw [hown.inv.good.count, hacc.good.count,
      hown.inv.good.blocks_eq hacc.good hfree]

/-- Memory before `slab_init`. -/
def sampleKmem (b : Buddy) : Kmem where
  pmm := b
  config _ := ⟨0, 0, 0, 0, false, 0, 0⟩
  slabsFull _ := [3]
  slabsNotfull _ := [4]
  slab _ := ⟨0, 0, 0, 0, id⟩
  pageCache _ := 0
  pageSlab _ := 0

/-- 2000 bytes: one page for the slab, one for the cache of its control
area, which is in use as well. -/
theorem slab_allocator_sound_2000 :
    ∃ b₀ s₀ t x, Buddy.samplePages.boot.initMemmap 5 11 = some b₀ ∧
      (sampleKmem b₀).slabInit = some s₀ ∧
      s₀.kmalloc 2000 = some (t, some x) ∧
      (x, t.pmm.nrFreePages, (t.slabsNotfull 0).length) =
        (page2kva 15, 9, 1) ∧
      Sound 5 11 ∅ t (∅ ∪ {p | some x = some p.1 ∧ p.2 = 2000}) := by
  refine ⟨_, _, _, _, rfl, slabInit_eq _, rfl, by decide, ?_⟩
  exact (slab_allocator_sound Buddy.samplePages rfl (by decide) (by decide)
    rfl (s := sampleKmem _) .start (slabInit_eq _)
    (.kmalloc .start (by decide) (by decide) rfl)).1

end Kmem

end MipsUcore.Kern
