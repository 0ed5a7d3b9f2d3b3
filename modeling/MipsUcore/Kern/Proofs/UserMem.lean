/-
What `user_mem_check` lets through, byte by byte, and what `copy_string`
makes of it.

# The check

A byte is granted if it lies in an area with the right flag, and for a
write not in the first page of a stack. The loop hops from area to area;
the area it is in is the only one with the byte it is at, so what that area
refuses is refused, and what it grants holds up to its end.

# The copy

`copy_string` goes page by page. Areas are made of pages, so a page is
readable as a whole: when the check fails for the rest of a page, the byte
the copy is at cannot be read either, and there was no end of the string
before it (`Ahead`).
-/
import MipsUcore.Kern.UserMem
import MipsUcore.Kern.Proofs.Areas

namespace MipsUcore.Kern

open Vm

-- ===== the check

/-- An area lets through an access to the byte `x`. -/
def Vma.Grants (v : Vma) (write : Bool) (x : Nat) : Prop :=
  v.vmStart ≤ x ∧ x < v.vmEnd ∧
    v.vmFlags &&& (if write then vmWrite else vmRead) ≠ 0 ∧
    (write = true → v.vmFlags &&& vmStack ≠ 0 → v.vmStart + pgsize ≤ x)

namespace Mm

variable {mm mm' : Mm} {v : Vma} {write : Bool} {stop x : Nat}

variable {dst dst' mem : Nat → BitVec 8} {reads : List (Nat × Nat)}
  {addr len maxn off src : Nat}

/-- Some area lets through an access to the byte `x`. -/
def Grants (mm : Mm) (write : Bool) (x : Nat) : Prop :=
  ∃ v ∈ mm.mmapList, v.Grants write x

/-- Only the area of a byte can grant it. -/
theorem Ordered.grants_iff (h : mm.Ordered) (hv : mm.firstBehind x = some v) :
    mm.Grants write x ↔ v.Grants write x := by
  constructor
  · intro hgrants
    obtain ⟨w, hw, hgrant⟩ := hgrants
    have hfirst := h.firstBehind_of_mem hw hgrant.1 hgrant.2.1
    rw [hv] at hfirst
    rw [Option.some.inj hfirst]
    exact hgrant
  · intro hgrant
    exact ⟨v, List.mem_of_find?_eq_some hv, hgrant⟩

/-- The tests of the loop are about the byte it is at. -/
theorem refuses_iff (write : Bool) (hx : x < v.vmEnd) (htop : x < 2 ^ 31) :
    v.refuses x write = false ↔ v.Grants write x := by
  unfold Vma.refuses Vma.Grants
  by_cases hlow : x < v.vmStart
  · simp only [hlow, decide_true, Bool.true_or]
    constructor
    · intro hcon
      cases hcon
    · intro hcon
      omega
  · have hwrap : (v.vmStart + pgsize) % 2 ^ 32 = v.vmStart + pgsize := by
      unfold pgsize
      omega
    rw [hwrap]
    cases write <;> simp [hlow, hx, Nat.not_lt.mp hlow]

/-- Lookups change the cached area alone. -/
structure Same (mm mm' : Mm) : Prop where
  ordered : mm'.Ordered
  list : mm'.mmapList = mm.mmapList

theorem Same.grants (h : Same mm mm') :
    mm'.Grants write x ↔ mm.Grants write x := by
  unfold Grants
  rw [h.list]

/-- The loop of `user_mem_check`. -/
theorem Ordered.userMemCheckFrom (h : mm.Ordered) (write : Bool)
    (hstop : stop ≤ 2 ^ 31) (start fuel : Nat) (hfuel : stop ≤ start + fuel) :
    ∃ b mm', Mm.userMemCheckFrom stop write fuel start mm = some (b, mm') ∧
      Same mm mm' ∧
      (b = true ↔ ∀ x, start ≤ x → x < stop → mm.Grants write x) := by
  -- each round goes on to the end of the area, at least one byte further
  induction fuel generalizing start mm with
  | zero =>
    refine ⟨true, mm, if_neg (by omega), ⟨h, rfl⟩, ?_⟩
    simp only [true_iff]
    intro x hge hlt
    omega
  | succ fuel ih =>
    by_cases hlt : start < stop
    swap
    · refine ⟨true, mm, if_neg hlt, ⟨h, rfl⟩, ?_⟩
      simp only [true_iff]
      intro x hge hx
      omega
    have hsame : Same mm (mm.findVma start).2 :=
      ⟨h.find start, by rw [findVma_snd]⟩
    have hrefused (hno : ¬mm.Grants write start) :
        (false = true ↔ ∀ x, start ≤ x → x < stop → mm.Grants write x) := by
      constructor
      · intro hcon
        cases hcon
      · intro hall
        exact absurd (hall start (Nat.le_refl _) hlt) hno
    simp only [Mm.userMemCheckFrom, if_pos hlt, h.findVma]
    cases hfound : mm.firstBehind start with
    | none =>
      refine ⟨false, _, rfl, hsame, hrefused ?_⟩
      intro hgrants
      obtain ⟨w, hw, hgrant⟩ := hgrants
      rw [h.firstBehind_of_mem hw hgrant.1 hgrant.2.1] at hfound
      cases hfound
    | some v =>
      have hend : start < v.vmEnd := by simpa using List.find?_some hfound
      have hiff := refuses_iff write hend (by omega)
      rw [Option.elim_some]
      cases hrefuse : v.refuses start write with
      | true =>
        refine ⟨false, _, if_pos rfl, hsame, hrefused ?_⟩
        rw [h.grants_iff hfound, ← hiff, hrefuse]
        exact Bool.true_eq_false_eq_False
      | false =>
        have hgrant := hiff.mp hrefuse
        obtain ⟨b, mm', hrun, hsame', hb⟩ := ih hsame.ordered
          v.vmEnd (by omega)
        refine ⟨b, mm', ?_, ⟨hsame'.ordered, hsame'.list.trans hsame.list⟩, ?_⟩
        · exact hrun
        · rw [hb]
          constructor
          · intro hall x hge hx
            rcases Nat.lt_or_ge x v.vmEnd with hin | hin
            · refine ⟨v, List.mem_of_find?_eq_some hfound, ?_, hin,
                hgrant.2.2.1, ?_⟩
              · exact Nat.le_trans hgrant.1 hge
              · intro hw hstack
                exact Nat.le_trans (hgrant.2.2.2 hw hstack) hge
            · exact hsame.grants.mp (hall x hin hx)
          · intro hall x hge hx
            exact hsame.grants.mpr (hall x (by omega) hx)

theorem Ordered.userMemCheck (h : mm.Ordered) (write : Bool)
    (haddr : addr < 2 ^ 32) (hlen : len < 2 ^ 32) :
    ∃ b mm', mm.userMemCheck addr len write = some (b, mm') ∧
      mm'.Ordered ∧ mm'.mmapList = mm.mmapList ∧
      (b = true ↔ 0 < len ∧ 0x10000000 ≤ addr ∧ addr + len ≤ 0x80000000 ∧
        ∀ x, addr ≤ x → x < addr + len → mm.Grants write x) := by
  unfold Mm.userMemCheck
  by_cases haccess : userAccess addr ((addr + len) % 2 ^ 32)
  · rw [if_pos haccess]
    obtain ⟨hlow, hlt, htop⟩ := haccess
    -- the sum has not wrapped around: it would be less than `addr`
    have hsum : (addr + len) % 2 ^ 32 = addr + len := by omega
    rw [hsum] at hlt htop ⊢
    obtain ⟨b, mm', hrun, hsame, hb⟩ := h.userMemCheckFrom write htop addr
      (addr + len - addr) (by omega)
    refine ⟨b, mm', hrun, hsame.ordered, hsame.list, ?_⟩
    rw [hb]
    constructor
    · intro hall
      exact ⟨by omega, hlow, htop, hall⟩
    · intro hall
      exact hall.2.2.2
  · rw [if_neg haccess]
    refine ⟨false, mm, rfl, h, rfl, ?_⟩
    constructor
    · intro hcon
      cases hcon
    · intro hall
      obtain ⟨hpos, hlow, htop, -⟩ := hall
      have hsum : (addr + len) % 2 ^ 32 = addr + len := by omega
      rw [hsum] at haccess
      exact absurd ⟨hlow, by omega, htop⟩ haccess

/-- `user_mem_check` returns, and lets through exactly the ranges inside
the user range of which every byte is granted. -/
theorem user_mem_check_exact (h : mm.Ordered) {addr len : Nat} (write : Bool)
    (haddr : addr < 2 ^ 32) (hlen : len < 2 ^ 32) :
    ∃ b mm', Kern.userMemCheck (some mm) addr len write
        = some (b, some mm') ∧ mm'.mmapList = mm.mmapList ∧
      (b = true ↔ 0 < len ∧ 0x10000000 ≤ addr ∧ addr + len ≤ 0x80000000 ∧
        ∀ x, addr ≤ x → x < addr + len → mm.Grants write x) := by
  obtain ⟨b, mm', hrun, -, hlist, hb⟩ := h.userMemCheck write haddr hlen
  refine ⟨b, mm', ?_, hlist, hb⟩
  rw [Kern.userMemCheck, Option.elim_some, hrun]
  rfl

/-- Two areas without a gap, the second a stack. -/
def twoAreas : Mm :=
  ⟨0, [⟨0, 0x10000000, 0x10001000, vmRead⟩,
    ⟨0, 0x10001000, 0x10003000, vmRead ||| vmWrite ||| vmStack⟩], none, 3, 2,
    1⟩

theorem twoAreas_ordered : twoAreas.Ordered := by
  refine ⟨by decide, ?_, ?_⟩
  · simp [twoAreas]
  · intro v hv
    cases hv

theorem twoAreas_grants {x : Nat} (hlow : 0x10000000 ≤ x)
    (hhigh : x < 0x10003000) : twoAreas.Grants false x := by
  rcases Nat.lt_or_ge x 0x10001000 with hx | hx
  · exact ⟨_, List.mem_cons_self, hlow, hx, by decide,
      fun hcon => by cases hcon⟩
  · exact ⟨_, List.mem_cons_of_mem _ List.mem_cons_self, hx, hhigh,
      by decide, fun hcon => by cases hcon⟩

/-- A range across the border of two areas. -/
theorem user_mem_check_exact_two_areas :
    ∃ mm', Kern.userMemCheck (some twoAreas) 0x10000ffc 8 false
        = some (true, some mm') ∧ mm'.mmapList = twoAreas.mmapList := by
  have hexact := user_mem_check_exact twoAreas_ordered false
    (show 0x10000ffc < 2 ^ 32 by decide) (show 8 < 2 ^ 32 by decide)
  obtain ⟨b, mm', hrun, hlist, hb⟩ := hexact
  have hgrants : ∀ x, 0x10000ffc ≤ x → x < 0x10000ffc + 8 →
      twoAreas.Grants false x := by
    intro x hge hlt
    exact twoAreas_grants (by omega) (by omega)
  have htrue : b = true :=
    hb.mpr ⟨by decide, by decide, by decide, hgrants⟩
  exact ⟨mm', htrue ▸ hrun, hlist⟩

-- ===== the copy

/-- A byte the user may read. -/
def Readable (mm : Mm) (x : Nat) : Prop :=
  0x10000000 ≤ x ∧ x < 0x80000000 ∧ mm.Grants false x

theorem Same.readable (h : Same mm mm') : mm'.Readable x ↔ mm.Readable x := by
  unfold Readable
  rw [h.grants]

/-- Areas begin and end with a page. -/
def PageAligned (mm : Mm) : Prop :=
  ∀ v ∈ mm.mmapList, v.vmStart % pgsize = 0 ∧ v.vmEnd % pgsize = 0

/-- A page is readable as a whole. -/
theorem PageAligned.readable (h : mm.PageAligned) {y : Nat}
    (hxy : x / pgsize = y / pgsize) (hx : mm.Readable x) : mm.Readable y := by
  obtain ⟨hlow, hhigh, v, hv, hstart, hend, hflag, -⟩ := hx
  obtain ⟨hal, hal'⟩ := h v hv
  unfold pgsize at *
  refine ⟨by omega, by omega, v, hv, by omega, by omega, hflag, ?_⟩
  intro hcon
  cases hcon

/-- The check for reading, in terms of bytes. -/
theorem Ordered.check_read (h : mm.Ordered) (haddr : addr < 2 ^ 32)
    (hpos : 0 < len) (hlen : len < 2 ^ 32) :
    ∃ b mm', mm.userMemCheck addr len false = some (b, mm') ∧ Same mm mm' ∧
      (b = true ↔ ∀ x, addr ≤ x → x < addr + len → mm.Readable x) := by
  obtain ⟨b, mm', hrun, hordered, hlist, hb⟩ := h.userMemCheck false haddr hlen
  refine ⟨b, mm', hrun, ⟨hordered, hlist⟩, ?_⟩
  rw [hb]
  constructor
  · intro hall x hge hlt
    obtain ⟨-, hlow, htop, hgrants⟩ := hall
    exact ⟨by omega, by omega, hgrants x hge hlt⟩
  · intro hall
    have hfirst := hall addr (Nat.le_refl _) (by omega)
    have hlast := hall (addr + len - 1) (by omega) (by omega)
    refine ⟨hpos, hfirst.1, ?_, fun x hge hlt => (hall x hge hlt).2.2⟩
    have htop := hlast.2.1
    omega

theorem strnlen_spec (mem : Nat → BitVec 8) (src len : Nat) :
    strnlen mem src len ≤ len ∧
      (∀ j < strnlen mem src len, mem (src + j) ≠ 0) ∧
      (strnlen mem src len < len → mem (src + strnlen mem src len) = 0) := by
  induction len generalizing src with
  | zero =>
    refine ⟨Nat.le_refl _, ?_, ?_⟩
    · intro j hj
      cases hj
    · intro hlt
      cases hlt
  | succ len ih =>
    rw [strnlen]
    by_cases hz : mem src = 0
    · rw [if_pos hz]
      refine ⟨Nat.zero_le _, ?_, fun _ => hz⟩
      intro j hj
      cases hj
    · rw [if_neg hz]
      obtain ⟨hle, hbefore, hend⟩ := ih (src + 1)
      refine ⟨by omega, ?_, ?_⟩
      · intro j hj
        cases j with
        | zero => exact hz
        | succ j =>
          have hne := hbefore j (by omega)
          rwa [show src + (j + 1) = src + 1 + j by omega]
      · intro hlt
        have heq := hend (by omega)
        rwa [show src + (strnlen mem (src + 1) len + 1)
          = src + 1 + strnlen mem (src + 1) len by omega]

/-- The readable bytes from `src` on are a string of length `k`. -/
structure StringAt (mem : Nat → BitVec 8) (mm : Mm) (src k : Nat) : Prop where
  readable : ∀ j ≤ k, mm.Readable (src + j)
  inside : ∀ j < k, mem (src + j) ≠ 0
  nul : mem (src + k) = 0

/-- What `copy_string` has done when it returns. -/
structure Copied (mem : Nat → BitVec 8) (mm : Mm) (dst : Nat → BitVec 8)
    (src maxn : Nat) (r : CopyString) : Prop where
  ret : r.ret = true ↔ ∃ k < maxn, StringAt mem mm src k
  string : ∀ k < maxn, StringAt mem mm src k → ∀ j ≤ k, r.dst j = mem (src + j)
  outside : ∀ j, maxn ≤ j → r.dst j = dst j
  reads : ∀ a ∈ r.reads, ∃ mm', mm.userMemCheck a.1 a.2 false
    = some (true, mm')

/-- What the loop of `copy_string` has behind it after `off` bytes. -/
structure Ahead (mem : Nat → BitVec 8) (mm : Mm) (dst : Nat → BitVec 8)
    (src maxn off : Nat) (dst' : Nat → BitVec 8) (reads : List (Nat × Nat)) :
    Prop where
  readable : ∀ j < off, mm.Readable (src + j)
  inside : ∀ j < off, mem (src + j) ≠ 0
  copied : ∀ j < off, dst' j = mem (src + j)
  outside : ∀ j, maxn ≤ j → dst' j = dst j
  reads : ∀ a ∈ reads, ∃ mm', mm.userMemCheck a.1 a.2 false
    = some (true, mm')

theorem Ordered.approves (h : mm.Ordered) (haddr : addr < 2 ^ 32)
    (hpos : 0 < len) (hlen : len < 2 ^ 32)
    (hall : ∀ x, addr ≤ x → x < addr + len → mm.Readable x) :
    ∃ mm', mm.userMemCheck addr len false = some (true, mm') := by
  obtain ⟨b, mm', hrun, -, hb⟩ := h.check_read haddr hpos hlen
  exact ⟨mm', hb.mpr hall ▸ hrun⟩

/-- No string ends before the place of the loop. -/
theorem Ahead.le {k : Nat} (h : Ahead mem mm dst src maxn off dst' reads)
    (hk : StringAt mem mm src k) : off ≤ k := by
  rcases Nat.lt_or_ge k off with hlt | hge
  · exact absurd hk.nul (h.inside k hlt)
  · exact hge

/-- The copy has failed: no string ends below `maxn`. -/
theorem Ahead.fails {reads' : List (Nat × Nat)}
    (h : Ahead mem mm dst src maxn off dst' reads)
    (hno : ∀ k < maxn, off ≤ k → ¬StringAt mem mm src k)
    (hreads : ∀ a ∈ reads', ∃ mm', mm.userMemCheck a.1 a.2 false
      = some (true, mm')) :
    Copied mem mm dst src maxn ⟨false, mm', dst', reads ++ reads'⟩ where
  ret := by
    constructor
    · intro hcon
      cases hcon
    · intro hex
      obtain ⟨k, hlt, hk⟩ := hex
      exact absurd hk (hno k hlt (h.le hk))
  string k hlt hk := absurd hk (hno k hlt (h.le hk))
  outside := h.outside
  reads a ha := by
    rcases List.mem_append.mp ha with hin | hin
    · exact h.reads a hin
    · exact hreads a hin

/-- A part that has been checked is copied. -/
theorem Ahead.copy {part : Nat} (hordered : mm.Ordered)
    (h : Ahead mem mm dst src maxn off dst' reads)
    (hsrc : src + off < 2 ^ 32) (hmaxn : maxn < 2 ^ 32) (hpos : 0 < part)
    (hlen : off + part ≤ maxn)
    (hread : ∀ x, src + off ≤ x → x < src + off + part → mm.Readable x) :
    (∀ j < off + part, mm.Readable (src + j)) ∧
      (∀ j < off + part, CopyString.memcpy mem dst' off (src + off) part j
        = mem (src + j)) ∧
      (∀ j, maxn ≤ j → CopyString.memcpy mem dst' off (src + off) part j
        = dst j) ∧
      ∀ a ∈ reads ++ [(src + off, part)],
        ∃ mm', mm.userMemCheck a.1 a.2 false = some (true, mm') := by
  simp only [CopyString.memcpy]
  refine ⟨?_, ?_, ?_, ?_⟩
  · intro j hj
    rcases Nat.lt_or_ge j off with hlt | hge
    · exact h.readable j hlt
    · exact hread (src + j) (by omega) (by omega)
  · intro j hj
    rcases Nat.lt_or_ge j off with hlt | hge
    · rw [if_neg (by omega)]
      exact h.copied j hlt
    · rw [if_pos (by omega), show src + off + (j - off) = src + j by omega]
  · intro j hj
    rw [if_neg (by omega)]
    exact h.outside j hj
  · intro a ha
    rcases List.mem_append.mp ha with hin | hin
    · exact h.reads a hin
    · rw [List.mem_singleton.mp hin]
      exact hordered.approves hsrc hpos (by dsimp only; omega) hread

theorem Ahead.inside_add {part : Nat}
    (h : Ahead mem mm dst src maxn off dst' reads)
    (hinside : ∀ j < part, mem (src + off + j) ≠ 0) :
    ∀ j < off + part, mem (src + j) ≠ 0 := by
  intro j hj
  rcases Nat.lt_or_ge j off with hlt | hge
  · exact h.inside j hlt
  · have hne := hinside (j - off) (by omega)
    rwa [show src + off + (j - off) = src + j by omega] at hne

/-- The string ends in the part that has been checked. -/
theorem Ahead.ends {alen : Nat} (hordered : mm.Ordered)
    (h : Ahead mem mm dst src maxn off dst' reads)
    (hsrc : src + off < 2 ^ 32) (hmaxn : maxn < 2 ^ 32)
    (hlen : off + alen < maxn)
    (hread : ∀ x, src + off ≤ x → x < src + off + (alen + 1) → mm.Readable x)
    (hinside : ∀ j < alen, mem (src + off + j) ≠ 0)
    (hnul : mem (src + off + alen) = 0) :
    Copied mem mm dst src maxn ⟨true, mm',
      CopyString.memcpy mem dst' off (src + off) (alen + 1),
      reads ++ [(src + off, alen + 1)]⟩ := by
  obtain ⟨hreadable, hcopied, houtside, hreads⟩ :=
    h.copy hordered hsrc hmaxn (Nat.succ_pos alen) hlen hread
  have hstring : StringAt mem mm src (off + alen) := by
    refine ⟨?_, h.inside_add hinside, ?_⟩
    · intro j hj
      exact hreadable j (Nat.lt_succ_of_le hj)
    · rwa [← Nat.add_assoc]
  refine ⟨⟨fun _ => ⟨_, hlen, hstring⟩, fun _ => rfl⟩, ?_, houtside, hreads⟩
  intro k _ hk j hj
  -- the first NUL is the only end
  rcases Nat.lt_or_ge (off + alen) k with hlt | hge
  · exact absurd hstring.nul (hk.inside _ hlt)
  · exact hcopied j (by omega)

/-- The loop of `copy_string`. -/
theorem Ahead.loop {mm₁ : Mm} (hordered : mm.Ordered)
    (haligned : mm.PageAligned) (hmaxn : maxn < 2 ^ 32)
    (hsame : Same mm mm₁) (h : Ahead mem mm dst src maxn off dst' reads)
    (hoff : off < maxn) (hat : src + off < 2 ^ 32) (fuel part : Nat)
    (hfuel : maxn - off ≤ fuel)
    (hpart : part = pgsize - (src + off) % pgsize) :
    ∃ r, CopyString.loop mem dst' reads fuel off (src + off) (maxn - off) part
        mm₁ = some r ∧ Copied mem mm dst src maxn r := by
  induction fuel generalizing off dst' reads mm₁ part with
  | zero => omega
  | succ fuel ih =>
    rw [show pgsize = 4096 from rfl] at hpart
    rw [CopyString.loop]
    -- the part ends with the page or with the destination
    obtain ⟨len, hlen⟩ : ∃ len,
      (if maxn - off < part then maxn - off else part) = len := ⟨_, rfl⟩
    have hbounds : 0 < len ∧ len ≤ maxn - off ∧ len ≤ part ∧
        (len ≠ maxn - off → len = part) := by
      split at hlen <;> omega
    obtain ⟨hpos, hle, hpage, hwhole⟩ := hbounds
    simp only [hlen]
    obtain ⟨b, mm₂, hcheck, hsame', hb⟩ :=
      hsame.ordered.check_read hat hpos (show len < 2 ^ 32 by omega)
    rw [hcheck, Option.bind_some]
    have hsame₂ : Same mm mm₂ := ⟨hsame'.ordered, hsame'.list.trans hsame.list⟩
    cases b with
    | false =>
      -- the page of the byte at hand cannot be read
      refine ⟨_, rfl, ?_⟩
      rw [← List.append_nil reads]
      refine h.fails ?_ ?_
      · intro k _ hge hk
        have hfirst := hk.readable off hge
        have hall : ∀ x, src + off ≤ x → x < src + off + len →
            mm₁.Readable x := by
          intro x hlow hhigh
          rw [hsame.readable]
          refine haligned.readable ?_ hfirst
          unfold pgsize
          omega
        cases hb.mpr hall
      · intro a ha
        cases ha
    | true =>
      have hread : ∀ x, src + off ≤ x → x < src + off + len →
          mm.Readable x := by
        intro x hlow hhigh
        exact hsame.readable.mp (hb.mp rfl x hlow hhigh)
      obtain ⟨hale, hainside, hanul⟩ := strnlen_spec mem (src + off) len
      generalize strnlen mem (src + off) len = alen at *
      by_cases hend : alen < len
      · rw [if_pos hend]
        refine ⟨_, rfl, ?_⟩
        exact h.ends hordered hat hmaxn (by omega)
          (fun x hlow hhigh => hread x hlow (by omega)) hainside
          (hanul hend)
      · rw [if_neg hend]
        have halen : alen = len := by omega
        rw [halen] at hainside
        by_cases hlast : len = maxn - off
        · rw [if_pos hlast]
          refine ⟨_, rfl, h.fails ?_ ?_⟩
          · intro k hlt hge hk
            exact h.inside_add hainside k (by omega) hk.nul
          · intro a ha
            rw [List.mem_singleton.mp ha]
            exact hordered.approves hat hpos (by dsimp only; omega) hread
        · rw [if_neg hlast]
          have htop := (hread (src + off + len - 1) (by omega) (by omega)).2.1
          have hwrap : (src + off + len) % 2 ^ 32 = src + (off + len) := by
            omega
          rw [hwrap, show maxn - off - len = maxn - (off + len) by omega]
          obtain ⟨hreadable, hcopied, houtside, hreads⟩ :=
            h.copy hordered hat hmaxn hpos (by omega) hread
          exact ih hsame₂ ⟨hreadable, h.inside_add hainside, hcopied,
            houtside, hreads⟩ (by omega) (by omega) pgsize (by omega)
            (by unfold pgsize; omega)

/-- `copy_string` returns, and it returns true exactly if there is a string
of readable bytes that fits; the destination then holds it. Nothing is
written behind the destination, and every byte that is read was let
through by `user_mem_check`. -/
theorem copy_string_exact (hordered : mm.Ordered) (haligned : mm.PageAligned)
    (mem dst : Nat → BitVec 8) {src maxn : Nat} (hsrc : src < 2 ^ 32)
    (hpos : 1 ≤ maxn) (hmaxn : maxn < 2 ^ 32) :
    ∃ r, copyString mem mm dst src maxn = some r ∧
      Copied mem mm dst src maxn r := by
  have hpart : (roundDown ((src + pgsize) % 2 ^ 32) pgshift + 2 ^ 32 - src)
      % 2 ^ 32 = pgsize - src % pgsize := by
    rw [roundDown_page]
    unfold pgsize
    omega
  have hstart : Ahead mem mm dst src maxn 0 dst [] := by
    constructor <;> simp
  exact hstart.loop hordered haligned hmaxn ⟨hordered, rfl⟩ hpos hsrc maxn _
    (Nat.le_refl _) hpart

theorem twoAreas_aligned : twoAreas.PageAligned := by
  unfold PageAligned
  decide

/-- A string of three bytes across the border of two areas. -/
theorem copy_string_exact_two_areas :
    ∃ r, copyString (fun x => if x = 0x10001001 then 0 else 65) twoAreas
        (fun _ => 0) 0x10000ffe 16 = some r ∧
      r.ret = true ∧ r.dst 2 = 65 ∧ r.dst 3 = 0 ∧ r.dst 16 = 0 := by
  obtain ⟨r, hrun, hcopied⟩ := copy_string_exact twoAreas_ordered
    twoAreas_aligned
    (fun x => if x = 0x10001001 then 0 else 65) (fun _ => 0)
    (show 0x10000ffe < 2 ^ 32 by decide) (show 1 ≤ 16 by decide) (by decide)
  have hstring : StringAt (fun x => if x = 0x10001001 then 0 else 65) twoAreas
      0x10000ffe 3 := by
    refine ⟨?_, ?_, rfl⟩
    · intro j hj
      exact ⟨by omega, by omega, twoAreas_grants (by omega) (by omega)⟩
    · intro j hj
      rw [if_neg (by omega)]
      decide
  refine ⟨r, hrun, hcopied.ret.mpr ⟨3, by decide, hstring⟩, ?_, ?_, ?_⟩
  · exact hcopied.string 3 (by decide) hstring 2 (by decide)
  · exact hcopied.string 3 (by decide) hstring 3 (by decide)
  · exact hcopied.outside 16 (by decide)

end Mm

end MipsUcore.Kern
