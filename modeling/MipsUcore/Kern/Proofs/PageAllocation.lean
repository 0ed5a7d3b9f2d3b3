/-
The page allocator over whole histories.

A history starts with the state `buddy_init_memmap` builds, for any zone,
over any contents of the page array. Each step is a call of
`alloc_pages`, a call of `free_pages` on pages that are allocated, or a
change that the owner of an allocated page makes to what is its own in
the page's record. `Reached` keeps the set of allocated pages next to the
state, and is otherwise free: any order, any partial frees.

In every state of every history the zone is in order (`Good`) and the
allocated pages are those in no free block (`Reached.accounted`); the
results about single calls and about coalescing are read off it.
-/
import MipsUcore.Kern.Proofs.Buddy

namespace MipsUcore.Kern

open Blocks Function

namespace Buddy

variable {z n : Nat} {s : Buddy}
  {a k m : Nat} {allocated : Set Nat}

-- ===== building the zone

/-- A state of the loops of `buddy_init_memmap`: the first `a` pages are
free, the `m` others in no list yet. -/
structure Filled (z n : Nat) (s : Buddy) (a m : Nat) : Prop where
  good : Good z n s
  cover_eq : cover (s.blocks z) = Set.Iio a
  total : a + m = n
  clean : ∀ i < n, s.usage (z + i) = (0, false)

/-- One block joins at the end of what is filled. -/
theorem Filled.push {o : Nat} (h : Filled z n s a m)
    (ho : o ≤ maxOrder) (ha : 2 ^ o ∣ a) (hm : 2 ^ o ≤ m)
    (hlow : o < maxOrder → 2 ^ (o + 1) ∣ a) :
    Filled z n (s.pushFree o (z + a)) (a + 2 ^ o) (m - 2 ^ o) := by
  have htotal := h.total
  have hdis : Disjoint (span a o) (cover (s.blocks z)) := by
    rw [h.cover_eq, Set.disjoint_left]
    rintro x ⟨hx, -⟩ hx'
    exact Nat.not_lt.2 hx hx'
  constructor
  case good =>
    refine h.good.pushFree ho ha (by omega) hdis ?_ ?_
    · -- the buddy lies beyond what is filled
      intro hlt hmem
      have hin := span_subset_cover hmem (start_mem_span _ _)
      rw [buddy_lower (hlow hlt), h.cover_eq, Set.mem_Iio] at hin
      omega
    · intro x hx
      rw [mem_span] at hx
      exact h.clean x (by omega)
  case cover_eq =>
    rw [s.blocks_pushFree z ho, cover_insert, h.cover_eq]
    ext x
    simp only [Set.mem_union, mem_span, Set.mem_Iio]
    omega
  case total => omega
  case clean =>
    intro i hi
    rw [usage_pushFree]
    exact h.clean i hi

/-- The inner loop: blocks of order `o` as long as they fit. Below
`MAX_ORDER` at most one fits, as the lower half of its parent. -/
theorem memmapOrder_spec {o fuel : Nat} (h : Filled z n s a m)
    (ho : o ≤ maxOrder) (hfuel : m ≤ fuel) (ha : 2 ^ o ∣ a)
    (hone : o < maxOrder → m < 2 ^ o ∨ (2 ^ (o + 1) ∣ a ∧ m < 2 ^ (o + 1))) :
    ∃ t a' m', memmapOrder o fuel (s, z + a, m) = (t, z + a', m') ∧
      Filled z n t a' m' ∧ m' < 2 ^ o ∧ 2 ^ o ∣ a' := by
  induction fuel generalizing s a m with
  | zero => exact ⟨s, a, m, rfl, h, by omega, ha⟩
  | succ fuel ih =>
    rw [memmapOrder]
    by_cases hm : 2 ^ o ≤ m
    · rw [if_pos hm]
      have hlow : o < maxOrder → 2 ^ (o + 1) ∣ a ∧ m < 2 ^ (o + 1) :=
        fun hlt => (hone hlt).resolve_left (by omega)
      have hnext := ih (h.push ho ha hm fun hlt => (hlow hlt).1) (by omega)
        (Nat.dvd_add ha (Nat.dvd_refl _))
        (fun hlt => .inl (by have := (hlow hlt).2; omega))
      rwa [← Nat.add_assoc] at hnext
    · rw [if_neg hm]
      exact ⟨s, a, m, rfl, h, by omega, ha⟩

/-- The outer loop fills the zone. -/
theorem memmapLoop_spec {order : Nat} (h : Filled z n s a m)
    (ho : order ≤ maxOrder) (ha : 2 ^ order ∣ a) (hone : order < maxOrder →
      m < 2 ^ order ∨ (2 ^ (order + 1) ∣ a ∧ m < 2 ^ (order + 1))) :
    Filled z n (memmapLoop order (s, z + a, m)) n 0 := by
  induction order generalizing s a m with
  | zero =>
    obtain ⟨t, a', m', hrun, hf, hm', -⟩ :=
      memmapOrder_spec h ho (Nat.le_refl m) ha hone
    have htotal := hf.total
    obtain rfl : m' = 0 := by omega
    rw [memmapLoop, hrun]
    obtain rfl : a' = n := by omega
    exact hf
  | succ order ih =>
    rw [memmapLoop]
    by_cases hzero : m = 0
    · subst hzero
      obtain rfl : a = n := h.total
      exact h
    · rw [if_neg hzero]
      obtain ⟨t, a', m', hrun, hf, hm', ha'⟩ :=
        memmapOrder_spec h ho (Nat.le_refl m) ha hone
      rw [hrun]
      exact ih hf (by omega)
        (Dvd.dvd.trans (pow_dvd_pow 2 (Nat.le_succ order)) ha')
        (fun _ => .inr ⟨ha', hm'⟩)

/-- `buddy_init` and `page_init`, up to the call of `init_memmap`. -/
def boot (s : Buddy) : Buddy := s.init.reserveAll

theorem boot_reserved (s : Buddy) {p : Nat} (hp : p < s.npage) :
    (s.boot.page p).reserved = true := by
  have hin : 0 ≤ p ∧ p < 0 + s.npage := by omega
  show (if 0 ≤ p ∧ p < 0 + s.npage then _ else s.page p).reserved = true
  rw [if_pos hin]

/-- The zone before its first block joins. -/
theorem claimZone_filled (s : Buddy) (hzone : s.zoneNum = 0)
    (hbound : z + n ≤ s.npage) : Filled z n (s.boot.claimZone z n) 0 n := by
  have hin : ∀ i < n, (s.boot.claimZone z n).page (z + i)
      = { (s.boot.page (z + i)).release with property := 0, zoneNum := 0 } := by
    intro i hi
    have hp : z ≤ z + i ∧ z + i < z + n := by omega
    show (if z ≤ z + i ∧ z + i < z + n then
      { (s.boot.page (z + i)).release with
        property := 0, zoneNum := s.zoneNum } else _) = _
    rw [if_pos hp, hzone]
  have hlist : ∀ o ≤ maxOrder, (s.boot.claimZone z n).freeList o = [] :=
    fun o ho => if_pos ho
  have hnr : ∀ o ≤ maxOrder, (s.boot.claimZone z n).nrFree o = 0 :=
    fun o ho => if_pos ho
  have hblocks : (s.boot.claimZone z n).blocks z = ∅ := by
    ext b
    simp only [blocks, Set.mem_ofPred_eq, Set.mem_empty_iff_false,
      iff_false, not_and]
    intro hb
    rw [hlist b.2 hb]
    exact List.not_mem_nil
  refine ⟨?_, ?_, Nat.zero_add n, ?_⟩
  case refine_2 =>
    rw [hblocks, cover_empty]
    ext x
    simp
  case refine_3 =>
    intro i hi
    simp [usage, hin i hi, Page.release, Page.clearFlags]
  constructor
  case base =>
    show update s.memBase s.zoneNum z 0 = z
    rw [hzone, update_self]
  case bound => exact hbound
  case zone =>
    intro i hi
    rw [hin i hi]
    exact ⟨rfl, rfl⟩
  case outside =>
    intro p hp hz
    have hout : ¬ (z ≤ p ∧ p < z + n) := by omega
    show (if z ≤ p ∧ p < z + n then _ else s.boot.page p).reserved = true
    rw [if_neg hout]
    exact s.boot_reserved hp
  case flags =>
    intro i hi o
    rw [hblocks, hin i hi]
    simp [Page.release, Page.clearFlags]
  case above =>
    intro o ho p hp
    rw [hlist o ho] at hp
    cases hp
  case nodup =>
    intro o ho
    rw [hlist o ho]
    exact List.nodup_nil
  case length =>
    intro o ho
    rw [hlist o ho, hnr o ho]
    rfl
  case coalesced =>
    rw [hblocks]
    exact coalesced_empty maxOrder
  case inside =>
    rw [hblocks]
    exact fun b hb => absurd hb (Set.notMem_empty b)
  case count =>
    rw [hblocks, cover_empty, Set.ncard_empty, nrFreePages_eq_sum]
    refine Finset.sum_eq_zero fun o ho => ?_
    rw [hnr o (by rw [Finset.mem_range] at ho; omega), Nat.zero_mul]
  case clean =>
    rw [hblocks, cover_empty]
    exact fun i hi => absurd hi (Set.notMem_empty i)

/-- `buddy_init_memmap` on a zone inside the page array: no assertion
fails, and the whole zone is free. -/
theorem initMemmap_spec (s : Buddy) (hzone : s.zoneNum = 0) (hn : 0 < n)
    (hbound : z + n ≤ s.npage) :
    ∃ t, s.boot.initMemmap z n = some t ∧ Filled z n t n 0 := by
  have hzones : s.boot.zoneNum < maxZoneNum := by
    show s.zoneNum < maxZoneNum
    rw [hzone]
    decide
  have hres : ∀ i < n, (s.boot.page (z + i)).reserved = true :=
    fun i hi => s.boot_reserved (by omega)
  refine ⟨_, if_pos ⟨hn, hzones, hres⟩, ?_⟩
  exact memmapLoop_spec (a := 0) (s.claimZone_filled hzone hbound)
    (Nat.le_refl _) (Nat.dvd_zero _) (fun hlt => absurd hlt (Nat.lt_irrefl _))

-- ===== histories

/-- What the owner of a page may change in its record. -/
def use (s : Buddy) (p : Nat) (ref : Int) (slab : Bool) : Buddy :=
  s.setPage p fun q => { q with ref := ref, slab := slab }

/-- The states a history of calls leads to from `s₀`, with the pages that
are allocated then. Only allocated pages may be freed, at most 1024 at a
time: any part of what one call returned is such a range. -/
inductive Reached (s₀ : Buddy) : Buddy → Set Nat → Prop
  | start : Reached s₀ s₀ ∅
  | alloc {s t : Buddy} {allocated : Set Nat} {k : Nat} {page : Option Nat} :
      Reached s₀ s allocated → 0 < k → k ≤ 1024 →
      s.allocPages k = some (t, page) →
      Reached s₀ t (allocated ∪ {x | ∃ p ∈ page, p ≤ x ∧ x < p + k})
  | free {s t : Buddy} {allocated : Set Nat} {b m : Nat} :
      Reached s₀ s allocated → 0 < m → m ≤ 1024 →
      Set.Ico b (b + m) ⊆ allocated → s.freePages b m = some t →
      Reached s₀ t (allocated \ Set.Ico b (b + m))
  | use {s : Buddy} {allocated : Set Nat} {p : Nat} {ref : Int}
      {slab : Bool} : Reached s₀ s allocated → p ∈ allocated →
      Reached s₀ (s.use p ref slab) allocated

/-- The pages in free blocks. -/
def freeSet (s : Buddy) : Set Nat :=
  {x | ∃ o ≤ maxOrder, ∃ p ∈ s.freeList o, p ≤ x ∧ x < p + 2 ^ o}

/-- The free pages are what the blocks cover, moved to the zone. -/
theorem Good.mem_freeSet (h : Good z n s) {x : Nat} :
    x ∈ s.freeSet ↔ ∃ i ∈ cover (s.blocks z), x = z + i := by
  constructor
  · rintro ⟨o, ho, p, hp, hle, hlt⟩
    obtain ⟨i, rfl⟩ := Nat.exists_eq_add_of_le (h.above o ho p hp)
    refine ⟨x - z, ⟨(i, o), ⟨ho, hp⟩, ?_⟩, by omega⟩
    show i ≤ x - z ∧ x - z < i + 2 ^ o
    omega
  · rintro ⟨i, ⟨b, hb, hx⟩, rfl⟩
    rw [mem_span] at hx
    exact ⟨b.2, hb.1, z + b.1, hb.2, by omega, by omega⟩

/-- Owners' changes to allocated pages are none to the allocator. -/
theorem Good.owned (h : Good z n s) {f : Nat → Page}
    (hsame : ∀ q, (f q).zoneNum = (s.page q).zoneNum ∧
      (f q).reserved = (s.page q).reserved ∧
      (f q).propertyFlag = (s.page q).propertyFlag ∧
      (f q).property = (s.page q).property)
    (hfree : ∀ q ∈ s.freeSet, f q = s.page q) :
    Good z n { s with page := f } := by
  constructor
  case base => exact h.base
  case bound => exact h.bound
  case zone =>
    intro i hi
    obtain ⟨hz, hr, -, -⟩ := hsame (z + i)
    rw [hz, hr]
    exact h.zone i hi
  case outside =>
    intro q hq hz
    rw [(hsame q).2.1]
    exact h.outside q hq hz
  case flags =>
    intro i hi o
    obtain ⟨-, -, hf, hpr⟩ := hsame (z + i)
    rw [hf, hpr]
    exact h.flags i hi o
  case above => exact h.above
  case nodup => exact h.nodup
  case length => exact h.length
  case coalesced => exact h.coalesced
  case inside => exact h.inside
  case count => exact h.count
  case clean =>
    intro i hi
    show ((f (z + i)).ref, (f (z + i)).slab) = (0, false)
    rw [hfree _ (h.mem_freeSet.2 ⟨i, hi, rfl⟩)]
    exact h.clean i hi

theorem Good.use (h : Good z n s) {p : Nat} (hp : p ∉ s.freeSet)
    (ref : Int) (slab : Bool) : Good z n (s.use p ref slab) := by
  refine h.owned (fun q => ?_) (fun q hq => ?_)
  · by_cases hqp : q = p
    · subst hqp
      rw [update_self]
      exact ⟨rfl, rfl, rfl, rfl⟩
    · rw [update_of_ne hqp]
      exact ⟨rfl, rfl, rfl, rfl⟩
  · refine update_of_ne ?_ _ _
    rintro rfl
    exact hp hq

/-- A loop over allocated pages that sets or clears `PG_slab`. -/
theorem Good.setSlab (h : Good z n s) {base : Nat} (slab : Bool)
    (hout : ∀ q, base ≤ q → q < base + k → q ∉ s.freeSet) :
    Good z n (s.setPages base k fun p => { p with slab := slab }) := by
  refine h.owned (fun q => ?_) (fun q hq => if_neg fun hin => ?_)
  · by_cases hin : base ≤ q ∧ q < base + k
    · simp [hin]
    · simp [hin]
  · exact hout q hin.1 hin.2 hq

/-- The zone is in order and every page of it is free or allocated. -/
structure Accounted (z n : Nat) (s : Buddy) (allocated : Set Nat) : Prop where
  good : Good z n s
  rest : allocated = Set.Ico z (z + n) \ s.freeSet

/-- The free pages after a change of the blocks, as pages. -/
theorem freeSet_congr {t : Buddy} {D : Set Nat} (hs : Good z n s)
    (ht : Good z n t) {i : Nat} (hD : D = Set.Ico (z + i) (z + i + k))
    (hcover : cover (t.blocks z) = cover (s.blocks z) \ Set.Ico i (i + k)) :
    t.freeSet = s.freeSet \ D := by
  subst hD
  ext x
  rw [Set.mem_sdiff, ht.mem_freeSet, hs.mem_freeSet, hcover]
  constructor
  · rintro ⟨j, ⟨hj, hout⟩, rfl⟩
    refine ⟨⟨j, hj, rfl⟩, fun hx => hout ?_⟩
    rw [Set.mem_Ico] at hx ⊢
    omega
  · rintro ⟨⟨j, hj, rfl⟩, hout⟩
    refine ⟨j, ⟨hj, fun hx => hout ?_⟩, rfl⟩
    rw [Set.mem_Ico] at hx ⊢
    omega

/-- One call of `alloc_pages` from a state in order. -/
theorem Accounted.alloc (h : Accounted z n s allocated) (hk : 0 < k)
    (hle : k ≤ 1024) : ∃ t page, s.allocPages k = some (t, page) ∧ Good z n t ∧
      (∀ p ∈ page, Set.Ico p (p + k) ⊆ s.freeSet ∧
        t.freeSet = s.freeSet \ Set.Ico p (p + k)) ∧
      (page = none → t = s ∧ ∃ order, getorder k = some order ∧
        ∀ o, order ≤ o → o ≤ maxOrder → s.freeList o = []) := by
  obtain ⟨order, hget, hnone | ⟨t, i, hrun, hg, hsub, hcover, -⟩⟩ :=
    allocPages_spec h.good hk hle
  · refine ⟨s, none, hnone.1, h.good, ?_, ?_⟩
    · intro p hp
      cases hp
    · exact fun _ => ⟨rfl, order, hget, hnone.2⟩
  · refine ⟨t, some (z + i), hrun, hg, ?_, ?_⟩
    · intro p hp
      cases hp
      refine ⟨?_, freeSet_congr h.good hg rfl hcover⟩
      rintro x ⟨hx, hx'⟩
      refine h.good.mem_freeSet.2 ⟨x - z, hsub ⟨?_, ?_⟩, ?_⟩ <;> omega
    · intro hf
      cases hf

/-- One call of `free_pages` on allocated pages, from a state in
order. -/
theorem Accounted.free (h : Accounted z n s allocated) {b : Nat} (hm : 0 < m)
    (hle : m ≤ 1024) (hsub : Set.Ico b (b + m) ⊆ allocated) :
    ∃ t, s.freePages b m = some t ∧ Good z n t ∧
      t.freeSet = s.freeSet ∪ Set.Ico b (b + m) := by
  have hrest : ∀ x, b ≤ x → x < b + m →
      (z ≤ x ∧ x < z + n) ∧ x ∉ s.freeSet := by
    intro x hx hx'
    have := hsub ⟨hx, hx'⟩
    rw [h.rest] at this
    exact this
  obtain ⟨i, rfl⟩ :=
    Nat.exists_eq_add_of_le (hrest b (Nat.le_refl b) (by omega)).1.1
  have hlast := (hrest (z + i + m - 1) (by omega) (by omega)).1.2
  have hout : Disjoint (Set.Ico i (i + m)) (cover (s.blocks z)) := by
    rw [Set.disjoint_left]
    rintro x ⟨hx, hx'⟩ hmem
    exact (hrest (z + x) (by omega) (by omega)).2
      (h.good.mem_freeSet.2 ⟨x, hmem, rfl⟩)
  have hpow : m < 2 ^ (maxOrder + 1) := by
    have : (1024 : Nat) < 2 ^ (maxOrder + 1) := by decide
    omega
  obtain ⟨t, hrun, hfreed⟩ := freePages_spec h.good hm hpow (by omega) hout
  refine ⟨t, hrun, hfreed.good, ?_⟩
  ext x
  rw [Set.mem_union, hfreed.good.mem_freeSet, h.good.mem_freeSet,
    hfreed.cover_eq]
  constructor
  · rintro ⟨j, hj | hj, rfl⟩
    · right
      rw [Set.mem_Ico] at hj ⊢
      omega
    · exact .inl ⟨j, hj, rfl⟩
  · rintro (⟨j, hj, rfl⟩ | hx)
    · exact ⟨j, .inr hj, rfl⟩
    · rw [Set.mem_Ico] at hx
      exact ⟨x - z, .inl ⟨by omega, by omega⟩, by omega⟩

theorem Good.freeSet_subset (h : Good z n s) :
    s.freeSet ⊆ Set.Ico z (z + n) := by
  intro x hx
  obtain ⟨i, hi, rfl⟩ := h.mem_freeSet.1 hx
  have := h.cover_lt hi
  rw [Set.mem_Ico]
  omega

/-- Every history keeps the zone in order and accounts for its pages. -/
theorem Reached.accounted {s₀ : Buddy} (h₀ : Accounted z n s₀ ∅)
    (h : Reached s₀ s allocated) : Accounted z n s allocated := by
  induction h with
  | start => exact h₀
  | @alloc s t allocated k result _ hk hle hrun ih =>
    obtain ⟨t', result', hrun', hg, hsome, hnone⟩ := ih.alloc hk hle
    obtain ⟨rfl, rfl⟩ : t = t' ∧ result = result' := by
      simpa [hrun] using hrun'
    refine ⟨hg, ?_⟩
    rw [ih.rest]
    cases result with
    | none =>
      rw [(hnone rfl).1]
      simp
    | some p =>
      obtain ⟨hsub, hfree⟩ := hsome p rfl
      have hset : {x | ∃ q ∈ some p, q ≤ x ∧ x < q + k}
          = Set.Ico p (p + k) := by
        ext x
        simp
      have hin := hsub.trans ih.good.freeSet_subset
      rw [hfree, hset, Set.sdiff_sdiff_right,
        Set.inter_eq_self_of_subset_right hin]
  | free _ hm hle hsub hrun ih =>
    obtain ⟨t, hrun', hg, hfree⟩ := ih.free hm hle hsub
    rw [hrun] at hrun'
    cases hrun'
    refine ⟨hg, ?_⟩
    rw [ih.rest, hfree, Set.sdiff_sdiff]
  | use _ hp ih =>
    rw [ih.rest] at hp
    exact ⟨ih.good.use hp.2 _ _, ih.rest⟩

theorem accounted_start {s : Buddy} {s₀ : Buddy} (hzone : s.zoneNum = 0)
    (hn : 0 < n) (hbound : z + n ≤ s.npage)
    (hinit : s.boot.initMemmap z n = some s₀) : Accounted z n s₀ ∅ := by
  obtain ⟨t, ht, hf⟩ := s.initMemmap_spec hzone hn hbound
  obtain rfl : t = s₀ := by simpa [ht] using hinit
  refine ⟨hf.good, ?_⟩
  symm
  rw [Set.sdiff_eq_empty]
  rintro x ⟨hx, hx'⟩
  refine hf.good.mem_freeSet.2 ⟨x - z, ?_, by omega⟩
  rw [hf.cover_eq, Set.mem_Iio]
  omega

-- ===== the results

/-- The count of the free pages. -/
theorem Good.nrFreePages_eq (h : Good z n s) :
    s.nrFreePages = s.freeSet.ncard := by
  have himage : s.freeSet = (z + ·) '' cover (s.blocks z) := by
    ext x
    rw [h.mem_freeSet]
    simp [eq_comm]
  rw [h.count, himage, Set.ncard_image_of_injective]
  exact fun a b hab => by simpa using hab

/-- The free lists and the allocated pages make up the zone. -/
structure Partition (z n : Nat) (s : Buddy) (allocated : Set Nat) :
    Prop where
  heads : ∀ o ≤ maxOrder, ∀ p ∈ s.freeList o,
    (s.page p).propertyFlag = true ∧ (s.page p).property = o ∧ z ≤ p ∧
      2 ^ o ∣ p - z
  nodup : ∀ o ≤ maxOrder, (s.freeList o).Nodup
  disjoint : ∀ o ≤ maxOrder, ∀ p ∈ s.freeList o, ∀ o' ≤ maxOrder,
    ∀ p' ∈ s.freeList o', (p, o) ≠ (p', o') →
      Disjoint (Set.Ico p (p + 2 ^ o)) (Set.Ico p' (p' + 2 ^ o'))
  union : s.freeSet ∪ allocated = Set.Ico z (z + n)
  apart : Disjoint s.freeSet allocated
  count : s.nrFreePages = s.freeSet.ncard

theorem Accounted.partition (h : Accounted z n s allocated) : Partition z n s
    allocated := by
  have hg := h.good
  have hblock : ∀ o ≤ maxOrder, ∀ p ∈ s.freeList o,
      ∃ i, p = z + i ∧ (i, o) ∈ s.blocks z := by
    intro o ho p hp
    obtain ⟨i, rfl⟩ := Nat.exists_eq_add_of_le (hg.above o ho p hp)
    exact ⟨i, rfl, ho, hp⟩
  constructor
  case heads =>
    intro o ho p hp
    obtain ⟨i, rfl, hmem⟩ := hblock o ho p hp
    obtain ⟨hflag, hprop⟩ := (hg.flags i (hg.start_lt hmem) o).2 hmem
    refine ⟨hflag, hprop, by omega, ?_⟩
    rw [Nat.add_sub_cancel_left]
    exact hg.coalesced.aligned _ hmem
  case nodup => exact hg.nodup
  case disjoint =>
    intro o ho p hp o' ho' p' hp' hne
    obtain ⟨i, rfl, hmem⟩ := hblock o ho p hp
    obtain ⟨j, rfl, hmem'⟩ := hblock o' ho' p' hp'
    rw [Set.disjoint_left]
    rintro x ⟨hx1, hx2⟩ ⟨hx3, hx4⟩
    refine hne ?_
    have heq := hg.coalesced.apart _ hmem _ hmem' (x - z)
      ⟨by simp only; omega, by simp only; omega⟩
      ⟨by simp only; omega, by simp only; omega⟩
    cases heq
    rfl
  case union =>
    rw [h.rest]
    exact Set.union_sdiff_cancel hg.freeSet_subset
  case apart =>
    rw [h.rest]
    exact Set.disjoint_sdiff_right
  case count => exact hg.nrFreePages_eq

/-- The page allocator loses no page and hands out none twice: in every
state of every history the free blocks and the allocated pages make up
the zone; a call of `alloc_pages` returns, takes exactly the pages it
reports out of the free ones, and fails only if no list from the order of
the request on has a block; a call of `free_pages` on allocated pages
returns and makes exactly them free. -/
theorem no_loss_no_overlap (s : Buddy) (hzone : s.zoneNum = 0) (hn : 0 < n)
    (hbound : z + n ≤ s.npage) {s₀ t : Buddy} {allocated : Set Nat}
    (hinit : s.boot.initMemmap z n = some s₀)
    (h : Reached s₀ t allocated) :
    Partition z n t allocated ∧
      (∀ k, 0 < k → k ≤ 1024 → ∃ u page, t.allocPages k = some (u, page) ∧
        (∀ p ∈ page, Set.Ico p (p + k) ⊆ t.freeSet ∧
          u.freeSet = t.freeSet \ Set.Ico p (p + k)) ∧
        (page = none → u = t ∧ ∃ order, getorder k = some order ∧
          ∀ o, order ≤ o → o ≤ maxOrder → t.freeList o = [])) ∧
      (∀ b m, 0 < m → m ≤ 1024 → Set.Ico b (b + m) ⊆ allocated →
        ∃ u, t.freePages b m = some u ∧
          u.freeSet = t.freeSet ∪ Set.Ico b (b + m)) := by
  have hacc := h.accounted (accounted_start hzone hn hbound hinit)
  refine ⟨hacc.partition, ?_, ?_⟩
  · intro k hk hle
    obtain ⟨u, page, hrun, -, hsome, hnone⟩ := hacc.alloc hk hle
    exact ⟨u, page, hrun, hsome, hnone⟩
  · intro b m hm hle hsub
    obtain ⟨u, hrun, -, hfree⟩ := hacc.free hm hle hsub
    exact ⟨u, hrun, hfree⟩

/-- Sixteen pages nobody has looked at yet. -/
def samplePages : Buddy where
  page _ := ⟨7, false, true, true, 3, 5⟩
  npage := 16
  freeList _ := []
  nrFree _ := 0
  memBase _ := 0
  zoneNum := 0

/-- A zone of eleven pages from page 5 on: blocks of eight, two and one;
three pages are taken from the block of eight. -/
theorem no_loss_no_overlap_eleven :
    ∃ s₀ t, samplePages.boot.initMemmap 5 11 = some s₀ ∧
      ((List.range 4).map s₀.freeList, s₀.nrFreePages)
        = ([[15], [13], [], [5]], 11) ∧
      s₀.allocPages 3 = some (t, some 5) ∧
      (List.range 4).map t.freeList = [[8, 15], [13], [9], []] ∧
      Partition 5 11 t (∅ ∪ {x | ∃ p ∈ some 5, p ≤ x ∧ x < p + 3}) := by
  refine ⟨_, _, rfl, by decide, rfl, by decide, ?_⟩
  exact (no_loss_no_overlap samplePages rfl (by decide) (by decide) rfl
    (.alloc .start (by decide) (by decide) rfl)).1

/-- Two states in order with the same free pages have the same free
blocks. -/
theorem Good.blocks_eq {t : Buddy} (hs : Good z n s) (ht : Good z n t)
    (hfree : s.freeSet = t.freeSet) : s.blocks z = t.blocks z := by
  refine hs.coalesced.eq_of_cover_eq ht.coalesced ?_
  ext i
  have hmem : ∀ {u : Buddy}, Good z n u →
      (i ∈ cover (u.blocks z) ↔ z + i ∈ u.freeSet) := by
    intro u hu
    rw [hu.mem_freeSet]
    constructor
    · exact fun hi => ⟨i, hi, rfl⟩
    · rintro ⟨j, hj, heq⟩
      obtain rfl : i = j := by omega
      exact hj
  rw [hmem hs, hmem ht, hfree]

/-- Freeing merges completely: in no state of any history are two buddies
both free below `MAX_ORDER`, and once every page is free again the lists
hold the blocks `buddy_init_memmap` had put there. -/
theorem complete_coalescing (s : Buddy) (hzone : s.zoneNum = 0) (hn : 0 < n)
    (hbound : z + n ≤ s.npage) {s₀ t : Buddy} {allocated : Set Nat}
    (hinit : s.boot.initMemmap z n = some s₀)
    (h : Reached s₀ t allocated) :
    (∀ o < maxOrder, ∀ p ∈ t.freeList o,
      z + ((p - z) ^^^ 2 ^ o) ∉ t.freeList o) ∧
    (allocated = ∅ → ∀ o ≤ maxOrder, ∀ p,
      p ∈ t.freeList o ↔ p ∈ s₀.freeList o) := by
  have hstart := accounted_start hzone hn hbound hinit
  have hacc := h.accounted hstart
  refine ⟨?_, ?_⟩
  · intro o ho p hp hbuddy
    obtain ⟨i, rfl⟩ := Nat.exists_eq_add_of_le
      (hacc.good.above o (Nat.le_of_lt ho) p hp)
    rw [Nat.add_sub_cancel_left] at hbuddy
    exact hacc.good.coalesced.merged (i, o) ⟨Nat.le_of_lt ho, hp⟩ ho
      ⟨Nat.le_of_lt ho, hbuddy⟩
  · rintro rfl o ho p
    have hall : ∀ {u : Buddy}, Accounted z n u ∅ →
        u.freeSet = Set.Ico z (z + n) := fun hu =>
      Set.Subset.antisymm hu.good.freeSet_subset
        (Set.sdiff_eq_empty.1 hu.rest.symm)
    have hblocks := hacc.good.blocks_eq hstart.good
      ((hall hacc).trans (hall hstart).symm)
    have hmem : ∀ i, z + i ∈ t.freeList o ↔ z + i ∈ s₀.freeList o := by
      intro i
      have := Set.ext_iff.1 hblocks (i, o)
      simpa [blocks, ho] using this
    constructor
    · intro hp
      obtain ⟨i, rfl⟩ := Nat.exists_eq_add_of_le (hacc.good.above o ho p hp)
      exact (hmem i).1 hp
    · intro hp
      obtain ⟨i, rfl⟩ := Nat.exists_eq_add_of_le (hstart.good.above o ho p hp)
      exact (hmem i).2 hp

/-- Three pages are allocated and freed in two pieces, the upper one
first: the lists are back. -/
theorem complete_coalescing_two_pieces :
    ∃ s₀ t u v, samplePages.boot.initMemmap 5 11 = some s₀ ∧
      s₀.allocPages 3 = some (t, some 5) ∧ t.freePages 6 2 = some u ∧
      u.freePages 5 1 = some v ∧
      ∀ o ≤ maxOrder, ∀ p, p ∈ v.freeList o ↔ p ∈ s₀.freeList o := by
  refine ⟨_, _, _, _, rfl, rfl, rfl, rfl, ?_⟩
  refine (complete_coalescing (z := 5) (n := 11) samplePages rfl (by decide)
    (by decide) rfl (.free (b := 5) (m := 1) (.free (b := 6) (m := 2)
      (.alloc (k := 3) .start (by decide) (by decide) rfl) (by decide)
      (by decide) ?_ rfl) (by decide) (by decide) ?_ rfl)).2 ?_
  · rintro x ⟨hx, hx'⟩
    refine .inr ⟨5, rfl, by omega, by omega⟩
  · rintro x ⟨hx, hx'⟩
    refine ⟨.inr ⟨5, rfl, by omega, by omega⟩, fun hx'' => ?_⟩
    rw [Set.mem_Ico] at hx''
    omega
  · ext x
    simp
    omega

/-- Whatever the history, allocation does not fail while an aligned run of
its order is free. -/
theorem alloc_succeeds (s : Buddy) (hzone : s.zoneNum = 0) (hn : 0 < n)
    (hbound : z + n ≤ s.npage) {s₀ t : Buddy} {allocated : Set Nat}
    (hinit : s.boot.initMemmap z n = some s₀) (h : Reached s₀ t allocated)
    (hk : 0 < k) (hle : k ≤ 2 ^ maxOrder) : ∃ order,
    getorder k = some order ∧ ∀ i, 2 ^ order ∣ i →
      (∀ j < 2 ^ order, z + (i + j) ∈ t.freeSet) →
      ∃ u p, t.allocPages k = some (u, some p) := by
  have hg := (h.accounted (accounted_start hzone hn hbound hinit)).good
  obtain ⟨order, hget, hcases⟩ := allocPages_spec hg hk hle
  obtain ⟨order', hget', ho, -⟩ := getorder_spec hle
  cases hget.symm.trans hget'
  refine ⟨order, hget, fun i hi hrun => ?_⟩
  rcases hcases with ⟨-, hnone⟩ | ⟨u, p, hu, -⟩
  · -- the run would be part of a block, and there is none
    have hcover : span i order ⊆ cover (t.blocks z) := by
      intro x hx
      rw [mem_span] at hx
      obtain ⟨j, hj, heq⟩ := hg.mem_freeSet.1 (hrun (x - i) (by omega))
      exact (show x = j by omega) ▸ hj
    obtain ⟨b, ⟨hb, hmem⟩, hin⟩ :=
      hg.coalesced.exists_superblock ho hi hcover
    rw [hnone b.2 (order_le_of_subset hin) hb] at hmem
    cases hmem
  · exact ⟨u, _, hu⟩

/-- Eight pages are allocated and freed, so eight can be had again. -/
theorem alloc_succeeds_again : ∃ s₀ t u v p,
    samplePages.boot.initMemmap 5 11 = some s₀ ∧
      s₀.allocPages 8 = some (t, some 5) ∧ t.freePages 5 8 = some u ∧
      u.allocPages 8 = some (v, some p) := by
  obtain ⟨order, horder, h⟩ := alloc_succeeds (z := 5) (n := 11) (k := 8)
    samplePages rfl (by decide) (by decide) rfl (.free (b := 5) (m := 8)
      (.alloc (k := 8) .start (by decide) (by decide) rfl) (by decide)
      (by decide) (fun x hx => .inr ⟨5, rfl, hx⟩) rfl) (by decide) (by decide)
  cases horder.symm.trans (show getorder 8 = some 3 by decide)
  obtain ⟨v, p, hv⟩ := h 0 (by decide) fun j hj =>
    ⟨3, by decide, 5, by decide, by omega, by omega⟩
  exact ⟨_, _, _, v, p, rfl, rfl, rfl, hv⟩

end Buddy

end MipsUcore.Kern
