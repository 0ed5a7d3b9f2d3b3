/-
The page allocator's invariant, and what each operation does to it.

# The invariant

`Buddy.blocks` are the free blocks, by their index in the zone, as the
eleven lists have them. `Good` says that they are a coalesced family of
blocks (`Lib/Blocks.lean`) inside the zone, that the flags agree with the
lists — `PG_property` is set on the heads of free blocks and on no other
page of the zone — and that no page outside the zone can pass for a free
one, because `page_init` has reserved them all.

Everything the allocator does is built from three moves: a block joins a
list (`pushFree`), a block leaves one, and the flags of pages that are in
no block are cleared. Each keeps `Good` and changes the set of free pages
by the block; the loops are inductions over these.

# Freeing

While `buddy_free_pages_sub` merges, the block it carries is in no list
and outside the cover; its buddy is a member exactly when `page_is_buddy`
says so (`pageIsBuddy_iff`). So what it finally inserts has no buddy among
the members, which is what keeps the family coalesced.
-/
import Mathlib.Algebra.BigOperators.Group.Finset.Piecewise
import MipsUcore.Kern.Buddy
import MipsUcore.Lib.Blocks

namespace MipsUcore.Kern

open Blocks Function

namespace Buddy

-- ===== the invariant

/-- The free blocks of the zone that starts at page `z`. -/
def blocks (s : Buddy) (z : Nat) : Set (Nat × Nat) :=
  {b | b.2 ≤ maxOrder ∧ z + b.1 ∈ s.freeList b.2}

/-- What the users of a page keep in it. -/
def usage (s : Buddy) (p : Nat) : Int × Bool :=
  ((s.page p).ref, (s.page p).slab)

/-- The zone of `n` pages from `z` on is in order. -/
structure Good (z n : Nat) (s : Buddy) : Prop where
  base : s.memBase 0 = z
  bound : z + n ≤ s.npage
  zone : ∀ i < n, (s.page (z + i)).zoneNum = 0 ∧
    (s.page (z + i)).reserved = false
  outside : ∀ p < s.npage, p < z ∨ z + n ≤ p →
    (s.page p).reserved = true
  flags : ∀ i < n, ∀ o, ((s.page (z + i)).propertyFlag = true ∧
    (s.page (z + i)).property = o) ↔ (i, o) ∈ s.blocks z
  above : ∀ o ≤ maxOrder, ∀ p ∈ s.freeList o, z ≤ p
  nodup : ∀ o ≤ maxOrder, (s.freeList o).Nodup
  length : ∀ o ≤ maxOrder, s.nrFree o = (s.freeList o).length
  coalesced : Coalesced maxOrder (s.blocks z)
  inside : ∀ b ∈ s.blocks z, b.1 + 2 ^ b.2 ≤ n
  count : s.nrFreePages = (cover (s.blocks z)).ncard
  clean : ∀ i ∈ cover (s.blocks z), s.usage (z + i) = (0, false)

variable {z n : Nat} {s : Buddy}
  {b fuel i k m o order : Nat} {t : Buddy}

variable (h : Good z n s)

section
include h

theorem Good.start_lt {b : Nat × Nat} (hb : b ∈ s.blocks z) : b.1 < n := by
  have := h.inside b hb
  have := Nat.two_pow_pos b.2
  omega

theorem Good.cover_lt (hi : i ∈ cover (s.blocks z)) : i < n := by
  obtain ⟨b, hb, hx⟩ := hi
  have := h.inside b hb
  rw [mem_span] at hx
  omega

theorem Good.cover_finite : (cover (s.blocks z)).Finite :=
  (Set.finite_Iio n).subset fun _ hi => h.cover_lt hi

/-- A page in no free block does not have `PG_property`. -/
theorem Good.unflagged (hi : i < n) (hout : i ∉ cover (s.blocks z)) :
    (s.page (z + i)).propertyFlag = false := by
  by_contra hflag
  have hmem := (h.flags i hi _).1 ⟨by simpa using hflag, rfl⟩
  exact hout (span_subset_cover hmem (start_mem_span _ _))

/-- A page starts at most one free block. -/
theorem Good.order_unique {o' : Nat}
    (ho : (i, o) ∈ s.blocks z) (ho' : (i, o') ∈ s.blocks z) : o = o' :=
  congrArg Prod.snd (h.coalesced.apart _ ho _ ho' i (start_mem_span i o)
    (start_mem_span i o'))

end

-- ===== counting pages

theorem nrFreePages_eq_sum (s : Buddy) :
    s.nrFreePages = ∑ o ∈ Finset.range (maxOrder + 1), s.nrFree o * 2 ^ o :=
  rfl

/-- A list that gets one longer counts one more block. -/
theorem nrFreePages_update {s : Buddy} (ho : o ≤ maxOrder)
    (h : t.nrFree = update s.nrFree o k) :
    t.nrFreePages + s.nrFree o * 2 ^ o = s.nrFreePages + k * 2 ^ o := by
  have hmem : o ∈ Finset.range (maxOrder + 1) := by
    rw [Finset.mem_range]
    omega
  rw [nrFreePages_eq_sum, nrFreePages_eq_sum, h,
    ← Finset.add_sum_erase _ _ hmem, ← Finset.add_sum_erase _ _ hmem,
    update_self]
  have hrest : ∀ x ∈ (Finset.range (maxOrder + 1)).erase o,
      update s.nrFree o k x * 2 ^ x = s.nrFree x * 2 ^ x := by
    intro x hx
    rw [update_of_ne (Finset.ne_of_mem_erase hx)]
  rw [Finset.sum_congr rfl hrest]
  omega

-- ===== the moves

/-- The lists after a block has joined. -/
theorem blocks_pushFree (s : Buddy) (z : Nat) (ho : o ≤ maxOrder) :
    (s.pushFree o (z + i)).blocks z = insert (i, o) (s.blocks z) := by
  ext ⟨j, o'⟩
  show (o' ≤ maxOrder ∧ z + j ∈ (s.pushFree o (z + i)).freeList o') ↔
    ((j, o') = (i, o) ∨ (o' ≤ maxOrder ∧ z + j ∈ s.freeList o'))
  by_cases ho' : o' = o
  · subst ho'
    simp [ho]
  · simp [ho']

/-- The lists after a block has left. -/
theorem Good.blocks_removeFree (h : Good z n s) (hi : (i, o) ∈ s.blocks z) :
    (s.removeFree o (z + i)).blocks z = s.blocks z \ {(i, o)} := by
  ext ⟨j, o'⟩
  show (o' ≤ maxOrder ∧ z + j ∈ (s.freeList o').erase (z + i)) ↔
    ((o' ≤ maxOrder ∧ z + j ∈ s.freeList o') ∧ (j, o') ≠ (i, o))
  constructor
  · rintro ⟨ho', hmem⟩
    rw [(h.nodup o' ho').mem_erase_iff] at hmem
    refine ⟨⟨ho', hmem.2⟩, fun heq => hmem.1 ?_⟩
    rw [(Prod.mk.inj heq).1]
  · rintro ⟨⟨ho', hmem⟩, hne⟩
    refine ⟨ho', (h.nodup o' ho').mem_erase_iff.2 ⟨fun heq => hne ?_, hmem⟩⟩
    obtain rfl : j = i := by omega
    rw [h.order_unique hi ⟨ho', hmem⟩]

@[simp] theorem usage_pushFree (s : Buddy) (o p : Nat) :
    (s.pushFree o p).usage = s.usage := by
  funext q
  by_cases hq : q = p
  · subst hq
    simp [usage]
  · simp [usage, hq]

@[simp] theorem usage_removeFree (s : Buddy) (o p : Nat) :
    (s.removeFree o p).usage = s.usage := by
  funext q
  by_cases hq : q = p
  · subst hq
    simp [usage]
  · simp [usage, hq]

section
include h

/-- A block outside the cover joins its list. -/
theorem Good.pushFree (ho : o ≤ maxOrder)
    (hi : 2 ^ o ∣ i) (hin : i + 2 ^ o ≤ n)
    (hdis : Disjoint (span i o) (cover (s.blocks z)))
    (hbuddy : o < maxOrder → (buddy i o, o) ∉ s.blocks z)
    (hclean : ∀ x ∈ span i o, s.usage (z + x) = (0, false)) :
    Good z n (s.pushFree o (z + i)) := by
  have hout : ∀ o', (i, o') ∉ s.blocks z := fun o' hmem =>
    Set.disjoint_left.1 hdis (start_mem_span i o)
      (span_subset_cover hmem (start_mem_span i o'))
  have hblocks := s.blocks_pushFree z (i := i) ho
  constructor
  case base => exact h.base
  case bound => exact h.bound
  case zone =>
    intro j hj
    by_cases hji : j = i
    · subst hji
      simpa using h.zone j hj
    · rw [pushFree_page_ne _ _ _ (by omega)]
      exact h.zone j hj
  case outside =>
    intro p hp hz
    rw [pushFree_page_ne _ _ _ (by omega)]
    exact h.outside p hp hz
  case flags =>
    intro j hj o'
    rw [hblocks, Set.mem_insert_iff]
    by_cases hji : j = i
    · subst hji
      simp [hout, eq_comm]
    · simpa [hji] using h.flags j hj o'
  case above =>
    intro o' ho' p hp
    by_cases heq : o' = o
    · subst heq
      rw [pushFree_freeList_self, List.mem_cons] at hp
      rcases hp with rfl | hp
      · omega
      · exact h.above o' ho' p hp
    · rw [pushFree_freeList_ne _ _ _ heq] at hp
      exact h.above o' ho' p hp
  case nodup =>
    intro o' ho'
    by_cases heq : o' = o
    · subst heq
      rw [pushFree_freeList_self, List.nodup_cons]
      exact ⟨fun hmem => hout o' ⟨ho', hmem⟩, h.nodup o' ho'⟩
    · rw [pushFree_freeList_ne _ _ _ heq]
      exact h.nodup o' ho'
  case length =>
    intro o' ho'
    rw [pushFree_nrFree]
    by_cases heq : o' = o
    · subst heq
      rw [update_self, pushFree_freeList_self, List.length_cons,
        h.length o' ho']
    · rw [update_of_ne heq, pushFree_freeList_ne _ _ _ heq]
      exact h.length o' ho'
  case coalesced =>
    rw [hblocks]
    exact h.coalesced.insert ho hi hdis hbuddy
  case inside =>
    rw [hblocks]
    rintro b (rfl | hb)
    · exact hin
    · exact h.inside b hb
  case count =>
    have hsum := nrFreePages_update ho (s.pushFree_nrFree o (z + i))
    rw [Nat.add_mul] at hsum
    rw [hblocks, cover_insert, Set.ncard_union_eq hdis (span_finite i o)
      h.cover_finite, span_ncard, ← h.count]
    omega
  case clean =>
    intro x hx
    rw [hblocks, cover_insert] at hx
    rw [usage_pushFree]
    rcases hx with hx | hx
    · exact hclean x hx
    · exact h.clean x hx

/-- A free block leaves its list. -/
theorem Good.removeFree (hi : (i, o) ∈ s.blocks z) : Good z n
    (s.removeFree o (z + i)) := by
  have hblocks := h.blocks_removeFree hi
  have hmem : z + i ∈ s.freeList o := hi.2
  have hcover := h.coalesced.cover_diff hi
  rw [← hblocks] at hcover
  constructor
  case base => exact h.base
  case bound => exact h.bound
  case zone =>
    intro j hj
    by_cases hji : j = i
    · subst hji
      simpa using h.zone j hj
    · rw [removeFree_page_ne _ _ _ (by omega)]
      exact h.zone j hj
  case outside =>
    intro p hp hz
    have := h.start_lt hi
    rw [removeFree_page_ne _ _ _ (by omega)]
    exact h.outside p hp hz
  case flags =>
    intro j hj o'
    rw [hblocks, Set.mem_sdiff, Set.mem_singleton_iff]
    by_cases hji : j = i
    · subst hji
      simp only [removeFree_page_self, Bool.false_eq_true, false_and,
        false_iff, not_and, not_not]
      intro hmem'
      rw [h.order_unique hi hmem']
    · rw [removeFree_page_ne _ _ _ (by omega), h.flags j hj o']
      simp [hji]
  case above =>
    intro o' ho' p hp
    exact h.above o' ho' p (List.mem_of_mem_erase hp)
  case nodup => exact fun o' ho' => (h.nodup o' ho').erase _
  case length =>
    intro o' ho'
    rw [removeFree_nrFree, removeFree_freeList]
    by_cases heq : o' = o
    · subst heq
      rw [update_self, List.length_erase_of_mem hmem, h.length o' ho']
    · have hnot : z + i ∉ s.freeList o' := fun hmem' =>
        heq (h.order_unique ⟨ho', hmem'⟩ hi)
      rw [update_of_ne heq, List.erase_of_not_mem hnot]
      exact h.length o' ho'
  case coalesced =>
    rw [hblocks]
    exact h.coalesced.subset Set.sdiff_subset
  case inside =>
    rw [hblocks]
    exact fun b hb => h.inside b hb.1
  case count =>
    have hsum := nrFreePages_update hi.1 (s.removeFree_nrFree o (z + i))
    have hlen := h.length o hi.1
    have hne := List.length_pos_of_mem hmem
    obtain ⟨k, hk⟩ : ∃ k, s.nrFree o = k + 1 := ⟨s.nrFree o - 1, by omega⟩
    have hcard := Set.ncard_sdiff_add_ncard_of_subset
      (span_subset_cover hi) h.cover_finite
    rw [span_ncard, ← h.count] at hcard
    rw [hk, Nat.add_sub_cancel, Nat.add_mul] at hsum
    rw [hcover]
    omega
  case clean =>
    intro x hx
    rw [hcover] at hx
    rw [usage_removeFree]
    exact h.clean x hx.1

end

-- ===== freeing a block

section
include h

/-- The flags of pages that are in no free block are cleared. -/
theorem Good.clearPages (hin : i + k ≤ n)
    (hout : ∀ x, i ≤ x → x < i + k → x ∉ cover (s.blocks z)) :
    Good z n (s.setPages (z + i) k Page.release) ∧
      ∀ p, (s.setPages (z + i) k Page.release).usage p
        = if z + i ≤ p ∧ p < z + i + k then (0, false) else s.usage p := by
  have husage : ∀ p, (s.setPages (z + i) k Page.release).usage p
      = if z + i ≤ p ∧ p < z + i + k then (0, false) else s.usage p := by
    intro p
    by_cases hp : z + i ≤ p ∧ p < z + i + k
    · simp [usage, setPages, hp, Page.release, Page.clearFlags]
    · simp [usage, setPages, hp]
  refine ⟨?_, husage⟩
  constructor
  case base => exact h.base
  case bound => exact h.bound
  case zone =>
    intro j hj
    have hz := h.zone j hj
    by_cases hp : z + i ≤ z + j ∧ z + j < z + i + k
    · simp only [setPages, if_pos hp]
      exact ⟨hz.1, rfl⟩
    · simp only [setPages, if_neg hp]
      exact hz
  case outside =>
    intro p hp hz
    have hp' : ¬ (z + i ≤ p ∧ p < z + i + k) := by omega
    simp only [setPages, if_neg hp']
    exact h.outside p hp hz
  case flags =>
    intro j hj o
    by_cases hp : z + i ≤ z + j ∧ z + j < z + i + k
    · have hnot := hout j (by omega) (by omega)
      simp only [setPages, if_pos hp]
      constructor
      · rintro ⟨hflag, -⟩
        cases hflag
      · intro hmem
        exact absurd (span_subset_cover hmem (start_mem_span _ _)) hnot
    · simp only [setPages, if_neg hp]
      exact h.flags j hj o
  case above => exact h.above
  case nodup => exact h.nodup
  case length => exact h.length
  case coalesced => exact h.coalesced
  case inside => exact h.inside
  case count => exact h.count
  case clean =>
    intro x hx
    rw [husage]
    split
    · rfl
    · exact h.clean x hx

/-- `page_is_buddy` recognises exactly the free blocks. -/
theorem Good.pageIsBuddy_iff :
    s.pageIsBuddy (z + i) o 0 = true ↔ (i, o) ∈ s.blocks z := by
  simp only [pageIsBuddy, Bool.and_eq_true, decide_eq_true_eq, beq_iff_eq,
    Bool.not_eq_true']
  constructor
  · rintro ⟨⟨⟨⟨hlt, -⟩, hres⟩, hflag⟩, hprop⟩
    have hi : i < n := by
      by_contra hge
      rw [h.outside (z + i) hlt (by omega)] at hres
      cases hres
    exact (h.flags i hi o).1 ⟨hflag, hprop⟩
  · intro hmem
    have hi := h.start_lt hmem
    have hbound := h.bound
    obtain ⟨hflag, hprop⟩ := (h.flags i hi o).2 hmem
    obtain ⟨hzone, hres⟩ := h.zone i hi
    exact ⟨⟨⟨⟨by omega, hzone⟩, hres⟩, hflag⟩, hprop⟩

/-- A block of the zone that is in no list, ready to be freed. -/
structure Loose (z n : Nat) (s : Buddy) (i o : Nat) : Prop where
  order_le : o ≤ maxOrder
  aligned : 2 ^ o ∣ i
  inside : i + 2 ^ o ≤ n
  outside : Disjoint (span i o) (cover (s.blocks z))
  clean : ∀ x ∈ span i o, s.usage (z + x) = (0, false)

/-- One round of the merging loop: the loose block grows by its buddy. -/
theorem Loose.merge_step (hl : Loose z n s i o) (ho : o < maxOrder)
    (hmem : (buddy i o, o) ∈ s.blocks z) :
    Loose z n (s.removeFree o (z + buddy i o)) (i &&& buddy i o) (o + 1) ∧
      span (i &&& buddy i o) (o + 1) ∪
          cover ((s.removeFree o (z + buddy i o)).blocks z)
        = span i o ∪ cover (s.blocks z) := by
  obtain ⟨hdvd, hspan⟩ := span_union_buddy hl.aligned
  have hcover : cover ((s.removeFree o (z + buddy i o)).blocks z)
      = cover (s.blocks z) \ span (buddy i o) o := by
    rw [h.blocks_removeFree hmem]
    exact h.coalesced.cover_diff hmem
  have hsub : span (buddy i o) o ⊆ cover (s.blocks z) := span_subset_cover hmem
  refine ⟨⟨ho, hdvd, ?_, ?_, ?_⟩, ?_⟩
  · -- both halves end inside the zone
    have hlast : (i &&& buddy i o) + 2 ^ (o + 1) - 1
        ∈ span (i &&& buddy i o) (o + 1) := by
      rw [mem_span]
      omega
    rw [← hspan] at hlast
    have hbuddy := h.inside _ hmem
    have hown := hl.inside
    simp only [Set.mem_union, mem_span] at hlast
    simp only at hbuddy
    omega
  · rw [← hspan, hcover, Set.disjoint_union_left]
    exact ⟨hl.outside.mono_right Set.sdiff_subset, Set.disjoint_sdiff_right⟩
  · intro x hx
    rw [← hspan] at hx
    rw [usage_removeFree]
    rcases hx with hx | hx
    · exact hl.clean x hx
    · exact h.clean x (hsub hx)
  · rw [← hspan, hcover, Set.union_assoc, Set.union_sdiff_cancel hsub]

/-- The merging loop: what comes out is loose, has no free buddy, and
covers with the lists what was covered before. -/
theorem merge_spec (hfuel : o + fuel = maxOrder) (hl : Loose z n s i o) :
    ∃ t i' o', merge 0 fuel s i o = (t, i', o') ∧ Good z n t ∧
      Loose z n t i' o' ∧ (o' < maxOrder → (buddy i' o', o') ∉ t.blocks z) ∧
      span i' o' ∪ cover (t.blocks z) = span i o ∪ cover (s.blocks z) ∧
      t.usage = s.usage := by
  induction fuel generalizing s i o with
  | zero =>
    exact ⟨s, i, o, rfl, h, hl, fun hlt => absurd hlt (by omega), rfl, rfl⟩
  | succ fuel ih =>
    have hstep : merge 0 (fuel + 1) s i o
        = if s.pageIsBuddy (z + buddy i o) o 0 then
            merge 0 fuel (s.removeFree o (z + buddy i o)) (i &&& buddy i o)
              (o + 1)
          else (s, i, o) := by
      rw [merge, idx2page, h.base, Nat.one_shiftLeft, buddy]
    rw [hstep]
    by_cases hmem : (buddy i o, o) ∈ s.blocks z
    · rw [if_pos (h.pageIsBuddy_iff.2 hmem)]
      obtain ⟨hloose, hcover⟩ := hl.merge_step h (by omega) hmem
      obtain ⟨t, i', o', hrun, hg, hl', hnone, hcov, hus⟩ :=
        ih (h.removeFree hmem) (by omega) hloose
      refine ⟨t, i', o', hrun, hg, hl', hnone, hcov.trans hcover, ?_⟩
      rw [hus, usage_removeFree]
    · rw [if_neg (fun hb => hmem (h.pageIsBuddy_iff.1 hb))]
      exact ⟨s, i, o, rfl, h, hl, fun _ => hmem, rfl, rfl⟩

/-- `t` is `s` with the `k` pages from index `b` on made free. -/
structure Freed (z n : Nat) (s : Buddy) (b k : Nat) (t : Buddy) : Prop where
  good : Good z n t
  cover_eq : cover (t.blocks z) = Set.Ico b (b + k) ∪ cover (s.blocks z)
  usage_eq : ∀ p, t.usage p = if z + b ≤ p ∧ p < z + b + k then (0, false)
    else s.usage p

theorem Freed.refl (b : Nat) : Freed z n s b 0 s where
  good := h
  cover_eq := by simp
  usage_eq p := by
    rw [if_neg]
    omega

end

/-- Two pieces next to each other. -/
theorem Freed.trans {u : Buddy} (h : Freed z n s b k t)
    (h' : Freed z n t (b + k) m u) : Freed z n s b (k + m) u where
  good := h'.good
  cover_eq := by
    rw [h'.cover_eq, h.cover_eq, ← Set.union_assoc,
      Set.union_comm (Set.Ico _ _),
      Set.Ico_union_Ico_eq_Ico (by omega) (by omega), Nat.add_assoc]
  usage_eq p := by
    rw [h'.usage_eq, h.usage_eq]
    split_ifs <;> first | rfl | omega

/-- What is still to be freed is still not free. -/
theorem Freed.disjoint {c : Nat} (h : Freed z n s b k t) (hc : b + k ≤ c)
    (hout : Disjoint (Set.Ico c (c + m)) (cover (s.blocks z))) :
    Disjoint (Set.Ico c (c + m)) (cover (t.blocks z)) := by
  rw [h.cover_eq, Set.disjoint_union_right]
  refine ⟨?_, hout⟩
  rw [Set.disjoint_left]
  rintro x ⟨hx, -⟩ ⟨-, hx'⟩
  omega

/-- `buddy_free_pages_sub` on a block of the zone that is not free: no
assertion fails, and the block becomes free. -/
theorem freePagesSub_spec (h : Good z n s) (ho : o ≤ maxOrder)
    (hi : 2 ^ o ∣ i) (hin : i + 2 ^ o ≤ n)
    (hout : Disjoint (Set.Ico i (i + 2 ^ o)) (cover (s.blocks z))) :
    ∃ t, s.freePagesSub (z + i) o = some t ∧ Freed z n s i (2 ^ o) t := by
  have hnot : ∀ x, i ≤ x → x < i + 2 ^ o → x ∉ cover (s.blocks z) :=
    fun x hx hx' => Set.disjoint_left.1 hout ⟨hx, hx'⟩
  obtain ⟨hz, -⟩ := h.zone i (by omega)
  have hidx : s.page2idx (z + i) = i := by
    rw [page2idx, hz, h.base]
    omega
  have halign : i &&& (1 <<< o - 1) = 0 := by
    rw [Nat.one_shiftLeft, Nat.and_two_pow_sub_one_eq_mod]
    exact Nat.mod_eq_zero_of_dvd hi
  have hasserts : ∀ k < 1 <<< o, (s.page (z + i + k)).reserved = false ∧
      (s.page (z + i + k)).propertyFlag = false := by
    intro k hk
    rw [Nat.add_assoc]
    exact ⟨(h.zone (i + k) (by omega)).2,
      h.unflagged (by omega) (hnot _ (by omega) (by omega))⟩
  obtain ⟨hclear, husage⟩ := h.clearPages hin hnot
  have hl : Loose z n (s.setPages (z + i) (2 ^ o) Page.release) i o := by
    refine ⟨ho, hi, hin, hout, fun x hx => ?_⟩
    rw [mem_span] at hx
    rw [husage, if_pos (by omega)]
  have hfuel : o + (maxOrder - o) = maxOrder := by omega
  obtain ⟨t, i', o', hrun, hg, hl', hnone, hcover, hus⟩ :=
    merge_spec hclear hfuel hl
  refine ⟨t.pushFree o' (z + i'), ?_, ?_, ?_, ?_⟩
  · have hcond := And.intro halign hasserts
    rw [freePagesSub, hidx, hz, if_pos hcond, Nat.one_shiftLeft, hrun]
    show some (t.pushFree o' (t.memBase 0 + i')) = _
    rw [hg.base]
  · exact hg.pushFree hl'.order_le hl'.aligned hl'.inside hl'.outside hnone
      hl'.clean
  · rw [t.blocks_pushFree z hl'.order_le, cover_insert, hcover]
    rfl
  · intro p
    rw [usage_pushFree, hus, husage]

-- ===== freeing a range

theorem Good.page2idx_eq (h : Good z n s) (hb : b < n) :
    s.page2idx (z + b) = b := by
  rw [page2idx, (h.zone b hb).1, h.base]
  omega

/-- The loop that lowers the order finds the largest that fits. -/
theorem lowerOrder_spec (hm : 0 < m) (hlt : m < 2 ^ order) :
    lowerOrder m order < order ∧ 2 ^ lowerOrder m order ≤ m ∧
      m < 2 ^ (lowerOrder m order + 1) := by
  induction order with
  | zero => omega
  | succ order ih =>
    rw [lowerOrder, Nat.one_shiftLeft, if_pos hlt]
    by_cases hle : m < 2 ^ order
    · obtain ⟨h1, h2, h3⟩ := ih hle
      exact ⟨by omega, h2, h3⟩
    · have hself : lowerOrder m order = order := by
        cases order with
        | zero => rfl
        | succ o => rw [lowerOrder, Nat.one_shiftLeft, if_neg hle]
      rw [hself]
      exact ⟨by omega, by omega, hlt⟩

section
include h

/-- The second loop of `buddy_free_pages`, from an order that is too
large and divides the index. -/
theorem freeDown_spec (hfuel : m ≤ fuel) (hm : m < 2 ^ order)
    (hb : 2 ^ order ∣ b) (horder : order ≤ maxOrder + 1) (hin : b + m ≤ n)
    (hout : Disjoint (Set.Ico b (b + m)) (cover (s.blocks z))) :
    ∃ t, freeDown fuel s (z + b) m order = some t ∧ Freed z n s b m t := by
  induction fuel generalizing s b m order with
  | zero =>
    obtain rfl : m = 0 := by omega
    exact ⟨s, rfl, Freed.refl h b⟩
  | succ fuel ih =>
    by_cases hzero : m = 0
    · subst hzero
      exact ⟨s, by simp [freeDown], Freed.refl h b⟩
    obtain ⟨hlt, hfit, hmax⟩ := lowerOrder_spec (by omega) hm
    have hstep : freeDown (fuel + 1) s (z + b) m order
        = (s.freePagesSub (z + b) (lowerOrder m order)).bind fun t =>
            freeDown fuel t (z + b + 2 ^ lowerOrder m order)
              (m - 2 ^ lowerOrder m order) (lowerOrder m order) := by
      simp only [freeDown, if_neg hzero, Nat.one_shiftLeft]
    generalize lowerOrder m order = o at hlt hfit hmax hstep
    have hdvd : 2 ^ o ∣ b :=
      Dvd.dvd.trans (pow_dvd_pow 2 (Nat.le_of_lt hlt)) hb
    obtain ⟨t, hsub, hfreed⟩ := freePagesSub_spec h (i := b) (o := o)
      (by omega) hdvd (by omega)
      (hout.mono_left (Set.Ico_subset_Ico_right (by omega)))
    have hout' : Disjoint (Set.Ico (b + 2 ^ o) (b + 2 ^ o + (m - 2 ^ o)))
        (cover (t.blocks z)) :=
      hfreed.disjoint (Nat.le_refl _)
        (hout.mono_left (Set.Ico_subset_Ico (by omega) (by omega)))
    obtain ⟨u, hrest, hfreed'⟩ := ih hfreed.good (b := b + 2 ^ o)
      (m := m - 2 ^ o) (by omega) (by omega)
      (Nat.dvd_add hdvd (Nat.dvd_refl _)) (by omega) (by omega) hout'
    refine ⟨u, ?_, ?_⟩
    · rw [hstep, hsub, Nat.add_assoc]
      exact hrest
    · have := hfreed.trans hfreed'
      rwa [Nat.add_sub_cancel' hfit] at this

/-- The first loop of `buddy_free_pages`: it frees a first part of the
range and leaves a rest whose index is a multiple of an order that is too
large for it. -/
theorem freeUp_spec (hfuel : order + fuel = maxOrder + 1)
    (hm : m < 2 ^ (maxOrder + 1)) (hb : 2 ^ order ∣ b) (hin : b + m ≤ n)
    (hout : Disjoint (Set.Ico b (b + m)) (cover (s.blocks z))) :
    ∃ t k m' order', freeUp fuel s (z + b) m order
        = some (t, z + (b + k), m', order') ∧ k + m' = m ∧
      m' < 2 ^ order' ∧ 2 ^ order' ∣ b + k ∧ order' ≤ maxOrder + 1 ∧
      Freed z n s b k t := by
  induction fuel generalizing s b m order with
  | zero =>
    obtain rfl : order = maxOrder + 1 := by omega
    refine ⟨s, 0, m, maxOrder + 1, ?_, by omega, hm, hb, Nat.le_refl _,
      Freed.refl h b⟩
    rw [freeUp, if_neg (by omega)]
    rfl
  | succ fuel ih =>
    by_cases hfit : 2 ^ order ≤ m
    · have hpow : 2 ^ (order + 1) = 2 ^ order + 2 ^ order := by ring
      have hidx := h.page2idx_eq (b := b) (by omega)
      have hnext : order + 1 + fuel = maxOrder + 1 := by omega
      by_cases hbit : 2 ^ (order + 1) ∣ b
      · -- the bit is clear: nothing is freed
        obtain ⟨t, k, m', order', hrun, hk⟩ := ih h hnext hm hbit hin hout
        refine ⟨t, k, m', order', ?_, hk⟩
        rw [freeUp, Nat.one_shiftLeft, if_pos hfit, hidx,
          if_neg (not_not.2 ((and_two_pow_eq_zero hb).2 hbit))]
        exact hrun
      · -- the bit is set: the upper half of a block
        obtain ⟨t, hsub, hfreed⟩ := freePagesSub_spec h (i := b)
          (o := order) (by omega) hb (by omega)
          (hout.mono_left (Set.Ico_subset_Ico_right (by omega)))
        have hdvd : 2 ^ (order + 1) ∣ b + 2 ^ order := by
          obtain ⟨j, hj, rfl⟩ := (half_cases hb).resolve_left hbit
          rw [Nat.add_assoc, ← hpow]
          exact Nat.dvd_add hj (Nat.dvd_refl _)
        have hout' : Disjoint
            (Set.Ico (b + 2 ^ order) (b + 2 ^ order + (m - 2 ^ order)))
            (cover (t.blocks z)) :=
          hfreed.disjoint (Nat.le_refl _)
            (hout.mono_left (Set.Ico_subset_Ico (by omega) (by omega)))
        obtain ⟨u, k, m', order', hrun, hk, hm', hd', ho', hfreed'⟩ :=
          ih hfreed.good (b := b + 2 ^ order) (m := m - 2 ^ order)
            hnext (by omega) hdvd (by omega) hout'
        refine ⟨u, 2 ^ order + k, m', order', ?_, by omega, hm', ?_, ho',
          hfreed.trans hfreed'⟩
        · rw [freeUp, Nat.one_shiftLeft, if_pos hfit, hidx,
            if_pos (fun hz => hbit ((and_two_pow_eq_zero hb).1 hz)), hsub,
            Option.bind_some, Nat.add_assoc, hrun, Nat.add_assoc]
        · rwa [Nat.add_assoc] at hd'
    · refine ⟨s, 0, m, order, ?_, by omega, by omega, hb, by omega,
        Freed.refl h b⟩
      rw [freeUp, Nat.one_shiftLeft, if_neg hfit]
      rfl

/-- `buddy_free_pages` on pages of the zone that are not free: no
assertion fails, and exactly these pages become free. -/
theorem freePages_spec (hm : 0 < m)
    (hle : m < 2 ^ (maxOrder + 1)) (hin : b + m ≤ n)
    (hout : Disjoint (Set.Ico b (b + m)) (cover (s.blocks z))) :
    ∃ t, s.freePages (z + b) m = some t ∧ Freed z n s b m t := by
  by_cases hone : m = 1
  · subst hone
    obtain ⟨t, hsub, hfreed⟩ := freePagesSub_spec h (i := b) (o := 0)
      (Nat.zero_le _) (by simp) hin hout
    refine ⟨t, ?_, hfreed⟩
    rw [freePages, if_neg (by omega), if_pos rfl, hsub]
  · have hfuel : 0 + (maxOrder + 1) = maxOrder + 1 := Nat.zero_add _
    obtain ⟨t, k, m', order, hup, hk, hm', hdvd, horder, hfreed⟩ :=
      freeUp_spec h hfuel hle (by simp) hin hout
    obtain ⟨u, hdown, hfreed'⟩ := freeDown_spec hfreed.good
      (Nat.le_refl m') hm' hdvd horder (by omega)
      (hfreed.disjoint (Nat.le_refl _)
        (hout.mono_left (Set.Ico_subset_Ico (by omega) (by omega))))
    refine ⟨u, ?_, hk ▸ hfreed.trans hfreed'⟩
    rw [freePages, if_neg (by omega), if_neg hone, hup]
    exact hdown

end

-- ===== allocation

/-- The flag of the page that is handed out may as well be cleared before
the upper halves are given back. -/
theorem split_clearPageProperty (p order d : Nat) (s : Buddy) :
    (split p order d s).clearPageProperty p
      = split p order d (s.clearPageProperty p) := by
  induction d generalizing s with
  | zero => rfl
  | succ d ih =>
    have hne : p + 2 ^ (order + d) ≠ p := by
      have := Nat.two_pow_pos (order + d)
      omega
    have hcomm : (s.pushFree (order + d)
          (p + 2 ^ (order + d))).clearPageProperty p
        = (s.clearPageProperty p).pushFree (order + d)
          (p + 2 ^ (order + d)) := by
      simp only [Buddy.pushFree, clearPageProperty, setPage,
        update_of_ne hne, update_of_ne hne.symm]
      rw [update_comm hne]
    rw [split, ih, hcomm, split]

/-- The splitting loop: the loose block shrinks to its lowest part of
order `order`, the rest is free. -/
theorem split_spec (h : Good z n s) {d : Nat}
    (hl : Loose z n s i (order + d)) : Good z n (split (z + i) order d s) ∧
      Loose z n (split (z + i) order d s) i order ∧
      span i order ∪ cover ((split (z + i) order d s).blocks z)
        = span i (order + d) ∪ cover (s.blocks z) ∧
      (split (z + i) order d s).usage = s.usage := by
  induction d generalizing s with
  | zero => exact ⟨h, hl, rfl, rfl⟩
  | succ d ih =>
    have ho : order + d < maxOrder := hl.order_le
    have hin := hl.inside
    have hal := hl.aligned
    rw [← Nat.add_assoc] at hin hal
    have hdvd : 2 ^ (order + d) ∣ i :=
      Dvd.dvd.trans (pow_dvd_pow 2 (Nat.le_succ _)) hal
    have hspan : span i (order + (d + 1))
        = span i (order + d) ∪ span (i + 2 ^ (order + d)) (order + d) := by
      have := (span_union_buddy hdvd).2
      rw [and_buddy_lower hal, buddy_lower hal] at this
      exact this.symm
    have hout := hl.outside
    have hclean := hl.clean
    rw [hspan] at hout hclean
    rw [Set.disjoint_union_left] at hout
    have hpush := h.pushFree (o := order + d) (i := i + 2 ^ (order + d))
      (by omega) (Nat.dvd_add hdvd (Nat.dvd_refl _)) (by omega) hout.2
      (fun _ hmem => by
        rw [buddy_upper hal] at hmem
        exact Set.disjoint_left.1 hout.1 (start_mem_span i _)
          (span_subset_cover hmem (start_mem_span i _)))
      (fun x hx => hclean x (.inr hx))
    have hblocks := s.blocks_pushFree z (i := i + 2 ^ (order + d))
      (o := order + d) (by omega)
    have hl' : Loose z n (s.pushFree (order + d) (z + (i + 2 ^ (order + d))))
        i (order + d) := by
      refine ⟨by omega, hdvd, by omega, ?_, fun x hx => ?_⟩
      · rw [hblocks, cover_insert, Set.disjoint_union_right]
        refine ⟨?_, hout.1⟩
        have := disjoint_buddy hdvd
        rwa [buddy_lower hal] at this
      · rw [usage_pushFree]
        exact hclean x (.inl hx)
    obtain ⟨hg, hl'', hcover, husage⟩ := ih hpush hl'
    rw [split, Nat.add_assoc z]
    refine ⟨hg, hl'', ?_, ?_⟩
    · rw [hcover, hblocks, cover_insert, hspan, Set.union_assoc]
    · rw [husage, usage_pushFree]

/-- Where allocation starts: the first order from `order` on with a free
block, if there is one. -/
theorem allocPagesSub_cases (s : Buddy) (ho : order ≤ maxOrder) :
    (s.allocPagesSub order = some (s, none) ∧
      ∀ o, order ≤ o → o ≤ maxOrder → s.freeList o = []) ∨
    ∃ cur page, order ≤ cur ∧ cur ≤ maxOrder ∧ page ∈ s.freeList cur ∧
      s.allocPagesSub order = some (split page order (cur - order)
        (s.removeFree cur page), some page) := by
  unfold allocPagesSub
  rw [if_pos ho]
  cases hfind : (List.range' order (maxOrder + 1 - order)).find? fun o =>
      !(s.freeList o).isEmpty with
  | none =>
    refine .inl ⟨rfl, fun o hle hmax => ?_⟩
    have := List.find?_eq_none.1 hfind o (List.mem_range'_1.2 ⟨hle, by omega⟩)
    simpa using this
  | some cur =>
    have hmem := List.mem_range'_1.1 (List.mem_of_find?_eq_some hfind)
    have hne : s.freeList cur ≠ [] := by
      simpa using List.find?_some hfind
    obtain ⟨page, rest, hlist⟩ := List.exists_cons_of_ne_nil hne
    refine .inr ⟨cur, page, hmem.1, by omega, by simp [hlist], ?_⟩
    simp only [hlist, List.head?_cons, Option.map_some,
      split_clearPageProperty]
    rfl

/-- `buddy_alloc_pages_sub`: it fails only if there is no block, and
otherwise takes a block that was free out of the lists. -/
theorem allocPagesSub_spec (h : Good z n s) (ho : order ≤ maxOrder) :
    (s.allocPagesSub order = some (s, none) ∧
      ∀ o, order ≤ o → o ≤ maxOrder → s.freeList o = []) ∨
    ∃ t i, s.allocPagesSub order = some (t, some (z + i)) ∧ Good z n t ∧
      Loose z n t i order ∧
      span i order ∪ cover (t.blocks z) = cover (s.blocks z) ∧
      t.usage = s.usage := by
  rcases s.allocPagesSub_cases ho with hnone |
    ⟨cur, page, hle, hmax, hpage, hrun⟩
  · exact .inl hnone
  · right
    obtain ⟨i, rfl⟩ := Nat.exists_eq_add_of_le (h.above cur hmax page hpage)
    have hmem : (i, cur) ∈ s.blocks z := ⟨hmax, hpage⟩
    have hcover := h.coalesced.cover_diff hmem
    rw [← h.blocks_removeFree hmem] at hcover
    have hsub : span i cur ⊆ cover (s.blocks z) := span_subset_cover hmem
    obtain ⟨d, rfl⟩ := Nat.exists_eq_add_of_le hle
    have hl : Loose z n (s.removeFree (order + d) (z + i)) i (order + d) := by
      refine ⟨hmax, h.coalesced.aligned _ hmem, h.inside _ hmem, ?_, ?_⟩
      · rw [hcover]
        exact Set.disjoint_sdiff_right
      · intro x hx
        rw [usage_removeFree]
        exact h.clean x (hsub hx)
    obtain ⟨hg, hl', hcov, hus⟩ := split_spec (h.removeFree hmem) hl
    rw [Nat.add_sub_cancel_left] at hrun
    refine ⟨_, i, hrun, hg, hl', ?_, ?_⟩
    · rw [hcov, hcover]
      exact Set.union_sdiff_cancel hsub
    · rw [hus, usage_removeFree]

theorem getorder_spec (hk : k ≤ 2 ^ maxOrder) :
    ∃ order, getorder k = some order ∧ order ≤ maxOrder ∧ k ≤ 2 ^ order := by
  unfold getorder
  cases hfind : (List.range (maxOrder + 1)).find? fun order =>
      decide (k ≤ 2 ^ order) with
  | none =>
    have := List.find?_eq_none.1 hfind maxOrder (by simp)
    simp [hk] at this
  | some order =>
    have hmem := List.mem_range.1 (List.mem_of_find?_eq_some hfind)
    exact ⟨order, rfl, by omega, by simpa using List.find?_some hfind⟩

/-- `buddy_alloc_pages`: it fails only if there is no block, and otherwise
takes exactly the pages asked for out of the free ones. -/
theorem allocPages_spec (h : Good z n s) (hk : 0 < k)
    (hle : k ≤ 2 ^ maxOrder) : ∃ order, getorder k = some order ∧
      ((s.allocPages k = some (s, none) ∧
        ∀ o, order ≤ o → o ≤ maxOrder → s.freeList o = []) ∨
      ∃ t i, s.allocPages k = some (t, some (z + i)) ∧ Good z n t ∧
        Set.Ico i (i + k) ⊆ cover (s.blocks z) ∧
        cover (t.blocks z) = cover (s.blocks z) \ Set.Ico i (i + k) ∧
        t.usage = s.usage) := by
  obtain ⟨order, hget, ho, hfit⟩ := getorder_spec hle
  refine ⟨order, hget, ?_⟩
  rcases allocPagesSub_spec h ho with ⟨hsub, hnone⟩ |
    ⟨t, i, hsub, hg, hl, hcover, hus⟩
  · left
    refine ⟨?_, hnone⟩
    rw [allocPages, if_neg (by omega), hget, Option.bind_some, hsub]
    rfl
  · right
    have hrange : Set.Ico i (i + k) ⊆ span i order :=
      Set.Ico_subset_Ico_right (by omega)
    have hstep : s.allocPages k = if k = 2 ^ order then some (t, some (z + i))
        else (t.freePages (z + i + k) (2 ^ order - k)).map fun u =>
          (u, some (z + i)) := by
      rw [allocPages, if_neg (by omega), hget, Option.bind_some, hsub,
        Nat.one_shiftLeft]
      rfl
    have hsubset : Set.Ico i (i + k) ⊆ cover (s.blocks z) := by
      rw [← hcover]
      exact hrange.trans Set.subset_union_left
    rw [hstep]
    by_cases hexact : k = 2 ^ order
    · refine ⟨t, i, if_pos hexact, hg, hsubset, ?_, hus⟩
      rw [← hcover, hexact]
      exact (Set.union_sdiff_cancel_left (Set.disjoint_iff.1 hl.outside)).symm
    · -- the unused tail goes back
      have hpow : 2 ^ order ≤ 2 ^ maxOrder := Nat.pow_le_pow_right (by omega) ho
      have hlt : 2 ^ order - k < 2 ^ (maxOrder + 1) := by omega
      have htail : i + k + (2 ^ order - k) = i + 2 ^ order := by omega
      obtain ⟨u, hfree, hfreed⟩ := freePages_spec hg (b := i + k)
        (m := 2 ^ order - k) (by omega) hlt (htail ▸ hl.inside)
        (hl.outside.mono_left (by
          rw [htail]
          exact Set.Ico_subset_Ico_left (by omega)))
      refine ⟨u, i, ?_, hfreed.good, hsubset, ?_, ?_⟩
      · rw [if_neg hexact, Nat.add_assoc, hfree]
        rfl
      · have hdis := Set.disjoint_left.1 hl.outside
        rw [hfreed.cover_eq, ← hcover]
        ext x
        simp only [Set.mem_union, Set.mem_sdiff, Set.mem_Ico, mem_span]
        constructor
        · rintro (hx | hx)
          · exact ⟨.inl (by omega), by omega⟩
          · refine ⟨.inr hx, fun hx' => hdis ?_ hx⟩
            exact hrange hx'
        · rintro ⟨hx | hx, hx'⟩
          · exact .inl (by omega)
          · exact .inr hx
      · funext p
        rw [hfreed.usage_eq, ← hus]
        split
        case isTrue hp =>
          obtain ⟨x, rfl⟩ := Nat.exists_eq_add_of_le (show z ≤ p by omega)
          exact (hl.clean x ⟨by omega, by omega⟩).symm
        case isFalse => rfl

end Buddy

end MipsUcore.Kern
