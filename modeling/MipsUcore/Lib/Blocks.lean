/-
Aligned blocks of numbers: the arithmetic of buddy systems.

A block `(i, o)` is the `2^o` numbers from `i` on, with `2^o ∣ i`. Two
blocks are nested or disjoint. The buddy of `(i, o)` is the other half of
the block of order `o + 1` around it.

# Coalesced families

A family of disjoint blocks of order at most `top` is coalesced when it
holds no two buddies below order `top`. Then every block inside the
numbers it covers lies inside one of its members (`exists_superblock`):
by induction on the order, both halves of the block lie in members, and
members that reach beyond a half are either that half or reach beyond
the block. Hence what a coalesced family covers determines it
(`Coalesced.eq_of_cover_eq`), however it came about.
-/
import Mathlib.Data.Nat.Bitwise
import Mathlib.Data.Set.Card
import Mathlib.Data.Set.Lattice
import Mathlib.Order.CompletePartialOrder
import Mathlib.Order.Interval.Finset.Nat
import Mathlib.Tactic.Ring

namespace Blocks

-- ===== blocks

/-- The numbers of a block. -/
def span (i o : Nat) : Set Nat := Set.Ico i (i + 2 ^ o)

variable {i j o o' x : Nat}

theorem mem_span : x ∈ span i o ↔ i ≤ x ∧ x < i + 2 ^ o := Iff.rfl

theorem start_mem_span (i o : Nat) : i ∈ span i o :=
  ⟨Nat.le_refl i, Nat.lt_add_of_pos_right (Nat.two_pow_pos o)⟩

theorem span_finite (i o : Nat) : (span i o).Finite := Set.finite_Ico ..

theorem span_ncard (i o : Nat) : (span i o).ncard = 2 ^ o := by
  unfold span
  rw [Set.ncard_eq_toFinset_card', Set.toFinset_Ico, Nat.card_Ico]
  exact Nat.add_sub_cancel_left _ _

/-- Blocks are nested or disjoint: the smaller one lies in the larger one
as soon as they meet. -/
theorem span_subset_of_meet (hi : 2 ^ o ∣ i)
    (hj : 2 ^ o' ∣ j) (ho : o ≤ o') (hxi : x ∈ span i o)
    (hxj : x ∈ span j o') : span i o ⊆ span j o' := by
  rw [mem_span] at hxi hxj
  obtain ⟨a, rfl⟩ := hi
  obtain ⟨b, rfl⟩ := hj
  obtain ⟨d, rfl⟩ := Nat.exists_eq_add_of_le ho
  -- in units of `2^o` both ends of the larger block are whole
  have hpow : 2 ^ (o + d) = 2 ^ o * 2 ^ d := Nat.pow_add ..
  rw [hpow, Nat.mul_assoc] at hxj
  have hlow : 2 ^ d * b ≤ a := by
    by_contra h
    have : 2 ^ o * (a + 1) ≤ 2 ^ o * (2 ^ d * b) :=
      Nat.mul_le_mul_left _ (by omega)
    rw [Nat.mul_add, Nat.mul_one] at this
    omega
  have hhigh : a + 1 ≤ 2 ^ d * b + 2 ^ d := by
    by_contra h
    have : 2 ^ o * (2 ^ d * b + 2 ^ d) ≤ 2 ^ o * a :=
      Nat.mul_le_mul_left _ (by omega)
    rw [Nat.mul_add] at this
    omega
  have hlow' := Nat.mul_le_mul_left (2 ^ o) hlow
  have hhigh' := Nat.mul_le_mul_left (2 ^ o) hhigh
  rw [Nat.mul_add, Nat.mul_one, Nat.mul_add] at hhigh'
  intro y hy
  rw [mem_span] at hy ⊢
  rw [hpow, Nat.mul_assoc]
  omega

/-- A block of the same order that meets another is the other. -/
theorem eq_of_meet (hi : 2 ^ o ∣ i) (hj : 2 ^ o ∣ j)
    (hxi : x ∈ span i o) (hxj : x ∈ span j o) : i = j := by
  have hle := (span_subset_of_meet hi hj (Nat.le_refl o) hxi hxj
    (start_mem_span i o)).1
  have hge := (span_subset_of_meet hj hi (Nat.le_refl o) hxj hxi
    (start_mem_span j o)).1
  omega

/-- A block lies in another only if its order is at most the other's. -/
theorem order_le_of_subset (h : span i o ⊆ span j o') : o ≤ o' := by
  have hcard := Set.ncard_le_ncard h (span_finite j o')
  rw [span_ncard, span_ncard] at hcard
  exact (Nat.pow_le_pow_iff_right (by omega)).1 hcard

-- ===== buddies

/-- The other half of the block of order `o + 1` around `(i, o)`. -/
def buddy (i o : Nat) : Nat := i ^^^ 2 ^ o

/-- A block of order `o` is the lower or the upper half of one of order
`o + 1`. -/
theorem half_cases (h : 2 ^ o ∣ i) :
    (2 ^ (o + 1) ∣ i) ∨ ∃ j, 2 ^ (o + 1) ∣ j ∧ i = j + 2 ^ o := by
  obtain ⟨q, rfl⟩ := h
  rcases Nat.even_or_odd' q with ⟨r, rfl | rfl⟩
  · left
    exact ⟨r, by ring⟩
  · right
    exact ⟨2 ^ (o + 1) * r, ⟨r, rfl⟩, by ring⟩

/-- The buddy of a lower half is the upper half. -/
theorem buddy_lower (h : 2 ^ (o + 1) ∣ i) : buddy i o = i + 2 ^ o := by
  obtain ⟨r, rfl⟩ := h
  have hlt : 2 ^ o < 2 ^ (o + 1) := Nat.pow_lt_pow_succ (by omega)
  apply Nat.eq_of_testBit_eq
  intro k
  rw [buddy, Nat.testBit_xor, Nat.testBit_two_pow_mul_add r hlt,
    Nat.testBit_two_pow_mul, Nat.testBit_two_pow]
  by_cases hk : k < o + 1
  · simp [hk, Nat.not_le.2 hk]
  · have hne : o ≠ k := by omega
    simp [hk, Nat.le_of_not_lt hk, hne]

/-- The buddy of an upper half is the lower half. -/
theorem buddy_upper (h : 2 ^ (o + 1) ∣ i) : buddy (i + 2 ^ o) o = i := by
  rw [← buddy_lower h, buddy, buddy, Nat.xor_assoc, Nat.xor_self, Nat.xor_zero]

/-- The bit `o` tells the halves apart. -/
theorem and_two_pow_eq_zero (h : 2 ^ o ∣ i) :
    i &&& 2 ^ o = 0 ↔ 2 ^ (o + 1) ∣ i := by
  have hlt : 2 ^ o < 2 ^ (o + 1) := Nat.pow_lt_pow_succ (by omega)
  have hpos := Nat.two_pow_pos o
  rcases half_cases h with hi | ⟨j, ⟨r, rfl⟩, rfl⟩
  · obtain ⟨r, rfl⟩ := hi
    rw [Nat.and_two_pow, Nat.testBit_two_pow_mul]
    simp
  · have hnot : ¬ 2 ^ (o + 1) ∣ 2 ^ (o + 1) * r + 2 ^ o := by
      rw [Nat.dvd_add_right (Nat.dvd_mul_right ..)]
      exact Nat.not_dvd_of_pos_of_lt hpos hlt
    rw [Nat.and_two_pow, Nat.testBit_two_pow_mul_add r hlt]
    simp [hnot]

/-- The two halves meet in nothing: their common bits are the lower
half. -/
theorem and_buddy_lower (h : 2 ^ (o + 1) ∣ i) : i &&& buddy i o = i := by
  obtain ⟨r, rfl⟩ := h
  apply Nat.eq_of_testBit_eq
  intro k
  rw [buddy, Nat.testBit_and, Nat.testBit_xor, Nat.testBit_two_pow_mul,
    Nat.testBit_two_pow]
  by_cases hk : k < o + 1
  · simp [Nat.not_le.2 hk]
  · have hne : o ≠ k := by omega
    simp [hne]

theorem and_buddy_upper (h : 2 ^ (o + 1) ∣ i) :
    (i + 2 ^ o) &&& buddy (i + 2 ^ o) o = i := by
  rw [buddy_upper h, ← buddy_lower h, Nat.and_comm]
  exact and_buddy_lower h

/-- A block and its buddy make the block around them, which starts at
their common bits. -/
theorem span_union_buddy (h : 2 ^ o ∣ i) : 2 ^ (o + 1) ∣ (i &&& buddy i o) ∧
      span i o ∪ span (buddy i o) o = span (i &&& buddy i o) (o + 1) := by
  rcases half_cases h with hi | ⟨j, hj, rfl⟩
  · rw [and_buddy_lower hi, buddy_lower hi]
    refine ⟨hi, ?_⟩
    ext x
    simp only [Set.mem_union, mem_span]
    omega
  · rw [and_buddy_upper hj, buddy_upper hj]
    refine ⟨hj, ?_⟩
    ext x
    simp only [Set.mem_union, mem_span]
    omega

theorem disjoint_buddy (h : 2 ^ o ∣ i) :
    Disjoint (span i o) (span (buddy i o) o) := by
  rw [Set.disjoint_left]
  intro x hx hx'
  rw [mem_span] at hx hx'
  rcases half_cases h with hi | ⟨j, hj, rfl⟩
  · rw [buddy_lower hi] at hx'
    omega
  · rw [buddy_upper hj] at hx'
    omega

-- ===== families

/-- The numbers a family of blocks covers. -/
def cover (B : Set (Nat × Nat)) : Set Nat :=
  {x | ∃ b ∈ B, x ∈ span b.1 b.2}

/-- Disjoint blocks of order at most `top`, no two of them buddies below
`top`. -/
structure Coalesced (top : Nat) (B : Set (Nat × Nat)) : Prop where
  order_le : ∀ b ∈ B, b.2 ≤ top
  aligned : ∀ b ∈ B, 2 ^ b.2 ∣ b.1
  apart : ∀ b ∈ B, ∀ c ∈ B, ∀ x, x ∈ span b.1 b.2 → x ∈ span c.1 c.2 → b = c
  merged : ∀ b ∈ B, b.2 < top → (buddy b.1 b.2, b.2) ∉ B

variable {top : Nat} {B C : Set (Nat × Nat)}

theorem coalesced_empty (top : Nat) : Coalesced top ∅ := by
  constructor <;> simp

theorem cover_empty : cover ∅ = ∅ := by
  simp [cover]

theorem span_subset_cover {b : Nat × Nat} (h : b ∈ B) :
    span b.1 b.2 ⊆ cover B := fun _ hx => ⟨b, h, hx⟩

theorem cover_insert (i o : Nat) (B : Set (Nat × Nat)) :
    cover (insert (i, o) B) = span i o ∪ cover B := by
  ext x
  simp [cover]

/-- A block outside the cover whose buddy is not a member may join. -/
theorem Coalesced.insert (h : Coalesced top B) (ho : o ≤ top)
    (hi : 2 ^ o ∣ i) (hdis : Disjoint (span i o) (cover B))
    (hbuddy : o < top → (buddy i o, o) ∉ B) :
    Coalesced top (insert (i, o) B) := by
  have hout : ∀ c ∈ B, ∀ x, x ∈ span i o → x ∉ span c.1 c.2 :=
    fun c hc x hx hxc => Set.disjoint_left.1 hdis hx (span_subset_cover hc hxc)
  constructor
  case order_le =>
    rintro b (rfl | hb)
    · exact ho
    · exact h.order_le b hb
  case aligned =>
    rintro b (rfl | hb)
    · exact hi
    · exact h.aligned b hb
  case apart =>
    rintro b (rfl | hb) c (rfl | hc) x hxb hxc
    · rfl
    · exact absurd hxc (hout c hc x hxb)
    · exact absurd hxb (hout b hb x hxc)
    · exact h.apart b hb c hc x hxb hxc
  case merged =>
    rintro b (rfl | hb) hlt (heq | hmem)
    · -- no block is its own buddy
      have hself : buddy i o = i := congrArg Prod.fst heq
      have hdisj := disjoint_buddy hi
      rw [hself] at hdisj
      exact Set.disjoint_left.1 hdisj (start_mem_span i o) (start_mem_span i o)
    · exact hbuddy hlt hmem
    · -- the member's buddy is the new block: then it is the new block's
      obtain ⟨hb1, hb2⟩ := Prod.mk.inj heq
      have hback : buddy i o = b.1 := by
        rw [← hb1, ← hb2, buddy, buddy, Nat.xor_assoc, Nat.xor_self,
          Nat.xor_zero]
      have : (buddy i o, o) = b := Prod.ext hback hb2.symm
      exact hbuddy (hb2 ▸ hlt) (this ▸ hb)
    · exact h.merged b hb hlt hmem

/-- Members may leave. -/
theorem Coalesced.subset (h : Coalesced top B) (hsub : C ⊆ B) :
    Coalesced top C where
  order_le b hb := h.order_le b (hsub hb)
  aligned b hb := h.aligned b (hsub hb)
  apart b hb c hc := h.apart b (hsub hb) c (hsub hc)
  merged b hb hlt hmem := h.merged b (hsub hb) hlt (hsub hmem)

/-- What is left when a member leaves. -/
theorem Coalesced.cover_diff (h : Coalesced top B) {b : Nat × Nat}
    (hb : b ∈ B) : cover (B \ {b}) = cover B \ span b.1 b.2 := by
  ext x
  constructor
  · rintro ⟨c, ⟨hc, hne⟩, hx⟩
    refine ⟨⟨c, hc, hx⟩, fun hxb => hne ?_⟩
    exact h.apart c hc b hb x hx hxb
  · rintro ⟨⟨c, hc, hx⟩, hxb⟩
    refine ⟨c, ⟨hc, fun heq => hxb ?_⟩, hx⟩
    rwa [← heq]

/-- Every block inside the cover lies inside one member. -/
theorem Coalesced.exists_superblock (h : Coalesced top B)
    (ho : o ≤ top) (hi : 2 ^ o ∣ i) (hsub : span i o ⊆ cover B) :
    ∃ b ∈ B, span i o ⊆ span b.1 b.2 := by
  induction o generalizing i with
  | zero =>
    obtain ⟨b, hb, hx⟩ := hsub (start_mem_span i 0)
    exact ⟨b, hb, span_subset_of_meet hi (h.aligned b hb) (Nat.zero_le _)
      (start_mem_span i 0) hx⟩
  | succ o ih =>
    have hlow : 2 ^ o ∣ i := Dvd.dvd.trans (pow_dvd_pow 2 (Nat.le_succ o)) hi
    have hhigh : 2 ^ o ∣ i + 2 ^ o := Nat.dvd_add hlow (Nat.dvd_refl _)
    have hsubl : span i o ⊆ span i (o + 1) := by
      intro x hx
      rw [mem_span] at hx ⊢
      omega
    have hsubh : span (i + 2 ^ o) o ⊆ span i (o + 1) := by
      intro x hx
      rw [mem_span] at hx ⊢
      omega
    obtain ⟨b, hb, hbi⟩ := ih (by omega) hlow (hsubl.trans hsub)
    obtain ⟨c, hc, hci⟩ := ih (by omega) hhigh (hsubh.trans hsub)
    have hbo := order_le_of_subset hbi
    have hco := order_le_of_subset hci
    -- a member that reaches beyond its half holds the whole block
    by_cases hb1 : o + 1 ≤ b.2
    · exact ⟨b, hb, span_subset_of_meet hi (h.aligned b hb) hb1
        (start_mem_span i _) (hbi (start_mem_span i o))⟩
    by_cases hc1 : o + 1 ≤ c.2
    · exact ⟨c, hc, span_subset_of_meet hi (h.aligned c hc) hc1
        (hsubh (start_mem_span _ o)) (hci (start_mem_span _ o))⟩
    -- otherwise both halves are members, and buddies
    obtain ⟨bi, bo⟩ := b
    obtain ⟨ci, co⟩ := c
    obtain rfl : bo = o := by simp only at hbo hb1; omega
    obtain rfl : co = bo := by simp only at hco hc1; omega
    have hbeq : i = bi := eq_of_meet hlow (h.aligned _ hb)
      (start_mem_span i _) (hbi (start_mem_span i _))
    have hceq : i + 2 ^ co = ci := eq_of_meet hhigh (h.aligned _ hc)
      (start_mem_span _ _) (hci (start_mem_span _ _))
    subst hbeq hceq
    refine absurd hc ?_
    have := h.merged _ hb (show co < top by omega)
    rwa [buddy_lower hi] at this

/-- A coalesced family is determined by what it covers. -/
theorem Coalesced.subset_of_cover_eq (hB : Coalesced top B)
    (hC : Coalesced top C) (hcover : cover B = cover C) : B ⊆ C := by
  intro b hb
  obtain ⟨c, hc, hbc⟩ := hC.exists_superblock (hB.order_le b hb)
    (hB.aligned b hb) (hcover ▸ span_subset_cover hb)
  obtain ⟨d, hd, hcd⟩ := hB.exists_superblock (hC.order_le c hc)
    (hC.aligned c hc) (hcover ▸ span_subset_cover hc)
  -- the member around `c` is `b` itself
  obtain rfl : b = d := hB.apart b hb d hd b.1 (start_mem_span _ _)
    (hcd (hbc (start_mem_span _ _)))
  have hord : b.2 = c.2 :=
    Nat.le_antisymm (order_le_of_subset hbc) (order_le_of_subset hcd)
  have hstart : b.1 = c.1 := by
    have hal := hC.aligned c hc
    rw [← hord] at hal hbc
    exact eq_of_meet (hB.aligned b hb) hal (start_mem_span _ _)
      (hbc (start_mem_span _ _))
  rwa [Prod.ext hstart hord]

theorem Coalesced.eq_of_cover_eq (hB : Coalesced top B)
    (hC : Coalesced top C) (hcover : cover B = cover C) : B = C :=
  Set.Subset.antisymm (hB.subset_of_cover_eq hC hcover)
    (hC.subset_of_cover_eq hB hcover.symm)

end Blocks
