/-
A ring of cells between two counters.

The cells from `head` up to `tail` are in use, around the end if need be;
both counters run on without being compared, so a ring of `2 ^ w` cells
holds one element less. The contents are a list, the oldest element first:
putting one in appends it, taking one out drops the head.

Nothing here knows what is in the cells.
-/
import Mathlib.Data.BitVec
import Mathlib.Logic.Function.Basic
import Mathlib.Tactic.Abel

namespace Ring

open Function

variable {α : Type*} {w : Nat} {head tail : BitVec w} {cell : BitVec w → α}

/-- The elements, the oldest first. -/
def contents (head tail : BitVec w) (cell : BitVec w → α) : List α :=
  (List.range (tail - head).toNat).map fun j => cell (head + BitVec.ofNat w j)

theorem length_contents :
    (contents head tail cell).length = (tail - head).toNat := by
  simp [contents]

theorem contents_eq_nil_iff : contents head tail cell = [] ↔ head = tail := by
  have hzero : (tail - head).toNat = 0 ↔ tail - head = 0#w := by
    rw [← BitVec.toNat_inj]
    simp
  rw [← List.length_eq_zero_iff, length_contents, hzero]
  exact sub_eq_zero.trans eq_comm

/-- The counter that is `j` ahead of `head`. -/
theorem ahead_eq_iff {j : Nat} (hj : j < 2 ^ w) :
    head + BitVec.ofNat w j = tail ↔ j = (tail - head).toNat := by
  constructor
  · intro h
    rw [← h, add_sub_cancel_left, BitVec.toNat_ofNat, Nat.mod_eq_of_lt hj]
  · intro h
    rw [h, BitVec.ofNat_toNat, BitVec.setWidth_eq, add_sub_cancel]

/-- The next counter, as a number. -/
theorem toNat_succ {x y : BitVec w} (hy : y = x + 1)
    (hlt : x.toNat + 1 < 2 ^ w) : y.toNat = x.toNat + 1 := by
  have hone : (1#w).toNat = 1 := Nat.mod_eq_of_lt (by omega)
  have hadd : (x + 1#w).toNat = x.toNat + (1#w).toNat :=
    BitVec.toNat_add_of_lt (by rw [hone]; exact hlt)
  rw [hy, ← hone]
  exact hadd

/-- Putting an element in where there is room. -/
theorem contents_push (a : α) (h : (tail - head).toNat + 1 < 2 ^ w) :
    contents head (tail + 1) (update cell tail a)
      = contents head tail cell ++ [a] := by
  have hcount : (tail + 1 - head).toNat = (tail - head).toNat + 1 :=
    toNat_succ (by rw [add_sub_right_comm]) h
  have hlast : head + BitVec.ofNat w (tail - head).toNat = tail :=
    (ahead_eq_iff (BitVec.isLt _)).mpr rfl
  unfold contents
  rw [hcount, List.range_succ, List.map_append, List.map_singleton, hlast,
    update_self]
  congr 1
  refine List.map_congr_left fun j hj => ?_
  have hlt := List.mem_range.mp hj
  apply update_of_ne
  intro heq
  have hj := (ahead_eq_iff (by omega)).mp heq
  omega

/-- Taking an element out. -/
theorem contents_pop (h : head ≠ tail) : contents head tail cell
      = cell head :: contents (head + 1) tail cell := by
  -- the counters differ, so the next one does not come back to `tail`
  have hcount : (tail - head).toNat = (tail - (head + 1)).toNat + 1 := by
    refine toNat_succ (by abel) (Nat.lt_of_le_of_ne (BitVec.isLt _) ?_)
    intro hfull
    apply h
    have hall : tail - (head + 1#w) + 1#w = 0#w := by
      apply BitVec.eq_of_toNat_eq
      rw [BitVec.toNat_add, BitVec.toNat_ofNat, Nat.add_mod_mod]
      exact (congrArg (· % 2 ^ w) hfull).trans (Nat.mod_self _)
    have hzero : tail - head = 0#w := by
      rw [← hall]
      exact (show tail - head = tail - (head + 1) + 1 by abel)
    exact (sub_eq_zero.mp hzero).symm
  unfold contents
  rw [hcount, List.range_succ_eq_map, List.map_cons, List.map_map]
  congr 1
  · congr 1
    exact BitVec.add_zero head
  · refine List.map_congr_left fun j _ => ?_
    simp only [Function.comp_apply]
    congr 1
    rw [Nat.succ_eq_add_one, BitVec.ofNat_add]
    exact (show head + (BitVec.ofNat w j + 1) = head + 1 + BitVec.ofNat w j by
      abel)

end Ring
