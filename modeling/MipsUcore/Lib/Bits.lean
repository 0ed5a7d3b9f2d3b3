/-
Bit-vector arithmetic as hardware spells it.

Circuits compute signed results out of unsigned parts: a comparison by
looking at signs and the sign of a difference, an arithmetic shift by
or-ing a sign mask over a logical one, a signed product out of the
product of magnitudes, a scaled offset by appending zeros. Each lemma
says which signed operation such a circuit is, for any width.
-/
import Mathlib.Data.BitVec
import Mathlib.Data.Int.Order.Basic
import Mathlib.Tactic.Linarith
import Mathlib.Tactic.Ring

namespace Bits

variable {w : Nat}
  {b m n v : Nat}

-- ===== subtraction

/-- Adding the two's complement is subtracting. -/
theorem add_not_add_one (x y : BitVec w) : x + (~~~y + 1#w) = x - y := by
  rw [← BitVec.neg_eq_not_add, ← BitVec.sub_eq_add_neg]

-- ===== signed comparison

/-- Between numbers of one sign, the sign of the difference decides. -/
theorem msb_sub_of_msb_eq {x y : BitVec w} (h : x.msb = y.msb) :
    (x - y).msb = decide (x.toInt < y.toInt) := by
  have hx := BitVec.le_toInt x
  have hx' := BitVec.toInt_lt (x := x)
  have hy := BitVec.le_toInt y
  have hy' := BitVec.toInt_lt (x := y)
  rw [BitVec.msb_eq_toInt, BitVec.msb_eq_toInt] at h
  have hsign : x.toInt < 0 ↔ y.toInt < 0 := by simpa using h
  rw [BitVec.msb_eq_toInt, BitVec.toInt_sub]
  cases w with
  | zero => simp [BitVec.of_length_zero]
  | succ n =>
    -- the difference stays in range, so the wrap-around is the identity
    have hbmod : (x.toInt - y.toInt).bmod (2 ^ (n + 1))
        = x.toInt - y.toInt := by
      simp only [Nat.add_sub_cancel] at hx hx' hy hy'
      have hpow : ((2 ^ (n + 1) : Nat) : Int) = 2 * 2 ^ n := by
        push_cast
        ring
      apply Int.bmod_eq_of_le <;> rw [hpow] <;> omega
    rw [hbmod]
    simp

/-- The sign analysis of a signed comparator. -/
theorem slt_by_signs (x y : BitVec w) :
    ((x.msb && !y.msb) || (!x.msb && !y.msb && (x - y).msb)
      || (x.msb && y.msb && (x - y).msb)) = decide (x.toInt < y.toInt) := by
  by_cases h : x.msb = y.msb
  · rw [msb_sub_of_msb_eq h, h]
    cases y.msb <;> simp
  · have hx := BitVec.msb_eq_toInt (x := x)
    have hy := BitVec.msb_eq_toInt (x := y)
    cases hmx : x.msb <;> cases hmy : y.msb <;> rw [hmx, hmy] at h <;>
      first | exact absurd rfl h | skip
    all_goals
      rw [hmx] at hx
      rw [hmy] at hy
      simp at hx hy ⊢
      omega

-- ===== arithmetic shift

/-- A sign mask over a logical shift is an arithmetic shift. -/
theorem sshiftRight_by_mask (x : BitVec w) (n : Nat) (h : n ≤ w) :
    (BitVec.fill w x.msb <<< (w - n)) ||| (x >>> n) = x.sshiftRight n := by
  apply BitVec.eq_of_getLsbD_eq
  intro i hi
  rw [BitVec.getLsbD_or, BitVec.getLsbD_shiftLeft, BitVec.getLsbD_fill,
    BitVec.getLsbD_ushiftRight, BitVec.getLsbD_sshiftRight]
  by_cases hlow : n + i < w
  · have hmask : i < w - n := by omega
    simp [hi, hlow, hmask]
  · have hmask : ¬ i < w - n := by omega
    have hin : i - (w - n) < w := by omega
    have hout : x.getLsbD (n + i) = false :=
      BitVec.getLsbD_of_ge x _ (by omega)
    simp [hi, hlow, hmask, hin, hout]

-- ===== product

/-- The magnitude of a signed number, widened. -/
theorem setWidth_abs (x : BitVec w) :
    x.abs.setWidth v = BitVec.ofInt v |x.toInt| := by
  have habs : |x.toInt| = (x.abs.toNat : Int) := by
    rw [BitVec.toNat_abs, BitVec.toInt_eq_msb_cond]
    cases hm : x.msb with
    | false => simp
    | true =>
      simp only [if_true]
      rw [abs_of_nonpos (by omega)]
      omega
  rw [habs, BitVec.ofInt_natCast, BitVec.ofNat_toNat]

/-- A signed product out of the product of magnitudes. -/
theorem mul_by_magnitudes (x y : BitVec w) :
    (if x.msb ^^ y.msb then -(x.abs.setWidth v * y.abs.setWidth v)
      else x.abs.setWidth v * y.abs.setWidth v)
      = BitVec.ofInt v (x.toInt * y.toInt) := by
  have hx := BitVec.msb_eq_toInt (x := x)
  have hy := BitVec.msb_eq_toInt (x := y)
  rw [setWidth_abs, setWidth_abs, ← BitVec.ofInt_mul, ← BitVec.ofInt_neg]
  cases hmx : x.msb <;> cases hmy : y.msb <;> rw [hmx] at hx <;>
    rw [hmy] at hy <;> simp at hx hy
  · rw [if_neg (by decide), abs_of_nonneg hx, abs_of_nonneg hy]
  · rw [if_pos (by decide), abs_of_nonneg hx, abs_of_neg hy]
    congr 1
    ring
  · rw [if_pos (by decide), abs_of_neg hx, abs_of_nonneg hy]
    congr 1
    ring
  · rw [if_neg (by decide), abs_of_neg hx, abs_of_neg hy]
    congr 1
    ring

-- ===== scaled fields

/-- Appending zeros to a sign-extended field scales it. -/
theorem signExtend_append_zeros (x : BitVec w) :
    x.signExtend v ++ 0#n = x.signExtend (v + n) <<< n := by
  apply BitVec.eq_of_getLsbD_eq
  intro i hi
  rw [BitVec.getLsbD_append, BitVec.getLsbD_shiftLeft,
    BitVec.getLsbD_signExtend, BitVec.getLsbD_signExtend]
  by_cases hn : i < n
  · simp [hn]
  · have hv : i - n < v := by omega
    have hvn : i - n < v + n := by omega
    simp [hn, hi, hv, hvn]

/-- Appending zeros to a field scales it. -/
theorem append_zeros (x : BitVec w) :
    x ++ 0#n = x.zeroExtend (w + n) <<< n := by
  apply BitVec.eq_of_getLsbD_eq
  intro i hi
  rw [BitVec.getLsbD_append, BitVec.getLsbD_shiftLeft, BitVec.getLsbD_setWidth]
  by_cases hn : i < n
  · simp [hn]
  · have hw : i - n < w + n := by omega
    simp [hn, hi, hw]

-- ===== slices

/-- A slice of a slice. -/
theorem extractLsb'_extractLsb' (x : BitVec w) {a : Nat} (h : b + m ≤ n) :
    (x.extractLsb' a n).extractLsb' b m = x.extractLsb' (a + b) m := by
  apply BitVec.eq_of_getLsbD_eq
  intro i hi
  have hin : b + i < n := by omega
  simp [hi, hin, Nat.add_assoc]

/-- Testing one bit with a mask. -/
theorem and_twoPow_ne_zero (x : BitVec w) (h : n < w) :
    (x &&& BitVec.twoPow w n != 0#w) = x.getLsbD n := by
  have hne : BitVec.twoPow w n ≠ 0#w := by
    intro hz
    have hbit := congrArg (BitVec.getLsbD · n) hz
    simp [h] at hbit
  rw [BitVec.and_twoPow]
  cases x.getLsbD n <;> simp [hne]

end Bits
