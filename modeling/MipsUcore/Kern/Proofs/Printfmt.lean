/-
`printnum` prints the digits of the number.

The shifts multiply by 16/15 up to a factor of 2^-32 and lose less than one
each, so the quotients are a few short and the remainder says by how much.
The recursion follows `Nat.toDigits`.
-/
import Mathlib.Data.List.Basic
import MipsUcore.Kern.Printfmt

namespace MipsUcore.Kern

-- ===== the divisions

theorem addFifteenth_bounds {q : BitVec 32} {v : Nat} (hq : q.toNat = v)
    (h : v < 3 * 2 ^ 30) : 15 * (addFifteenth q).toNat ≤ 16 * v ∧
      16 * v < 15 * (addFifteenth q).toNat + 58 := by
  rw [addFifteenth]
  have h4 : (q + (q >>> 4)).toNat = v + v / 2 ^ 4 := by bv_omega
  generalize q + (q >>> 4) = r at *
  have h8 : (r + (r >>> 8)).toNat = r.toNat + r.toNat / 2 ^ 8 := by bv_omega
  generalize r + (r >>> 8) = t at *
  have h16 : (t + (t >>> 16)).toNat = t.toNat + t.toNat / 2 ^ 16 := by bv_omega
  omega

theorem toNat_mulu10 {n : BitVec 32} (h : 10 * n.toNat < 2 ^ 32) :
    (mulu10 n).toNat = 10 * n.toNat := by
  rw [mulu10]
  bv_omega

theorem divu10_eq (n : BitVec 32) : (divu10 n).toNat = n.toNat / 10 := by
  obtain ⟨hle, hlt⟩ := addFifteenth_bounds (q := (n >>> 1) + (n >>> 2))
    (v := n.toNat / 2 + n.toNat / 4) (by bv_omega) (by omega)
  rw [divu10]
  generalize addFifteenth ((n >>> 1) + (n >>> 2)) = q at *
  have hq : (q >>> 3).toNat = q.toNat / 8 := by bv_omega
  have hmul := toNat_mulu10 (n := q >>> 3) (by omega)
  have hr : (n - mulu10 (q >>> 3)).toNat = n.toNat - 10 * (q.toNat / 8) := by
    bv_omega
  generalize n - mulu10 (q >>> 3) = r at *
  have hsmall : r.toNat < 20 := by omega
  have hcorrect : ((r + 6) >>> 4).toNat = r.toNat / 10 := by bv_omega
  rw [BitVec.toNat_add]
  omega

theorem divu5_eq (n : BitVec 32) : (divu5 n).toNat = n.toNat / 5 := by
  obtain ⟨hle, hlt⟩ := addFifteenth_bounds (q := (n >>> 3) + (n >>> 4))
    (v := n.toNat / 8 + n.toNat / 16) (by bv_omega) (by omega)
  rw [divu5]
  generalize addFifteenth ((n >>> 3) + (n >>> 4)) = q at *
  have hr : (n - q * 5).toNat = n.toNat - 5 * q.toNat := by bv_omega
  generalize n - q * 5 = r at *
  have hcorrect : ((13 * r) >>> 6).toNat = 13 * r.toNat / 64 := by bv_omega
  rw [BitVec.toNat_add, hcorrect, Nat.mod_eq_of_lt (by omega)]
  omega

-- ===== the digits

theorem putPad_eq (padc : Char) (width : BitVec 32) :
    putPad padc width = List.replicate (width - 1).toInt.toNat padc := by
  fun_induction putPad padc width with
  | case1 width hpos ih =>
    have hsub := toInt_sub_one hpos
    rw [ih, ← List.replicate_succ]
    congr 1
    omega
  | case2 width hle =>
    rw [Int.toNat_of_nonpos (by omega), List.replicate_zero]

/-- The canonical digits. -/
def digits (num base : BitVec 32) : List Char :=
  Nat.toDigits base.toNat num.toNat

section Base

variable {base : BitVec 32} (hbase : base = 10 ∨ base = 8 ∨ base = 16)
include hbase

theorem lastDigit_eq (num : BitVec 32) :
    (lastDigit num base).1.toNat = num.toNat / base.toNat ∧
      (lastDigit num base).2.toNat = num.toNat % base.toNat := by
  obtain rfl | rfl | rfl := hbase
  · have hdiv := divu10_eq num
    have hmul := toNat_mulu10 (n := divu10 num) (by omega)
    refine ⟨hdiv, ?_⟩
    show (num - mulu10 (divu10 num)).toNat = num.toNat % 10
    bv_omega
  · show (num >>> 3).toNat = num.toNat / 8 ∧ (num &&& 7).toNat = num.toNat % 8
    exact ⟨by bv_omega, Nat.and_two_pow_sub_one_eq_mod _ 3⟩
  · show (num >>> 4).toNat = num.toNat / 16 ∧
      (num &&& 15).toNat = num.toNat % 16
    exact ⟨by bv_omega, Nat.and_two_pow_sub_one_eq_mod _ 4⟩

theorem base_bounds : 8 ≤ base.toNat ∧ base.toNat ≤ 16 := by
  obtain rfl | rfl | rfl := hbase <;> decide

/-- One call for each digit, so `num` calls are enough. -/
theorem printnum_eq (padc : Char) {fuel : Nat} (num width : BitVec 32)
    (hfuel : num.toNat < fuel) : printnum fuel num base width padc =
      some (List.replicate
          (width - BitVec.ofNat 32 (digits num base).length).toInt.toNat padc ++
        digits num base) := by
  obtain ⟨hge, hle⟩ := base_bounds hbase
  induction fuel generalizing num width with
  | zero => omega
  | succ fuel ih =>
    obtain ⟨hresult, hmod⟩ := lastDigit_eq hbase num
    have hdigit : ∀ k < 16,
        "0123456789abcdef".toList[k]? = some (Nat.digitChar k) := by decide
    have hlast : num.toNat % base.toNat < 16 :=
      (Nat.mod_lt _ (by omega)).trans_le hle
    simp only [printnum, hmod, hdigit _ hlast, BitVec.le_def, digits]
    by_cases hmore : base.toNat ≤ num.toNat
    · have hless : num.toNat / base.toNat < num.toNat :=
        Nat.div_lt_self (by omega) (by omega)
      rw [if_pos hmore, ih _ _ (by omega), digits, hresult,
        Nat.toDigits_of_base_le (by omega) hmore, List.length_append,
        List.length_singleton, Nat.add_comm _ 1, BitVec.ofNat_add,
        ← BitVec.sub_sub, Option.bind_some, Option.map_some,
        List.append_assoc]
      rfl
    · have hlt : num.toNat < base.toNat := by omega
      rw [if_neg hmore, Nat.toDigits_of_lt_base hlt, Nat.mod_eq_of_lt hlt,
        putPad_eq]
      rfl

/-- No leading zero. -/
theorem digits_head {num : BitVec 32} (hn : num.toNat ≠ 0) :
    (digits num base).head? ≠ some '0' := by
  obtain ⟨hge, hle⟩ := base_bounds hbase
  rw [digits]
  generalize num.toNat = n at *
  induction n using Nat.strongRecOn with
  | ind n ih =>
    by_cases hlt : n < base.toNat
    · have htable : ∀ k < 16, k ≠ 0 → [Nat.digitChar k].head? ≠ some '0' := by
        decide
      rw [Nat.toDigits_of_lt_base hlt]
      exact htable n (by omega) hn
    · rw [Nat.toDigits_of_base_le (by omega) (by omega),
        List.head?_append_of_ne_nil _ Nat.toDigits_ne_nil]
      apply ih _ (Nat.div_lt_self (by omega) (by omega))
      exact (Nat.div_pos (by omega) (by omega)).ne'

theorem digits_length (num : BitVec 32) : (digits num base).length ≤ 11 := by
  obtain ⟨hge, -⟩ := base_bounds hbase
  apply (Nat.length_toDigits_le_iff (by omega) (by decide)).2
  calc num.toNat < 8 ^ 11 := num.isLt.trans (by decide)
    _ ≤ base.toNat ^ 11 := Nat.pow_le_pow_left hge 11

end Base

/-- The divisions are exact, and `printnum` prints its pad characters and
the digits as long as the decrements of `width` do not wrap. -/
theorem printnum_exact_iff {base : BitVec 32}
    (hbase : base = 10 ∨ base = 8 ∨ base = 16) (num width : BitVec 32)
    (padc : Char) {fuel : Nat} (hfuel : num.toNat < fuel) :
    (divu10 num).toNat = num.toNat / 10 ∧
    (divu5 num).toNat = num.toNat / 5 ∧
    (num.toNat ≠ 0 → (digits num base).head? ≠ some '0') ∧
    (printnum fuel num base width padc =
        some (List.replicate
            (width.toInt - (digits num base).length).toNat padc ++
          digits num base) ↔
      -2 ^ 31 + ((digits num base).length : Int) ≤ width.toInt) := by
  refine ⟨divu10_eq num, divu5_eq num, digits_head hbase, ?_⟩
  have hlen := digits_length hbase num
  rw [printnum_eq hbase padc num width hfuel, Option.some_inj,
    List.append_left_inj, List.replicate_left_inj]
  generalize (digits num base).length = d at *
  have hlo := width.le_toInt
  have hhi := width.toInt_lt
  have hd : (BitVec.ofNat 32 d).toInt = d := by
    rw [BitVec.toInt_eq_toNat_bmod, BitVec.toNat_ofNat,
      Nat.mod_eq_of_lt (by omega)]
    exact Int.bmod_eq_of_le (by omega) (by omega)
  rw [BitVec.toInt_sub, hd]
  by_cases hwrap : -2 ^ 31 + (d : Int) ≤ width.toInt
  · rw [Int.bmod_eq_of_le (by omega) (by omega)]
    exact iff_of_true rfl hwrap
  · refine iff_of_false (fun heq => ?_) hwrap
    rw [Int.bmod_def] at heq
    omega

/-- Seven in three columns. -/
theorem printnum_exact_seven :
    printnum 8 7 10 3 ' ' = some [' ', ' ', '7'] :=
  (printnum_exact_iff (.inl rfl) 7 3 ' ' (by decide)).2.2.2.2 (by decide)

/-- One less than the smallest `int` is the largest. -/
theorem printnum_wraps : printnum 1 0 10 (.intMin 32) ' ' =
    some (List.replicate (2 ^ 31 - 1) ' ' ++ ['0']) := by
  rw [printnum_eq (.inl rfl) ' ' 0 _ (by decide)]
  rfl

end MipsUcore.Kern
