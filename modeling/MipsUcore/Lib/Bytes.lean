/-
Blocks of bytes, read and written in pieces.

A block is a function from positions. `slice` and `patch` read and write
bytes at a place; `word` reads four bytes, the low one first, and
`setWords` writes some of the words, all at once. A write is described by
what every place reads afterwards.
-/
import Mathlib.Data.List.Basic
import Mathlib.Tactic.Ring

namespace Bytes

-- ===== bytes

/-- `len` bytes from `off` on. -/
def slice (f : Nat → UInt8) (off len : Nat) : List UInt8 :=
  (List.range len).map fun i => f (off + i)

/-- The bytes of `data` written at `off`. -/
def patch (f : Nat → UInt8) (off : Nat) (data : List UInt8) : Nat → UInt8 :=
  fun j => if off ≤ j ∧ j < off + data.length then data.getD (j - off) 0
    else f j

theorem slice_append (f : Nat → UInt8) (off m n : Nat) :
    slice f off (m + n) = slice f off m ++ slice f (off + m) n := by
  unfold slice
  rw [List.range_add, List.map_append, List.map_map]
  simp [Function.comp_def, Nat.add_assoc]

theorem slice_congr {f g : Nat → UInt8} {off off' len : Nat}
    (h : ∀ i < len, f (off + i) = g (off' + i)) :
    slice f off len = slice g off' len :=
  List.map_congr_left fun i hi => h i (List.mem_range.mp hi)

-- ===== words

/-- The `k`-th word, little end first. -/
def word (f : Nat → UInt8) (k : Nat) : Nat :=
  (f (4 * k)).toNat + 256 * (f (4 * k + 1)).toNat
    + 65536 * (f (4 * k + 2)).toNat + 16777216 * (f (4 * k + 3)).toNat

/-- The words that `w` has, written over the block. -/
def setWords (f : Nat → UInt8) (w : Nat → Option Nat) : Nat → UInt8 :=
  fun j =>
    match w (j / 4) with
    | some v => UInt8.ofNat (v / 256 ^ (j % 4))
    | none => f j

theorem word_zero (k : Nat) : word (fun _ => 0) k = 0 := rfl

theorem setWords_none (f : Nat → UInt8) {w : Nat → Option Nat} {j : Nat}
    (h : w (j / 4) = none) : setWords f w j = f j := by
  simp [setWords, h]

private theorem setWords_byte (f : Nat → UInt8) {w : Nat → Option Nat}
    {k v : Nat} (h : w k = some v) {i : Nat} (hi : i < 4) :
    (setWords f w (4 * k + i)).toNat = v / 256 ^ i % 256 := by
  have hdiv : (4 * k + i) / 4 = k := by omega
  have hmod : (4 * k + i) % 4 = i := by omega
  simp [setWords, hdiv, hmod, h]

/-- A word that is written is read back. -/
theorem word_setWords_some (f : Nat → UInt8) {w : Nat → Option Nat}
    {k v : Nat} (h : w k = some v) (hv : v < 2 ^ 32) :
    word (setWords f w) k = v := by
  have h0 := setWords_byte f h (i := 0) (by omega)
  have h1 := setWords_byte f h (i := 1) (by omega)
  have h2 := setWords_byte f h (i := 2) (by omega)
  have h3 := setWords_byte f h (i := 3) (by omega)
  rw [Nat.add_zero] at h0
  unfold word
  omega

/-- A word that is not written stays. -/
theorem word_setWords_none (f : Nat → UInt8) {w : Nat → Option Nat}
    {k : Nat} (h : w k = none) : word (setWords f w) k = word f k := by
  have hbyte (i : Nat) (hi : i < 4) :
      setWords f w (4 * k + i) = f (4 * k + i) :=
    setWords_none f (by rw [show (4 * k + i) / 4 = k by omega]; exact h)
  have h0 := hbyte 0 (by omega)
  rw [Nat.add_zero] at h0
  unfold word
  rw [h0, hbyte 1 (by omega), hbyte 2 (by omega), hbyte 3 (by omega)]

end Bytes
