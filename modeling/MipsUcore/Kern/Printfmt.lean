/-
`printnum` of `printfmt.c`, and the divisions of `thumips.h`.

The CPU has no divider: `__divu10` and `__divu5` approximate the quotient by
shifts and additions and correct it by the remainder. `int` and `unsigned
int` are 32-bit words; `--width` wraps, as `addiu` does. What `putch` is
given stands in a list, first character first, and `none` is a recursion
that has not ended or a digit outside the table.
-/
import Mathlib.Tactic.Ring

namespace MipsUcore.Kern

def mulu10 (n : BitVec 32) : BitVec 32 := (n <<< 3) + (n <<< 1)

/-- The lines both divisions share: `q` and a fifteenth of it. -/
def addFifteenth (q : BitVec 32) : BitVec 32 :=
  let q := q + (q >>> 4)
  let q := q + (q >>> 8)
  q + (q >>> 16)

def divu10 (n : BitVec 32) : BitVec 32 :=
  let q := addFifteenth ((n >>> 1) + (n >>> 2))
  let q := q >>> 3
  let r := n - mulu10 q
  q + ((r + 6) >>> 4)

def divu5 (n : BitVec 32) : BitVec 32 :=
  let q := addFifteenth ((n >>> 3) + (n >>> 4))
  let r := n - q * 5
  q + ((13 * r) >>> 6)

theorem toInt_sub_one {w : BitVec 32} (h : 0 < w.toInt) :
    (w - 1).toInt = w.toInt - 1 := by
  have hlt := w.toInt_lt
  rw [BitVec.toInt_sub, show (1 : BitVec 32).toInt = 1 from rfl]
  exact Int.bmod_eq_of_le (by omega) (by omega)

/-- `while (-- width > 0) putch(padc, putdat, fd);` -/
def putPad (padc : Char) (width : BitVec 32) : List Char :=
  if 0 < (width - 1).toInt then padc :: putPad padc (width - 1) else []
termination_by (width - 1).toInt.toNat
decreasing_by
  have hsub := toInt_sub_one ‹_›
  omega

/-- `result` and `mod`. -/
def lastDigit (num base : BitVec 32) : BitVec 32 × BitVec 32 :=
  if base = 10 then
    let t := divu10 num
    (t, num - mulu10 t)
  else if base = 8 then
    (num >>> 3, num &&& 0x7)
  else
    (num >>> 4, num &&& 0xF)

def printnum : Nat → BitVec 32 → BitVec 32 → BitVec 32 → Char →
    Option (List Char)
  | 0, _, _, _, _ => none
  | fuel + 1, num, base, width, padc =>
    let (result, mod) := lastDigit num base
    let preceding :=
      if base ≤ num then
        printnum fuel result base (width - 1) padc
      else
        some (putPad padc width)
    preceding.bind fun s => "0123456789abcdef".toList[mod.toNat]?.map (s ++ [·])

end MipsUcore.Kern
