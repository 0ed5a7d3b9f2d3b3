/-
The UART transmitter: `async_transmitter` and its `BaudTickGen`, from
`async.v`.

A transmission is eleven bit times: the start bit, eight data bits and
two stop bits. A bit time ends with `BitTick`, the carry of an
accumulator that adds `inc` at every clock of the transmission, so it
lasts about `2^16 / inc` clocks. Neither register is reset: the results
here hold from any contents of both.

# How long it lasts

`left` is what the accumulator still has to add up to before the
transmitter is idle: `2^16` for each bit time that is not over, less what
is in the accumulator. Every busy clock takes `inc` off it, ticks
included, since the carry a tick drops is the `2^16` of the bit time it
ends.
-/
import Mathlib.Data.BitVec
import Mathlib.Data.Nat.Size
import MipsUcore.Soc.SerialPort

namespace MipsUcore.Soc

-- ===== BaudTickGen

/-- The clock, in Hz. -/
def clkFrequency : Nat := 25000000

/-- The baud rate. -/
def baud : Nat := 115200

/-- `AccWidth`; the source's `log2` counts the digits of its argument. -/
def accWidth : Nat := (clkFrequency / baud).size + 8

/-- `ShiftLimiter`, with `Oversampling = 1`. -/
def shiftLimiter : Nat := (baud >>> (31 - accWidth)).size

def inc : Nat :=
  (baud <<< (accWidth - shiftLimiter) + clkFrequency >>> (shiftLimiter + 1))
    / (clkFrequency >>> shiftLimiter)

theorem inc_eq : inc = 302 := by decide

-- ===== async_transmitter

/-- The registers: `Acc` of the tick generator has `AccWidth + 1` bits. -/
structure Transmitter where
  txDState : BitVec 4
  txDShift : Byte
  acc : BitVec 17

namespace Transmitter

/-- `TxD_busy`. -/
def busy (t : Transmitter) : Bool := t.txDState != 0

def bitTick (t : Transmitter) : Bool := t.acc.getLsbD 16

/-- The state after the current bit time. -/
def nextBit (s : BitVec 4) : BitVec 4 :=
  match s with
  | 0b0100#4 => 0b1000#4
  | 0b1000#4 => 0b1001#4
  | 0b1001#4 => 0b1010#4
  | 0b1010#4 => 0b1011#4
  | 0b1011#4 => 0b1100#4
  | 0b1100#4 => 0b1101#4
  | 0b1101#4 => 0b1110#4
  | 0b1110#4 => 0b1111#4
  | 0b1111#4 => 0b0010#4
  | 0b0010#4 => 0b0011#4
  | _ => 0b0000#4

/-- One clock edge. -/
def step (t : Transmitter) (start : Bool) (data : Byte) : Transmitter where
  txDState :=
    if t.busy then if t.bitTick then nextBit t.txDState else t.txDState
    else if start then 0b0100#4 else 0b0000#4
  txDShift :=
    if !t.busy && start then data
    else if t.txDState.getLsbD 3 && t.bitTick then t.txDShift >>> 1
    else t.txDShift
  acc :=
    if t.busy then (t.acc.extractLsb' 0 16).setWidth 17 + BitVec.ofNat 17 inc
    else BitVec.ofNat 17 inc

-- ===== its measure

/-- Bit times of a state that are not over. -/
def bitsLeft (s : BitVec 4) : Nat :=
  match s with
  | 0b0000#4 => 0
  | 0b0100#4 => 11
  | 0b1000#4 => 10
  | 0b1001#4 => 9
  | 0b1010#4 => 8
  | 0b1011#4 => 7
  | 0b1100#4 => 6
  | 0b1101#4 => 5
  | 0b1110#4 => 4
  | 0b1111#4 => 3
  | 0b0010#4 => 2
  | _ => 1

theorem bitsLeft_nextBit (s : BitVec 4) (h : s ≠ 0) :
    bitsLeft (nextBit s) + 1 = bitsLeft s := by
  revert s
  decide

theorem bitsLeft_pos (s : BitVec 4) (h : s ≠ 0) : 0 < bitsLeft s := by
  revert s
  decide

/-- What is left to add up to; one bit time is in hand for an accumulator
whose carry is already up. -/
def left (t : Transmitter) : Nat :=
  (bitsLeft t.txDState + 1) * 2 ^ 16 - t.acc.toNat

/-- There are at most twelve bit times left. -/
theorem left_le (t : Transmitter) : t.left ≤ 12 * 2 ^ 16 := by
  have hbits : ∀ s, bitsLeft s ≤ 11 := by decide
  have := hbits t.txDState
  unfold left
  omega

/-- The carry is dropped before `inc` is added. -/
theorem step_acc_toNat {t : Transmitter} (h : t.busy = true) (start : Bool)
    (data : Byte) :
    (t.step start data).acc.toNat = t.acc.toNat % 2 ^ 16 + inc := by
  simp only [step, h, if_true, BitVec.toNat_add, BitVec.toNat_setWidth,
    BitVec.extractLsb'_toNat, BitVec.toNat_ofNat, inc_eq]
  omega

/-- A busy clock that does not end the transmission takes `inc` off what
is left. -/
theorem left_step {t : Transmitter} {start : Bool} {data : Byte}
    (h : t.busy = true) (h' : (t.step start data).busy = true) :
    (t.step start data).left + inc = t.left := by
  have hne : t.txDState ≠ 0 := by simpa [busy] using h
  have hpos := bitsLeft_pos (t.step start data).txDState
    (by simpa [busy] using h')
  have htick : t.bitTick = decide (2 ^ 16 ≤ t.acc.toNat) := by
    simp only [bitTick, BitVec.getLsbD, Nat.testBit_eq_decide_div_mod_eq]
    rw [decide_eq_decide]
    omega
  have hnext := bitsLeft_nextBit _ hne
  unfold left
  rw [step_acc_toNat h, inc_eq]
  simp only [step, h, if_true, htick, decide_eq_true_eq] at hpos ⊢
  by_cases hcarry : 2 ^ 16 ≤ t.acc.toNat
  · rw [if_pos hcarry] at hpos ⊢
    omega
  · rw [if_neg hcarry] at hpos ⊢
    omega

end Transmitter

end MipsUcore.Soc
