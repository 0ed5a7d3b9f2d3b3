/-
The interrupt arm of the exception chain.

It is the first arm, so it is selected exactly when some latched request
is unmasked with interrupts on and EXL off. What it writes to `cause` is
code 0 with the two latches in IP7 (timer) and IP4 (serial); every other
arm writes another code or no cause at all.
-/
import MipsUcore.Cpu.Control

namespace MipsUcore.Cpu

/-- An interrupt exception that reports the pending bit `ip`: a flush
whose cause has code 0 and bit `ip` set. -/
structure ExcOut.IsInterrupt (x : ExcOut) (ip : Nat) : Prop where
  flush : x.flush = true
  writecause : x.updates.writecause = true
  code : x.updates.writecauseData.extractLsb' 2 5 = 0
  pending : x.updates.writecauseData.getLsbD ip = true

theorem interruptCauseData_code (m : ExMem) (cause : Word)
    (clock serial : Bool) :
    (interruptCauseData m cause clock serial).extractLsb' 2 5 = 0 := by
  unfold interruptCauseData
  ext j hj
  rw [BitVec.getElem_extractLsb', BitVec.getLsbD_append, if_pos (by omega)]
  simp

theorem interruptCauseData_timer (m : ExMem) (cause : Word)
    (clock serial : Bool) :
    (interruptCauseData m cause clock serial).getLsbD 15 = clock := by
  unfold interruptCauseData
  rw [BitVec.getLsbD_append, BitVec.getLsbD_append, BitVec.getLsbD_append,
    BitVec.getLsbD_append, BitVec.getLsbD_append]
  simp

theorem interruptCauseData_serial (m : ExMem) (cause : Word)
    (clock serial : Bool) :
    (interruptCauseData m cause clock serial).getLsbD 12 = serial := by
  unfold interruptCauseData
  rw [BitVec.getLsbD_append, BitVec.getLsbD_append, BitVec.getLsbD_append]
  simp

namespace Control

variable {c : Control} {cp0 : CpReg → Word} {m : ExMem}

theorem exception_of_request (h : c.interruptRequest (cp0 .status12) = true) :
    c.exception cp0 m = c.interrupt cp0 m := if_pos h

/-- The interrupt arm reports a latched timer request. -/
theorem exception_isInterrupt_timer
    (h : c.interruptRequest (cp0 .status12) = true)
    (htemp : c.tempClockInterrupt = true) :
    (c.exception cp0 m).IsInterrupt 15 := by
  rw [exception_of_request h]
  exact ⟨rfl, rfl, interruptCauseData_code _ _ _ _,
    (interruptCauseData_timer _ _ _ _).trans htemp⟩

/-- The interrupt arm reports a latched serial request. -/
theorem exception_isInterrupt_serial
    (h : c.interruptRequest (cp0 .status12) = true)
    (htemp : c.tempSerialInterrupt = true) :
    (c.exception cp0 m).IsInterrupt 12 := by
  rw [exception_of_request h]
  exact ⟨rfl, rfl, interruptCauseData_code _ _ _ _,
    (interruptCauseData_serial _ _ _ _).trans htemp⟩

/-- The chain acknowledges the timer exactly when it selects the
interrupt arm with the timer latched. -/
theorem exception_checkClockInterrupt (c : Control) (cp0 : CpReg → Word)
    (m : ExMem) : (c.exception cp0 m).checkClockInterrupt
      = (c.interruptRequest (cp0 .status12) && c.tempClockInterrupt) := by
  unfold exception
  cases c.interruptRequest (cp0 .status12) with
  | true => rfl
  | false =>
    simp only [apply_ite ExcOut.checkClockInterrupt]
    simp [raise, eretOut, ExcOut.quiet]

/-- The code field of a synchronous cause is the arm's own. -/
theorem causeData_code (m : ExMem) (cause : Word) (code : BitVec 7) :
    (causeData m cause code).extractLsb' 2 5 = code.extractLsb' 2 5 := by
  unfold causeData
  ext j hj
  rw [BitVec.getElem_extractLsb', BitVec.getLsbD_append, if_pos (by omega),
    BitVec.getElem_extractLsb']

/-- Only the interrupt arm is an interrupt exception. -/
theorem request_of_isInterrupt {ip : Nat}
    (h : (c.exception cp0 m).IsInterrupt ip) :
    c.interruptRequest (cp0 .status12) = true := by
  by_contra hno
  have hraise (code : BitVec 7) (bad : Option Word) (target : Word)
      (hcode : code.extractLsb' 2 5 ≠ 0) :
      ¬ (raise cp0 m code bad target).IsInterrupt ip := by
    intro hx
    have hz := hx.code
    simp only [raise, causeData_code] at hz
    exact hcode hz
  revert h
  unfold exception
  split_ifs
  all_goals first
    | exact hraise _ _ _ (by decide)
    | exact fun hx => absurd hx.writecause Bool.false_ne_true

end Control

end MipsUcore.Cpu
