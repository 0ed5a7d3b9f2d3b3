/-
Instruction fetch: `PCRegister.v` and `if_id.v`.

Every clocked block of the pipeline has the same four-way shape — reset,
not ready, flush, and the normal update — and the model keeps it: `reset`
is a constant of each register, and `next` is one clock edge with
`reset == 1`, whose first branch is the `ready == 0` hold.

`fix` is the one-cycle correction after a flush: the word answering the
flush cycle's own address is thrown away, so the program counter stays
where it is and `PCPlus4` presents it again.
-/
import MipsUcore.Cpu.Defines

namespace MipsUcore.Cpu

-- ===== PCRegister

/-- The registers of `PCRegister`. -/
structure PCRegister where
  pc : Word
  pcTLBMissOut : Bool
  fix : Bool
  deriving DecidableEq

/-- `PCTLBMiss` is 0 while `control` is in reset. -/
def PCRegister.reset : PCRegister := ⟨0xbfbffffc, false, false⟩

/-- The combinational output `PCPlus4`. -/
def PCRegister.pcPlus4 (r : PCRegister) : Word :=
  if r.fix then r.pc else r.pc + 4

/-- One clock edge of `PCRegister`. -/
def PCRegister.next (r : PCRegister) (ready flush : Bool)
    (flushTarget : Word) (pauseSignal branchFlag : Bool) (branchTarget : Word)
    (pcTLBMiss : Bool) : PCRegister :=
  if !ready then r
  else if flush then ⟨flushTarget, false, true⟩
  else if pauseSignal then { r with fix := false }
  else if branchFlag then ⟨branchTarget, pcTLBMiss, false⟩
  else ⟨if r.fix then r.pc else r.pc + 4, pcTLBMiss, false⟩

-- ===== if_id

/-- The registers of `if_id`. -/
structure IfId where
  idPC : Word
  idInstruction : Word
  pcTLBMissOut : Bool
  isInDelaySlotOut : Bool
  deriving DecidableEq

def IfId.reset : IfId := ⟨0, 0, false, false⟩

/-- One clock edge of `if_id`. -/
def IfId.next (r : IfId) (ready flush : Bool) (flushTarget : Word)
    (pauseSignal : Bool) (pc instruction : Word)
    (pcTLBMiss isInDelaySlot : Bool) : IfId :=
  if !ready then r
  else if flush then ⟨flushTarget, 0, false, false⟩
  else if pauseSignal then r
  else ⟨pc, instruction, pcTLBMiss, isInDelaySlot⟩

end MipsUcore.Cpu
