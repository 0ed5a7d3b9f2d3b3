/-
One instruction at a time.

The machine a program is written for: registers, an address to execute
next and the one behind it, because a branch takes effect after one more
instruction. It takes three kinds of steps: an instruction is executed
and retires, an exception or interrupt is entered in front of the
instruction that would be next, and `eret` returns. `Arch.apply` says
what a step does, `Arch.Legal` when it may be taken.

What one instruction computes is not repeated here. `Inst.writes` and
`Inst.branchOut` are the outputs of the decoder and of EX and MEM for
given operands, and the comparison with the instruction set is made
elsewhere. What this machine adds is that operands come from the
registers as all earlier instructions left them (`Inst.Reads`).

`Pipe.events` is the steps the processor reports: one when an
instruction leaves MEM, and one when a flush is taken.
-/
import MipsUcore.Cpu.Pipe

namespace MipsUcore.Cpu

-- ===== state

/-- The next instruction to execute, the one behind it, and whether the
next one stands in the delay slot of a taken branch. -/
@[ext]
structure Flow where
  pc : Word
  npc : Word
  isInDelaySlot : Bool
  deriving DecidableEq

/-- Execution that starts at an address. -/
def Flow.start (pc : Word) : Flow := ⟨pc, pc + 4, false⟩

/-- Past an instruction with the given branch outputs. -/
def Flow.advance (f : Flow) (b : BranchOut) : Flow where
  pc := f.npc
  npc := if b.branchFlag then b.branchTarget else f.npc + 4
  isInDelaySlot := b.nextInstructionInDelaySlot

structure Arch where
  regs : Regs
  flow : Flow

/-- The state reset leaves: the first word is taken at `0xbfbffffc`. -/
def Arch.boot : Arch :=
  ⟨⟨fun _ => 0, 0, 0, fun _ => 0⟩, .start 0xbfbffffc⟩

-- ===== exceptions

/-- The exceptions, with the address an address-related one reports. -/
inductive Trap where
  | interrupt (clock serial : Bool)
  | tlbMissLoad (badaddr : Word)
  | tlbMissStore (badaddr : Word)
  | addressErrorLoad (badaddr : Word)
  | addressErrorStore (badaddr : Word)
  | reserved
  | debug
  | syscall
  deriving DecidableEq

namespace Trap

/-- The exception code. -/
def code : Trap → BitVec 5
  | .interrupt _ _ => 0
  | .tlbMissLoad _ => 2
  | .tlbMissStore _ => 3
  | .addressErrorLoad _ => 4
  | .addressErrorStore _ => 5
  | .syscall => 8
  | .reserved => 10
  | .debug => 23

def badaddr : Trap → Option Word
  | .tlbMissLoad va | .tlbMissStore va => some va
  | .addressErrorLoad va | .addressErrorStore va => some va
  | _ => none

/-- A TLB miss has an entry point of its own. -/
def isTlbMiss : Trap → Bool
  | .tlbMissLoad _ | .tlbMissStore _ => true
  | _ => false

/-- Bits 30 to 7 of `cause`: an interrupt replaces the two pending bits,
everything else stays. -/
def pending (cause : Word) : Trap → BitVec 24
  | .interrupt clock serial =>
    cause.extractLsb' 16 15 ++ BitVec.ofBool clock ++ cause.extractLsb' 13 2
      ++ BitVec.ofBool serial ++ cause.extractLsb' 7 5
  | _ => cause.extractLsb' 7 24

end Trap

namespace Arch

variable (a : Arch)

/-- Where an exception here returns to. -/
def epc : Word :=
  if a.flow.isInDelaySlot then a.flow.pc - 4 else a.flow.pc

def cause (t : Trap) : Word :=
  BitVec.ofBool a.flow.isInDelaySlot ++ t.pending (a.regs.cp .cause13)
    ++ (t.code ++ 0#2)

/-- The address of the handler. -/
def entry (t : Trap) : Word :=
  if t.isTlbMiss then a.regs.cp .ebase15 else a.regs.cp .ebase15 + 0x180

/-- Enter an exception. -/
def enter (t : Trap) : Arch where
  regs := { a.regs with
    cp := fun
      | .epc14 => a.epc
      | .status12 => a.regs.cp .status12 ||| 2
      | .cause13 => a.cause t
      | .badaddr8 => t.badaddr.getD (a.regs.cp .badaddr8)
      | r => a.regs.cp r }
  flow := .start (a.entry t)

/-- Return from an exception. -/
def eret : Arch where
  regs := { a.regs with
    cp := fun
      | .status12 => a.regs.cp .status12 &&& 0xfffffffd
      | r => a.regs.cp r }
  flow := .start (a.regs.cp .epc14)

end Arch

-- ===== events

/-- A step. An exception names the instruction it is raised for, if MEM
holds one; a bubble raises one for the instruction it stands in front
of. -/
inductive Event where
  | retire (x : Inst) (load : Word)
  | trap (m : Option Accessed) (t : Trap)
  | eret (m : Option Accessed)

def Arch.apply (a : Arch) : Event → Arch
  | .retire x load =>
    ⟨a.regs.commit (x.writes load), a.flow.advance x.branchOut⟩
  | .trap _ t => a.enter t
  | .eret _ => a.eret

/-- The instruction is the next one and took its operands from the
registers. -/
structure Arch.Next (a : Arch) (x : Inst) : Prop where
  pc : x.pc = a.flow.pc
  isInDelaySlot : x.isInDelaySlot = a.flow.isInDelaySlot
  reads : x.Reads a.regs

namespace Inst

variable (x : Inst)

def isLoad : Bool := x.ram.ramReadEnable
def isStore : Bool := x.ram.ramWriteEnable

end Inst

/-- The condition of each exception, for the instruction `m` in MEM and
the interrupt requests at the time. -/
def Arch.Calls (a : Arch) (m : Option Accessed) (clock serial : Bool) :
    Trap → Prop
  | .interrupt c s =>
    c = clock ∧ s = serial ∧
      (a.regs.cp .status12).getLsbD 0 = true ∧
      (a.regs.cp .status12).getLsbD 1 = false ∧
      ((clock = true ∧ (a.regs.cp .status12).getLsbD 15 = true) ∨
        (serial = true ∧ (a.regs.cp .status12).getLsbD 12 = true))
  | .tlbMissLoad va => ∃ x, m = some x ∧
      ((x.inst.pcTLBMiss = true ∧ va = x.inst.pc) ∨
        (x.inst.isLoad = true ∧ x.translation.validAddress = false ∧
          va = x.inst.ram.ramAddress))
  | .tlbMissStore va => ∃ x, m = some x ∧ x.inst.isStore = true ∧
      x.translation.validAddress = false ∧ x.translation.isMiss = true ∧
      va = x.inst.ram.ramAddress
  | .addressErrorLoad va => ∃ x, m = some x ∧ x.inst.isLoad = true ∧
      va = x.inst.ram.ramAddress ∧
      (misaligned x.inst.ram = true ∨
        (va.msb = true ∧ inUserMode (a.regs.cp .status12) = true))
  | .addressErrorStore va => ∃ x, m = some x ∧ x.inst.isStore = true ∧
      va = x.inst.ram.ramAddress ∧
      (misaligned x.inst.ram = true ∨
        (x.translation.validAddress = false ∧
          x.translation.isMiss = false) ∨
        (va.msb = true ∧ inUserMode (a.regs.cp .status12) = true))
  | .reserved =>
      (∃ x, m = some x ∧ x.inst.decoded.validInstruction = true) ∨
        (inUserMode (a.regs.cp .status12) = true ∧
          (a.flow.pc.msb = true ∨
            ∃ x, m = some x ∧ x.inst.decoded.privilege = true))
  | .debug => a.flow.pc ≠ 0 ∧
      (a.flow.pc = a.regs.cp .watchLo18 ∨ a.flow.pc = a.regs.cp .watchHi19)
  | .syscall => ∃ x, m = some x ∧ x.inst.decoded.syscall = true

/-- When a step may be taken. -/
def Arch.Legal (a : Arch) : Event → Prop
  | .retire x _ => a.Next x
  | .trap m t => (∀ x, m = some x → a.Next x.inst) ∧
      ∃ clock serial, a.Calls m clock serial t
  | .eret m => ∃ x, m = some x ∧ a.Next x.inst ∧
      x.inst.decoded.eret = true

-- ===== the pipe's report

/-- Which exception the priority chain of `control` enters. -/
def State.trap (s : State) : Trap :=
  let m := s.exMem
  let status := s.cp0 .status12
  if s.control.interruptRequest status then
    .interrupt s.control.tempClockInterrupt s.control.tempSerialInterrupt
  else if m.tlbMissRead then .tlbMissLoad m.memBadAddress
  else if m.tlbMissWrite then .tlbMissStore m.memBadAddress
  else if m.readError || (m.memAddressReadPrivilege && inUserMode status)
    then .addressErrorLoad m.memBadAddress
  else if m.writeError || (m.memAddressWritePrivilege && inUserMode status)
    then .addressErrorStore m.memBadAddress
  else if m.memValidInstruction || (m.memprivilege && inUserMode status)
    then .reserved
  else if isWatched s.cp0 m.memPC then .debug
  else .syscall

/-- The step the processor takes at an edge. An exception writes `epc`,
`eret` does not. -/
def Pipe.events (p : Pipe) (i : Input) : List Event :=
  if !i.cpuBusReady then []
  else if p.cpu.flush then
    if p.cpu.exc.updates.writeepc then [.trap p.mem p.cpu.trap]
    else [.eret p.mem]
  else (p.mem.map fun m =>
    Event.retire m.inst (p.cpu.loadResult i.cpuRomData)).toList

end MipsUcore.Cpu
