/-
The processor: `cpu.v` wires the stages together.

`State` is every register of the design. The wires are functions of it and
of the bus answer of the current cycle, in dependency order: the outputs
of EX, the CP0 values, the exception decision, the routed bus answer, the
outputs of MEM, the decoder, the stall, the translation and last the bus
request. No wire depends on itself, and none but the registers' own
`next` depends on `ready`.

`State.step` is one clock edge. `CPUBusResponse` is wired to `control` and
read by nothing, so it is not an input here.
-/
import MipsUcore.Cpu.Fetch
import MipsUcore.Cpu.Control

namespace MipsUcore.Cpu

-- ===== state

/-- The registers of the processor. -/
structure State where
  pcRegister : PCRegister
  ifId : IfId
  idEx : IdEx
  exMem : ExMem
  memWb : MemWb
  regfile : Regfile
  hilo : HiLo
  cp : Cp
  control : Control
  tlb : Tlb

/-- The inputs sampled at one clock edge. `reset` is active low. -/
structure Input where
  reset : Bool
  cpuBusReady : Bool
  cpuRomData : Word
  cpuSerialInterrupt : Bool
  deriving DecidableEq

-- ===== wires

namespace State

variable (s : State) (readResult : Word)

/-- The outputs of `ex`. -/
def exOut : ExOut := ex s.idEx

/-- The memory request in EX. -/
def ram : RamRequest := s.exOut.ram

/-- The `*Out` values of `cp`. -/
def cp0 : CpReg → Word := s.cp.out s.memWb.cpWrite

/-- The exception outputs of `control`. -/
def exc : ExcOut := s.control.exception s.cp0 s.exMem

def flush : Bool := s.exc.flush

def flushTarget : Word := s.exc.targetAddress

def instructionResult : Word :=
  s.control.instructionResult s.flush readResult

def loadResult : Word := s.control.loadResult s.flush readResult

/-- The outputs of `mem`. -/
def memOut : Bypass := mem s.exMem (s.loadResult readResult)

/-- The outputs of `id` that depend on the instruction word. -/
def decoded : Decoded := decode s.ifId.idPC s.ifId.idInstruction

def registerData1 : Word :=
  s.regfile.readData s.memWb s.decoded.registerReadEnable1
    s.decoded.registerAddress1

def registerData2 : Word :=
  s.regfile.readData s.memWb s.decoded.registerReadEnable2
    s.decoded.registerAddress2

def cpData : Word := s.cp.value s.memWb.cpWrite s.decoded.cpAddress

/-- `Register1`, the first operand `id` passes on. -/
def idRegister1 : Word :=
  register1 s.decoded s.exOut.bypass (s.memOut readResult) s.registerData1
    s.cpData (s.hilo.hiOut s.memWb) (s.hilo.loOut s.memWb)

/-- `Register2`, the second operand `id` passes on. -/
def idRegister2 : Word :=
  register2 s.decoded s.exOut.bypass (s.memOut readResult) s.registerData2

/-- `BranchFlag`, `BranchTarget`, `NextInstructionInDelaySlot`. -/
def branchOut : BranchOut :=
  branch s.ifId.idPC s.ifId.idInstruction (s.idRegister1 readResult)
    (s.idRegister2 readResult)

/-- `PauseSignal`. -/
def pause : Bool :=
  pauseSignal s.ram
    (pauseRequest s.decoded s.ram.isLoad s.exOut.writeAddress)

/-- `TLBVirtualAddress`. -/
def virtualAddress : Word :=
  tlbVirtualAddress s.ram (s.branchOut readResult) s.pcRegister.pcPlus4

/-- The answer of `tlb`. -/
def translation : Translation :=
  s.tlb.lookup (s.virtualAddress readResult) s.ram.ramWriteEnable

/-- What `control` reports about the access in EX. -/
def faults : AccessFaults := accessFaults s.ram (s.translation readResult)

/-- `PCReadTLBMiss`. -/
def pcTLBMiss : Bool := pcReadTLBMiss s.ram (s.translation readResult)

/-- The request the processor drives on the bus out of reset. -/
def bus : BusRequest :=
  busRequest s.flush s.flushTarget s.ram (s.translation readResult)

end State

-- ===== clock edge

/-- `CPUAddress`, `CPUWriteEnable`, `CPUDataSize` and `CPUWriteData`. -/
def State.busOut (s : State) (i : Input) : BusRequest :=
  if i.reset then s.bus i.cpuRomData else .idle

/-- A clock edge with `reset == 0`. -/
def State.resetEdge (s : State) (i : Input) : State where
  pcRegister := .reset
  ifId := .reset
  idEx := .reset
  exMem := .reset
  memWb := .reset
  regfile := .reset
  hilo := .reset
  cp := s.cp.reset
  control := s.control.reset i.cpuSerialInterrupt s.cp.clockInterrupt
  tlb := .reset

/-- A clock edge with `reset == 1`. -/
def State.clock (s : State) (i : Input) : State where
  pcRegister := s.pcRegister.next i.cpuBusReady s.flush s.flushTarget s.pause
    (s.branchOut i.cpuRomData).branchFlag
    (s.branchOut i.cpuRomData).branchTarget (s.pcTLBMiss i.cpuRomData)
  ifId := s.ifId.next i.cpuBusReady s.flush s.flushTarget s.pause
    s.pcRegister.pc (s.instructionResult i.cpuRomData)
    s.pcRegister.pcTLBMissOut
    (s.branchOut i.cpuRomData).nextInstructionInDelaySlot
  idEx := s.idEx.next i.cpuBusReady s.flush s.flushTarget s.pause s.decoded
    (s.idRegister1 i.cpuRomData) (s.idRegister2 i.cpuRomData) s.ifId.idPC
    s.ifId.isInDelaySlotOut s.ifId.pcTLBMissOut
  exMem := s.exMem.next i.cpuBusReady s.flush s.flushTarget s.exOut
    (s.faults i.cpuRomData)
  memWb := s.memWb.next i.cpuBusReady s.flush (s.memOut i.cpuRomData)
    s.exc.updates
  regfile := s.regfile.next i.cpuBusReady s.memWb
  hilo := s.hilo.next i.cpuBusReady s.memWb
  cp := s.cp.next i.cpuBusReady s.memWb.cpWrite
  control := s.control.next i.cpuBusReady s.flush s.ram i.cpuRomData
    i.cpuSerialInterrupt s.cp.clockInterrupt s.exc.checkClockInterrupt
  tlb := s.tlb.next s.exMem.memtlbwi (s.cp0 .index0) (s.cp0 .entryLo02)
    (s.cp0 .entryLo13) (s.cp0 .entryHi10)

/-- One clock edge of the processor. -/
def State.step (s : State) (i : Input) : State :=
  if i.reset then s.clock i else s.resetEdge i

end MipsUcore.Cpu
