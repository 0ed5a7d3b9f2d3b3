/-
The instructions in flight.

The pipeline registers hold an instruction's control signals, not the
instruction. `Pipe` is the processor together with what a reader of the
waveform would write next to the stages: which instruction is in EX,
which is in MEM, and whether ID holds one. A stage without an
instruction is empty: a bubble of a stall, of a flush or of reset, or the
two empty words that follow a flush through ID.

# One edge

A live edge is one of four things, and each has its own description of
the registers behind it:

- a wait state: nothing moves (`State.Waited`);
- a flush: every stage is emptied (`State.Flushed`);
- a stall: MEM and EX advance, ID and PC stay (`State.Stalled`);
- an advance: everything moves (`State.Advanced`).

The last two share what happens from EX on (`State.Moved`).
-/
import MipsUcore.Cpu.Arch

namespace MipsUcore.Cpu

-- ===== instructions

/-- An instruction that has left ID, with the operands it took and the
counter it may have read. -/
structure Inst where
  pc : Word
  word : Word
  isInDelaySlot : Bool
  pcTLBMiss : Bool
  register1 : Word
  register2 : Word
  count : Word
  deriving DecidableEq

namespace Inst

variable (x : Inst)

def decoded : Decoded := decode x.pc x.word

/-- Its image in `id_ex`. -/
def idEx : IdEx :=
  .latch x.decoded x.register1 x.register2 x.pc x.isInDelaySlot x.pcTLBMiss

def exOut : ExOut := ex x.idEx

/-- Its memory request. -/
def ram : RamRequest := x.exOut.ram

/-- Its image in `ex_mem`, where `t` answered its translation. -/
def exMem (t : Translation) : ExMem :=
  .latch x.exOut (accessFaults x.ram t)

/-- What it writes, with `load` on the bus. -/
def writes (load : Word) : Bypass :=
  mem (.latch x.exOut ⟨false, false, false, false⟩) load

def branchOut : BranchOut := branch x.pc x.word x.register1 x.register2

/-- It took its operands from these registers. -/
def Reads (a : Regs) : Prop :=
  x.register1 = a.operand1 x.count x.decoded ∧
    x.register2 = a.operand2 x.decoded

end Inst

/-- Is there a request? -/
def RamRequest.active (r : RamRequest) : Bool :=
  r.ramReadEnable || r.ramWriteEnable

-- ===== the pipe

/-- An instruction in MEM, with the answer of `tlb` in the cycle it was
in EX. -/
structure Accessed where
  inst : Inst
  translation : Translation

/-- The access an instruction has made, once it is in MEM. -/
def Accessed.request (m : Accessed) : Option BusRequest :=
  if m.inst.ram.active && m.translation.validAddress then
    some
      { address := m.translation.physicalAddress
        writeEnable := m.inst.ram.ramWriteEnable
        dataSize := tempDataSize m.inst.ram
        writeData :=
          if m.inst.ram.ramWriteEnable then m.inst.ram.ramData else 0 }
  else none

/-- The data access the bus accepts at an edge: one of the instruction in
EX, in a ready cycle. -/
def State.dataAccess (s : State) (i : Input) : Option BusRequest :=
  if i.cpuBusReady && !s.flush && s.ram.active
      && (s.translation i.cpuRomData).validAddress then
    some (s.busOut i)
  else none

/-- The processor and its instructions. `stale` counts the stages from
MEM backwards that still hold what reset put there. -/
structure Pipe where
  cpu : State
  idLive : Bool
  ex : Option Inst
  mem : Option Accessed
  stale : Nat

/-- The instruction in ID as it would be passed on. -/
def State.issued (s : State) (readResult : Word) : Inst where
  pc := s.ifId.idPC
  word := s.ifId.idInstruction
  isInDelaySlot := s.ifId.isInDelaySlotOut
  pcTLBMiss := s.ifId.pcTLBMissOut
  register1 := s.idRegister1 readResult
  register2 := s.idRegister2 readResult
  count := s.cp.count9

namespace Pipe

/-- Nothing in flight, in front of registers as reset leaves them. -/
def empty (s : State) : Pipe := ⟨s, false, none, none, 3⟩

def boot (u : State) (serial : Bool) : Pipe := .empty (u.boot serial)

variable (p : Pipe) (i : Input)

/-- A clock edge out of reset. -/
def next : Pipe where
  cpu := p.cpu.clock i
  idLive :=
    if !i.cpuBusReady then p.idLive
    else if p.cpu.flush then false
    else if p.cpu.pause then p.idLive
    else !p.cpu.control.isFlush
  ex :=
    if !i.cpuBusReady then p.ex
    else if p.cpu.flush || p.cpu.pause || !p.idLive then none
    else some (p.cpu.issued i.cpuRomData)
  mem :=
    if !i.cpuBusReady then p.mem
    else if p.cpu.flush then none
    else p.ex.map fun x => ⟨x, p.cpu.translation i.cpuRomData⟩
  stale :=
    if !i.cpuBusReady then p.stale
    else if p.cpu.flush then 0
    else p.stale - 1

def step : Pipe :=
  if i.reset then p.next i else .empty (p.cpu.resetEdge i)

end Pipe

/-- The pipe runs with the processor. -/
theorem Pipe.step_cpu (p : Pipe) (i : Input) :
    (p.step i).cpu = p.cpu.step i := by
  unfold step State.step
  split <;> rfl

-- ===== clock edge

/-- A wait state. -/
structure State.Waited (s s' : State) : Prop where
  pcRegister : s'.pcRegister = s.pcRegister
  ifId : s'.ifId = s.ifId
  idEx : s'.idEx = s.idEx
  exMem : s'.exMem = s.exMem
  isLoadStore : s'.control.isLoadStore = s.control.isLoadStore
  lastResult : s'.control.lastResult = s.control.lastResult
  isFlush : s'.control.isFlush = s.control.isFlush
  regs : s'.regs = s.regs

theorem State.waited {s : State} {i : Input}
    (hready : i.cpuBusReady = false) : s.Waited (s.clock i) := by
  have hn : (!i.cpuBusReady) = true := by rw [hready]; rfl
  refine ⟨if_pos hn, if_pos hn, if_pos hn, if_pos hn, if_pos hn, if_pos hn,
    if_pos hn, ?_⟩
  rw [regs_clock, if_pos hn]

/-- A flush: every stage is emptied and holds the target's address. -/
structure State.Flushed (s s' : State) : Prop where
  pcRegister : s'.pcRegister = ⟨s.flushTarget, false, true⟩
  ifId : s'.ifId = ⟨s.flushTarget, 0, false, false⟩
  idEx : s'.idEx = .bubble s.flushTarget false
  exMem : s'.exMem = .bubble s.flushTarget
  isLoadStore : s'.control.isLoadStore = false
  isFlush : s'.control.isFlush = true
  regs : s'.regs = s.regs.update s.exc.updates

theorem State.flushed {s : State} {i : Input} (hready : i.cpuBusReady = true)
    (hflush : s.flush = true) : s.Flushed (s.clock i) := by
  have hn : ¬ (!i.cpuBusReady) = true := by rw [hready]; decide
  refine ⟨?_, ?_, ?_, ?_, ?_, ?_, ?_⟩
  · exact (if_neg hn).trans (if_pos hflush)
  · exact (if_neg hn).trans (if_pos hflush)
  · exact (if_neg hn).trans (if_pos hflush)
  · exact (if_neg hn).trans (if_pos hflush)
  · exact (if_neg hn).trans (if_pos hflush)
  · exact (if_neg hn).trans hflush
  · rw [regs_clock, if_neg hn, if_pos hflush]

/-- What a stall and an advance have in common: EX moves to MEM, and the
instruction in MEM to the registers. -/
structure State.Moved (s : State) (w : Word) (s' : State) : Prop where
  exMem : s'.exMem = .latch s.exOut (s.faults w)
  isLoadStore : s'.control.isLoadStore = s.ram.active
  lastResult : s'.control.lastResult = w
  isFlush : s'.control.isFlush = false
  regs : s'.regs = s.regs.commit (s.memOut w)

theorem State.moved {s : State} {i : Input} (hready : i.cpuBusReady = true)
    (hflush : s.flush = false) : s.Moved i.cpuRomData (s.clock i) := by
  have hn : ¬ (!i.cpuBusReady) = true := by rw [hready]; decide
  have hf : ¬ s.flush = true := by rw [hflush]; decide
  refine ⟨?_, ?_, ?_, ?_, ?_⟩
  · exact (if_neg hn).trans (if_neg hf)
  · exact (if_neg hn).trans (if_neg hf)
  · exact if_neg hn
  · exact (if_neg hn).trans hflush
  · rw [regs_clock, if_neg hn, if_neg hf]

/-- A stall. -/
structure State.Stalled (s : State) (w : Word) (s' : State) : Prop
    extends s.Moved w s' where
  pcRegister : s'.pcRegister = { s.pcRegister with fix := false }
  ifId : s'.ifId = s.ifId
  idEx : s'.idEx = .bubble s.ifId.idPC s.ifId.isInDelaySlotOut

theorem State.stalled {s : State} {i : Input} (hready : i.cpuBusReady = true)
    (hflush : s.flush = false) (hpause : s.pause = true) :
    s.Stalled i.cpuRomData (s.clock i) := by
  have hn : ¬ (!i.cpuBusReady) = true := by rw [hready]; decide
  have hf : ¬ s.flush = true := by rw [hflush]; decide
  refine ⟨moved hready hflush, ?_, ?_, ?_⟩
  · exact (if_neg hn).trans ((if_neg hf).trans (if_pos hpause))
  · exact (if_neg hn).trans ((if_neg hf).trans (if_pos hpause))
  · exact (if_neg hn).trans ((if_neg hf).trans (if_pos hpause))

/-- An advance. -/
structure State.Advanced (s : State) (w : Word) (s' : State) : Prop
    extends s.Moved w s' where
  pcRegister : s'.pcRegister =
    if (s.branchOut w).branchFlag then
      ⟨(s.branchOut w).branchTarget, s.pcTLBMiss w, false⟩
    else ⟨s.pcRegister.pcPlus4, s.pcTLBMiss w, false⟩
  ifId : s'.ifId = ⟨s.pcRegister.pc, s.instructionResult w,
    s.pcRegister.pcTLBMissOut, (s.branchOut w).nextInstructionInDelaySlot⟩
  idEx : s'.idEx = .latch s.decoded (s.idRegister1 w) (s.idRegister2 w)
    s.ifId.idPC s.ifId.isInDelaySlotOut s.ifId.pcTLBMissOut

theorem State.advanced {s : State} {i : Input}
    (hready : i.cpuBusReady = true) (hflush : s.flush = false)
    (hpause : s.pause = false) : s.Advanced i.cpuRomData (s.clock i) := by
  have hn : ¬ (!i.cpuBusReady) = true := by rw [hready]; decide
  have hf : ¬ s.flush = true := by rw [hflush]; decide
  have hp : ¬ s.pause = true := by rw [hpause]; decide
  refine ⟨moved hready hflush, ?_, ?_, ?_⟩
  · exact (if_neg hn).trans ((if_neg hf).trans (if_neg hp))
  · exact (if_neg hn).trans ((if_neg hf).trans (if_neg hp))
  · exact (if_neg hn).trans ((if_neg hf).trans (if_neg hp))

-- ===== the pipe's edge

namespace Pipe

variable {p : Pipe} {i : Input}

/-- The instruction in EX as it enters MEM. -/
def access (p : Pipe) (w : Word) : Option Accessed :=
  p.ex.map fun x => ⟨x, p.cpu.translation w⟩

/-- Unless there is a flush, EX moves to MEM. -/
theorem next_mem (hready : i.cpuBusReady = true)
    (hflush : p.cpu.flush = false) :
    (p.next i).mem = p.access i.cpuRomData := by
  simp [next, access, hready, hflush]

/-- While the bus is not ready no instruction moves. -/
theorem next_wait (hready : i.cpuBusReady = false) :
    p.next i = ⟨p.cpu.clock i, p.idLive, p.ex, p.mem, p.stale⟩ := by
  simp [next, hready]

/-- A flush leaves no instruction in the pipeline. -/
theorem next_flush (hready : i.cpuBusReady = true)
    (hflush : p.cpu.flush = true) :
    p.next i = ⟨p.cpu.clock i, false, none, none, 0⟩ := by
  simp [next, hready, hflush]

/-- A stall holds ID, lets EX go on and leaves EX empty. -/
theorem next_stall (hready : i.cpuBusReady = true)
    (hflush : p.cpu.flush = false) (hpause : p.cpu.pause = true) :
    p.next i = ⟨p.cpu.clock i, p.idLive, none, p.access i.cpuRomData,
      p.stale - 1⟩ := by
  simp [next, access, hready, hflush, hpause]

/-- Otherwise ID issues what it holds and takes the next word, unless
that was fetched before a flush. -/
theorem next_advance (hready : i.cpuBusReady = true)
    (hflush : p.cpu.flush = false) (hpause : p.cpu.pause = false) :
    p.next i = ⟨p.cpu.clock i, !p.cpu.control.isFlush,
      if p.idLive then some (p.cpu.issued i.cpuRomData) else none,
      p.access i.cpuRomData, p.stale - 1⟩ := by
  cases hid : p.idLive <;> simp [next, access, hready, hflush, hpause, hid]

end Pipe

end MipsUcore.Cpu
