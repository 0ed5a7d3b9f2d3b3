/-
The processor with a memory behind its bus, and the machine it stands
for.

# The bus

`Memory` is what the processor may assume of the other side: a read
returns a word and a write changes the contents, both decided by the
request alone. The bus is pipelined. At a ready edge the request on it is
accepted, and the answer is the word the processor finds at its next
ready edge. In between, `CPUBusReady` is 0 for any number of cycles and
the data lines carry anything (`Tick`).

# One instruction at a time

`Seq` executes a program the way it is written: an instruction takes its
operands from the registers, makes its access, writes its results, and
the next word is fetched after that. `Seq.Plain` is what a program has to
respect for the pipeline to be invisible. Of these conditions the one on
stores is about the prefetch: when a store goes out the two words behind
it have been fetched.

# The record

`Sys.seen` is what leaves the processor: the register writes WB commits
and the data accesses the bus accepts, with the number of instructions
that have left ID and of ready cycles.
-/
import MipsUcore.Cpu.Sequential

namespace MipsUcore.Cpu

-- ===== register writes

/-- A write to a register a program can see. -/
inductive RegWrite where
  | gpr (r : RegAddr) (value : Word)
  | hi (value : Word)
  | lo (value : Word)
  | cp (r : CpReg) (value : Word)
  deriving DecidableEq

/-- What an instruction writes. A write to register 0, or to a CP0 number
without a register, is none. -/
def Bypass.regWrites (b : Bypass) : List RegWrite :=
  (if b.writeRegister && b.writeAddress != 0 then
      [.gpr b.writeAddress b.writeData] else [])
    ++ (if b.writeHi then [.hi b.hiData] else [])
    ++ (if b.writeLo then [.lo b.loData] else [])
    ++ (if b.writeCP then ((CpReg.ofAddress b.writeCPAddress).map
      (RegWrite.cp · b.writeCPData)).toList else [])

/-- What `regfile`, `hilo_reg` and `cp` take from `mem_wb` at a ready
edge. -/
def MemWb.regWrites (w : MemWb) : List RegWrite :=
  (if w.wbWriteRegister && w.wbWriteAddress != 0 then
      [.gpr w.wbWriteAddress w.wbWriteData] else [])
    ++ (if w.wbWriteHi then [.hi w.wbHi] else [])
    ++ (if w.wbWriteLo then [.lo w.wbLo] else [])
    ++ CpReg.all.filterMap fun r => (w.cpWrite r).map (RegWrite.cp r)

-- ===== memory

/-- What answers on the bus. -/
structure Memory (μ : Type*) where
  read : μ → BusRequest → Word
  write : μ → BusRequest → μ

/-- Accept a request. -/
def Memory.accept {μ : Type*} (M : Memory μ) (m : μ) (r : BusRequest) : μ :=
  if r.writeEnable then M.write m r else m

/-- The request that fetches an instruction. -/
def Tlb.fetch (t : Tlb) (pc : Word) : BusRequest :=
  busRequest false 0 .idle (t.lookup pc false)

/-- The request of a load or store. -/
def Tlb.access (t : Tlb) (r : RamRequest) : BusRequest :=
  busRequest false 0 r (t.lookup r.ramAddress r.ramWriteEnable)

-- ===== the system

/-- What has left the processor so far. -/
structure Record where
  writes : List RegWrite
  accesses : List BusRequest
  issued : Nat
  cycles : Nat
  deriving DecidableEq

/-- The processor, the memory, and the answer the bus holds for the next
ready cycle. -/
structure Sys (μ : Type*) where
  pipe : Pipe
  mem : μ
  answer : Word
  seen : Record

/-- One clock cycle of the world: is the bus ready, what is on the data
lines if not, and is there a serial request. -/
structure Tick where
  ready : Bool
  lines : Word
  serial : Bool
  deriving DecidableEq

/-- ID passes an instruction on at this edge. -/
def Pipe.issues (p : Pipe) (i : Input) : Bool :=
  i.cpuBusReady && !p.cpu.flush && !p.cpu.pause && p.idLive

namespace Sys

variable {μ : Type*} (M : Memory μ) (s : Sys μ) (t : Tick)

/-- What the processor samples. -/
def input : Input where
  reset := true
  cpuBusReady := t.ready
  cpuRomData := if t.ready then s.answer else t.lines
  cpuSerialInterrupt := t.serial

/-- The memory after the edge. -/
def stored : μ :=
  if t.ready then M.accept s.mem (s.pipe.cpu.busOut (s.input t)) else s.mem

def record : Record where
  writes := s.seen.writes
    ++ if t.ready then s.pipe.cpu.memWb.regWrites else []
  accesses := s.seen.accesses
    ++ (s.pipe.cpu.dataAccess (s.input t)).toList
  issued := s.seen.issued + (s.pipe.issues (s.input t)).toNat
  cycles := s.seen.cycles + t.ready.toNat

def step : Sys μ where
  pipe := s.pipe.step (s.input t)
  mem := s.stored M t
  answer :=
    if t.ready then
      M.read (s.stored M t) (s.pipe.cpu.busOut (s.input t))
    else s.answer
  seen := s.record t

/-- Nothing in flight, nothing seen. -/
def start (c : State) (m : μ) (answer : Word) : Sys μ :=
  ⟨.empty c, m, answer, ⟨[], [], 0, 0⟩⟩

end Sys

/-- No instruction is in flight: the pipeline registers are as reset
leaves them. The register files, CP0, the counter, the TLB, the address
in PC and the interrupt latches hold anything. -/
structure State.Idle (c : State) : Prop where
  ifId : c.ifId = .reset
  idEx : c.idEx = .reset
  exMem : c.exMem = .reset
  memWb : c.memWb = .reset
  fix : c.pcRegister.fix = false
  isLoadStore : c.control.isLoadStore = false
  isFlush : c.control.isFlush = false

-- ===== one instruction a time

/-- The sequential machine with a memory. `word` is the instruction at
`arch.flow.pc`. -/
structure Seq (μ : Type*) where
  arch : Arch
  mem : μ
  word : Word

namespace Seq

variable {μ : Type*} (M : Memory μ) (tlb : Tlb) (q : Seq μ)

/-- The instruction with its operands. The counter is nobody's operand
here. -/
def inst : Inst where
  pc := q.arch.flow.pc
  word := q.word
  isInDelaySlot := q.arch.flow.isInDelaySlot
  pcTLBMiss := false
  register1 := q.arch.regs.operand1 0 (decode q.arch.flow.pc q.word)
  register2 := q.arch.regs.operand2 (decode q.arch.flow.pc q.word)
  count := 0

/-- Its access. An address that does not translate makes none. -/
def access : Option BusRequest :=
  if q.inst.ram.active && (tlb.lookup q.inst.ram.ramAddress
      q.inst.ram.ramWriteEnable).validAddress then
    some (tlb.access q.inst.ram)
  else none

def stored : μ := (q.access tlb).elim q.mem (M.accept q.mem)

/-- The word a load gets. -/
def load : Word := M.read (q.stored M tlb) (tlb.access q.inst.ram)

def regWrites : List RegWrite := (q.inst.writes (q.load M tlb)).regWrites

/-- The flow behind it. -/
def behind : Flow := q.arch.flow.advance q.inst.branchOut

def step : Seq μ where
  arch := q.arch.apply (.retire q.inst (q.load M tlb))
  mem := q.stored M tlb
  word := M.read (q.stored M tlb) (tlb.fetch q.behind.pc)

/-- The CP0 numbers a program may read: all but `count` and
`entrylo1`. -/
def readable : List RegAddr := [0, 2, 8, 10, 11, 12, 13, 14, 15, 18, 19]

/-- What the pipeline leaves to the program. -/
structure Plain : Prop where
  tlbwi : q.inst.decoded.tlbwi = false
  cpRead : q.inst.decoded.cpReadEnable = true →
    q.inst.decoded.cpAddress ∈ readable
  zero : q.inst.decoded.writeRegister = true →
    q.inst.decoded.writeAddress = 0 → q.word = 0
  storeNext : M.read (q.stored M tlb) (tlb.fetch q.behind.pc)
    = M.read q.mem (tlb.fetch q.behind.pc)
  storeSecond : M.read (q.stored M tlb) (tlb.fetch q.behind.npc)
    = M.read q.mem (tlb.fetch q.behind.npc)

instance : Decidable (q.Plain M tlb) :=
  decidable_of_iff
    (q.inst.decoded.tlbwi = false ∧
      (q.inst.decoded.cpReadEnable = true →
        q.inst.decoded.cpAddress ∈ readable) ∧
      (q.inst.decoded.writeRegister = true →
        q.inst.decoded.writeAddress = 0 → q.word = 0) ∧
      M.read (q.stored M tlb) (tlb.fetch q.behind.pc)
        = M.read q.mem (tlb.fetch q.behind.pc) ∧
      M.read (q.stored M tlb) (tlb.fetch q.behind.npc)
        = M.read q.mem (tlb.fetch q.behind.npc))
    ⟨fun ⟨h₁, h₂, h₃, h₄, h₅⟩ => ⟨h₁, h₂, h₃, h₄, h₅⟩,
      fun ⟨h₁, h₂, h₃, h₄, h₅⟩ => ⟨h₁, h₂, h₃, h₄, h₅⟩⟩

/-- Where a processor without an instruction in flight starts, with
`answer` on its way to it as the first word. -/
def start (c : State) (m : μ) (answer : Word) : Seq μ :=
  ⟨⟨c.regs, .start c.pcRegister.pc⟩, m, answer⟩

end Seq

end MipsUcore.Cpu
