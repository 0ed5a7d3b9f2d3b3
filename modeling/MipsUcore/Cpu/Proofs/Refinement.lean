/-
The pipeline refines sequential execution.

`pipeline_refines` compares the processor with a memory behind its bus
(`Sys`) to the machine that executes one instruction at a time (`Seq`):
the register writes that WB commits and the data accesses that the bus
accepts are, in order, those of the sequential machine.

# The relation

`Sys.Refines s a q` has two sequential machines. `a` stands in front of
MEM, as in `Pipe.Executes`, and knows nothing of the memory. `q` stands
in front of EX and is the one that is stepped: an access goes out while
its instruction is in EX, so the memory of `q` is the memory. Behind EX
two words have been fetched, one in ID and one on the bus or saved in
`control`. They are still the words `q` will find, because a plain store
leaves them alone (`Refines.executed_word`, `Refines.executed_fetched`).

# The record

`Sys.Follows` counts: `k` instructions past EX have made their accesses,
and the writes of all but the last two of these have left WB.
-/
import MipsUcore.Cpu.System
import MipsUcore.Cpu.Proofs.InOrder

namespace MipsUcore.Cpu

open Machine

-- ===== register writes

/-- The CP0 ports write what an `mtc0` asks for. -/
theorem mtc0_regWrites (writeCP : Bool) (address : RegAddr) (data : Word) :
    (CpReg.all.filterMap fun r =>
      (mtc0Write writeCP address data r).map (RegWrite.cp r))
      = if writeCP then ((CpReg.ofAddress address).map
          (RegWrite.cp · data)).toList else [] := by
  unfold mtc0Write
  cases writeCP with
  | false => rfl
  | true =>
    cases CpReg.ofAddress address with
    | none => rfl
    | some r => cases r <;> rfl

/-- What reaches `mem_wb` without a flush. -/
theorem MemWb.regWrites_next (w : MemWb) (b : Bypass) :
    (w.next true false b .quiet).regWrites = b.regWrites := by
  have hcp (r : CpReg) : (w.next true false b .quiet).cpWrite r
      = mtc0Write b.writeCP b.writeCPAddress b.writeCPData r :=
    Option.or_none
  unfold regWrites Bypass.regWrites
  simp only [hcp, mtc0_regWrites]
  rfl

theorem Bypass.Inert.regWrites {b : Bypass} (h : b.Inert) :
    b.regWrites = [] := by
  unfold Bypass.regWrites
  rw [h.writeHi, h.writeLo, h.writeCP]
  cases hw : b.writeRegister with
  | false => rfl
  | true =>
    rw [(h.write hw).1]
    rfl

-- ===== one instruction

/-- The same instruction with the same operands. -/
structure Inst.Like (x y : Inst) : Prop where
  pc : x.pc = y.pc
  word : x.word = y.word
  register1 : x.register1 = y.register1
  register2 : x.register2 = y.register2

namespace Inst.Like

variable {x y : Inst}

theorem decoded (h : x.Like y) : x.decoded = y.decoded := by
  unfold Inst.decoded
  rw [h.pc, h.word]

theorem branchOut (h : x.Like y) : x.branchOut = y.branchOut := by
  unfold Inst.branchOut
  rw [h.pc, h.word, h.register1, h.register2]

-- neither a request nor a result depends on the other fields

theorem ram (h : x.Like y) : x.ram = y.ram := by
  have hx (z : Inst) : z.ram = (⟨z.pc, z.word, false, false, z.register1,
    z.register2, 0⟩ : Inst).ram := rfl
  obtain ⟨hpc, hword, h1, h2⟩ := h
  rw [hx x, hx y, hpc, hword, h1, h2]

theorem writes (h : x.Like y) (load : Word) :
    x.writes load = y.writes load := by
  have hx (z : Inst) : z.writes load = (⟨z.pc, z.word, false, false,
    z.register1, z.register2, 0⟩ : Inst).writes load := rfl
  obtain ⟨hpc, hword, h1, h2⟩ := h
  rw [hx x, hx y, hpc, hword, h1, h2]

end Inst.Like

/-- The empty word moves 0 to register 0. -/
theorem Inst.zeroQuiet_nop {x : Inst} (hword : x.word = 0)
    (h2 : x.register2 = 0) (load : Word) : (x.writes load).ZeroQuiet := by
  have hempty := ex_nop_empty x.pc x.register1 x.isInDelaySlot
  have himage : x.idEx = .latch (decode x.pc 0) x.register1 0 x.pc
      x.isInDelaySlot x.pcTLBMiss := by
    rw [← hword]
    exact congrArg (IdEx.latch _ _ · _ _ _) (h2.trans hword.symm)
  have hidle : x.ram.active = false := by
    unfold ram exOut
    rw [himage]
    exact congrArg RamRequest.active hempty.ram
  rw [writes_idle hidle]
  unfold exOut
  rw [himage]
  exact hempty.inert.zeroQuiet

-- ===== the bus

namespace Pipe

variable {p : Pipe} {i : Input}

/-- The TLB is asked for the address of an access in EX. -/
theorem Tracks.translation_access (h : p.Tracks) {x : Inst}
    (hx : p.ex = some x) (hactive : x.ram.active = true) (w : Word) :
    p.cpu.translation w
      = p.cpu.tlb.lookup x.ram.ramAddress x.ram.ramWriteEnable := by
  have haddr : p.cpu.virtualAddress w = x.ram.ramAddress := by
    unfold State.virtualAddress tlbVirtualAddress
    rw [h.ram hx]
    revert hactive
    unfold RamRequest.active
    cases x.ram.ramWriteEnable <;> cases x.ram.ramReadEnable <;> simp
  unfold State.translation
  rw [haddr, h.ram hx]

/-- The access is what is on the bus. -/
theorem Tracks.busOut_access (h : p.Tracks) {x : Inst} (hx : p.ex = some x)
    (hactive : x.ram.active = true) (hlive : i.Live)
    (hflush : p.cpu.flush = false) :
    p.cpu.busOut i = p.cpu.tlb.access x.ram := by
  unfold State.busOut State.bus
  rw [hlive, hflush, h.translation_access hx hactive, h.ram hx]
  rfl

/-- Otherwise the next instruction is fetched. -/
theorem busOut_fetch (hlive : i.Live) (hready : i.cpuBusReady = true)
    (hflush : p.cpu.flush = false) (hpause : p.cpu.pause = false) :
    p.cpu.busOut i = p.cpu.tlb.fetch (p.cpu.clock i).pcRegister.pc := by
  have hidle : p.cpu.ram.active = false := by
    rw [← State.pause_eq]
    exact hpause
  obtain ⟨hread, hwrite⟩ := Bool.or_eq_false_iff.mp hidle
  have haddr : p.cpu.virtualAddress i.cpuRomData
      = (p.cpu.clock i).pcRegister.pc := by
    rw [(State.advanced hready hflush hpause).pcRegister]
    unfold State.virtualAddress tlbVirtualAddress
    rw [hread, hwrite]
    cases (p.cpu.branchOut i.cpuRomData).branchFlag <;> rfl
  unfold State.busOut State.bus State.translation Tlb.fetch busRequest
    tempDataSize
  rw [hlive, hflush, haddr, hwrite, hread]
  rfl

end Pipe

section Memory

variable {μ : Type*} (M : Memory μ) (m : μ) (t : Tlb)

theorem Memory.accept_read {r : BusRequest} (h : r.writeEnable = false) :
    M.accept m r = m := by
  unfold accept
  rw [h]
  rfl

theorem Tlb.fetch_writeEnable (pc : Word) :
    (t.fetch pc).writeEnable = false := by
  unfold fetch busRequest
  cases (t.lookup pc false).validAddress <;> rfl

/-- An access that does not translate leaves the memory alone. -/
theorem Tlb.access_invalid {r : RamRequest}
    (h : (t.lookup r.ramAddress r.ramWriteEnable).validAddress = false) :
    (t.access r).writeEnable = false := by
  unfold access busRequest
  rw [h]
  rfl

end Memory

-- ===== the next state

namespace Pipe

variable {p : Pipe} {a : Arch} {i : Input}

/-- The sequential machine behind the instruction in MEM, with the word
that is on its way to a load there. -/
def archEx (p : Pipe) (a : Arch) (load : Word) : Arch where
  regs := match p.mem with
    | none => a.regs
    | some m => a.regs.commit (m.inst.writes load)
  flow := p.flowEx a.flow

/-- A load in MEM gets the bus answer. -/
theorem Tracks.memOut_load (h : p.Tracks) (hflush : p.cpu.flush = false)
    {m : Accessed} (hm : p.mem = some m) (w : Word) :
    p.cpu.memOut w = m.inst.writes w := by
  rw [h.memOut hm]
  cases hactive : m.inst.ram.active with
  | false => rw [Inst.writes_idle hactive, Inst.writes_idle hactive]
  | true =>
    have hls := h.isLoadStore
    rw [hm, Option.elim_some, hactive] at hls
    unfold State.loadResult Control.loadResult
    rw [hflush, hls]
    rfl

theorem Tracks.retired_eq (h : p.Tracks) (hflush : p.cpu.flush = false)
    (a : Arch) (w : Word) : p.retired a w = p.archEx a w := by
  unfold retired archEx
  cases hm : p.mem with
  | none => rw [Regs.commit_inert (h.memOut_inert hm w)]
  | some m => rw [h.memOut_load hflush hm]

/-- With an instruction in EX, none is a load in MEM. -/
theorem Tracks.archEx_regs (h : p.Tracks) {x : Inst} (hx : p.ex = some x)
    (a : Arch) (load : Word) : (p.archEx a load).regs = p.regsEx a.regs := by
  unfold archEx regsEx
  cases hm : p.mem with
  | none => rfl
  | some m =>
    have hidle := h.mem_idle hx hm
    show a.regs.commit _ = a.regs.commit _
    rw [Inst.writes_idle hidle, Inst.writes_idle hidle]

end Pipe

-- ===== relation

theorem Seq.ofAddress_readable {r : RegAddr} (h : r ∈ readable) :
    CpReg.ofAddress r ≠ none := by
  simp only [readable, List.mem_cons, List.not_mem_nil, or_false] at h
  rcases h with rfl | rfl | rfl | rfl | rfl | rfl | rfl | rfl | rfl
    | rfl | rfl <;> decide

/-- The counter is read through number 9 only. -/
theorem Regs.operand1_count (a : Regs) {d : Decoded}
    (h : d.cpReadEnable = true → d.cpAddress ∈ Seq.readable)
    (count count' : Word) : a.operand1 count d = a.operand1 count' d := by
  unfold operand1
  cases hc : d.cpReadEnable with
  | false => rfl
  | true =>
    have hsome := Seq.ofAddress_readable (h hc)
    unfold cpRead
    cases hr : CpReg.ofAddress d.cpAddress with
    | none => exact absurd hr hsome
    | some r => rfl

/-- A plain instruction leaves nothing for register 0. -/
theorem Seq.Plain.zeroQuiet {μ : Type*} {M : Memory μ} {tlb : Tlb}
    {q : Seq μ} (h : q.Plain M tlb) (load : Word) :
    (q.inst.writes load).ZeroQuiet := by
  intro hw ha
  have hword : q.inst.word = 0 := h.zero hw ha
  have h2 : q.inst.register2 = 0 := by
    have hd : q.word = 0 := hword
    show q.arch.regs.operand2 (decode q.arch.flow.pc q.word) = 0
    rw [hd]
    rfl
  exact Inst.zeroQuiet_nop hword h2 load hw ha

namespace Sys

variable {μ : Type*} {M : Memory μ} {tlb : Tlb} {s : Sys μ} {a : Arch}
  {q : Seq μ} {t : Tick}

/-- The word fetched for the address in PC. A load or store in MEM has
taken the bus answer, and the word was saved a cycle earlier. -/
def fetched (s : Sys μ) : Word :=
  if s.pipe.cpu.control.isLoadStore then s.pipe.cpu.control.lastResult
  else s.answer

/-- The processor has started everything up to EX: `q` stands in front
of the instruction there, its memory is the memory, and the words in ID
and of the last fetch are those `q` finds. -/
structure Refines (M : Memory μ) (tlb : Tlb) (s : Sys μ) (a : Arch)
    (q : Seq μ) : Prop where
  executes : s.pipe.Executes a
  isFlush : s.pipe.cpu.control.isFlush = false
  fixed : s.pipe.cpu.tlb = tlb
  tlbwi : ∀ m, s.pipe.mem = some m → m.inst.decoded.tlbwi = false
  zero : ∀ m, s.pipe.mem = some m → ∀ w, (m.inst.writes w).ZeroQuiet
  arch : q.arch = s.pipe.archEx a s.answer
  mem : q.mem = s.mem
  ex : ∀ x, s.pipe.ex = some x → x.word = q.word
  id : s.pipe.idLive = true → s.pipe.cpu.ifId.idInstruction =
    if s.pipe.ex.isSome then M.read q.mem (tlb.fetch q.arch.flow.npc)
    else q.word
  fetched : s.fetched =
    if s.pipe.idLive then
      M.read q.mem (tlb.fetch s.pipe.cpu.pcRegister.pc)
    else q.word

/-- The sequential machine once EX has moved on. -/
def executed (M : Memory μ) (tlb : Tlb) (s : Sys μ) (q : Seq μ) : Seq μ :=
  if s.pipe.ex.isSome then q.step M tlb else q

/-- The instruction in EX is the one the sequential machine executes. -/
theorem Refines.like (h : s.Refines M tlb a q) {x : Inst}
    (hx : s.pipe.ex = some x) (hplain : q.Plain M tlb) : x.Like q.inst := by
  have hstale := h.executes.flows.exFresh (by rw [hx]; rfl)
  obtain ⟨hpc, -⟩ := h.executes.flows.ex hstale
  rw [h.executes.tracks.ex x hx] at hpc
  have hflow : q.arch.flow = s.pipe.flowEx a.flow := by rw [h.arch]; rfl
  have hregs : q.arch.regs = s.pipe.regsEx a.regs := by
    rw [h.arch]
    exact h.executes.tracks.archEx_regs hx a _
  obtain ⟨h1, h2⟩ := h.executes.reading.ex x hx
  have hxpc : x.pc = q.arch.flow.pc := by
    rw [hflow]
    exact hpc
  have hd : x.decoded = q.inst.decoded := by
    unfold Inst.decoded
    rw [h.ex x hx, hxpc]
    rfl
  refine ⟨hxpc, h.ex x hx, ?_, ?_⟩
  · rw [h1, hd, ← hregs]
    exact Regs.operand1_count _ hplain.cpRead _ _
  · rw [h2, hd, ← hregs]
    rfl

theorem executed_none (hx : s.pipe.ex = none) : s.executed M tlb q = q := by
  unfold executed
  rw [hx]
  rfl

theorem executed_some {x : Inst} (hx : s.pipe.ex = some x) :
    s.executed M tlb q = q.step M tlb := by
  unfold executed
  rw [hx]
  rfl

variable (h : s.Refines M tlb a q)
  (hplain : s.pipe.ex.isSome = true → q.Plain M tlb)

section
include h hplain

/-- Behind EX the sequential machine stands in front of ID. -/
theorem Refines.executed_flow :
    (s.executed M tlb q).arch.flow = s.pipe.flowId a.flow := by
  have hflow : q.arch.flow = s.pipe.flowEx a.flow := by rw [h.arch]; rfl
  unfold Pipe.flowId
  rw [← hflow]
  cases hx : s.pipe.ex with
  | none => rw [executed_none hx]; rfl
  | some x =>
    have hlike := h.like hx (hplain (by rw [hx]; rfl))
    rw [executed_some hx]
    show q.arch.flow.advance q.inst.branchOut = q.arch.flow.advance x.branchOut
    rw [hlike.branchOut]

/-- The word in ID is the one the sequential machine finds there. -/
theorem Refines.executed_word (hid : s.pipe.idLive = true) :
    s.pipe.cpu.ifId.idInstruction = (s.executed M tlb q).word := by
  have hword := h.id hid
  cases hx : s.pipe.ex with
  | none =>
    rw [hx] at hword
    rw [executed_none hx]
    exact hword
  | some x =>
    have hp := hplain (by rw [hx]; rfl)
    rw [hx] at hword
    rw [executed_some hx]
    exact hword.trans hp.storeNext.symm

/-- So is the word fetched last. -/
theorem Refines.executed_fetched (hid : s.pipe.idLive = true) :
    s.pipe.cpu.pcRegister.pc = (s.executed M tlb q).arch.flow.npc ∧
      s.fetched = M.read (s.executed M tlb q).mem
        (tlb.fetch s.pipe.cpu.pcRegister.pc) := by
  have hnpc : s.pipe.cpu.pcRegister.pc
      = (s.executed M tlb q).arch.flow.npc := by
    rw [h.executed_flow hplain]
    exact h.executes.flows.fetch hid
  refine ⟨hnpc, ?_⟩
  rw [h.fetched, if_pos hid]
  cases hx : s.pipe.ex with
  | none => rw [executed_none hx]
  | some x =>
    have hp := hplain (by rw [hx]; rfl)
    rw [hnpc, executed_some hx]
    exact hp.storeSecond.symm

end

-- ----- what goes over the bus

/-- An access of the instruction in EX, made by both machines. -/
theorem Refines.access_active (h : s.Refines M tlb a q) {x : Inst}
    (hx : s.pipe.ex = some x) (hplain : q.Plain M tlb)
    (hready : t.ready = true) (hflush : s.pipe.cpu.flush = false)
    (hactive : x.ram.active = true) :
    s.pipe.cpu.busOut (s.input t) = tlb.access q.inst.ram ∧
      s.stored M t = q.stored M tlb ∧
      s.pipe.cpu.dataAccess (s.input t) = q.access tlb := by
  have hram : x.ram = q.inst.ram := (h.like hx hplain).ram
  have hcpu : s.pipe.cpu.ram = q.inst.ram := by
    rw [← hram]
    exact h.executes.tracks.ram hx
  have hbus : s.pipe.cpu.busOut (s.input t) = tlb.access q.inst.ram := by
    rw [← hram, ← h.fixed]
    exact h.executes.tracks.busOut_access hx hactive rfl hflush
  have haddr : s.pipe.cpu.translation (s.input t).cpuRomData
      = tlb.lookup q.inst.ram.ramAddress q.inst.ram.ramWriteEnable := by
    rw [h.executes.tracks.translation_access hx hactive, h.fixed, hram]
  rw [hram] at hactive
  have haccess : s.pipe.cpu.dataAccess (s.input t) = q.access tlb := by
    unfold State.dataAccess Seq.access
    rw [hbus, haddr, hcpu, hflush]
    show (if t.ready && _ && _ && _ then _ else _) = _
    rw [hready]
    rfl
  refine ⟨hbus, ?_, haccess⟩
  unfold stored Seq.stored Seq.access
  rw [if_pos hready, hbus, h.mem, hactive]
  cases hv : (tlb.lookup q.inst.ram.ramAddress
      q.inst.ram.ramWriteEnable).validAddress with
  | true => rfl
  | false => exact M.accept_read _ (tlb.access_invalid hv)

section
include h hplain

/-- No access, by neither machine. -/
theorem Refines.access_idle (hready : t.ready = true)
    (hflush : s.pipe.cpu.flush = false) (hpause : s.pipe.cpu.pause = false) :
    s.pipe.cpu.busOut (s.input t)
        = tlb.fetch (s.pipe.cpu.clock (s.input t)).pcRegister.pc ∧
      s.stored M t = (s.executed M tlb q).mem ∧
      s.pipe.cpu.dataAccess (s.input t) = none ∧
      (s.pipe.ex.isSome = true → q.access tlb = none) := by
  have hidle : s.pipe.cpu.ram.active = false := by
    rw [← State.pause_eq]
    exact hpause
  have hbus := Pipe.busOut_fetch (i := s.input t) rfl hready hflush hpause
  rw [h.fixed] at hbus
  have hstored : s.stored M t = s.mem := by
    unfold stored
    rw [if_pos hready, hbus]
    exact M.accept_read _ (tlb.fetch_writeEnable _)
  have hnone : s.pipe.ex.isSome = true → q.access tlb = none := by
    intro hsome
    obtain ⟨x, hx⟩ := Option.isSome_iff_exists.mp hsome
    have hram : s.pipe.cpu.ram = q.inst.ram := by
      rw [← (h.like hx (hplain hsome)).ram]
      exact h.executes.tracks.ram hx
    unfold Seq.access
    rw [← hram, hidle]
    rfl
  refine ⟨hbus, ?_, ?_, hnone⟩
  · rw [hstored, ← h.mem]
    cases hx : s.pipe.ex with
    | none => rw [executed_none hx]
    | some x =>
      rw [executed_some hx]
      show q.mem = (q.access tlb).elim q.mem _
      rw [hnone (by rw [hx]; rfl)]
      rfl
  · unfold State.dataAccess
    rw [hidle, Bool.and_false]
    rfl

end

theorem step_pipe (M : Memory μ) (s : Sys μ) (t : Tick) :
    (s.step M t).pipe = s.pipe.next (s.input t) := rfl

theorem answer_ready (hready : t.ready = true) : (s.step M t).answer
    = M.read (s.stored M t) (s.pipe.cpu.busOut (s.input t)) :=
  if_pos hready

/-- What the instruction in EX will write. -/
theorem Refines.writes_load (h : s.Refines M tlb a q) {x : Inst}
    (hx : s.pipe.ex = some x) (hplain : q.Plain M tlb)
    (hready : t.ready = true) (hflush : s.pipe.cpu.flush = false) :
    x.writes (s.step M t).answer = q.inst.writes (q.load M tlb) := by
  have hlike := h.like hx hplain
  rw [hlike.writes]
  cases hactive : x.ram.active with
  | false =>
    rw [hlike.ram] at hactive
    rw [Inst.writes_idle hactive, Inst.writes_idle hactive]
  | true =>
    obtain ⟨hbus, hstored, -⟩ :=
      h.access_active hx hplain hready hflush hactive
    rw [answer_ready hready, hbus, hstored]
    rfl

section
include h hplain

theorem Refines.executed_arch (hready : t.ready = true)
    (hflush : s.pipe.cpu.flush = false) : (s.executed M tlb q).arch
      = (s.step M t).pipe.archEx q.arch (s.step M t).answer := by
  have hmem := Pipe.next_mem (i := s.input t) hready hflush
  unfold Pipe.archEx Pipe.flowEx
  rw [step_pipe, hmem]
  unfold Pipe.access
  cases hx : s.pipe.ex with
  | none => rw [executed_none hx]; rfl
  | some x =>
    have hp := hplain (by rw [hx]; rfl)
    have hwrites := h.writes_load hx hp hready hflush
    have hbranch := (h.like hx hp).branchOut
    rw [executed_some hx]
    show (⟨q.arch.regs.commit _, q.arch.flow.advance _⟩ : Arch)
      = ⟨q.arch.regs.commit _, q.arch.flow.advance _⟩
    rw [hwrites, hbranch]

end

theorem Refines.tlb_step (h : s.Refines M tlb a q) :
    (s.step M t).pipe.cpu.tlb = tlb := by
  have hquiet : s.pipe.cpu.exMem.memtlbwi = false := by
    cases hm : s.pipe.mem with
    | none => exact (h.executes.tracks.memEmpty hm).tlbwi
    | some m =>
      rw [h.executes.tracks.mem m hm]
      exact h.tlbwi m hm
  show s.pipe.cpu.tlb.next s.pipe.cpu.exMem.memtlbwi _ _ _ _ = tlb
  rw [hquiet]
  exact h.fixed

section
include h hplain

/-- A plain instruction that ID passes on takes its operands in program
order. -/
theorem Refines.orderedIssue (hnext : s.pipe.issues (s.input t) = true →
      (s.executed M tlb q).Plain M tlb) :
    s.pipe.OrderedIssue (s.input t) := by
  intro hid hready hflush hpause
  have hissues : s.pipe.issues (s.input t) = true := by
    unfold Pipe.issues
    rw [hready, hflush, hpause, hid]
    rfl
  have hp := hnext hissues
  have ht := h.executes.tracks
  have hpc : s.pipe.cpu.ifId.idPC = (s.executed M tlb q).arch.flow.pc := by
    rw [h.executed_flow hplain]
    exact (h.executes.flows.id (h.executes.flows.idFresh hid)).1
  have hd : s.pipe.cpu.decoded = (s.executed M tlb q).inst.decoded := by
    unfold State.decoded Inst.decoded
    rw [hpc, h.executed_word hplain hid]
    rfl
  refine State.Clean.ordered ⟨fun _ => zeroForward_quiet ?_ ?_, ?_, ?_⟩
  · cases hx : s.pipe.ex with
    | none => exact (ht.exEmpty hx).inert.zeroQuiet
    | some x =>
      have hq := hplain (by rw [hx]; rfl)
      rw [ht.pause hx] at hpause
      rw [ht.exOut hx, ← Inst.writes_idle hpause 0, (h.like hx hq).writes]
      exact hq.zeroQuiet 0
  · cases hm : s.pipe.mem with
    | none => exact (ht.memOut_inert hm _).zeroQuiet
    | some m =>
      rw [ht.memOut hm]
      exact h.zero m hm _
  · intro hc h3
    rw [hd] at hc h3
    have hmem := hp.cpRead hc
    rw [h3] at hmem
    revert hmem
    decide
  · intro hc hnone
    rw [hd] at hc hnone
    have hmem := hp.cpRead hc
    exact absurd hnone (Seq.ofAddress_readable hmem)

end

-- ----- edges

theorem Refines.wait (h : s.Refines M tlb a q) (hready : t.ready = false) :
    (s.step M t).Refines M tlb a q := by
  have hw := State.waited (s := s.pipe.cpu) (i := s.input t) hready
  have hnext := Pipe.next_wait (p := s.pipe) (i := s.input t) hready
  have hn : ¬ t.ready = true := by rw [hready]; decide
  have hanswer : (s.step M t).answer = s.answer := if_neg hn
  have hmem : (s.step M t).mem = s.mem := if_neg hn
  have hexec : (s.step M t).pipe.Executes a := h.executes.wait hready
  constructor
  case executes => exact hexec
  case isFlush => exact hw.isFlush.trans h.isFlush
  case fixed => exact h.tlb_step
  case tlbwi =>
    rw [step_pipe, hnext]
    exact h.tlbwi
  case zero =>
    rw [step_pipe, hnext]
    exact h.zero
  case arch =>
    rw [step_pipe, hnext, hanswer]
    exact h.arch
  case mem => exact h.mem.trans hmem.symm
  case ex =>
    rw [step_pipe, hnext]
    exact h.ex
  case id =>
    rw [step_pipe, hnext, hw.ifId]
    exact h.id
  case fetched =>
    have hf : (s.step M t).fetched = s.fetched := by
      unfold Sys.fetched
      rw [step_pipe, hnext, hw.isLoadStore, hw.lastResult, hanswer]
    rw [hf, step_pipe, hnext, hw.pcRegister]
    exact h.fetched

include h hplain

/-- What a stall and an advance have in common. -/
theorem Refines.moved (hready : t.ready = true)
    (hflush : s.pipe.cpu.flush = false) :
    s.pipe.retired a (s.input t).cpuRomData = q.arch ∧
      (∀ m, (s.step M t).pipe.mem = some m → m.inst.decoded.tlbwi = false ∧
          ∀ w, (m.inst.writes w).ZeroQuiet) := by
  have hrom : (s.input t).cpuRomData = s.answer := if_pos hready
  refine ⟨?_, ?_⟩
  · rw [h.executes.tracks.retired_eq hflush, hrom, h.arch]
  · intro m hm
    rw [step_pipe, Pipe.next_mem (i := s.input t) hready hflush] at hm
    obtain ⟨x, hx, rfl⟩ := Option.map_eq_some_iff.mp hm
    have hp := hplain (by rw [hx]; rfl)
    have hlike := h.like hx hp
    refine ⟨?_, fun w => ?_⟩
    · rw [hlike.decoded]
      exact hp.tlbwi
    · rw [hlike.writes]
      exact hp.zeroQuiet w

theorem Refines.stall (hready : t.ready = true)
    (hflush : s.pipe.cpu.flush = false) (hpause : s.pipe.cpu.pause = true) :
    (s.step M t).Refines M tlb q.arch (s.executed M tlb q) := by
  have hs := State.stalled (i := s.input t) hready hflush hpause
  have hnext := Pipe.next_stall (i := s.input t) hready hflush hpause
  obtain ⟨hsome, hid⟩ := h.executes.tracks.pause_live hpause
  obtain ⟨x, hx⟩ := Option.isSome_iff_exists.mp hsome
  have hactive : x.ram.active = true := by
    rw [← h.executes.tracks.pause hx]
    exact hpause
  obtain ⟨-, hstored, -⟩ :=
    h.access_active hx (hplain hsome) hready hflush hactive
  obtain ⟨hretired, hmoved⟩ := h.moved hplain hready hflush
  have hexec := h.executes.stall (i := s.input t) hready hflush hpause
  rw [hretired] at hexec
  constructor
  case executes => exact hexec
  case isFlush => exact hs.isFlush
  case fixed => exact h.tlb_step
  case tlbwi => exact fun m hm => (hmoved m hm).1
  case zero => exact fun m hm => (hmoved m hm).2
  case arch => exact h.executed_arch hplain hready hflush
  case mem =>
    rw [executed_some hx]
    exact hstored.symm
  case ex =>
    intro x' hx'
    rw [step_pipe, hnext] at hx'
    cases hx'
  case id =>
    intro _
    rw [step_pipe, hnext, hs.ifId]
    exact h.executed_word hplain hid
  case fetched =>
    -- the word is saved while the access has the bus
    have hls : s.pipe.cpu.control.isLoadStore = false := by
      rw [h.executes.tracks.isLoadStore]
      cases hm : s.pipe.mem with
      | none => rfl
      | some m => exact h.executes.tracks.mem_idle hx hm
    have hold : s.fetched = s.answer := by
      unfold Sys.fetched
      rw [hls]
      rfl
    have hnew : (s.step M t).fetched = s.answer := by
      unfold Sys.fetched
      rw [step_pipe, hnext, hs.isLoadStore, hs.lastResult, ← State.pause_eq,
        hpause]
      exact if_pos hready
    obtain ⟨-, hfetched⟩ := h.executed_fetched hplain hid
    rw [step_pipe, hnext, hs.pcRegister, hid, hnew, ← hold]
    exact hfetched

theorem Refines.advance (hordered : s.pipe.OrderedIssue (s.input t))
    (hready : t.ready = true) (hflush : s.pipe.cpu.flush = false)
    (hpause : s.pipe.cpu.pause = false) :
    (s.step M t).Refines M tlb q.arch (s.executed M tlb q) := by
  have ha := State.advanced (i := s.input t) hready hflush hpause
  have hnext := Pipe.next_advance (i := s.input t) hready hflush hpause
  obtain ⟨hbus, hstored, -⟩ := h.access_idle hplain hready hflush hpause
  obtain ⟨hretired, hmoved⟩ := h.moved hplain hready hflush
  have hexec := h.executes.advance hordered hready hflush hpause
  rw [hretired] at hexec
  have hidle : s.pipe.cpu.ram.active = false := by
    rw [← State.pause_eq]
    exact hpause
  constructor
  case executes => exact hexec
  case isFlush => exact ha.isFlush
  case fixed => exact h.tlb_step
  case tlbwi => exact fun m hm => (hmoved m hm).1
  case zero => exact fun m hm => (hmoved m hm).2
  case arch => exact h.executed_arch hplain hready hflush
  case mem => exact hstored.symm
  case ex =>
    intro x hx
    rw [step_pipe, hnext] at hx
    cases hid : s.pipe.idLive with
    | false =>
      simp only [hid] at hx
      cases hx
    | true =>
      simp only [hid, if_true] at hx
      cases hx
      exact h.executed_word hplain hid
  case id =>
    intro _
    have hword : s.pipe.cpu.instructionResult (s.input t).cpuRomData
        = s.fetched := by
      have hrom : (s.input t).cpuRomData = s.answer := if_pos hready
      unfold State.instructionResult Control.instructionResult Sys.fetched
      rw [hflush, h.isFlush, hrom]
      rfl
    rw [step_pipe, hnext, ha.ifId]
    rw [hword]
    cases hid : s.pipe.idLive with
    | true =>
      obtain ⟨hnpc, hfetched⟩ := h.executed_fetched hplain hid
      rw [hfetched, hnpc]
      rfl
    | false =>
      rw [executed_none (h.executes.tracks.idEmpty hid).1, h.fetched, hid]
      rfl
  case fetched =>
    have hnew : (s.step M t).fetched = (s.step M t).answer := by
      unfold Sys.fetched
      rw [step_pipe, hnext, ha.isLoadStore, hidle]
      rfl
    rw [hnew, answer_ready hready, hbus, hstored, step_pipe, hnext, h.isFlush]
    rfl

end Sys

-- ===== record

namespace Sys

variable {μ : Type*} {M : Memory μ} {tlb : Tlb} {s : Sys μ} {q : Seq μ}
  {t : Tick} {k : Nat}

/-- The register writes seen are those of the first `j` instructions.
One more may be in WB, and then one more in MEM. -/
structure Commits (M : Memory μ) (tlb : Tlb) (q : Seq μ) (s : Sys μ)
    (j r k : Nat) : Prop where
  lag : j ≤ r ∧ r ≤ j + 1
  past : k = r + s.pipe.mem.isSome.toNat
  writes : s.seen.writes
    = outputs (Seq.step M tlb) (Seq.regWrites M tlb) q j
  wb : outputs (Seq.step M tlb) (Seq.regWrites M tlb) q r
    = s.seen.writes ++ s.pipe.cpu.memWb.regWrites
  mem : ∀ m, s.pipe.mem = some m → (m.inst.writes s.answer).regWrites
    = ((Seq.step M tlb)^[r] q).regWrites M tlb

/-- The sequential machine has executed `k` instructions from `q`, and
the processor has moved as many past EX. -/
structure Follows (M : Memory μ) (tlb : Tlb) (q : Seq μ) (s : Sys μ)
    (k : Nat) : Prop where
  refines : ∃ a, s.Refines M tlb a ((Seq.step M tlb)^[k] q)
  issued : s.seen.issued = k + s.pipe.ex.isSome.toNat
  accesses : s.seen.accesses
    = outputs (Seq.step M tlb) (fun q => (q.access tlb).toList) q k
  commits : ∃ j r, s.Commits M tlb q j r k
  cycles : s.seen.cycles ≤ s.seen.issued + k + s.pipe.idLive.toNat

theorem executed_iterate (k : Nat) : s.executed M tlb ((Seq.step M tlb)^[k] q)
      = (Seq.step M tlb)^[k + s.pipe.ex.isSome.toNat] q := by
  cases hx : s.pipe.ex with
  | none => exact executed_none hx
  | some x =>
    rw [executed_some hx]
    exact (Function.iterate_succ_apply' _ _ _).symm

theorem Refines.dataAccess_eq {a : Arch} (h : s.Refines M tlb a q)
    (hplain : s.pipe.ex.isSome = true → q.Plain M tlb)
    (hready : t.ready = true) (hflush : s.pipe.cpu.flush = false) :
    s.pipe.cpu.dataAccess (s.input t)
      = if s.pipe.ex.isSome then q.access tlb else none := by
  cases hpause : s.pipe.cpu.pause with
  | true =>
    obtain ⟨hsome, -⟩ := h.executes.tracks.pause_live hpause
    obtain ⟨x, hx⟩ := Option.isSome_iff_exists.mp hsome
    rw [h.executes.tracks.pause hx] at hpause
    rw [hsome]
    exact (h.access_active hx (hplain hsome) hready hflush hpause).2.2
  | false =>
    obtain ⟨-, -, hnone, haccess⟩ := h.access_idle hplain hready hflush hpause
    rw [hnone]
    split
    case isTrue hsome => exact (haccess hsome).symm
    case isFalse => rfl

/-- When MEM moves on, its writes are in WB and those of EX in MEM. -/
theorem Commits.moved {a : Arch} {j r : Nat} (h : s.Commits M tlb q j r k)
    (href : s.Refines M tlb a ((Seq.step M tlb)^[k] q))
    (hplain : s.pipe.ex.isSome = true → ((Seq.step M tlb)^[k] q).Plain M tlb)
    (hready : t.ready = true) (hflush : s.pipe.cpu.flush = false) :
    (s.step M t).Commits M tlb q r k (k + s.pipe.ex.isSome.toNat) := by
  have ht := href.executes.tracks
  have hrom : (s.input t).cpuRomData = s.answer := if_pos hready
  have hmem : (s.step M t).pipe.mem = s.pipe.access (s.input t).cpuRomData :=
    Pipe.next_mem hready hflush
  have hseen : (s.step M t).seen.writes
      = outputs (Seq.step M tlb) (Seq.regWrites M tlb) q r := by
    show s.seen.writes ++ (if t.ready then _ else _) = _
    rw [if_pos hready, h.wb]
  have hwb : (s.step M t).pipe.cpu.memWb.regWrites
      = (s.pipe.cpu.memOut s.answer).regWrites := by
    show (s.pipe.cpu.memWb.next t.ready s.pipe.cpu.flush
      (s.pipe.cpu.memOut (s.input t).cpuRomData)
      s.pipe.cpu.exc.updates).regWrites = _
    rw [hready, hflush, hrom, State.exc_quiet hflush]
    exact MemWb.regWrites_next _ _
  have hpast := h.past
  constructor
  case lag =>
    have := Bool.toNat_le s.pipe.mem.isSome
    omega
  case past => rw [hmem, Pipe.access_isSome]
  case writes => exact hseen
  case wb =>
    rw [hseen, hwb, hpast]
    cases hm : s.pipe.mem with
    | none =>
      rw [(ht.memOut_inert hm _).regWrites, List.append_nil]
      rfl
    | some m =>
      rw [ht.memOut_load hflush hm, h.mem m hm]
      exact outputs_succ _ _ _ _
  case mem =>
    intro m hm
    rw [hmem] at hm
    obtain ⟨x, hx, rfl⟩ := Option.map_eq_some_iff.mp hm
    rw [href.writes_load hx (hplain (by rw [hx]; rfl)) hready hflush]
    rfl

theorem refines_start {c : State} (hc : c.Idle) (M : Memory μ) (m : μ)
    (answer : Word) : (start c m answer).Refines M c.tlb
      ⟨c.regs, .start c.pcRegister.pc⟩ (.start c m answer) := by
  have ht := Pipe.tracks_empty hc.ifId hc.idEx hc.exMem hc.fix
    hc.isLoadStore hc.isFlush
  constructor
  case executes => exact Pipe.executes_empty ht rfl rfl
  case isFlush => exact hc.isFlush
  case fixed => rfl
  case tlbwi =>
    intro m hm
    cases hm
  case zero =>
    intro m hm
    cases hm
  case arch => rfl
  case mem => rfl
  case ex =>
    intro x hx
    cases hx
  case id => exact fun hid => Bool.noConfusion hid
  case fetched =>
    show (if c.control.isLoadStore then _ else _) = _
    rw [hc.isLoadStore]
    rfl

theorem follows_start {c : State} (hc : c.Idle) (M : Memory μ) (m : μ)
    (answer : Word) :
    (start c m answer).Follows M c.tlb (.start c m answer) 0 := by
  refine ⟨⟨_, refines_start hc M m answer⟩, rfl, rfl, ⟨0, 0, ?_⟩,
    Nat.le_refl 0⟩
  refine ⟨⟨Nat.le_refl 0, Nat.zero_le 1⟩, rfl, rfl, ?_, ?_⟩
  · show [] = [] ++ c.memWb.regWrites
    rw [hc.memWb]
    rfl
  · intro x hx
    cases hx

theorem Follows.wait (h : s.Follows M tlb q k) (hready : t.ready = false) :
    (s.step M t).Follows M tlb q k := by
  obtain ⟨⟨a, href⟩, hissued, haccesses, ⟨j, r, hcommits⟩, hcycles⟩ := h
  have hnext := Pipe.next_wait (p := s.pipe) (i := s.input t) hready
  have hn : ¬ t.ready = true := by rw [hready]; decide
  have hanswer : (s.step M t).answer = s.answer := if_neg hn
  have hwb : (s.step M t).pipe.cpu.memWb = s.pipe.cpu.memWb :=
    if_pos (by rw [show (s.input t).cpuBusReady = false from hready]; rfl)
  have hseen : (s.step M t).seen = s.seen := by
    show s.record t = s.seen
    unfold record State.dataAccess Pipe.issues
    rw [show (s.input t).cpuBusReady = false from hready, hready]
    simp
  refine ⟨⟨a, href.wait hready⟩, ?_, ?_, ⟨j, r, ?_⟩, ?_⟩
  · rw [hseen, step_pipe, hnext]
    exact hissued
  · rw [hseen]
    exact haccesses
  · refine ⟨hcommits.lag, ?_, ?_, ?_, ?_⟩
    · rw [step_pipe, hnext]
      exact hcommits.past
    · rw [hseen]
      exact hcommits.writes
    · rw [hseen, hwb]
      exact hcommits.wb
    · rw [step_pipe, hnext, hanswer]
      exact hcommits.mem
  · rw [hseen, step_pipe, hnext]
    exact hcycles

/-- What is counted at an edge that moves. -/
theorem Refines.counted {a : Arch} (h : s.Refines M tlb a q)
    (hready : t.ready = true) (hflush : s.pipe.cpu.flush = false) :
    (s.step M t).pipe.ex.isSome = s.pipe.issues (s.input t) ∧
      1 + s.pipe.idLive.toNat ≤ s.pipe.ex.isSome.toNat
        + (s.pipe.issues (s.input t)).toNat
        + (s.step M t).pipe.idLive.toNat := by
  have hr : (s.input t).cpuBusReady = true := hready
  unfold Pipe.issues
  rw [hr, hflush]
  cases hpause : s.pipe.cpu.pause with
  | true =>
    obtain ⟨hsome, -⟩ := h.executes.tracks.pause_live hpause
    rw [step_pipe, Pipe.next_stall hr hflush hpause, hsome]
    exact ⟨rfl, Nat.le_refl _⟩
  | false =>
    rw [step_pipe, Pipe.next_advance hr hflush hpause, h.isFlush]
    show (if s.pipe.idLive then some _ else none).isSome = s.pipe.idLive ∧
      1 + s.pipe.idLive.toNat
        ≤ s.pipe.ex.isSome.toNat + s.pipe.idLive.toNat + 1
    refine ⟨?_, by omega⟩
    cases s.pipe.idLive <;> rfl

theorem Follows.moved (h : s.Follows M tlb q k)
    (hplain : s.pipe.ex.isSome = true → ((Seq.step M tlb)^[k] q).Plain M tlb)
    (hnext : s.pipe.issues (s.input t) = true →
      ((Seq.step M tlb)^[k + s.pipe.ex.isSome.toNat] q).Plain M tlb)
    (hready : t.ready = true) (hflush : s.pipe.cpu.flush = false) :
    (s.step M t).Follows M tlb q (k + s.pipe.ex.isSome.toNat) := by
  obtain ⟨⟨a, href⟩, hissued, haccesses, ⟨j, r, hcommits⟩, hcycles⟩ := h
  obtain ⟨hex, hcount⟩ := href.counted hready hflush
  have hstep : (s.step M t).seen.issued
      = s.seen.issued + (s.pipe.issues (s.input t)).toNat := rfl
  refine ⟨⟨((Seq.step M tlb)^[k] q).arch, ?_⟩, ?_, ?_,
    ⟨r, k, hcommits.moved href hplain hready hflush⟩, ?_⟩
  · rw [← executed_iterate] at hnext ⊢
    cases hpause : s.pipe.cpu.pause with
    | true => exact href.stall hplain hready hflush hpause
    | false =>
      exact href.advance hplain (href.orderedIssue hplain hnext) hready
        hflush hpause
  · rw [hstep, hissued, hex]
  · show s.seen.accesses ++ _ = _
    rw [haccesses, href.dataAccess_eq hplain hready hflush]
    cases s.pipe.ex with
    | none => exact List.append_nil _
    | some x => exact (outputs_succ _ _ _ _).symm
  · show s.seen.cycles + t.ready.toNat ≤ _
    rw [hready, Bool.toNat_true]
    omega

/-- A run without a flush: none is taken at a ready edge. -/
def NoFlush (s : Sys μ) (t : Tick) : Prop :=
  t.ready = true → s.pipe.cpu.flush = false

instance (s : Sys μ) (t : Tick) : Decidable (s.NoFlush t) :=
  inferInstanceAs (Decidable (_ → _))

/-- One edge: the instruction in EX and the one that leaves ID are among
those issued. -/
theorem Follows.step (h : s.Follows M tlb q k) (hflush : s.NoFlush t)
    (hplain : ∀ n < (s.step M t).seen.issued,
      ((Seq.step M tlb)^[n] q).Plain M tlb) :
    ∃ k', (s.step M t).Follows M tlb q k' := by
  have hissued := h.issued
  have hstep : (s.step M t).seen.issued
      = s.seen.issued + (s.pipe.issues (s.input t)).toNat := rfl
  cases hready : t.ready with
  | false => exact ⟨k, h.wait hready⟩
  | true =>
    refine ⟨_, h.moved (fun hsome => ?_) (fun hissues => ?_) hready
      (hflush hready)⟩
    · apply hplain
      rw [hsome, Bool.toNat_true] at hissued
      omega
    · apply hplain
      rw [hissues, Bool.toNat_true] at hstep
      omega

end Sys

-- ===== runs

variable {μ : Type*} {M : Memory μ} {c : State} {m : μ} {answer : Word}
  {ts ts' : List Tick} {s s' : Sys μ}

/-- A run to `s` without a flush that issues plain instructions only. -/
structure Sys.PlainRun (M : Memory μ) (c : State) (m : μ) (answer : Word)
    (ts : List Tick) (s : Sys μ) : Prop where
  run : run (Sys.step M) (.start c m answer) ts = s
  flush : Along (Sys.step M) Sys.NoFlush (.start c m answer) ts
  plain : ∀ n < s.seen.issued,
    ((Seq.step M c.tlb)^[n] (.start c m answer)).Plain M c.tlb

/-- Such a run follows the sequential machine at every edge. -/
theorem Sys.PlainRun.follows (h : Sys.PlainRun M c m answer ts s)
    (hc : c.Idle) : ∃ k, Sys.Follows M c.tlb (.start c m answer) s k := by
  have halong := (along_le_run (f := fun s => s.seen.issued)
    (fun _ _ => Nat.le_add_right _ _) h.flush).2
  rw [← h.run]
  apply run_induction (I := fun s => ∃ k, Sys.Follows M c.tlb _ s k) _
    ⟨0, Sys.follows_start hc M m answer⟩ halong
  intro s t hs ht
  obtain ⟨k, hk⟩ := hs
  exact hk.step ht.1 fun n hn => h.plain n (h.run ▸ hn.trans_le ht.2)

/-- The pipeline refines sequential execution. Take a processor without
an instruction in flight, any memory behind its bus and any pattern of
ready cycles, and a run without a flush in which the instructions issued
are plain. The register writes it has committed are those of the first
`j` instructions of the sequential machine and the data accesses those of
the first `k`, all but the last few of those it has issued; and it issues
one at least every second ready cycle. -/
theorem pipeline_refines (hc : c.Idle)
    (hflush : Along (Sys.step M) Sys.NoFlush (.start c m answer) ts)
    (hplain : ∀ n < (run (Sys.step M) (.start c m answer) ts).seen.issued,
      ((Seq.step M c.tlb)^[n] (.start c m answer)).Plain M c.tlb) :
    let seen := (run (Sys.step M) (.start c m answer) ts).seen
    let q := Seq.start c m answer
    ∃ j k, j ≤ k ∧ k ≤ j + 2 ∧ k ≤ seen.issued ∧ seen.issued ≤ k + 1 ∧
      seen.cycles ≤ 2 * seen.issued + 1 ∧
      seen.writes
        = outputs (Seq.step M c.tlb) (Seq.regWrites M c.tlb) q j ∧
      seen.accesses
        = outputs (Seq.step M c.tlb) (fun q => (q.access c.tlb).toList) q
          k := by
  intro seen q
  have hplainRun : Sys.PlainRun M c m answer ts _ := ⟨rfl, hflush, hplain⟩
  obtain ⟨k, -, hissued, haccesses, ⟨j, r, hcommits⟩, hcycles⟩ :=
    hplainRun.follows hc
  obtain ⟨hjr, hrj⟩ := hcommits.lag
  have hpast := hcommits.past
  have hmem := Bool.toNat_le
    (run (Sys.step M) (.start c m answer) ts).pipe.mem.isSome
  have hex := Bool.toNat_le
    (run (Sys.step M) (.start c m answer) ts).pipe.ex.isSome
  have hid := Bool.toNat_le
    (run (Sys.step M) (.start c m answer) ts).pipe.idLive
  have hseen : seen = (run (Sys.step M) (.start c m answer) ts).seen := rfl
  rw [← hseen] at hissued hcycles
  exact ⟨j, k, by omega, by omega, by omega, by omega, by omega,
    hcommits.writes, haccesses⟩

/-- A memory of words. -/
def wordMemory : Memory (Word → Word) where
  read m r := m r.address
  write m r := Function.update m r.address r.writeData

/-- The boot ROM holds `lui t1,0x8000; sw t1,0(t1); lw t2,0(t1);
bne t2,$0,2; addiu t3,t2,1`. -/
def bootProgram : Word → Word := fun a =>
  [0x3c098000, 0xad290000, 0x8d2a0000, 0x15400002, 0x254b0001].getD
    ((a - 0x1fc00000).toNat / 4) 0

theorem State.idle_boot (u : State) (serial : Bool) :
    (u.boot serial).Idle := ⟨rfl, rfl, rfl, rfl, rfl, rfl, rfl⟩

/-- From reset, with a wait state: a store, a load of the word stored, a
branch on the word loaded and its delay slot. -/
theorem pipeline_refines_load_branch :
    let c := State.boot .zero false
    let ts : List Tick := [⟨true, 0, false⟩, ⟨true, 0, false⟩,
      ⟨true, 0, false⟩, ⟨true, 0, false⟩, ⟨true, 0, false⟩,
      ⟨false, 7, false⟩, ⟨true, 0, false⟩, ⟨true, 0, false⟩,
      ⟨true, 0, false⟩, ⟨true, 0, false⟩, ⟨true, 0, false⟩,
      ⟨true, 0, false⟩, ⟨true, 0, false⟩]
    let s := run (Sys.step wordMemory) (.start c bootProgram 0) ts
    let q := Seq.start c bootProgram 0
    s.seen.writes = [.gpr 9 0x80000000, .gpr 10 0x80000000,
        .gpr 11 0x80000001] ∧
      ∃ j, s.seen.writes = outputs (Seq.step wordMemory c.tlb)
        (Seq.regWrites wordMemory c.tlb) q j := by
  intro c ts s q
  have hflush : Along (Sys.step wordMemory) Sys.NoFlush
      (.start c bootProgram 0) ts := by
    decide +kernel
  have hissued : s.seen.issued = 9 := by decide +kernel
  have hplain : ∀ n < s.seen.issued,
      ((Seq.step wordMemory c.tlb)^[n] q).Plain wordMemory c.tlb := by
    decide +kernel
  obtain ⟨j, -, -, -, -, -, -, hwrites, -⟩ :=
    pipeline_refines (State.idle_boot .zero false) hflush hplain
  exact ⟨by decide +kernel, j, hwrites⟩

-- ===== timing

/-- Wait states decide how far a run gets, not what it does. -/
theorem timing_independent (hc : c.Idle) (h : Sys.PlainRun M c m answer ts s)
    (h' : Sys.PlainRun M c m answer ts' s') :
    (s.seen.writes <+: s'.seen.writes ∨ s'.seen.writes <+: s.seen.writes) ∧
    (s.seen.accesses <+: s'.seen.accesses ∨
      s'.seen.accesses <+: s.seen.accesses) := by
  obtain ⟨k, -, -, hk, ⟨j, r, hj⟩, -⟩ := h.follows hc
  obtain ⟨k', -, -, hk', ⟨j', r', hj'⟩, -⟩ := h'.follows hc
  rw [hj.writes, hj'.writes, hk, hk']
  exact ⟨(Nat.le_total j j').imp outputs_prefix outputs_prefix,
    (Nat.le_total k k').imp outputs_prefix outputs_prefix⟩

/-- The boot program with and without a wait state. -/
theorem timing_independent_boot :
    let s ts := run (Sys.step wordMemory)
      (.start (.boot .zero false) bootProgram 0) ts
    let ts := List.replicate 9 (⟨true, 0, false⟩ : Tick)
    let s' := s (⟨false, 7, false⟩ :: ts)
    (s ts).seen.writes <+: s'.seen.writes ∨
      s'.seen.writes <+: (s ts).seen.writes :=
  (timing_independent (State.idle_boot .zero false)
    ⟨rfl, by decide +kernel, by decide +kernel⟩
    ⟨rfl, by decide +kernel, by decide +kernel⟩).1

end MipsUcore.Cpu
