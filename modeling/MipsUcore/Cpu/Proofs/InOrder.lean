/-
The pipeline executes the program in order.

`Pipe.Executes p a` relates the processor to the sequential machine: `a`
has taken every step the processor has finished and stands in front of
the instruction in MEM. The relation has three parts:

- the registers with the write in WB are the registers of `a`
  (`State.regs`);
- the addresses in MEM, EX, ID and PC are where `a` gets by executing the
  instructions in between (`Pipe.Flows`), a bubble standing for the
  instruction whose address it carries;
- the instructions in MEM and EX took the operands `a` will find when it
  gets there (`Pipe.Reading`).

Every edge keeps the relation and takes only legal steps
(`Pipe.executes_next`), as long as what ID passes on is
`Ordered`.
-/
import MipsUcore.Cpu.Sequential
import MipsUcore.Cpu.Proofs.Entry
import MipsUcore.Cpu.Proofs.Operands

namespace MipsUcore.Cpu

open Machine

-- ===== addresses

/-- Past a stage, if it holds an instruction. -/
def Flow.after (f : Flow) : Option Inst → Flow
  | none => f
  | some x => f.advance x.branchOut

namespace Pipe

/-- Where the sequential machine gets behind the instruction in MEM. -/
def flowEx (p : Pipe) (f : Flow) : Flow := f.after (p.mem.map (·.inst))

/-- Where it gets behind the instruction in EX. -/
def flowId (p : Pipe) (f : Flow) : Flow := (p.flowEx f).after p.ex

/-- The addresses in the stages are in program order from `f`. The first
cycles from reset, some stages still hold address 0. -/
structure Flows (p : Pipe) (f : Flow) : Prop where
  staleMax : p.stale ≤ 3
  mem : p.stale = 0 → p.cpu.exMem.memPC = f.pc ∧
    p.cpu.exMem.memIsInDelaySlot = f.isInDelaySlot
  ex : p.stale ≤ 1 → p.cpu.idEx.exPC = (p.flowEx f).pc ∧
    p.cpu.idEx.exIsInDelaySlot = (p.flowEx f).isInDelaySlot
  id : p.stale ≤ 2 → p.cpu.ifId.idPC = (p.flowId f).pc ∧
    p.cpu.ifId.isInDelaySlotOut = (p.flowId f).isInDelaySlot
  memFresh : p.mem.isSome = true → p.stale = 0
  exFresh : p.ex.isSome = true → p.stale ≤ 1
  idFresh : p.idLive = true → p.stale ≤ 2
  fetch : p.idLive = true → p.cpu.pcRegister.pc = (p.flowId f).npc
  refetch : p.idLive = false → p.flowId f = .start p.cpu.pcRegister.pc

variable {p : Pipe} {f : Flow} {i : Input}

theorem flows_empty {s : State} :
    (empty s).Flows (.start s.pcRegister.pc) := by
  constructor
  case staleMax => exact Nat.le_refl 3
  case mem => exact fun h => absurd h (by decide : ¬ (3 : Nat) = 0)
  case ex => exact fun h => absurd h (by decide : ¬ (3 : Nat) ≤ 1)
  case id => exact fun h => absurd h (by decide : ¬ (3 : Nat) ≤ 2)
  case memFresh => exact fun h => Bool.noConfusion h
  case exFresh => exact fun h => Bool.noConfusion h
  case idFresh => exact fun h => Bool.noConfusion h
  case fetch => exact fun h => Bool.noConfusion h
  case refetch => exact fun _ => rfl

theorem Flows.wait (h : p.Flows f) (hready : i.cpuBusReady = false) :
    (p.next i).Flows f := by
  have hw := State.waited (s := p.cpu) hready
  rw [next_wait hready]
  constructor
  case staleMax => exact h.staleMax
  case mem =>
    rw [hw.exMem]
    exact h.mem
  case ex =>
    rw [hw.idEx]
    exact h.ex
  case id =>
    rw [hw.ifId]
    exact h.id
  case memFresh => exact h.memFresh
  case exFresh => exact h.exFresh
  case idFresh => exact h.idFresh
  case fetch =>
    rw [hw.pcRegister]
    exact h.fetch
  case refetch =>
    rw [hw.pcRegister]
    exact h.refetch

theorem flows_flush (hready : i.cpuBusReady = true)
    (hflush : p.cpu.flush = true) :
    (p.next i).Flows (.start p.cpu.flushTarget) := by
  have hf := State.flushed hready hflush
  rw [next_flush hready hflush]
  constructor
  case staleMax => exact Nat.zero_le 3
  case mem =>
    rw [hf.exMem]
    exact fun _ => ⟨rfl, rfl⟩
  case ex =>
    rw [hf.idEx]
    exact fun _ => ⟨rfl, rfl⟩
  case id =>
    rw [hf.ifId]
    exact fun _ => ⟨rfl, rfl⟩
  case memFresh => exact fun h => Bool.noConfusion h
  case exFresh => exact fun h => Bool.noConfusion h
  case idFresh => exact fun h => Bool.noConfusion h
  case fetch => exact fun h => Bool.noConfusion h
  case refetch =>
    rw [hf.pcRegister]
    exact fun _ => rfl

theorem access_inst (p : Pipe) (w : Word) :
    (p.access w).map (·.inst) = p.ex := by
  unfold access
  cases p.ex <;> rfl

theorem access_isSome (p : Pipe) (w : Word) :
    (p.access w).isSome = p.ex.isSome := by
  unfold access
  cases p.ex <;> rfl

/-- When EX moves to MEM, what stood in front of ID stands in front of
EX. -/
theorem flowEx_next (hready : i.cpuBusReady = true)
    (hflush : p.cpu.flush = false) (f : Flow) :
    (p.next i).flowEx (p.flowEx f) = p.flowId f := by
  show (p.flowEx f).after ((p.next i).mem.map (·.inst)) = _
  rw [next_mem hready hflush, access_inst]
  rfl

theorem flowId_next (hready : i.cpuBusReady = true)
    (hflush : p.cpu.flush = false) (f : Flow) :
    (p.next i).flowId (p.flowEx f) = (p.flowId f).after (p.next i).ex :=
  congrArg (Flow.after · _) (flowEx_next hready hflush f)

theorem Flows.stall (h : p.Flows f) (ht : p.Tracks)
    (hready : i.cpuBusReady = true) (hflush : p.cpu.flush = false)
    (hpause : p.cpu.pause = true) : (p.next i).Flows (p.flowEx f) := by
  have hs := State.stalled hready hflush hpause
  obtain ⟨hex, hlive⟩ := ht.pause_live hpause
  have hstale := h.exFresh hex
  have hflow := flowEx_next (p := p) hready hflush f
  have hnext := flowId_next (p := p) hready hflush f
  rw [next_stall hready hflush hpause] at hflow hnext ⊢
  constructor
  case staleMax => exact Nat.le_trans (Nat.sub_le _ _) h.staleMax
  case mem =>
    rw [hs.exMem]
    exact fun _ => h.ex hstale
  case ex =>
    rw [hs.idEx, hflow]
    exact fun _ => h.id (by omega)
  case id =>
    rw [hs.ifId, hnext]
    exact fun _ => h.id (by omega)
  case memFresh => exact fun _ => Nat.sub_eq_zero_of_le hstale
  case exFresh => exact fun hx => Bool.noConfusion hx
  case idFresh =>
    show _ → p.stale - 1 ≤ 2
    omega
  case fetch =>
    intro _
    rw [hs.pcRegister, hnext]
    exact h.fetch hlive
  case refetch =>
    intro hid
    rw [hlive] at hid
    cases hid

/-- Behind a flush the first address is fetched twice. -/
theorem Tracks.pcPlus4 (h : p.Tracks) :
    p.cpu.pcRegister.pcPlus4 = if p.cpu.control.isFlush then
      p.cpu.pcRegister.pc else p.cpu.pcRegister.pc + 4 := by
  unfold PCRegister.pcPlus4
  rw [h.fix]

/-- The branch of the instruction in ID is the one of the instruction it
becomes. -/
theorem branchOut_issued (s : State) (w : Word) :
    (s.issued w).branchOut = s.branchOut w := rfl

theorem Flows.advance (h : p.Flows f) (ht : p.Tracks)
    (hready : i.cpuBusReady = true) (hflush : p.cpu.flush = false)
    (hpause : p.cpu.pause = false) : (p.next i).Flows (p.flowEx f) := by
  have ha := State.advanced hready hflush hpause
  have hflow := flowEx_next (p := p) hready hflush f
  have hnext := flowId_next (p := p) hready hflush f
  rw [next_advance hready hflush hpause] at hflow hnext ⊢
  constructor
  case staleMax => exact Nat.le_trans (Nat.sub_le _ _) h.staleMax
  case mem =>
    rw [ha.exMem]
    intro hz
    exact h.ex (by change p.stale - 1 = 0 at hz; omega)
  case ex =>
    rw [ha.idEx, hflow]
    intro hz
    exact h.id (by change p.stale - 1 ≤ 1 at hz; omega)
  case id =>
    intro _
    rw [ha.ifId, hnext]
    cases hid : p.idLive with
    | true => exact ⟨h.fetch hid, rfl⟩
    | false =>
      rw [ht.branchOut_nop hid, h.refetch hid]
      exact ⟨rfl, rfl⟩
  case memFresh =>
    intro hm
    have hx : p.ex.isSome = true := by
      rw [← access_isSome p i.cpuRomData]
      exact hm
    exact Nat.sub_eq_zero_of_le (h.exFresh hx)
  case exFresh =>
    intro hx
    show p.stale - 1 ≤ 1
    have hid : p.idLive = true := by
      cases hid : p.idLive with
      | true => rfl
      | false =>
        simp only [hid] at hx
        cases hx
    have := h.idFresh hid
    omega
  case idFresh =>
    intro _
    show p.stale - 1 ≤ 2
    have := h.staleMax
    omega
  case fetch =>
    intro hl
    have hf : p.cpu.control.isFlush = false := Bool.not_eq_true' _ ▸ hl
    rw [ha.pcRegister, hnext, ht.pcPlus4, hf]
    cases hid : p.idLive with
    | true =>
      show _ = ((p.flowId f).advance _).npc
      unfold Flow.advance
      rw [branchOut_issued, h.fetch hid]
      split <;> rfl
    | false =>
      rw [ht.branchOut_nop hid, h.refetch hid]
      rfl
  case refetch =>
    intro hl
    have hf : p.cpu.control.isFlush = true := Bool.not_eq_false' _ ▸ hl
    have hid := ht.not_live hf
    rw [ha.pcRegister, hnext, ht.pcPlus4, hf, ht.branchOut_nop hid, hid]
    exact h.refetch hid

end Pipe

-- ===== operands

/-- Without an access, what an instruction writes is decided in EX. -/
theorem Inst.writes_idle {x : Inst} (h : x.ram.active = false)
    (load : Word) : x.writes load = x.exOut.bypass := by
  have hread : x.exOut.ram.ramReadEnable = false :=
    (Bool.or_eq_false_iff.mp h).1
  have hdata : memWriteDataOut
      (.latch x.exOut ⟨false, false, false, false⟩) load
        = x.exOut.writeData := by
    show (if x.exOut.ram.ramReadEnable = true then _ else _) = _
    rw [hread]
    rfl
  unfold writes Cpu.mem
  rw [hdata]
  rfl

namespace Pipe

variable {p : Pipe} {a : Regs} {i : Input}

/-- The registers behind the instruction in MEM, if it is no load. -/
def regsEx (p : Pipe) (a : Regs) : Regs :=
  match p.mem with
  | none => a
  | some m => a.commit (m.inst.writes 0)

/-- The instructions in MEM and EX took the operands the sequential
machine will find. Behind a load EX is empty, so the word still missing
is nobody's operand. -/
structure Reading (p : Pipe) (a : Regs) : Prop where
  mem : ∀ m, p.mem = some m → m.inst.Reads a
  ex : ∀ x, p.ex = some x → x.Reads (p.regsEx a)

theorem reading_none (hmem : p.mem = none) (hex : p.ex = none) (a : Regs) :
    p.Reading a := by
  constructor
  · intro m hm
    rw [hmem] at hm
    cases hm
  · intro x hx
    rw [hex] at hx
    cases hx

/-- What the instruction in MEM writes. -/
theorem Tracks.memOut (h : p.Tracks) {m : Accessed} (hm : p.mem = some m)
    (w : Word) : p.cpu.memOut w = m.inst.writes (p.cpu.loadResult w) := by
  unfold State.memOut
  rw [h.mem m hm]
  rfl

theorem Tracks.memOut_inert (h : p.Tracks) (hm : p.mem = none)
    (w : Word) : (p.cpu.memOut w).Inert :=
  (h.memEmpty hm).inert _

/-- In front of an instruction in EX there is no access in MEM. -/
theorem Tracks.mem_idle (h : p.Tracks) {x : Inst} {m : Accessed}
    (hx : p.ex = some x) (hm : p.mem = some m) :
    m.inst.ram.active = false := by
  cases hactive : m.inst.ram.active with
  | false => rfl
  | true =>
    rw [h.alone m hm hactive] at hx
    cases hx

/-- With an instruction in EX, the registers behind MEM are known. -/
theorem Tracks.regsEx_eq (h : p.Tracks) {x : Inst} (hx : p.ex = some x)
    (a : Regs) (w : Word) : p.regsEx a = a.commit (p.cpu.memOut w) := by
  unfold regsEx
  cases hm : p.mem with
  | none => exact (Regs.commit_inert (h.memOut_inert hm w) a).symm
  | some m =>
    have hidle := h.mem_idle hx hm
    show a.commit (m.inst.writes 0) = _
    rw [h.memOut hm, Inst.writes_idle hidle, Inst.writes_idle hidle]

theorem Reading.moved_mem (h : p.Reading a) (ht : p.Tracks) {w : Word}
    {m : Accessed} (hm : p.access w = some m) :
    m.inst.Reads (a.commit (p.cpu.memOut w)) := by
  obtain ⟨x, hx, rfl⟩ := Option.map_eq_some_iff.mp hm
  rw [← ht.regsEx_eq hx a w]
  exact h.ex x hx

/-- What is ahead of the instruction in ID, once MEM has retired. -/
theorem Tracks.ahead_eq (h : p.Tracks) (hpause : p.cpu.pause = false)
    (w : Word) {q : Pipe} (hq : q.mem = p.access w) :
    q.regsEx (p.cpu.regs.commit (p.cpu.memOut w)) = p.cpu.ahead w := by
  unfold regsEx State.ahead
  rw [hq]
  unfold access
  cases hx : p.ex with
  | none => exact (Regs.commit_inert (h.exEmpty hx).inert _).symm
  | some x =>
    rw [h.pause hx] at hpause
    show (p.cpu.regs.commit _).commit (x.writes 0) = _
    rw [Inst.writes_idle hpause, h.exOut hx]

end Pipe

-- ===== relation

namespace Pipe

variable {p : Pipe} {a : Arch} {i : Input}

/-- The sequential machine stands in front of the instruction in MEM. -/
structure Executes (p : Pipe) (a : Arch) : Prop where
  tracks : p.Tracks
  regs : p.cpu.regs = a.regs
  flows : p.Flows a.flow
  reading : p.Reading a.regs

/-- An instruction that leaves ID at this edge takes the operands of
program order. -/
def OrderedIssue (p : Pipe) (i : Input) : Prop :=
  p.idLive = true → i.cpuBusReady = true → p.cpu.flush = false →
    p.cpu.pause = false → p.cpu.Ordered i.cpuRomData

instance (p : Pipe) (i : Input) : Decidable (p.OrderedIssue i) :=
  inferInstanceAs (Decidable (_ → _ → _ → _ → _))

theorem executes_empty {s : State} {a : Arch} (ht : (empty s).Tracks)
    (hregs : s.regs = a.regs) (hflow : a.flow = .start s.pcRegister.pc) :
    (empty s).Executes a where
  tracks := ht
  regs := hregs
  flows := by
    rw [hflow]
    exact flows_empty
  reading := reading_none rfl rfl _

theorem Executes.at (h : p.Executes a) (hstale : p.stale = 0) : p.cpu.At a :=
  ⟨h.regs, (h.flows.mem hstale).1, (h.flows.mem hstale).2⟩

/-- The instruction in MEM is the next one. -/
theorem Executes.next_mem (h : p.Executes a) {m : Accessed}
    (hm : p.mem = some m) : a.Next m.inst := by
  have hstale : p.stale = 0 := h.flows.memFresh (by rw [hm]; rfl)
  have himage := h.tracks.mem m hm
  obtain ⟨hpc, hds⟩ := h.flows.mem hstale
  rw [himage] at hpc hds
  exact ⟨hpc, hds, h.reading.mem m hm⟩

-- ----- edges

theorem Executes.wait (h : p.Executes a) (hready : i.cpuBusReady = false) :
    (p.next i).Executes a := by
  refine ⟨h.tracks.wait hready, ?_, h.flows.wait hready, ?_⟩
  · exact (State.waited hready).regs.trans h.regs
  · rw [next_wait hready]
    exact ⟨h.reading.mem, h.reading.ex⟩

/-- A flush, where the sequential machine takes the same step. -/
theorem executes_flush {b : Arch} (hready : i.cpuBusReady = true)
    (hflush : p.cpu.flush = true)
    (hregs : p.cpu.regs.update p.cpu.exc.updates = b.regs)
    (hflow : b.flow = .start p.cpu.flushTarget) : (p.next i).Executes b := by
  refine ⟨tracks_flush hready hflush, ?_, ?_, ?_⟩
  · exact (State.flushed hready hflush).regs.trans hregs
  · rw [hflow]
    exact flows_flush hready hflush
  · rw [next_flush hready hflush]
    exact reading_none rfl rfl _

/-- The sequential machine behind the instruction in MEM. -/
def retired (p : Pipe) (a : Arch) (w : Word) : Arch :=
  ⟨a.regs.commit (p.cpu.memOut w), p.flowEx a.flow⟩

/-- What MEM holds retires, also while ID stands still. -/
theorem Executes.stall (h : p.Executes a) (hready : i.cpuBusReady = true)
    (hflush : p.cpu.flush = false) (hpause : p.cpu.pause = true) :
    (p.next i).Executes (p.retired a i.cpuRomData) := by
  have hs := State.stalled hready hflush hpause
  refine ⟨h.tracks.stall hready hflush hpause, ?_,
    h.flows.stall h.tracks hready hflush hpause, ?_⟩
  · show (p.cpu.clock i).regs = a.regs.commit _
    rw [hs.regs, h.regs]
  · rw [next_stall hready hflush hpause]
    refine ⟨fun m hm => h.reading.moved_mem h.tracks hm, ?_⟩
    intro x hx
    cases hx

theorem Executes.advance (h : p.Executes a) (hordered : p.OrderedIssue i)
    (hready : i.cpuBusReady = true) (hflush : p.cpu.flush = false)
    (hpause : p.cpu.pause = false) :
    (p.next i).Executes (p.retired a i.cpuRomData) := by
  have ha := State.advanced hready hflush hpause
  refine ⟨h.tracks.advance hready hflush hpause, ?_,
    h.flows.advance h.tracks hready hflush hpause, ?_, ?_⟩
  · show (p.cpu.clock i).regs = a.regs.commit _
    rw [ha.regs, h.regs]
  · rw [next_advance hready hflush hpause]
    exact fun m hm => h.reading.moved_mem h.tracks hm
  · intro x hx
    have hahead := h.tracks.ahead_eq hpause i.cpuRomData (q := p.next i)
      (by rw [next_advance hready hflush hpause])
    rw [h.regs] at hahead
    show x.Reads ((p.next i).regsEx (a.regs.commit _))
    rw [hahead]
    rw [next_advance hready hflush hpause] at hx
    cases hid : p.idLive with
    | false =>
      simp only [hid] at hx
      cases hx
    | true =>
      simp only [hid, if_true] at hx
      cases hx
      obtain ⟨hone, htwo⟩ := hordered hid hready hflush hpause
      exact ⟨hone, htwo⟩

/-- The step reported for an instruction that leaves MEM. -/
theorem Executes.retire (h : p.Executes a) (w : Word) :
    let events := (p.mem.map fun m =>
      Event.retire m.inst (p.cpu.loadResult w)).toList
    Along Arch.apply Arch.Legal a events ∧
      run Arch.apply a events = p.retired a w := by
  unfold retired flowEx
  cases hm : p.mem with
  | none =>
    refine ⟨trivial, ?_⟩
    rw [Regs.commit_inert (h.tracks.memOut_inert hm w)]
    rfl
  | some m =>
    refine ⟨⟨h.next_mem hm, trivial⟩, ?_⟩
    rw [h.tracks.memOut hm]
    rfl

/-- A flush is taken by the sequential machine too. -/
theorem Executes.flush (h : p.Executes a) (hready : i.cpuBusReady = true)
    (hflush : p.cpu.flush = true) (hstale : p.stale = 0) :
    Along Arch.apply Arch.Legal a (p.events i) ∧
      (p.next i).Executes (run Arch.apply a (p.events i)) := by
  have hat := h.at hstale
  have hn : ¬ (!i.cpuBusReady) = true := by rw [hready]; decide
  unfold events
  rw [if_neg hn, if_pos hflush]
  cases hepc : p.cpu.exc.updates.writeepc with
  | true =>
    obtain ⟨hregs, htarget⟩ := hat.exc_enters hepc
    refine ⟨⟨⟨fun x hx => h.next_mem hx, _, _,
      h.tracks.trap_calls hat hepc⟩, trivial⟩, ?_⟩
    refine executes_flush hready hflush ?_ ?_
    · rw [h.regs]
      exact hregs
    · show Flow.start (a.entry p.cpu.trap) = .start p.cpu.flushTarget
      rw [← htarget]
      rfl
  | false =>
    obtain ⟨hexc, heret⟩ := State.exc_eret hflush hepc
    obtain ⟨m, hm, himage⟩ := h.tracks.exists_mem
      (fun hempty => hempty.eret) heret
    rw [himage] at heret
    refine ⟨⟨⟨m, hm, h.next_mem hm, heret⟩, trivial⟩, ?_⟩
    refine executes_flush hready hflush ?_ ?_
    · rw [h.regs, hexc]
      exact hat.eret_regs
    · show Flow.start (a.regs.cp .epc14) = .start p.cpu.exc.targetAddress
      rw [hexc, ← hat.cp0]
      rfl

/-- One edge: the steps reported are legal, and the relation is kept. -/
theorem executes_next (h : p.Executes a) (hordered : p.OrderedIssue i)
    (hstale : i.cpuBusReady = true → p.cpu.flush = true → p.stale = 0) :
    Along Arch.apply Arch.Legal a (p.events i) ∧
      (p.next i).Executes (run Arch.apply a (p.events i)) := by
  cases hready : i.cpuBusReady with
  | false =>
    have hevents : p.events i = [] := if_pos (by rw [hready]; rfl)
    rw [hevents]
    exact ⟨trivial, h.wait hready⟩
  | true =>
    cases hflush : p.cpu.flush with
    | true => exact h.flush hready hflush (hstale hready hflush)
    | false =>
      have hevents : p.events i = (p.mem.map fun m =>
          Event.retire m.inst (p.cpu.loadResult i.cpuRomData)).toList := by
        unfold events
        rw [hready, hflush]
        rfl
      obtain ⟨hlegal, hrun⟩ := h.retire i.cpuRomData
      rw [hevents, hrun]
      refine ⟨hlegal, ?_⟩
      cases hpause : p.cpu.pause with
      | true => exact h.stall hready hflush hpause
      | false => exact h.advance hordered hready hflush hpause

end Pipe

end MipsUcore.Cpu
