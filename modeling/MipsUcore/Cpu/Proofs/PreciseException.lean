/-
Exceptions are precise.

From reset, the steps the processor reports are an execution of the
sequential machine (`pipe_executes`). An exception entered at some edge
is entered by that machine in front of the instruction in MEM, and after
two more ready cycles the register files hold exactly its registers:
every older instruction has been executed, none at or behind MEM has, and
CP0 has the updates of the exception (`exception_precise`).

# What the statement leaves to the program

- `Pipe.OrderedIssue` along the run: the operand muxes forward writes to
  register 0 and to unwritable CP0 numbers, and `entrylo1` does not read
  back, so an operand can differ from the one of program order.
- The entry point is not watched. A watchpoint on it is hit by the empty
  stages that carry its address, and a second exception is taken before
  the first handler instruction is fetched
  (`watched_entry_overwrites_epc`).
-/
import MipsUcore.Cpu.Proofs.InOrder

namespace MipsUcore.Cpu

open Machine

-- ===== empty stages

/-- What can flush while MEM is empty. -/
theorem State.flush_empty {s : State} (h : s.exMem.Empty) :
    s.flush = (s.control.interruptRequest (s.cp0 .status12)
      || (s.exMem.memprivilege && inUserMode (s.cp0 .status12))
      || isWatched s.cp0 s.exMem.memPC) := by
  unfold flush exc Control.exception
  rw [h.tlbMissRead, h.tlbMissWrite, h.readError, h.readPrivilege,
    h.writeError, h.writePrivilege, h.validInstruction, h.syscall, h.eret]
  cases s.control.interruptRequest (s.cp0 .status12) <;>
    cases s.exMem.memprivilege && inUserMode (s.cp0 .status12) <;>
    cases isWatched s.cp0 s.exMem.memPC <;> rfl

/-- Inside an exception neither an interrupt nor user mode flushes. -/
theorem State.flush_empty_exl {s : State} (h : s.exMem.Empty)
    (hexl : (s.cp0 .status12).getLsbD 1 = true) :
    s.flush = isWatched s.cp0 s.exMem.memPC := by
  have hreq : s.control.interruptRequest (s.cp0 .status12) = false := by
    unfold Control.interruptRequest
    rw [hexl]
    exact Bool.and_false _
  have huser : inUserMode (s.cp0 .status12) = false := by
    unfold inUserMode
    rw [hexl]
    exact Bool.and_false _
  rw [flush_empty h, hreq, huser, Bool.and_false]
  rfl

-- ===== from reset

namespace Pipe

variable {p : Pipe} {a : Arch} {i : Input}

/-- While a stage still holds what reset put there, CP0 is 0. -/
def Cleared (p : Pipe) : Prop := 0 < p.stale → p.cpu.cp0 = fun _ => 0

/-- So nothing flushes before the first instruction is in MEM. -/
theorem Executes.stale_of_flush (h : p.Executes a) (hc : p.Cleared)
    (hflush : p.cpu.flush = true) : p.stale = 0 := by
  by_contra hne
  have hcp := hc (Nat.pos_of_ne_zero hne)
  have hmem : p.mem = none := by
    cases hm : p.mem with
    | none => rfl
    | some m => exact absurd (h.flows.memFresh (by rw [hm]; rfl)) hne
  rw [State.flush_empty (h.tracks.memEmpty hmem), hcp] at hflush
  simp [Control.interruptRequest, inUserMode, isWatched] at hflush

theorem Executes.cleared_next (h : p.Executes a) (hc : p.Cleared)
    (i : Input) : (p.next i).Cleared := by
  intro hpos
  cases hready : i.cpuBusReady with
  | false =>
    rw [next_wait hready] at hpos ⊢
    rw [← hc hpos]
    exact congrArg Regs.cp (State.waited hready).regs
  | true =>
    cases hflush : p.cpu.flush with
    | true =>
      rw [next_flush hready hflush] at hpos
      exact absurd hpos (Nat.lt_irrefl 0)
    | false =>
      have hstale : (p.next i).stale = p.stale - 1 := by
        simp [Pipe.next, hready, hflush]
      have hmem : p.mem = none := by
        cases hm : p.mem with
        | none => rfl
        | some m =>
          have := h.flows.memFresh (by rw [hm]; rfl)
          omega
      have hregs := (State.moved hready hflush).regs
      rw [Regs.commit_inert (h.tracks.memOut_inert hmem _)] at hregs
      rw [← hc (by omega)]
      exact congrArg Regs.cp hregs

/-- The inputs of a run the sequential machine follows. -/
def Follows (p : Pipe) (i : Input) : Prop := i.Live ∧ p.OrderedIssue i

instance (p : Pipe) (i : Input) : Decidable (p.Follows i) :=
  inferInstanceAs (Decidable (_ ∧ _))

theorem step_next (h : i.Live) : p.step i = p.next i := if_pos h

end Pipe

/-- From reset, the processor executes the program one step at a time. -/
theorem pipe_executes {u : State} {serial : Bool} {is : List Input}
    (h : Along Pipe.step Pipe.Follows (.boot u serial) is) :
    Along Arch.apply Arch.Legal .boot
        (trace Pipe.step Pipe.events (.boot u serial) is) ∧
      (run Pipe.step (.boot u serial) is).Executes (run Arch.apply .boot
          (trace Pipe.step Pipe.events (.boot u serial) is)) ∧
      (run Pipe.step (.boot u serial) is).Cleared := by
  refine simulation (R := fun p a => Pipe.Executes p a ∧ p.Cleared) ?_
    ⟨Pipe.executes_empty (Pipe.tracks_boot u serial) rfl rfl,
      fun _ => rfl⟩ h
  intro p i a hR hP
  obtain ⟨hexec, hclear⟩ := hR
  obtain ⟨hlive, hordered⟩ := hP
  rw [Pipe.step_next hlive]
  obtain ⟨hlegal, hnext⟩ := Pipe.executes_next hexec hordered
    (fun _ => hexec.stale_of_flush hclear)
  exact ⟨hlegal, hnext, hexec.cleared_next hclear i⟩

-- ===== draining

/-- What the register files hold. -/
def State.contents (s : State) : Regs :=
  ⟨s.regfile.register, s.hilo.hi, s.hilo.lo, s.cp.regs⟩

/-- Behind an empty MEM nothing is left to write. -/
theorem State.settled {s : State} {i : Input} (hready : i.cpuBusReady = true)
    (hflush : s.flush = false) (hinert : (s.memOut i.cpuRomData).Inert) :
    (s.clock i).contents = (s.clock i).regs := by
  have hcp (r : CpReg) : (s.clock i).memWb.cpWrite r = none := by
    rw [cpWrite_clock hready]
    unfold cpPort
    rw [hready, hflush]
    show mtc0Write (s.memOut i.cpuRomData).writeCP _ _ r = none
    rw [hinert.writeCP]
    rfl
  have hwb : (s.clock i).memWb = s.memWb.next true false
      (s.memOut i.cpuRomData) s.exc.updates := by
    show s.memWb.next i.cpuBusReady s.flush _ _ = _
    rw [hready, hflush]
  refine Regs.ext (funext fun r => ?_) ?_ ?_ (funext fun r => ?_)
  · show _ = ((s.clock i).regfile.next true (s.clock i).memWb).register r
    rw [Regfile.next_register, hwb]
    show _ = if (s.memOut i.cpuRomData).writeRegister
      && (s.memOut i.cpuRomData).writeAddress != 0 && _ then _ else _
    cases hw : (s.memOut i.cpuRomData).writeRegister with
    | false => rfl
    | true =>
      rw [(hinert.write hw).1]
      rfl
  · show _ = (s.clock i).hilo.hiOut (s.clock i).memWb
    rw [hwb]
    show _ = if (s.memOut i.cpuRomData).writeHi then _ else _
    rw [hinert.writeHi]
    rfl
  · show _ = (s.clock i).hilo.loOut (s.clock i).memWb
    rw [hwb]
    show _ = if (s.memOut i.cpuRomData).writeLo then _ else _
    rw [hinert.writeLo]
    rfl
  · show _ = ((s.clock i).memWb.cpWrite r).getD _
    rw [hcp]
    rfl

theorem State.contents_wait {s : State} {i : Input}
    (hready : i.cpuBusReady = false) : (s.clock i).contents = s.contents := by
  have hn : (!i.cpuBusReady) = true := by rw [hready]; rfl
  have hfile : (s.clock i).regfile = s.regfile := if_pos hn
  have hhilo : (s.clock i).hilo = s.hilo := if_pos hn
  have hcp : (s.clock i).cp = s.cp := if_pos hn
  unfold contents
  rw [hfile, hhilo, hcp]

/-- The sequential machine is inside an exception, at an address that is
not watched. -/
structure Arch.Shielded (b : Arch) : Prop where
  exl : (b.regs.cp .status12).getLsbD 1 = true
  unwatched : isWatched b.regs.cp b.flow.pc = false

namespace Pipe

variable {p : Pipe} {b : Arch} {i : Input} {k : Nat}

/-- The pipe behind a flush, with `k` ready cycles to go until the first
instruction of the handler is in ID. -/
structure Drains (p : Pipe) (b : Arch) (k : Nat) : Prop where
  executes : p.Executes b
  mem : p.mem = none
  ex : p.ex = none
  stale : p.stale = 0
  id : 0 < k → p.idLive = false
  refetch : 1 < k → p.cpu.control.isFlush = true
  settled : k < 2 → p.cpu.contents = p.cpu.regs

theorem Drains.not_flush (h : p.Drains b k) (hb : b.Shielded) :
    p.cpu.flush = false := by
  have hcp : p.cpu.cp0 = b.regs.cp := congrArg Regs.cp h.executes.regs
  rw [State.flush_empty_exl (h.executes.tracks.memEmpty h.mem)
      (by rw [hcp]; exact hb.exl),
    hcp, (h.executes.flows.mem h.stale).1]
  exact hb.unwatched

/-- With nothing in flight the sequential machine stands still. -/
theorem Drains.executes_next (h : p.Drains b k) (hb : b.Shielded)
    (hk : i.cpuBusReady = true → 0 < k) : (p.next i).Executes b := by
  have hflush := h.not_flush hb
  have hevents : p.events i = [] := by
    unfold events
    rw [hflush, h.mem]
    cases i.cpuBusReady <;> rfl
  have hordered : p.OrderedIssue i := by
    intro hid hready
    rw [h.id (hk hready)] at hid
    cases hid
  have hnext := (Pipe.executes_next h.executes hordered
    (fun _ hf => by rw [hflush] at hf; cases hf)).2
  rw [hevents] at hnext
  exact hnext

theorem Drains.wait (h : p.Drains b k) (hb : b.Shielded)
    (hready : i.cpuBusReady = false) : (p.next i).Drains b k := by
  have hexec := h.executes_next hb (i := i) fun hr => by
    rw [hready] at hr
    cases hr
  have hw := State.waited (s := p.cpu) hready
  rw [next_wait hready] at hexec ⊢
  refine ⟨hexec, h.mem, h.ex, h.stale, h.id, ?_, ?_⟩
  · rw [hw.isFlush]
    exact h.refetch
  · rw [hw.regs, State.contents_wait hready]
    exact h.settled

theorem Drains.ready (h : p.Drains b (k + 1)) (hb : b.Shielded)
    (hready : i.cpuBusReady = true) (hk : k < 2) : (p.next i).Drains b k := by
  have hexec := h.executes_next hb (i := i) fun _ => Nat.succ_pos k
  have hflush := h.not_flush hb
  have hpause : p.cpu.pause = false := by
    rw [State.pause_eq]
    unfold State.ram
    rw [(h.executes.tracks.exEmpty h.ex).ram]
    rfl
  have haccess : p.access i.cpuRomData = none := by
    unfold access
    rw [h.ex]
    rfl
  rw [next_advance hready hflush hpause, haccess, h.id (Nat.succ_pos k)]
    at hexec ⊢
  refine ⟨hexec, rfl, rfl, ?_, ?_, ?_, ?_⟩
  · show p.stale - 1 = 0
    rw [h.stale]
  · intro hpos
    rw [h.refetch (by omega)]
    rfl
  · intro hgt
    omega
  · intro _
    exact State.settled hready hflush (h.executes.tracks.memOut_inert h.mem _)

/-- The ready cycles among the inputs. -/
def readyCount (is : List Input) : Nat := is.countP (·.cpuBusReady)

theorem Drains.run {js : List Input} (hb : b.Shielded)
    (hlive : ∀ j ∈ js, j.Live) (hk : k ≤ 2) (hcount : readyCount js = k)
    (h : p.Drains b k) : (Machine.run Pipe.step p js).Drains b 0 := by
  induction js generalizing p k with
  | nil =>
    have hzero : k = 0 := hcount.symm
    rw [hzero] at h
    exact h
  | cons j js ih =>
    have hstep : p.step j = p.next j := step_next (hlive j List.mem_cons_self)
    have hrest : ∀ j ∈ js, j.Live :=
      fun j hj => hlive j (List.mem_cons_of_mem _ hj)
    rw [run_cons, hstep]
    unfold readyCount at hcount
    cases hready : j.cpuBusReady with
    | false =>
      rw [List.countP_cons_of_neg (by rw [hready]; decide)] at hcount
      exact ih hrest hk hcount (h.wait hb hready)
    | true =>
      rw [List.countP_cons_of_pos hready] at hcount
      subst hcount
      have hle : readyCount js ≤ 1 := Nat.le_of_succ_le_succ hk
      exact ih hrest (Nat.le_succ_of_le hle) rfl
        (h.ready hb hready (Nat.lt_succ_of_le hle))

end Pipe

-- ===== precision

/-- Only a flush writes `epc`. -/
theorem State.flush_of_writeepc {s : State}
    (h : s.exc.updates.writeepc = true) : s.flush = true := by
  cases hflush : s.flush with
  | true => rfl
  | false =>
    rw [exc_quiet hflush] at h
    cases h

/-- Behind the edge of a flush. -/
theorem Pipe.Executes.drains {p : Pipe} {b : Arch} {i : Input}
    (hready : i.cpuBusReady = true) (hflush : p.cpu.flush = true)
    (h : (p.next i).Executes b) : (p.next i).Drains b 2 := by
  have hf := State.flushed hready hflush
  rw [next_flush hready hflush] at h ⊢
  exact ⟨h, rfl, rfl, rfl, fun _ => rfl, fun _ => hf.isFlush,
    fun hlt => absurd hlt (by decide)⟩

/-- The machine that has entered an exception at an unwatched address. -/
theorem Arch.shielded_enter {a : Arch} {t : Trap}
    (h : isWatched a.regs.cp (a.entry t) = false) : (a.enter t).Shielded where
  exl := by
    show (a.regs.cp .status12 ||| 2#32).getLsbD 1 = true
    rw [BitVec.getLsbD_or]
    exact Bool.or_true _
  unwatched := h

/-- Every exception is precise. For a run from reset whose instructions took
the operands of program order, and an edge at which an exception is entered,
with two ready cycles behind it: what the processor did up to the edge is an
execution of the sequential machine, which stands at the address in MEM; the
exception is one whose condition holds there; the handler is fetched next; and
the register files then hold the registers of the sequential machine that has
entered the exception. -/
theorem exception_precise {u : State} {serial : Bool} {is js : List Input}
    {i : Input} (hrun : Along Pipe.step Pipe.Follows (.boot u serial) is)
    (hi : i.Live) (hready : i.cpuBusReady = true)
    (hjs : ∀ j ∈ js, j.Live) (htwo : Pipe.readyCount js = 2) :
    let p := run Pipe.step (.boot u serial) is
    let events := trace Pipe.step Pipe.events (.boot u serial) is
    let a := run Arch.apply .boot events
    p.cpu.exc.updates.writeepc = true →
    isWatched p.cpu.cp0 p.cpu.flushTarget = false →
    Along Arch.apply Arch.Legal .boot events ∧
      a.flow.pc = p.cpu.exMem.memPC ∧
      a.flow.isInDelaySlot = p.cpu.exMem.memIsInDelaySlot ∧
      ∃ t, a.Calls p.mem p.cpu.control.tempClockInterrupt
          p.cpu.control.tempSerialInterrupt t ∧
        (p.cpu.step i).pcRegister.pcPlus4 = a.entry t ∧
        (run State.step (p.cpu.step i) js).contents = (a.enter t).regs := by
  intro p events a hepc hwatch
  obtain ⟨hlegal, hexec, hclear⟩ := pipe_executes hrun
  have hflush : p.cpu.flush = true := State.flush_of_writeepc hepc
  have hat : p.cpu.At a := hexec.at (hexec.stale_of_flush hclear hflush)
  have hstep : p.cpu.step i = p.cpu.clock i := State.step_live _ hi
  have htarget : p.cpu.flushTarget = a.entry p.cpu.trap :=
    (hat.exc_enters hepc).2
  refine ⟨hlegal, hat.pc.symm, hat.isInDelaySlot.symm, p.cpu.trap,
    hexec.tracks.trap_calls hat hepc, ?_, ?_⟩
  · rw [hstep, (State.flushed hready hflush).pcRegister, htarget]
    rfl
  · -- the edge itself, then the two ready cycles
    have hevents : p.events i = [.trap p.mem p.cpu.trap] := by
      unfold Pipe.events
      rw [hready, hflush, hepc]
      rfl
    have hnext := (hexec.flush hready hflush
      (hexec.stale_of_flush hclear hflush)).2
    rw [hevents] at hnext
    rw [hat.cp0, htarget] at hwatch
    have hdrained := (hnext.drains hready hflush).run
      (Arch.shielded_enter hwatch) hjs (Nat.le_refl 2) htwo
    have hcpu : (run Pipe.step (p.next i) js).cpu
        = run State.step (p.cpu.clock i) js :=
      run_map Pipe.cpu Pipe.step_cpu (p.next i) js
    rw [hstep, ← hcpu, hdrained.settled (by decide)]
    exact hdrained.executes.regs

/-- `ori t0,5; syscall`, with a wait state between the two ready cycles:
`t0` is written, and `epc` is the address of the `syscall`. -/
theorem exception_precise_syscall :
    let is := ticks [0, 0x34080005, 0x0000000c, 0, 0]
    let js : List Input :=
      [⟨true, true, 0, false⟩, ⟨true, false, 0, false⟩,
        ⟨true, true, 0, false⟩]
    let p := run Pipe.step (.boot .zero false) is
    let a := run Arch.apply .boot
      (trace Pipe.step Pipe.events (.boot .zero false) is)
    a.regs.gpr 8 = 5 ∧ a.epc = 0xbfc00004 ∧
      ∃ t, (run State.step (p.cpu.step ⟨true, true, 0, false⟩) js).contents
        = (a.enter t).regs := by
  intro is js p a
  have hrun : Along Pipe.step Pipe.Follows (.boot .zero false) is := by
    decide +kernel
  have hjs : ∀ j ∈ js, j.Live := by decide
  have h := exception_precise (u := .zero) (i := ⟨true, true, 0, false⟩)
    hrun (by decide) rfl hjs (by decide) (by decide +kernel)
    (by decide +kernel)
  obtain ⟨-, -, -, t, -, -, hcontents⟩ := h
  exact ⟨by decide +kernel, by decide +kernel, t, hcontents⟩

/-- `ori t0,0x180; mtc0 t0,watchlo; syscall` with `ebase` 0: the empty
stage at the entry point `0x180` is watched, and two ready cycles behind
the `syscall` at `0xbfc00008` `epc` is `0x180`. -/
theorem watched_entry_overwrites_epc :
    let is := ticks [0, 0x34080180, 0x40889000, 0x0000000c, 0, 0]
    let p := run Pipe.step (.boot .zero false) is
    let i : Input := ⟨true, true, 0, false⟩
    Along Pipe.step Pipe.Follows (.boot .zero false) is ∧
      p.cpu.exc.updates.writeepc = true ∧
      p.cpu.exMem.memPC = 0xbfc00008 ∧
      p.cpu.exMem.memIsInDelaySlot = false ∧
      (run State.step (p.cpu.step i) [i, i]).contents.cp .epc14
        = 0x180 := by
  intro is p i
  exact ⟨by decide +kernel, by decide +kernel, by decide +kernel,
    by decide +kernel, by decide +kernel⟩

end MipsUcore.Cpu
