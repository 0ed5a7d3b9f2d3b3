/-
The registers as a program sees them.

Between the memory stage and the register files stands one instruction
that has committed but is not written yet. `State.regs` reads the files
with that write applied: what an instruction in MEM may rely on, and what
every older instruction has left behind. One ready edge moves exactly one
instruction across this line (`State.regs_clock`): without a flush the
writes of the instruction in MEM are added, with a flush those of its
exception.
-/
import MipsUcore.Cpu.Run

namespace MipsUcore.Cpu

-- ===== registers

/-- The CP0 registers with a write port. -/
def CpReg.all : List CpReg :=
  [.index0, .entryLo02, .entryLo13, .badaddr8, .entryHi10, .compare11,
    .status12, .cause13, .epc14, .ebase15, .watchLo18, .watchHi19]

theorem CpReg.mem_all (r : CpReg) : r ∈ all := by
  cases r <;> decide

/-- The architectural registers, without `count`. -/
@[ext]
structure Regs where
  gpr : RegAddr → Word
  hi : Word
  lo : Word
  cp : CpReg → Word

namespace Regs

variable (a : Regs)

/-- A general register; number 0 reads as 0. -/
def read (r : RegAddr) : Word := if r = 0 then 0 else a.gpr r

/-- A CP0 register by number. `count` is the counter at the time of the
read; a number without a register reads as 0. -/
def cpRead (count : Word) (r : RegAddr) : Word :=
  match CpReg.ofAddress r with
  | some c => a.cp c
  | none => if r = 9 then count else 0

/-- Add what an instruction writes. -/
def commit (b : Bypass) : Regs where
  gpr := fun r =>
    if b.writeRegister && b.writeAddress != 0 && r == b.writeAddress then
      b.writeData
    else a.gpr r
  hi := if b.writeHi then b.hiData else a.hi
  lo := if b.writeLo then b.loData else a.lo
  cp := fun r =>
    (mtc0Write b.writeCP b.writeCPAddress b.writeCPData r).getD (a.cp r)

/-- Add the CP0 updates of an exception. -/
def update (u : CpUpdates) : Regs :=
  { a with cp := fun r => (u.write r).getD (a.cp r) }

/-- The first operand of an instruction that reads these registers. -/
def operand1 (count : Word) (d : Decoded) : Word :=
  if d.cpReadEnable then a.cpRead count d.cpAddress
  else if d.hiReadEnable then a.hi
  else if d.loReadEnable then a.lo
  else if d.registerReadEnable1 then a.read d.registerAddress1
  else d.immediate

/-- The second operand. -/
def operand2 (d : Decoded) : Word :=
  if d.registerReadEnable2 then a.read d.registerAddress2 else d.immediate

end Regs

/-- The register files with the instruction in WB written. -/
def State.regs (s : State) : Regs where
  gpr := (s.regfile.next true s.memWb).register
  hi := s.hilo.hiOut s.memWb
  lo := s.hilo.loOut s.memWb
  cp := s.cp0

-- ===== clock edge

/-- An arm of the priority chain that flushes, in front of the others. -/
theorem ExcOut.ite_quiet {p : Prop} [Decidable p] {x y : ExcOut}
    (hx : x.flush = true) (hy : y.flush = false → y = .quiet) :
    (if p then x else y).flush = false → (if p then x else y) = .quiet := by
  split
  · intro h
    rw [hx] at h
    cases h
  · exact hy

/-- Without a flush the priority chain took its last arm. -/
theorem Control.exception_quiet {c : Control} {cp0 : CpReg → Word}
    {m : ExMem} : (c.exception cp0 m).flush = false →
    c.exception cp0 m = .quiet := by
  repeat refine ExcOut.ite_quiet rfl ?_
  exact fun _ => rfl

theorem State.exc_quiet {s : State} (h : s.flush = false) : s.exc = .quiet :=
  Control.exception_quiet h

/-- What one edge writes to CP0: the `mtc0` in MEM, or the updates of its
exception. -/
def State.cpPort (s : State) (i : Input) (r : CpReg) : Option Word :=
  if !i.cpuBusReady then none
  else if s.flush then s.exc.updates.write r
  else mtc0Write s.exMem.memWriteCP s.exMem.memWriteCPAddress
    s.exMem.memWriteCPData r

/-- The write ports behind WB after an edge are `cpPort`. -/
theorem State.cpWrite_clock {s : State} {i : Input}
    (hready : i.cpuBusReady = true) (r : CpReg) :
    (s.clock i).memWb.cpWrite r = s.cpPort i r := by
  show (s.memWb.next i.cpuBusReady s.flush (s.memOut i.cpuRomData)
    s.exc.updates).cpWrite r = _
  unfold cpPort MemWb.next
  rw [hready]
  cases hflush : s.flush with
  | true =>
    exact Option.none_or
  | false =>
    rw [exc_quiet hflush]
    exact Option.or_none

theorem State.cp0_clock (s : State) (i : Input) (r : CpReg) :
    (s.clock i).cp0 r = (s.cpPort i r).getD (s.cp0 r) := by
  cases hready : i.cpuBusReady with
  | false =>
    have hcp : (s.clock i).cp = s.cp := if_pos (by rw [hready]; rfl)
    have hwb : (s.clock i).memWb = s.memWb := if_pos (by rw [hready]; rfl)
    unfold cp0 cpPort
    rw [hcp, hwb, hready]
    rfl
  | true =>
    have hcp : (s.clock i).cp.regs r = s.cp0 r := by
      show (s.cp.next i.cpuBusReady s.memWb.cpWrite).regs r = _
      rw [hready]
      rfl
    show ((s.clock i).memWb.cpWrite r).getD ((s.clock i).cp.regs r) = _
    rw [cpWrite_clock hready, hcp]

theorem Regfile.next_register (f : Regfile) (w : MemWb) (r : RegAddr) :
    (f.next true w).register r =
      if w.wbWriteRegister && w.wbWriteAddress != 0
        && r == w.wbWriteAddress then w.wbWriteData
      else f.register r := by
  unfold Regfile.next
  cases hw : w.wbWriteRegister && w.wbWriteAddress != 0 with
  | false => rfl
  | true =>
    show Function.update f.register w.wbWriteAddress w.wbWriteData r = _
    rw [Function.update_apply, Bool.true_and]
    simp only [beq_iff_eq]

/-- One edge moves one instruction, or its exception, into the
registers. -/
theorem State.regs_clock (s : State) (i : Input) : (s.clock i).regs =
      if !i.cpuBusReady then s.regs
      else if s.flush then s.regs.update s.exc.updates
      else s.regs.commit (s.memOut i.cpuRomData) := by
  have hcp : (s.clock i).regs.cp = fun r => (s.cpPort i r).getD (s.cp0 r) :=
    funext (s.cp0_clock i)
  have hgpr (r : RegAddr) : (s.clock i).regs.gpr r
      = ((s.regfile.next i.cpuBusReady s.memWb).next true
        (s.memWb.next i.cpuBusReady s.flush (s.memOut i.cpuRomData)
          s.exc.updates)).register r := rfl
  have hhi : (s.clock i).regs.hi = (s.hilo.next i.cpuBusReady s.memWb).hiOut
      (s.memWb.next i.cpuBusReady s.flush (s.memOut i.cpuRomData)
        s.exc.updates) := rfl
  have hlo : (s.clock i).regs.lo = (s.hilo.next i.cpuBusReady s.memWb).loOut
      (s.memWb.next i.cpuBusReady s.flush (s.memOut i.cpuRomData)
        s.exc.updates) := rfl
  unfold cpPort at hcp
  cases hready : i.cpuBusReady with
  | false =>
    rw [hready] at hcp hgpr hhi hlo
    exact Regs.ext (funext hgpr) hhi hlo hcp
  | true =>
    rw [hready] at hcp hgpr hhi hlo
    cases hflush : s.flush with
    | true | false =>
      rw [hflush] at hcp hgpr hhi hlo
      refine Regs.ext (funext fun r => ?_) hhi hlo hcp
      rw [hgpr, Regfile.next_register]
      rfl

end MipsUcore.Cpu
