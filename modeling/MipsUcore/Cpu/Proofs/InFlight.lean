/-
The stages hold what the pipe says they hold.

`Pipe.Tracks` ties the registers of the processor to the instructions in
flight: `id_ex` and `ex_mem` are the images of the instructions in EX and
MEM, a stage without an instruction does nothing (`ExOut.Empty`,
`ExMem.Empty`), an access in MEM has nothing behind it in EX, and an ID
without an instruction holds the empty word. Every live edge keeps it,
whatever the bus answers and whenever an interrupt comes.
-/
import MipsUcore.Cpu.Pipe
import MipsUcore.Cpu.Proofs.ZeroRegister

namespace MipsUcore.Cpu

-- ===== empty stages

/-- EX does nothing: no request, no exception, and no write but a 0 to
register 0. -/
structure ExOut.Empty (x : ExOut) : Prop where
  ram : x.ram = .idle
  write : x.writeRegister = true → x.writeAddress = 0 ∧ x.writeData = 0
  writeHi : x.writeHi = false
  writeLo : x.writeLo = false
  writeCP : x.writeCP = false
  tlbwi : x.tlbwi = false
  syscall : x.syscall = false
  eret : x.eret = false
  privilege : x.privilege = false
  validInstruction : x.validInstruction = false
  pcTLBMiss : x.pcTLBMiss = false

/-- MEM does nothing. Only the address it carries can raise an
exception. -/
structure ExMem.Empty (m : ExMem) : Prop where
  write : m.memWriteRegister = true →
    m.memWriteAddress = 0 ∧ m.memWriteData = 0
  read : m.memRAMReadEnable = false
  writeHi : m.memWriteHi = false
  writeLo : m.memWriteLo = false
  writeCP : m.memWriteCP = false
  tlbwi : m.memtlbwi = false
  syscall : m.memsyscall = false
  eret : m.memeret = false
  privilege : m.memprivilege = true → m.memPC.msb = true
  validInstruction : m.memValidInstruction = false
  tlbMissRead : m.tlbMissRead = false
  tlbMissWrite : m.tlbMissWrite = false
  readError : m.readError = false
  writeError : m.writeError = false
  readPrivilege : m.memAddressReadPrivilege = false
  writePrivilege : m.memAddressWritePrivilege = false

theorem ex_bubble_empty (pc : Word) (ds : Bool) :
    (ex (.bubble pc ds)).Empty := by
  constructor <;> first | rfl | exact fun h => Bool.noConfusion h

/-- The empty word writes 0 to register 0. -/
theorem ex_nop_empty (pc register1 : Word) (ds : Bool) :
    (ex (.latch (decode pc 0) register1 0 pc ds false)).Empty := by
  constructor
  case write =>
    intro _
    refine ⟨rfl, ?_⟩
    exact BitVec.zero_shiftLeft _
  all_goals rfl

theorem ExMem.empty_bubble (pc : Word) : (ExMem.bubble pc).Empty := by
  constructor <;> first | rfl | exact fun h => Bool.noConfusion h

theorem ExMem.empty_latch {x : ExOut} (h : x.Empty) (t : Translation) :
    (ExMem.latch x (accessFaults x.ram t)).Empty := by
  obtain ⟨hram, hwrite, hhi, hlo, hcp, htlbwi, hsyscall, heret, hpriv,
    hvalid, hmiss⟩ := h
  unfold latch
  rw [hram]
  constructor
  case write => exact hwrite
  case privilege =>
    intro hp
    rw [hpriv] at hp
    exact hp
  case tlbMissRead =>
    rw [hmiss]
    rfl
  all_goals first | assumption | rfl

-- ===== inert bypasses

/-- The stage writes nothing a program can see. -/
structure Bypass.Inert (b : Bypass) : Prop where
  write : b.writeRegister = true → b.writeAddress = 0 ∧ b.writeData = 0
  writeHi : b.writeHi = false
  writeLo : b.writeLo = false
  writeCP : b.writeCP = false

theorem ExOut.Empty.inert {x : ExOut} (h : x.Empty) : x.bypass.Inert :=
  ⟨h.write, h.writeHi, h.writeLo, h.writeCP⟩

theorem ExMem.Empty.inert {m : ExMem} (h : m.Empty) (load : Word) :
    (Cpu.mem m load).Inert := by
  refine ⟨?_, h.writeHi, h.writeLo, h.writeCP⟩
  show m.memWriteRegister = true →
    m.memWriteAddress = 0 ∧ memWriteDataOut m load = 0
  unfold memWriteDataOut
  rw [h.read]
  exact h.write

theorem Regs.commit_inert {b : Bypass} (h : b.Inert) (a : Regs) :
    a.commit b = a := by
  unfold commit
  rw [h.writeHi, h.writeLo, h.writeCP]
  refine Regs.ext (funext fun r => ?_) rfl rfl rfl
  cases hw : b.writeRegister with
  | false => rfl
  | true =>
    rw [(h.write hw).1]
    rfl

/-- Nothing but 0 on its way to register 0. -/
def Bypass.ZeroQuiet (b : Bypass) : Prop :=
  b.writeRegister = true → b.writeAddress = 0 → b.writeData = 0

theorem Bypass.Inert.zeroQuiet {b : Bypass} (h : b.Inert) : b.ZeroQuiet :=
  fun hw _ => (h.write hw).2

theorem zeroForward_quiet {x m : Bypass} (hx : x.ZeroQuiet)
    (hm : m.ZeroQuiet) : zeroForward x m = 0 := by
  unfold zeroForward
  split_ifs with h1 h2
  · obtain ⟨hw, ha⟩ := Bool.and_eq_true_iff.mp h1
    exact hx hw (beq_iff_eq.mp ha)
  · obtain ⟨hw, ha⟩ := Bool.and_eq_true_iff.mp h2
    exact hm hw (beq_iff_eq.mp ha)
  · rfl

-- ===== the stall

theorem ramRequest_isLoad (op : AluOp) (a b : Word) (imm : BitVec 16) :
    (ramRequest op a b imm).isLoad = (ramRequest op a b imm).active := by
  cases op <;> rfl

/-- The interlock of the decoder never stalls alone: an access in EX
already does. -/
theorem State.pause_eq (s : State) : s.pause = s.ram.active := by
  have hload : s.ram.isLoad = s.ram.active := ramRequest_isLoad _ _ _ _
  unfold pause pauseSignal pauseRequest
  rw [hload]
  unfold RamRequest.active
  cases s.ram.ramReadEnable || s.ram.ramWriteEnable <;> rfl

-- ===== invariant

/-- The registers of the processor are those of the instructions in
flight. -/
structure Pipe.Tracks (p : Pipe) : Prop where
  ex : ∀ x, p.ex = some x → p.cpu.idEx = x.idEx
  exEmpty : p.ex = none → p.cpu.exOut.Empty
  mem : ∀ m, p.mem = some m → p.cpu.exMem = m.inst.exMem m.translation
  memEmpty : p.mem = none → p.cpu.exMem.Empty
  isLoadStore : p.cpu.control.isLoadStore
    = p.mem.elim false fun m => m.inst.ram.active
  alone : ∀ m, p.mem = some m → m.inst.ram.active = true → p.ex = none
  idEmpty : p.idLive = false → p.ex = none ∧ p.mem = none ∧
    p.cpu.ifId = ⟨p.cpu.ifId.idPC, 0, false, false⟩
  idLive : p.idLive = true → p.cpu.control.isFlush = false
  fix : p.cpu.pcRegister.fix = p.cpu.control.isFlush
  refetch : p.cpu.control.isFlush = true →
    p.cpu.pcRegister.pcTLBMissOut = false

namespace Pipe

variable {p : Pipe} {i : Input}

theorem tracks_empty {s : State} (hifId : s.ifId = .reset)
    (hidEx : s.idEx = .reset) (hexMem : s.exMem = .reset)
    (hfix : s.pcRegister.fix = false) (hls : s.control.isLoadStore = false)
    (hflush : s.control.isFlush = false) : (empty s).Tracks where
  ex := fun x h => by cases h
  exEmpty := fun _ => by
    show (Cpu.ex s.idEx).Empty
    rw [hidEx]
    exact ex_bubble_empty 0 false
  mem := fun m h => by cases h
  memEmpty := fun _ => by
    show s.exMem.Empty
    rw [hexMem]
    exact ExMem.empty_bubble 0
  isLoadStore := hls
  alone := fun m h => by cases h
  idEmpty := fun _ => ⟨rfl, rfl, by
    show s.ifId = ⟨s.ifId.idPC, 0, false, false⟩
    rw [hifId]
    rfl⟩
  idLive := fun h => Bool.noConfusion h
  fix := hfix.trans hflush.symm
  refetch := fun h => by
    have : s.control.isFlush = true := h
    rw [hflush] at this
    cases this

theorem tracks_boot (u : State) (serial : Bool) : (boot u serial).Tracks :=
  tracks_empty rfl rfl rfl rfl rfl rfl

-- what the instruction in EX puts on the wires

theorem Tracks.exOut (h : p.Tracks) {x : Inst} (hx : p.ex = some x) :
    p.cpu.exOut = x.exOut := congrArg Cpu.ex (h.ex x hx)

theorem Tracks.ram (h : p.Tracks) {x : Inst} (hx : p.ex = some x) :
    p.cpu.ram = x.ram := congrArg ExOut.ram (h.exOut hx)

theorem Tracks.pause (h : p.Tracks) {x : Inst} (hx : p.ex = some x) :
    p.cpu.pause = x.ram.active := by
  rw [State.pause_eq, h.ram hx]

-- ===== each edge

/-- An edge at which the bus is not ready moves nothing. -/
theorem Tracks.wait (h : p.Tracks) (hready : i.cpuBusReady = false) :
    (p.next i).Tracks := by
  have hw := State.waited (s := p.cpu) hready
  rw [next_wait hready]
  constructor
  case ex =>
    intro x hx
    rw [hw.idEx]
    exact h.ex x hx
  case exEmpty =>
    intro hx
    show (Cpu.ex (p.cpu.clock i).idEx).Empty
    rw [hw.idEx]
    exact h.exEmpty hx
  case mem =>
    intro m hm
    rw [hw.exMem]
    exact h.mem m hm
  case memEmpty =>
    intro hm
    rw [hw.exMem]
    exact h.memEmpty hm
  case isLoadStore =>
    rw [hw.isLoadStore]
    exact h.isLoadStore
  case alone => exact h.alone
  case idEmpty =>
    rw [hw.ifId]
    exact h.idEmpty
  case idLive =>
    rw [hw.isFlush]
    exact h.idLive
  case fix =>
    rw [hw.pcRegister, hw.isFlush]
    exact h.fix
  case refetch =>
    rw [hw.pcRegister, hw.isFlush]
    exact h.refetch

/-- A flush drops whatever was in flight. -/
theorem tracks_flush (hready : i.cpuBusReady = true)
    (hflush : p.cpu.flush = true) : (p.next i).Tracks := by
  have hf := State.flushed hready hflush
  rw [next_flush hready hflush]
  constructor
  case ex =>
    intro x hx
    cases hx
  case exEmpty =>
    intro _
    show (Cpu.ex (p.cpu.clock i).idEx).Empty
    rw [hf.idEx]
    exact ex_bubble_empty _ _
  case mem =>
    intro m hm
    cases hm
  case memEmpty =>
    intro _
    rw [hf.exMem]
    exact ExMem.empty_bubble _
  case isLoadStore => exact hf.isLoadStore
  case alone =>
    intro m hm
    cases hm
  case idEmpty =>
    rw [hf.ifId]
    exact fun _ => ⟨rfl, rfl, rfl⟩
  case idLive => exact fun hl => Bool.noConfusion hl
  case fix =>
    rw [hf.pcRegister, hf.isFlush]
  case refetch =>
    rw [hf.pcRegister]
    exact fun _ => rfl

/-- What a stall and an advance do to MEM. -/
theorem Tracks.moved_mem (h : p.Tracks) {w : Word} {s' : State}
    (hm : p.cpu.Moved w s') :
    (∀ m, p.access w = some m → s'.exMem = m.inst.exMem m.translation) ∧
      (p.access w = none → s'.exMem.Empty) ∧
      s'.control.isLoadStore
        = (p.access w).elim false fun m => m.inst.ram.active := by
  unfold access
  rw [hm.exMem, hm.isLoadStore]
  cases hx : p.ex with
  | none =>
    have hempty := h.exEmpty hx
    refine ⟨?_, fun _ => ?_, ?_⟩
    · intro m hm
      cases hm
    · exact ExMem.empty_latch hempty _
    · show p.cpu.ram.active = false
      unfold State.ram
      rw [hempty.ram]
      rfl
  | some x =>
    have hex := h.exOut hx
    refine ⟨?_, ?_, ?_⟩
    · intro m hm
      cases hm
      unfold Inst.exMem State.faults State.ram
      rw [hex]
      rfl
    · intro hn
      cases hn
    · unfold State.ram
      rw [hex]
      rfl

/-- Only an instruction makes a request, and then ID holds one too. -/
theorem Tracks.pause_live (h : p.Tracks) (hpause : p.cpu.pause = true) :
    p.ex.isSome = true ∧ p.idLive = true := by
  have hex : p.ex.isSome = true := by
    cases hx : p.ex with
    | some x => rfl
    | none =>
      rw [State.pause_eq] at hpause
      unfold State.ram at hpause
      rw [(h.exEmpty hx).ram] at hpause
      cases hpause
  refine ⟨hex, ?_⟩
  cases hid : p.idLive with
  | true => rfl
  | false =>
    rw [(h.idEmpty hid).1] at hex
    cases hex

/-- A stall lets the access through and puts a bubble behind it. -/
theorem Tracks.stall (h : p.Tracks) (hready : i.cpuBusReady = true)
    (hflush : p.cpu.flush = false) (hpause : p.cpu.pause = true) :
    (p.next i).Tracks := by
  have hs := State.stalled hready hflush hpause
  obtain ⟨hmem, hmemEmpty, hls⟩ := h.moved_mem hs.toMoved
  have hlive := (h.pause_live hpause).2
  rw [next_stall hready hflush hpause]
  constructor
  case ex =>
    intro x hx
    cases hx
  case exEmpty =>
    intro _
    show (Cpu.ex (p.cpu.clock i).idEx).Empty
    rw [hs.idEx]
    exact ex_bubble_empty _ _
  case mem => exact hmem
  case memEmpty => exact hmemEmpty
  case isLoadStore => exact hls
  case alone => exact fun _ _ _ => rfl
  case idEmpty =>
    intro hid
    rw [hlive] at hid
    cases hid
  case idLive => exact fun _ => hs.isFlush
  case fix =>
    rw [hs.pcRegister, hs.isFlush]
  case refetch =>
    rw [hs.isFlush]
    exact fun hf => Bool.noConfusion hf

theorem Tracks.not_live (h : p.Tracks)
    (hflush : p.cpu.control.isFlush = true) : p.idLive = false := by
  cases hid : p.idLive with
  | false => rfl
  | true =>
    rw [h.idLive hid] at hflush
    cases hflush

/-- The empty word in ID becomes an empty EX. -/
theorem Tracks.nop_empty (h : p.Tracks) (hid : p.idLive = false) (w : Word) :
    (Cpu.ex (.latch p.cpu.decoded (p.cpu.idRegister1 w)
      (p.cpu.idRegister2 w) p.cpu.ifId.idPC p.cpu.ifId.isInDelaySlotOut
      p.cpu.ifId.pcTLBMissOut)).Empty := by
  obtain ⟨hex, hmem, hifId⟩ := h.idEmpty hid
  have hd : p.cpu.decoded = decode p.cpu.ifId.idPC 0 := by
    unfold State.decoded
    rw [hifId]
  have hr2 : p.cpu.idRegister2 w = 0 := by
    have he : p.cpu.decoded.registerReadEnable2 = true := by rw [hd]; rfl
    have ha : p.cpu.decoded.registerAddress2 = 0 := by rw [hd]; rfl
    rw [State.idRegister2_of_zero w he ha]
    exact zeroForward_quiet (h.exEmpty hex).inert.zeroQuiet
      ((h.memEmpty hmem).inert _).zeroQuiet
  rw [hd, hr2, hifId]
  exact ex_nop_empty _ _ _

theorem branch_nop (pc a b : Word) : branch pc 0 a b = .notTaken := rfl

/-- Behind a flush the fetched word is thrown away once. -/
theorem Tracks.instructionResult_refetch (h : p.Tracks)
    (hid : p.idLive = false) (hflush : p.cpu.control.isFlush = true)
    (w : Word) : p.cpu.instructionResult w = 0 := by
  have hls := h.isLoadStore
  rw [(h.idEmpty hid).2.1] at hls
  unfold State.instructionResult Control.instructionResult
  rw [hls, hflush]
  cases p.cpu.flush <;> rfl

theorem Tracks.branchOut_nop (h : p.Tracks) (hid : p.idLive = false)
    (w : Word) : p.cpu.branchOut w = .notTaken := by
  unfold State.branchOut
  rw [(h.idEmpty hid).2.2]
  exact branch_nop _ _ _

/-- Otherwise every instruction moves on by one stage. -/
theorem Tracks.advance (h : p.Tracks) (hready : i.cpuBusReady = true)
    (hflush : p.cpu.flush = false) (hpause : p.cpu.pause = false) :
    (p.next i).Tracks := by
  have ha := State.advanced hready hflush hpause
  obtain ⟨hmem, hmemEmpty, hls⟩ := h.moved_mem ha.toMoved
  rw [next_advance hready hflush hpause]
  constructor
  case ex =>
    intro x hx
    cases hid : p.idLive with
    | false =>
      simp only [hid] at hx
      cases hx
    | true =>
      simp only [hid, if_true] at hx
      cases hx
      exact ha.idEx
  case exEmpty =>
    intro hx
    cases hid : p.idLive with
    | false =>
      show (Cpu.ex (p.cpu.clock i).idEx).Empty
      rw [ha.idEx]
      exact h.nop_empty hid _
    | true =>
      simp only [hid, if_true] at hx
      cases hx
  case mem => exact hmem
  case memEmpty => exact hmemEmpty
  case isLoadStore => exact hls
  case alone =>
    intro m hm hactive
    -- an access in EX would have stalled
    have hidle : p.cpu.ram.active = false := by
      rw [← State.pause_eq]
      exact hpause
    have hm' : p.access i.cpuRomData = some m := hm
    rw [← ha.isLoadStore, hls, hm', Option.elim_some, hactive] at hidle
    cases hidle
  case idEmpty =>
    intro hl
    have hf : p.cpu.control.isFlush = true := Bool.not_eq_false' _ ▸ hl
    have hid := h.not_live hf
    refine ⟨by simp only [hid]; rfl, ?_, ?_⟩
    · show p.access _ = none
      unfold access
      rw [(h.idEmpty hid).1]
      rfl
    · rw [ha.ifId, h.instructionResult_refetch hid hf, h.refetch hf,
        h.branchOut_nop hid]
      rfl
  case idLive => exact fun _ => ha.isFlush
  case fix =>
    rw [ha.pcRegister, ha.isFlush]
    split <;> rfl
  case refetch =>
    rw [ha.isFlush]
    exact fun hf => Bool.noConfusion hf

/-- Every live edge keeps the registers and the instructions together. -/
theorem Tracks.next (h : p.Tracks) (i : Input) : (p.next i).Tracks := by
  cases hready : i.cpuBusReady with
  | false => exact h.wait hready
  | true =>
    cases hflush : p.cpu.flush with
    | true => exact tracks_flush hready hflush
    | false =>
      cases hpause : p.cpu.pause with
      | true => exact h.stall hready hflush hpause
      | false => exact h.advance hready hflush hpause

end Pipe

end MipsUcore.Cpu
