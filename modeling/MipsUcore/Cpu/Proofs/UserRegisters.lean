/-
Registers in user mode.

Privilege is checked in MEM. Until then a forbidden instruction runs like
any other: its result is forwarded to ID from EX and from MEM, and a younger
instruction may hold it as an operand. `user_registers_confined` says that
none of this comes out. In the cycle in which the instruction is in MEM some
arm of the priority chain fires, the one for its privilege or one before it,
and every arm up to there is an exception entry. Wait states hold the stages
and the status, so the entry is still due at the ready edge, and that edge
empties every stage: the instruction, and whoever has read its result.

The same chain keeps CP0. Only an `mtc0` or a flush writes it. An `mtc0` is
privileged, and a flush in user mode is an entry since `eret` is privileged
too.
-/
import MipsUcore.Cpu.Proofs.PreciseException
import MipsUcore.Lib.Bits

namespace MipsUcore.Cpu

open Machine

-- ===== privileged words

/-- `mfc0`, `mtc0`, `tlbwi` and `eret`. -/
def PrivilegedWord (w : Word) : Prop :=
  (opcode w = 0b010000#6 ∧ (rs w = 0b00000#5 ∨ rs w = 0b00100#5)) ∨
    w = 0x42000002#32 ∨ w = 0x42000018#32

instance (w : Word) : Decidable (PrivilegedWord w) :=
  inferInstanceAs (Decidable (_ ∨ _))

/-- A word of the shift group has opcode 0. -/
theorem opcode_of_shift {w : Word} (h : w.extractLsb' 21 11 = 0#11) :
    opcode w = 0#6 := by
  have := congrArg (BitVec.extractLsb' 5 6) h
  rwa [Bits.extractLsb'_extractLsb' w (by decide)] at this

/-- Behind the `case` statement, nothing takes the privilege of a COP0 word
back. -/
theorem decode_privilege_keep {pc w : Word} (hop : opcode w = 0b010000#6)
    (h : (decodeCase pc w (.base w)).privilege = true) :
    (decode pc w).privilege = true := by
  have hshift : ¬ w.extractLsb' 21 11 = 0#11 := by
    intro hz
    rw [opcode_of_shift hz] at hop
    exact absurd hop (by decide)
  have hsyscall : ¬ w = 0b00000000000000000000000000001100#32 := by
    rintro rfl
    exact absurd hop (by decide)
  unfold decode decodeEret decodeSyscall decodeTlbwi decodeShift
  split
  · rfl
  · show (if _ then _ else _ : Decoded).privilege = true
    split
    · rfl
    · exact h

theorem decode_privilege {pc w : Word} (h : PrivilegedWord w) :
    (decode pc w).privilege = true := by
  obtain ⟨hop, hrs | hrs⟩ | rfl | rfl := h
  · refine decode_privilege_keep hop ?_
    unfold decodeCase
    rw [hop, hrs]
    rfl
  · refine decode_privilege_keep hop ?_
    unfold decodeCase
    rw [hop, hrs]
    rfl
  · rfl
  · rfl

theorem decodeSpecial_mtc0 (pc w : Word) :
    (decodeSpecial pc w (.base w)).aluOperation ≠ .mtc0 := by
  unfold decodeSpecial
  split <;> exact AluOp.noConfusion

/-- Only the `mtc0` arm of the decoder selects the operation. -/
theorem decodeCase_mtc0 {pc w : Word} :
    (decodeCase pc w (.base w)).aluOperation = .mtc0 →
    opcode w = 0b010000#6 ∧ rs w = 0b00100#5 := by
  unfold decodeCase
  split
  case h_1 =>
    split
    · exact fun h => absurd h (decodeSpecial_mtc0 pc w)
    · exact AluOp.noConfusion
  case h_15 => split <;> exact AluOp.noConfusion
  case h_21 hop =>
    split
    case h_1 hrs => exact fun _ => ⟨hop, hrs⟩
    all_goals exact AluOp.noConfusion
  all_goals exact AluOp.noConfusion

theorem privilegedWord_of_mtc0 {pc w : Word}
    (h : (decode pc w).aluOperation = .mtc0) : PrivilegedWord w := by
  -- the whole-word matches leave the operation alone
  have hflags (d : Decoded) :
      (decodeEret w (decodeSyscall w (decodeTlbwi w d))).aluOperation
        = d.aluOperation := by
    unfold decodeEret decodeSyscall decodeTlbwi
    split <;> split <;> split <;> rfl
  unfold decode at h
  rw [hflags] at h
  refine .inl ?_
  unfold decodeShift at h
  split at h
  · split at h
    case h_4 =>
      obtain ⟨hop, hrs⟩ := decodeCase_mtc0 h
      exact ⟨hop, .inr hrs⟩
    all_goals cases h
  · obtain ⟨hop, hrs⟩ := decodeCase_mtc0 h
    exact ⟨hop, .inr hrs⟩

theorem privilegedWord_of_eret {pc w : Word}
    (h : (decode pc w).eret = true) : PrivilegedWord w := by
  unfold decode decodeEret at h
  split at h
  · exact .inr (.inr ‹_›)
  · cases h

-- ===== forbidden instructions

/-- An instruction that user mode forbids for what it reads or writes. -/
def Inst.Forbidden (x : Inst) : Prop :=
  PrivilegedWord x.word ∨ x.pc.msb = true ∨
    (x.ram.ramReadEnable = true ∧ x.ram.ramAddress.msb = true)

instance (x : Inst) : Decidable x.Forbidden :=
  inferInstanceAs (Decidable (_ ∨ _))

/-- Its image in MEM carries one of the two marks. -/
theorem Inst.Forbidden.marked {x : Inst} (h : x.Forbidden)
    (t : Translation) : (x.exMem t).memprivilege = true ∨
      (x.exMem t).memAddressReadPrivilege = true := by
  obtain hword | hpc | ⟨hread, hmsb⟩ := h
  · left
    show ((decode x.pc x.word).privilege || x.pc.msb) = true
    rw [decode_privilege hword, Bool.true_or]
  · left
    show ((decode x.pc x.word).privilege || x.pc.msb) = true
    rw [hpc, Bool.or_true]
  · right
    have hpriv : (x.exMem t).memAddressReadPrivilege
        = (x.ram.ramReadEnable && x.ram.ramAddress.msb) :=
      ramRequest_readPrivilege _ _ _ _
    rw [hpriv, hread, hmsb]
    rfl

/-- An arm of the chain that enters an exception, in front of arms that
do unless it is taken. -/
theorem ExcOut.ite_writeepc {p : Prop} [Decidable p] {x y : ExcOut}
    (hx : x.updates.writeepc = true) (hy : ¬ p → y.updates.writeepc = true) :
    (if p then x else y).updates.writeepc = true := by
  split
  · exact hx
  · exact hy ‹_›

/-- In user mode either mark ends in an exception entry. -/
theorem Control.exception_writeepc (c : Control) {cp0 : CpReg → Word}
    {m : ExMem} (huser : inUserMode (cp0 .status12) = true)
    (h : m.memprivilege = true ∨ m.memAddressReadPrivilege = true) :
    (c.exception cp0 m).updates.writeepc = true := by
  unfold exception
  rw [huser]
  refine ExcOut.ite_writeepc rfl fun _ => ?_
  refine ExcOut.ite_writeepc rfl fun _ => ?_
  refine ExcOut.ite_writeepc rfl fun _ => ?_
  refine ExcOut.ite_writeepc rfl fun hread => ?_
  refine ExcOut.ite_writeepc rfl fun _ => ?_
  refine ExcOut.ite_writeepc rfl fun hpriv => ?_
  -- one of the two arms for the marks was taken
  rw [Bool.and_true, Bool.or_eq_true] at hread hpriv
  obtain h | h := h
  · exact absurd (.inr h) hpriv
  · exact absurd (.inr h) hread

-- ===== one edge

/-- An exception entry: the registers get the updates of the exception and
nothing else, and no stage holds an instruction or anything one has
computed. -/
structure Pipe.Entered (p p' : Pipe) : Prop where
  entry : p.cpu.exc.updates.writeepc = true
  regs : p'.cpu.regs = p.cpu.regs.update p.cpu.exc.updates
  idLive : p'.idLive = false
  ex : p'.ex = none
  mem : p'.mem = none
  ifId : p'.cpu.ifId = ⟨p.cpu.flushTarget, 0, false, false⟩
  idEx : p'.cpu.idEx = .bubble p.cpu.flushTarget false
  exMem : p'.cpu.exMem = .bubble p.cpu.flushTarget

namespace Pipe

variable {p : Pipe} {i : Input}

theorem entered_next (hready : i.cpuBusReady = true)
    (hepc : p.cpu.exc.updates.writeepc = true) : p.Entered (p.next i) := by
  have hflush := State.flush_of_writeepc hepc
  have hf := State.flushed hready hflush
  rw [next_flush hready hflush]
  exact ⟨hepc, hf.regs, rfl, rfl, rfl, hf.ifId, hf.idEx, hf.exMem⟩

/-- A forbidden instruction in MEM raises an exception. -/
theorem Tracks.forbidden_writeepc (h : p.Tracks) {m : Accessed}
    (hm : p.mem = some m) (huser : inUserMode (p.cpu.cp0 .status12) = true)
    (hforbidden : m.inst.Forbidden) : p.cpu.exc.updates.writeepc = true := by
  have hmarked := hforbidden.marked m.translation
  rw [← h.mem m hm] at hmarked
  exact p.cpu.control.exception_writeepc huser hmarked

/-- In user mode every flush is an exception entry: an `eret` is
privileged. -/
theorem Tracks.flush_writeepc (h : p.Tracks)
    (huser : inUserMode (p.cpu.cp0 .status12) = true)
    (hflush : p.cpu.flush = true) : p.cpu.exc.updates.writeepc = true := by
  cases hepc : p.cpu.exc.updates.writeepc with
  | true => rfl
  | false =>
    obtain ⟨-, heret⟩ := State.exc_eret hflush hepc
    obtain ⟨m, hm, himage⟩ := h.exists_mem (fun hempty => hempty.eret) heret
    rw [himage] at heret
    have hword : PrivilegedWord m.inst.word := privilegedWord_of_eret heret
    rw [← hepc]
    exact h.forbidden_writeepc hm huser (.inl hword)

/-- In user mode no `mtc0` leaves MEM. -/
theorem Tracks.no_mtc0 (h : p.Tracks)
    (huser : inUserMode (p.cpu.cp0 .status12) = true)
    (hflush : p.cpu.flush = false) : p.cpu.exMem.memWriteCP = false := by
  cases hcp : p.cpu.exMem.memWriteCP with
  | false => rfl
  | true =>
    obtain ⟨m, hm, himage⟩ := h.exists_mem (fun hempty => hempty.writeCP) hcp
    rw [himage] at hcp
    obtain ⟨-, hop⟩ := Bool.and_eq_true_iff.mp hcp
    have hword : PrivilegedWord m.inst.word :=
      privilegedWord_of_mtc0 (beq_iff_eq.mp hop)
    have hepc := h.forbidden_writeepc hm huser (.inl hword)
    rw [State.flush_of_writeepc hepc] at hflush
    cases hflush

/-- One live edge in user mode keeps CP0, or enters an exception. -/
theorem Tracks.cp0_next (h : p.Tracks)
    (huser : inUserMode (p.cpu.cp0 .status12) = true) (i : Input) :
    (p.next i).cpu.cp0 = p.cpu.cp0 ∨
      (i.cpuBusReady = true ∧ p.Entered (p.next i)) := by
  cases hready : i.cpuBusReady with
  | false => exact .inl (congrArg Regs.cp (State.waited hready).regs)
  | true =>
    cases hflush : p.cpu.flush with
    | true =>
      exact .inr ⟨rfl, entered_next hready (h.flush_writeepc huser hflush)⟩
    | false =>
      left
      funext r
      show (p.cpu.clock i).cp0 r = p.cpu.cp0 r
      rw [State.cp0_clock]
      unfold State.cpPort
      rw [hready, hflush, h.no_mtc0 huser hflush]
      rfl

-- ===== wait states

/-- The input of a wait state. -/
def Waits (i : Input) : Prop := i.Live ∧ i.cpuBusReady = false

instance (i : Input) : Decidable (Waits i) :=
  inferInstanceAs (Decidable (_ ∧ _))

/-- Wait states move no instruction and change no register. -/
theorem Tracks.run_waits (h : p.Tracks) {js : List Input}
    (hjs : ∀ j ∈ js, Waits j) :
    (run step p js).Tracks ∧ (run step p js).mem = p.mem ∧
      (run step p js).cpu.regs = p.cpu.regs := by
  refine run_induction (P := fun _ j => Waits j)
    (I := fun q : Pipe => q.Tracks ∧ q.mem = p.mem ∧ q.cpu.regs = p.cpu.regs)
    ?_ ⟨h, rfl, rfl⟩ (along_input.mpr hjs)
  rintro q j ⟨htracks, hmem, hregs⟩ ⟨hlive, hready⟩
  rw [step_next hlive]
  refine ⟨htracks.next j, ?_, (State.waited hready).regs.trans hregs⟩
  rw [next_wait hready]
  exact hmem

theorem tracks_step (h : p.Tracks) (i : Input) : (p.step i).Tracks := by
  unfold step
  split
  · exact h.next i
  · exact tracks_empty rfl rfl rfl rfl rfl rfl

theorem tracks_run (u : State) (serial : Bool) (is : List Input) :
    (run step (boot u serial) is).Tracks :=
  run_induction (P := fun _ _ => True) (I := Tracks)
    (fun _ i h _ => tracks_step h i) (tracks_boot u serial)
    (along_input.mpr fun _ _ => trivial)

end Pipe

-- ===== results

/-- Registers in user mode. In every state that is reached with the status
seen by `control` in user mode: a forbidden instruction in MEM waits there
through any number of wait states while no register changes, and the ready
edge is an exception entry, which drops it and every younger instruction;
and at every edge CP0 keeps its values, or an exception is entered. -/
theorem user_registers_confined (u : State) (serial : Bool)
    (is : List Input) (p : Pipe)
    (hp : p = run Pipe.step (.boot u serial) is)
    (huser : inUserMode ((u.reached serial is).cp0 .status12) = true) :
    p.cpu = u.reached serial is ∧
    (∀ (m : Accessed) (js : List Input) (i : Input),
      p.mem = some m → m.inst.Forbidden → (∀ j ∈ js, Pipe.Waits j) →
      i.Live → i.cpuBusReady = true →
      (run Pipe.step p js).mem = some m ∧
        (run Pipe.step p js).cpu.regs = p.cpu.regs ∧
        (run Pipe.step p js).Entered ((run Pipe.step p js).step i)) ∧
    (∀ i : Input, i.Live → (p.step i).cpu.cp0 = p.cpu.cp0 ∨
      (i.cpuBusReady = true ∧ p.Entered (p.step i))) := by
  subst hp
  have hcpu : (run Pipe.step (.boot u serial) is).cpu
      = u.reached serial is := run_map Pipe.cpu Pipe.step_cpu _ is
  rw [← hcpu] at huser
  have htracks := Pipe.tracks_run u serial is
  generalize run Pipe.step (.boot u serial) is = p at hcpu huser htracks ⊢
  refine ⟨hcpu, ?_, ?_⟩
  · intro m js i hm hforbidden hjs hlive hready
    obtain ⟨hq, hmem, hregs⟩ := htracks.run_waits hjs
    refine ⟨hmem.trans hm, hregs, ?_⟩
    have hcp : (run Pipe.step p js).cpu.cp0 = p.cpu.cp0 :=
      congrArg Regs.cp hregs
    rw [← hcp] at huser
    rw [Pipe.step_next hlive]
    exact Pipe.entered_next hready
      (hq.forbidden_writeepc (hmem.trans hm) huser hforbidden)
  · intro i hlive
    rw [Pipe.step_next hlive]
    exact htracks.cp0_next huser i

/-- The program of `kernelStoreProgram`, up to user mode, and there
`mfc0 t0,status`, `addu t1,t0,t0`. -/
def userMfc0Program : List Word :=
  [0, 0x3c098000, 0x24080002, 0x40881000, 0x42000002, 0x240a0012,
    0x408a6000, 0x42000018, 0, 0, 0, 0, 0x40086000, 0x01084821, 0]

/-- There the `mfc0` is in MEM, and the `addu` in EX holds what it read,
16. After a wait state the exception is entered. -/
theorem user_mfc0_confined :
    let p := run Pipe.step (.boot .zero false) (ticks userMfc0Program)
    let q := run Pipe.step p [⟨true, false, 0, false⟩]
    p.mem.map (·.inst.word) = some 0x40086000 ∧
      p.ex.map Inst.register1 = some 16 ∧
      q.cpu.regs = p.cpu.regs ∧ q.Entered (q.step ⟨true, true, 0, false⟩) ∧
      (q.cpu.cp0 = p.cpu.cp0 ∨ (false = true ∧ p.Entered q)) := by
  intro p q
  have hword : p.mem.map (·.inst.word) = some 0x40086000 := by
    decide +kernel
  obtain ⟨m, hm, hw⟩ := Option.map_eq_some_iff.mp hword
  have hforbidden : m.inst.Forbidden := by
    left
    rw [hw]
    decide
  obtain ⟨-, hsquash, hcp0⟩ := user_registers_confined .zero false
    (ticks userMfc0Program) p rfl (by decide +kernel)
  obtain ⟨-, hregs, hentered⟩ := hsquash m [⟨true, false, 0, false⟩]
    ⟨true, true, 0, false⟩ hm hforbidden (by decide) rfl rfl
  exact ⟨hword, by decide +kernel, hregs, hentered,
    hcp0 ⟨true, false, 0, false⟩ rfl⟩

end MipsUcore.Cpu
