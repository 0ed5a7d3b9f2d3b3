/-
The exception unit enters the exception the sequential machine enters.

Three facts about one flush, for a sequential machine that stands where
MEM stands: the CP0 updates and the target are those of `Arch.enter` for
the exception the priority chain chose (`State.exc_enters`), or of
`Arch.eret` (`State.exc_eret`); and the condition of that exception holds
of the instruction in MEM (`Pipe.trap_calls`), or of the address alone if
MEM is empty.
-/
import MipsUcore.Cpu.Sequential
import MipsUcore.Cpu.Proofs.InFlight

namespace MipsUcore.Cpu

-- ===== updates

/-- The sequential machine stands where the instruction in MEM stands. -/
structure State.At (s : State) (a : Arch) : Prop where
  regs : s.regs = a.regs
  pc : s.exMem.memPC = a.flow.pc
  isInDelaySlot : s.exMem.memIsInDelaySlot = a.flow.isInDelaySlot

theorem State.At.cp0 {s : State} {a : Arch} (h : s.At a) : s.cp0 = a.regs.cp :=
  congrArg Regs.cp h.regs

theorem State.At.epcData {s : State} {a : Arch} (h : s.At a) :
    Cpu.epcData s.exMem = a.epc := by
  unfold Cpu.epcData Arch.epc
  rw [h.pc, h.isInDelaySlot]

/-- The output of `control` enters the exception. -/
def ExcOut.Enters (x : ExcOut) (a : Arch) (t : Trap) : Prop :=
  x.updates.writeepc = true →
    a.regs.update x.updates = (a.enter t).regs ∧
      x.targetAddress = a.entry t

theorem ExcOut.Enters.ite {p : Prop} [Decidable p] {x y : ExcOut}
    {a : Arch} {t u : Trap} (hx : x.Enters a t) (hy : y.Enters a u) :
    (if p then x else y).Enters a (if p then t else u) := by
  split
  · exact hx
  · exact hy

/-- The seven synchronous arms. -/
theorem State.At.raise_enters {s : State} {a : Arch} (h : s.At a) {t : Trap}
    (c : BitVec 5) {code : BitVec 7} {badaddr : Option Word} {target : Word}
    (hpending : t.pending (a.regs.cp .cause13)
      = (a.regs.cp .cause13).extractLsb' 7 24)
    (hc : t.code = c) (hcode : c ++ 0#2 = code) (hbad : t.badaddr = badaddr)
    (htarget : a.entry t = target) :
    (raise s.cp0 s.exMem code badaddr target).Enters a t := by
  subst hc hcode hbad htarget
  intro _
  refine ⟨Regs.ext rfl rfl rfl (funext fun r => ?_), rfl⟩
  cases r with
  | epc14 => exact h.epcData
  | status12 =>
    show s.cp0 .status12 ||| 2 = a.regs.cp .status12 ||| 2
    rw [h.cp0]
  | cause13 =>
    show causeData s.exMem (s.cp0 .cause13) _ = a.cause t
    unfold causeData Arch.cause
    rw [hpending, h.cp0, h.isInDelaySlot]
  | badaddr8 =>
    cases hb : t.badaddr with
    | none =>
      show a.regs.cp .badaddr8 = t.badaddr.getD _
      rw [hb]
      rfl
    | some va =>
      show va = t.badaddr.getD _
      rw [hb]
      rfl
  | _ => rfl

theorem interruptCauseData_eq (m : ExMem) (cause : Word)
    (clock serial : Bool) : interruptCauseData m cause clock serial
      = BitVec.ofBool m.memIsInDelaySlot
        ++ (Trap.interrupt clock serial).pending cause
        ++ ((Trap.interrupt clock serial).code ++ 0#2) := by
  have hcode : (Trap.interrupt clock serial).code ++ 0#2 = 0#7 := by
    show (0#5 ++ 0#2 : BitVec 7) = 0#7
    decide
  unfold interruptCauseData Trap.pending
  rw [hcode]
  apply BitVec.eq_of_toNat_eq
  simp only [BitVec.toNat_append, Nat.shiftLeft_or_distrib,
    ← Nat.shiftLeft_add, Nat.or_assoc]

/-- An interrupt updates the registers as the architecture says. -/
theorem State.At.interrupt_enters {s : State} {a : Arch} (h : s.At a) :
    (s.control.interrupt s.cp0 s.exMem).Enters a
      (.interrupt s.control.tempClockInterrupt
        s.control.tempSerialInterrupt) := by
  intro _
  refine ⟨Regs.ext rfl rfl rfl (funext fun r => ?_), ?_⟩
  · cases r with
    | epc14 => exact h.epcData
    | status12 =>
      show s.cp0 .status12 ||| 2 = a.regs.cp .status12 ||| 2
      rw [h.cp0]
    | cause13 =>
      show interruptCauseData s.exMem (s.cp0 .cause13) _ _ = a.cause _
      unfold Arch.cause
      rw [interruptCauseData_eq, h.cp0, h.isInDelaySlot]
    | _ => rfl
  · show s.cp0 .ebase15 + 0x180 = a.regs.cp .ebase15 + 0x180
    rw [h.cp0]

/-- An exception that writes `epc` enters what the chain chose. -/
theorem State.At.exc_enters {s : State} {a : Arch} (h : s.At a) :
    s.exc.Enters a s.trap := by
  have hmiss {t : Trap} (ht : t.isTlbMiss = true) :
      a.entry t = s.cp0 .ebase15 := by
    unfold Arch.entry
    rw [ht, h.cp0]
    rfl
  have hother {t : Trap} (ht : t.isTlbMiss = false) :
      a.entry t = s.cp0 .ebase15 + 0x180 := by
    unfold Arch.entry
    rw [ht, h.cp0]
    rfl
  refine ExcOut.Enters.ite h.interrupt_enters ?_
  refine ExcOut.Enters.ite (h.raise_enters 2 rfl rfl (by decide) rfl
    (hmiss rfl)) ?_
  refine ExcOut.Enters.ite (h.raise_enters 3 rfl rfl (by decide) rfl
    (hmiss rfl)) ?_
  refine ExcOut.Enters.ite (h.raise_enters 4 rfl rfl (by decide) rfl
    (hother rfl)) ?_
  refine ExcOut.Enters.ite (h.raise_enters 5 rfl rfl (by decide) rfl
    (hother rfl)) ?_
  refine ExcOut.Enters.ite (h.raise_enters 10 rfl rfl (by decide) rfl
    (hother rfl)) ?_
  refine ExcOut.Enters.ite (h.raise_enters 23 rfl rfl (by decide) rfl
    (hother rfl)) ?_
  -- `eret` and the last arm do not write `epc`
  split
  · exact h.raise_enters 8 rfl rfl (by decide) rfl (hother rfl)
  · split <;> exact fun hepc => Bool.noConfusion hepc

-- ===== eret

/-- An arm that writes `epc`, in front of the others. -/
theorem ExcOut.ite_eret {p : Prop} [Decidable p] {x y z : ExcOut} {q : Prop}
    (hx : x.updates.writeepc = true)
    (hy : y.flush = true → y.updates.writeepc = false → y = z ∧ q) :
    (if p then x else y).flush = true →
      (if p then x else y).updates.writeepc = false →
      (if p then x else y) = z ∧ q := by
  split
  · intro _ hepc
    rw [hx] at hepc
    cases hepc
  · exact hy

/-- A flush that does not write `epc` is an `eret`. -/
theorem State.exc_eret {s : State} : s.flush = true →
    s.exc.updates.writeepc = false →
    s.exc = eretOut s.cp0 ∧ s.exMem.memeret = true := by
  repeat refine ExcOut.ite_eret rfl ?_
  split
  case isTrue heret => exact fun _ _ => ⟨rfl, heret⟩
  case isFalse => exact fun hflush => Bool.noConfusion hflush

/-- So does the return from an exception. -/
theorem State.At.eret_regs {s : State} {a : Arch} (h : s.At a) :
    a.regs.update (eretOut s.cp0).updates = a.eret.regs := by
  refine Regs.ext rfl rfl rfl (funext fun r => ?_)
  cases r with
  | status12 =>
    show s.cp0 .status12 &&& 0xfffffffd = a.regs.cp .status12 &&& 0xfffffffd
    rw [h.cp0]
  | _ => rfl

-- ===== conditions

/-- The four faults as formulas. -/
theorem accessFaults_eq (r : RamRequest) (t : Translation) : accessFaults r t =
      ⟨!r.ramWriteEnable && r.ramReadEnable && !misaligned r
          && !t.validAddress,
        r.ramWriteEnable && !misaligned r && !t.validAddress && t.isMiss,
        !r.ramWriteEnable && r.ramReadEnable && misaligned r,
        r.ramWriteEnable
          && (misaligned r || (!t.validAddress && !t.isMiss))⟩ := by
  unfold accessFaults
  cases r.ramWriteEnable <;> cases r.ramReadEnable <;>
    cases misaligned r <;> cases t.validAddress <;> cases t.isMiss <;> rfl

theorem ramRequest_readPrivilege (op : AluOp) (b c : Word) (imm : BitVec 16) :
    (ramRequest op b c imm).addressReadPrivilege
      = ((ramRequest op b c imm).ramReadEnable
        && (ramRequest op b c imm).ramAddress.msb) := by
  cases op <;> rfl

theorem ramRequest_writePrivilege (op : AluOp) (b c : Word) (imm : BitVec 16) :
    (ramRequest op b c imm).addressWritePrivilege
      = ((ramRequest op b c imm).ramWriteEnable
        && (ramRequest op b c imm).ramAddress.msb) := by
  cases op <;> rfl

namespace Pipe

variable {p : Pipe} {a : Arch}

/-- An exception flag of MEM belongs to an instruction. -/
theorem Tracks.exists_mem (h : p.Tracks) {flag : Bool}
    (hempty : p.cpu.exMem.Empty → flag = false) (hflag : flag = true) :
    ∃ m, p.mem = some m ∧ p.cpu.exMem = m.inst.exMem m.translation := by
  cases hm : p.mem with
  | none =>
    rw [hempty (h.memEmpty hm)] at hflag
    cases hflag
  | some m => exact ⟨m, rfl, h.mem m hm⟩

theorem calls_interrupt (hat : p.cpu.At a)
    (hreq : p.cpu.control.interruptRequest (p.cpu.cp0 .status12) = true) :
    a.Calls p.mem p.cpu.control.tempClockInterrupt
      p.cpu.control.tempSerialInterrupt
      (.interrupt p.cpu.control.tempClockInterrupt
        p.cpu.control.tempSerialInterrupt) := by
  rw [hat.cp0] at hreq
  unfold Control.interruptRequest at hreq
  simp only [Bool.and_eq_true, Bool.or_eq_true, Bool.not_eq_true'] at hreq
  obtain ⟨⟨hpending, hie⟩, hexl⟩ := hreq
  exact ⟨rfl, rfl, hie, hexl, hpending⟩

/-- The faulting address, once the fetch is known not to have missed. -/
theorem badAddress_of_fetched {m : Accessed}
    (hmiss : (m.inst.exMem m.translation).tlbMissRead = false) :
    (m.inst.exMem m.translation).memBadAddress = m.inst.ram.ramAddress := by
  have hpc : m.inst.pcTLBMiss = false := (Bool.or_eq_false_iff.mp hmiss).1
  show (if m.inst.pcTLBMiss = true then _ else _) = _
  rw [hpc]
  rfl

theorem Tracks.calls_tlbMissLoad (h : p.Tracks) (clock serial : Bool)
    (hflag : p.cpu.exMem.tlbMissRead = true) :
    a.Calls p.mem clock serial (.tlbMissLoad p.cpu.exMem.memBadAddress) := by
  obtain ⟨m, hm, himage⟩ := h.exists_mem
    (fun hempty => hempty.tlbMissRead) hflag
  refine ⟨m, hm, ?_⟩
  rw [himage] at hflag ⊢
  have hbad : (m.inst.exMem m.translation).memBadAddress
      = if m.inst.pcTLBMiss then m.inst.pc else m.inst.ram.ramAddress := rfl
  rw [hbad]
  cases hpc : m.inst.pcTLBMiss with
  | true => exact .inl ⟨rfl, rfl⟩
  | false =>
    have hread : (accessFaults m.inst.ram m.translation).exReadTLBMiss
        = true := by
      change (m.inst.pcTLBMiss || _) = true at hflag
      rw [hpc] at hflag
      exact hflag
    rw [accessFaults_eq] at hread
    simp only [Bool.and_eq_true, Bool.not_eq_true'] at hread
    obtain ⟨⟨⟨-, hread⟩, -⟩, hvalid⟩ := hread
    exact .inr ⟨hread, hvalid, rfl⟩

theorem Tracks.calls_tlbMissStore (h : p.Tracks) (clock serial : Bool)
    (hmiss : p.cpu.exMem.tlbMissRead = false)
    (hflag : p.cpu.exMem.tlbMissWrite = true) : a.Calls p.mem clock serial
      (.tlbMissStore p.cpu.exMem.memBadAddress) := by
  obtain ⟨m, hm, himage⟩ := h.exists_mem
    (fun hempty => hempty.tlbMissWrite) hflag
  rw [himage] at hflag hmiss ⊢
  change (accessFaults m.inst.ram m.translation).exWriteTLBMiss = true at hflag
  rw [accessFaults_eq] at hflag
  simp only [Bool.and_eq_true, Bool.not_eq_true'] at hflag
  obtain ⟨⟨⟨hwrite, -⟩, hvalid⟩, hisMiss⟩ := hflag
  exact ⟨m, hm, hwrite, hvalid, hisMiss, badAddress_of_fetched hmiss⟩

theorem Tracks.calls_addressErrorLoad (h : p.Tracks) (hat : p.cpu.At a)
    (clock serial : Bool) (hmiss : p.cpu.exMem.tlbMissRead = false)
    (hflag : (p.cpu.exMem.readError || (p.cpu.exMem.memAddressReadPrivilege
      && inUserMode (p.cpu.cp0 .status12))) = true) :
    a.Calls p.mem clock serial
      (.addressErrorLoad p.cpu.exMem.memBadAddress) := by
  obtain ⟨m, hm, himage⟩ := h.exists_mem
    (fun hempty => by rw [hempty.readError, hempty.readPrivilege]; rfl) hflag
  rw [himage, hat.cp0] at hflag
  rw [himage] at hmiss ⊢
  rw [badAddress_of_fetched hmiss]
  have hpriv : (m.inst.exMem m.translation).memAddressReadPrivilege
      = (m.inst.ram.ramReadEnable && m.inst.ram.ramAddress.msb) :=
    ramRequest_readPrivilege _ _ _ _
  have herror : (m.inst.exMem m.translation).readError
      = (accessFaults m.inst.ram m.translation).exReadError := rfl
  rw [hpriv, herror, accessFaults_eq] at hflag
  simp only [Bool.and_eq_true, Bool.or_eq_true, Bool.not_eq_true'] at hflag
  obtain ⟨⟨-, hread⟩, hmis⟩ | ⟨⟨hread, hmsb⟩, huser⟩ := hflag
  · exact ⟨m, hm, hread, rfl, .inl hmis⟩
  · exact ⟨m, hm, hread, rfl, .inr ⟨hmsb, huser⟩⟩

theorem Tracks.calls_addressErrorStore (h : p.Tracks) (hat : p.cpu.At a)
    (clock serial : Bool) (hmiss : p.cpu.exMem.tlbMissRead = false)
    (hflag : (p.cpu.exMem.writeError
      || (p.cpu.exMem.memAddressWritePrivilege
        && inUserMode (p.cpu.cp0 .status12))) = true) :
    a.Calls p.mem clock serial
      (.addressErrorStore p.cpu.exMem.memBadAddress) := by
  obtain ⟨m, hm, himage⟩ := h.exists_mem
    (fun hempty => by rw [hempty.writeError, hempty.writePrivilege]; rfl)
    hflag
  rw [himage, hat.cp0] at hflag
  rw [himage] at hmiss ⊢
  rw [badAddress_of_fetched hmiss]
  have hpriv : (m.inst.exMem m.translation).memAddressWritePrivilege
      = (m.inst.ram.ramWriteEnable && m.inst.ram.ramAddress.msb) :=
    ramRequest_writePrivilege _ _ _ _
  have herror : (m.inst.exMem m.translation).writeError
      = (accessFaults m.inst.ram m.translation).exWriteError := rfl
  rw [hpriv, herror, accessFaults_eq] at hflag
  simp only [Bool.and_eq_true, Bool.or_eq_true, Bool.not_eq_true'] at hflag
  obtain ⟨hwrite, hmis | hreadOnly⟩ | ⟨⟨hwrite, hmsb⟩, huser⟩ := hflag
  · exact ⟨m, hm, hwrite, rfl, .inl hmis⟩
  · exact ⟨m, hm, hwrite, rfl, .inr (.inl hreadOnly)⟩
  · exact ⟨m, hm, hwrite, rfl, .inr (.inr ⟨hmsb, huser⟩)⟩

/-- A word that is not listed, or a privileged instruction or address
in user mode. -/
theorem Tracks.calls_reserved (h : p.Tracks) (hat : p.cpu.At a)
    (clock serial : Bool)
    (hflag : (p.cpu.exMem.memValidInstruction || (p.cpu.exMem.memprivilege
      && inUserMode (p.cpu.cp0 .status12))) = true) :
    a.Calls p.mem clock serial .reserved := by
  simp only [Bool.or_eq_true, Bool.and_eq_true] at hflag
  obtain hvalid | ⟨hpriv, huser⟩ := hflag
  · obtain ⟨m, hm, himage⟩ := h.exists_mem
      (fun hempty => hempty.validInstruction) hvalid
    rw [himage] at hvalid
    exact .inl ⟨m, hm, hvalid⟩
  · rw [hat.cp0] at huser
    refine .inr ⟨huser, ?_⟩
    cases hm : p.mem with
    | none =>
      left
      rw [← hat.pc]
      exact (h.memEmpty hm).privilege hpriv
    | some m =>
      rw [h.mem m hm] at hpriv
      have hpc : m.inst.pc = a.flow.pc := by
        rw [← hat.pc, h.mem m hm]
        rfl
      obtain hd | hmsb := Bool.or_eq_true_iff.mp hpriv
      · exact .inr ⟨m, rfl, hd⟩
      · rw [← hpc]
        exact .inl hmsb

theorem calls_debug (hat : p.cpu.At a) (clock serial : Bool)
    (hflag : isWatched p.cpu.cp0 p.cpu.exMem.memPC = true) :
    a.Calls p.mem clock serial .debug := by
  rw [hat.cp0, hat.pc] at hflag
  unfold isWatched at hflag
  simp only [Bool.or_eq_true, Bool.and_eq_true, beq_iff_eq, bne_iff_ne]
    at hflag
  obtain ⟨heq, hne⟩ | ⟨heq, hne⟩ := hflag
  · exact ⟨heq ▸ hne, .inl heq⟩
  · exact ⟨heq ▸ hne, .inr heq⟩

theorem Tracks.calls_syscall (h : p.Tracks) (clock serial : Bool)
    (hflag : p.cpu.exMem.memsyscall = true) :
    a.Calls p.mem clock serial .syscall := by
  obtain ⟨m, hm, himage⟩ := h.exists_mem (fun hempty => hempty.syscall) hflag
  rw [himage] at hflag
  exact ⟨m, hm, hflag⟩

/-- One arm of the chain and the exception it stands for, in front of the
others. -/
theorem ite_justified {c : Prop} [Decidable c] {x y : ExcOut} {t u : Trap}
    {Q : Trap → Prop} (ht : c → Q t)
    (hu : ¬ c → y.updates.writeepc = true → Q u) :
    (if c then x else y).updates.writeepc = true → Q (if c then t else u) := by
  split
  case isTrue hc => exact fun _ => ht hc
  case isFalse hc => exact hu hc

/-- The exception entered is one whose condition holds. -/
theorem Tracks.trap_calls (h : p.Tracks) (hat : p.cpu.At a) :
    p.cpu.exc.updates.writeepc = true →
    a.Calls p.mem p.cpu.control.tempClockInterrupt
      p.cpu.control.tempSerialInterrupt p.cpu.trap := by
  refine ite_justified (calls_interrupt hat) fun _ => ?_
  refine ite_justified (h.calls_tlbMissLoad _ _) fun hflag => ?_
  have hmiss : p.cpu.exMem.tlbMissRead = false := Bool.not_eq_true _ ▸ hflag
  refine ite_justified (h.calls_tlbMissStore _ _ hmiss) fun _ => ?_
  refine ite_justified (h.calls_addressErrorLoad hat _ _ hmiss) fun _ => ?_
  refine ite_justified (h.calls_addressErrorStore hat _ _ hmiss) fun _ => ?_
  refine ite_justified (h.calls_reserved hat _ _) fun _ => ?_
  refine ite_justified (calls_debug hat _ _) fun _ => ?_
  -- of the last three arms only `syscall` writes `epc`
  split
  case isTrue hflag => exact fun _ => h.calls_syscall _ _ hflag
  case isFalse => split <;> exact fun hepc => Bool.noConfusion hepc

end Pipe

end MipsUcore.Cpu
