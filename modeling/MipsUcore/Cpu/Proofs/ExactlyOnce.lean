/-
Which accesses and TLB writes belong to committed instructions.

An access goes out on the bus while its instruction is in EX, and a
`tlbwi` writes the TLB while it is in MEM; whether the instruction
commits is decided in MEM. `Pipe.observe` collects, edge by edge, the
instructions that commit and the data accesses the bus accepts, each with
the instruction that made it.

An instruction that has acted is squashed by an interrupt, by a TLB miss
of its own fetch, by the alignment of its access, by a kernel address or
a privilege of its own in user mode, or by a watchpoint. If an acting
instruction in MEM never meets one of these (`Pipe.Undisturbed`), then in
every state reached the accepted accesses are, in order and one for one,
those of the committed loads and stores and of the one in MEM, and the
TLB is what the committed `tlbwi`s wrote (`effects_exactly_once`). A TLB
miss of the access itself is no such case: nothing goes out.

The processor does not keep that condition. A misaligned store is
accepted and then squashed (`misaligned_store_reaches_the_bus`).
-/
import MipsUcore.Lib.Log
import MipsUcore.Cpu.Proofs.Entry

namespace MipsUcore.Cpu

open Machine Function

-- ===== observations

/-- The TLB entry a `tlbwi` in MEM writes, and where. -/
def State.tlbWrite (s : State) : Option (BitVec 4 × TlbEntry) :=
  if s.exMem.memtlbwi then
    some ((s.cp0 .index0).extractLsb' 0 4,
      .ofRegs (s.cp0 .entryHi10) (s.cp0 .entryLo02) (s.cp0 .entryLo13))
  else none

inductive Obs where
  | commit (m : Accessed) (tlb : Option (BitVec 4 × TlbEntry))
  | accept (x : Inst) (r : BusRequest)

namespace Pipe

/-- The instruction that commits at an edge. -/
def commits (p : Pipe) (i : Input) : Option Accessed :=
  if i.cpuBusReady && !p.cpu.flush then p.mem else none

/-- What is to be seen at an edge, the older instruction first. -/
def observe (p : Pipe) (i : Input) : List Obs :=
  ((p.commits i).map fun m => Obs.commit m p.cpu.tlbWrite).toList ++
    (p.ex.bind fun x => (p.cpu.dataAccess i).map (Obs.accept x)).toList

end Pipe

namespace Obs

/-- The accepted accesses. -/
def accepted (tr : List Obs) : List (Inst × BusRequest) :=
  tr.filterMap fun
    | .accept x r => some (x, r)
    | .commit _ _ => none

/-- The accesses the committed instructions made. -/
def owed (tr : List Obs) : List (Inst × BusRequest) :=
  tr.filterMap fun
    | .accept _ _ => none
    | .commit m _ => m.request.map (Prod.mk m.inst)

/-- The TLB writes of the committed instructions. -/
def tlbWrites (tr : List Obs) : List (BitVec 4 × TlbEntry) :=
  tr.filterMap fun
    | .accept _ _ => none
    | .commit _ e => e

theorem accepted_append (tr tr' : List Obs) :
    accepted (tr ++ tr') = accepted tr ++ accepted tr' :=
  List.filterMap_append

theorem owed_append (tr tr' : List Obs) :
    owed (tr ++ tr') = owed tr ++ owed tr' :=
  List.filterMap_append

theorem tlbWrites_append (tr tr' : List Obs) :
    tlbWrites (tr ++ tr') = tlbWrites tr ++ tlbWrites tr' :=
  List.filterMap_append

end Obs

namespace Pipe

/-- The access the instruction in MEM has made. -/
def pending (p : Pipe) : List (Inst × BusRequest) :=
  (p.mem.bind fun m => m.request.map (Prod.mk m.inst)).toList

end Pipe

/-- The instruction in MEM has an effect outside the registers. -/
def Accessed.acts (m : Accessed) : Bool :=
  m.request.isSome || m.inst.decoded.tlbwi

/-- Nothing squashes an instruction in MEM that acts: no interrupt is
taken, its fetch hit, the access is aligned, in user mode it stays in the
user half and is not privileged, and it is not watched. -/
structure State.Undisturbed (s : State) (m : Accessed) : Prop where
  interrupt : s.control.interruptRequest (s.cp0 .status12) = false
  fetch : m.inst.pcTLBMiss = false
  aligned : misaligned m.inst.ram = false
  user : inUserMode (s.cp0 .status12) = true →
    m.inst.pc.msb = false ∧ m.inst.decoded.privilege = false ∧
      m.inst.ram.ramAddress.msb = false
  watch : isWatched s.cp0 m.inst.pc = false

instance (s : State) (m : Accessed) : Decidable (s.Undisturbed m) :=
  decidable_of_iff
    (s.control.interruptRequest (s.cp0 .status12) = false ∧
      m.inst.pcTLBMiss = false ∧ misaligned m.inst.ram = false ∧
      (inUserMode (s.cp0 .status12) = true →
        m.inst.pc.msb = false ∧ m.inst.decoded.privilege = false ∧
          m.inst.ram.ramAddress.msb = false) ∧
      isWatched s.cp0 m.inst.pc = false)
    ⟨fun ⟨h₁, h₂, h₃, h₄, h₅⟩ => ⟨h₁, h₂, h₃, h₄, h₅⟩,
      fun ⟨h₁, h₂, h₃, h₄, h₅⟩ => ⟨h₁, h₂, h₃, h₄, h₅⟩⟩

/-- At a ready edge an instruction in MEM that acts is undisturbed. -/
def Pipe.Undisturbed (p : Pipe) (i : Input) : Prop :=
  i.cpuBusReady = true → ∀ m ∈ p.mem, m.acts = true → p.cpu.Undisturbed m

instance (p : Pipe) (i : Input) : Decidable (p.Undisturbed i) :=
  inferInstanceAs (Decidable (_ → _))

-- ===== one edge

namespace Pipe

variable {p : Pipe} {i : Input}

theorem accepted_observe (p : Pipe) (i : Input) : Obs.accepted (p.observe i)
      = (p.ex.bind fun x => (p.cpu.dataAccess i).map (Prod.mk x)).toList := by
  unfold observe Obs.accepted
  cases p.commits i <;> cases p.ex <;> cases p.cpu.dataAccess i <;> rfl

theorem owed_observe (p : Pipe) (i : Input) :
    Obs.owed (p.observe i) = ((p.commits i).bind fun m =>
      m.request.map (Prod.mk m.inst)).toList := by
  unfold observe Obs.owed
  cases hc : p.commits i with
  | none => cases p.ex <;> cases p.cpu.dataAccess i <;> rfl
  | some m =>
    cases hr : m.request <;> cases p.ex <;> cases p.cpu.dataAccess i <;>
      simp [hr]

theorem tlbWrites_observe (p : Pipe) (i : Input) : Obs.tlbWrites (p.observe i)
      = ((p.commits i).bind fun _ => p.cpu.tlbWrite).toList := by
  unfold observe Obs.tlbWrites
  cases p.commits i <;> cases p.cpu.tlbWrite <;> cases p.ex <;>
    cases p.cpu.dataAccess i <;> rfl

theorem commits_of_mem {m : Accessed} {e : Option (BitVec 4 × TlbEntry)}
    (h : Obs.commit m e ∈ p.observe i) : p.commits i = some m := by
  obtain hc | ha := List.mem_append.mp h
  · obtain ⟨m', hm', heq⟩ := Option.map_eq_some_iff.mp
      (Option.mem_toList.mp hc)
    cases heq
    exact hm'
  · obtain ⟨x, -, hx⟩ := Option.bind_eq_some_iff.mp (Option.mem_toList.mp ha)
    obtain ⟨r, -, heq⟩ := Option.map_eq_some_iff.mp hx
    cases heq

/-- An edge that takes nothing shows nothing. -/
theorem observe_still (h : (i.cpuBusReady && !p.cpu.flush) = false) :
    p.observe i = [] := by
  have hc : p.commits i = none := by
    unfold commits
    rw [h]
    rfl
  have hd : p.cpu.dataAccess i = none := by
    unfold State.dataAccess
    rw [h]
    rfl
  unfold observe
  rw [hc, hd]
  cases p.ex <;> rfl

/-- When EX moves on, the access it leaves behind is the one the bus has
accepted. -/
theorem Tracks.pending_moved (h : p.Tracks) (hlive : i.Live)
    (hready : i.cpuBusReady = true) (hflush : p.cpu.flush = false) :
    (p.next i).pending = Obs.accepted (p.observe i) := by
  have hmem := next_mem (p := p) hready hflush
  have hbus : p.cpu.busOut i = busRequest false p.cpu.flushTarget p.cpu.ram
      (p.cpu.translation i.cpuRomData) := by
    unfold State.busOut State.bus
    rw [hlive, hflush]
    rfl
  rw [accepted_observe]
  unfold pending
  rw [hmem]
  unfold access
  cases hx : p.ex with
  | none => rfl
  | some x =>
    have hram := h.ram hx
    have hrequest : (⟨x, p.cpu.translation i.cpuRomData⟩ :
        Accessed).request = p.cpu.dataAccess i := by
      unfold Accessed.request State.dataAccess
      rw [hready, hflush, hbus, hram]
      unfold busRequest
      cases x.ram.active <;>
        cases (p.cpu.translation i.cpuRomData).validAddress <;> rfl
    show ((⟨x, p.cpu.translation i.cpuRomData⟩ : Accessed).request.map
      _).toList = _
    rw [hrequest]
    rfl

end Pipe

-- ===== the decoder

theorem ramRequest_active (op : AluOp) (a b : Word) (imm : BitVec 16) :
    (ramRequest op a b imm).active = (ramRequest op 0 0 0).active := by
  cases op <;> rfl

theorem decodeSpecial_access (pc w : Word) :
    (ramRequest (decodeSpecial pc w (.base w)).aluOperation 0 0 0).active
      = false := by
  unfold decodeSpecial
  split <;> rfl

theorem decodeCase_access {pc w : Word} :
    (ramRequest (decodeCase pc w (.base w)).aluOperation 0 0 0).active = true →
    (opcode w).msb = true ∧
      (decodeCase pc w (.base w)).validInstruction = false := by
  unfold decodeCase
  split
  case h_1 =>
    split
    · rw [decodeSpecial_access]
      exact fun h => Bool.noConfusion h
    · exact fun h => Bool.noConfusion h
  all_goals try split
  all_goals first
    | exact fun h => Bool.noConfusion h
    | exact fun _ => ⟨by rw [‹opcode w = _›]; rfl, rfl⟩

theorem opcode_msb (w : Word) : (opcode w).msb = w.msb := by
  unfold opcode
  simp [BitVec.msb_eq_getLsbD_last]

/-- The shift group leaves an access alone. -/
theorem decodeShift_access {pc w : Word}
    (h : (ramRequest (decodeShift w (decodeCase pc w
      (.base w))).aluOperation 0 0 0).active = true) :
    w.msb = true ∧
      (decodeShift w (decodeCase pc w (.base w))).validInstruction
        = false := by
  unfold decodeShift at h ⊢
  split at h
  case isTrue hzero =>
    have hmsb : w.msb = false := by
      have hbit : (w.extractLsb' 21 11).getLsbD 10 = false := by
        rw [hzero]
        rfl
      rw [BitVec.msb_eq_getLsbD_last]
      simpa using hbit
    split at h
    case h_4 =>
      rw [← opcode_msb, (decodeCase_access h).1] at hmsb
      cases hmsb
    all_goals exact Bool.noConfusion h
  case isFalse hne =>
    obtain ⟨hmsb, hvalid⟩ := decodeCase_access h
    rw [if_neg hne, ← opcode_msb]
    exact ⟨hmsb, hvalid⟩

/-- A load or store is a listed instruction, neither syscall nor eret. -/
theorem decode_access {pc w : Word}
    (h : (ramRequest (decode pc w).aluOperation 0 0 0).active = true) :
    (decode pc w).validInstruction = false ∧
      (decode pc w).syscall = false ∧ (decode pc w).eret = false := by
  have hop : (decode pc w).aluOperation
      = (decodeShift w (decodeCase pc w (.base w))).aluOperation := by
    unfold decode decodeEret decodeSyscall decodeTlbwi
    split <;> split <;> split <;> rfl
  rw [hop] at h
  obtain ⟨hmsb, hvalid⟩ := decodeShift_access h
  -- none of the whole words is an access
  have hne {v : Word} (hv : v.msb = false) : w ≠ v := by
    rintro rfl
    rw [hmsb] at hv
    cases hv
  unfold decode decodeEret decodeSyscall decodeTlbwi
  rw [if_neg (hne rfl), if_neg (hne rfl), if_neg (hne rfl)]
  exact ⟨hvalid, rfl, rfl⟩

theorem decode_tlbwi {pc w : Word} (h : (decode pc w).tlbwi = true) :
    (decode pc w).validInstruction = false ∧
      (decode pc w).syscall = false ∧ (decode pc w).eret = false ∧
      (ramRequest (decode pc w).aluOperation 0 0 0).active = false := by
  have hw : w = 0b01000010000000000000000000000010#32 := by
    by_contra hne
    have hfalse : (decode pc w).tlbwi = false := by
      unfold decode decodeEret decodeSyscall decodeTlbwi
      split <;> split <;> rfl
    rw [hfalse] at h
    cases h
  subst hw
  exact ⟨rfl, rfl, rfl, rfl⟩
-- ===== committed accesses

theorem ExcOut.ite_not_flush {c : Prop} [Decidable c] {x y : ExcOut}
    (hx : x.flush = true) (h : (if c then x else y).flush = false) :
    ¬ c ∧ y.flush = false := by
  split at h
  · rw [hx] at h
    cases h
  case isFalse hc => exact ⟨hc, h⟩

/-- An instruction that is not squashed has no fault. -/
theorem State.no_fault {s : State} (h : s.flush = false) :
    s.exMem.tlbMissRead = false ∧ s.exMem.tlbMissWrite = false ∧
      s.exMem.readError = false ∧ s.exMem.writeError = false := by
  obtain ⟨-, h⟩ := ExcOut.ite_not_flush rfl h
  obtain ⟨hmissRead, h⟩ := ExcOut.ite_not_flush rfl h
  obtain ⟨hmissWrite, h⟩ := ExcOut.ite_not_flush rfl h
  obtain ⟨hread, h⟩ := ExcOut.ite_not_flush rfl h
  obtain ⟨hwrite, -⟩ := ExcOut.ite_not_flush rfl h
  simp only [Bool.not_eq_true, Bool.or_eq_false_iff] at *
  exact ⟨hmissRead, hmissWrite, hread.1, hwrite.1⟩

/-- A request without a fault was translated. -/
theorem valid_of_no_fault {r : RamRequest} {t : Translation}
    (hactive : r.active = true)
    (hfaults : accessFaults r t = ⟨false, false, false, false⟩) :
    t.validAddress = true := by
  rw [accessFaults_eq, AccessFaults.mk.injEq] at hfaults
  obtain ⟨hreadMiss, hwriteMiss, hread, hwrite⟩ := hfaults
  revert hactive hreadMiss hwriteMiss hread hwrite
  unfold RamRequest.active
  cases t.validAddress <;> cases t.isMiss <;> cases misaligned r <;>
    cases r.ramReadEnable <;> cases r.ramWriteEnable <;> decide

namespace Pipe

variable {p : Pipe} {i : Input}

/-- An access that commits was requested. -/
theorem Tracks.commit_request (h : p.Tracks) (hflush : p.cpu.flush = false)
    {m : Accessed} (hm : p.mem = some m)
    (hactive : m.inst.ram.active = true) : m.request.isSome = true := by
  obtain ⟨hmissRead, hmissWrite, hread, hwrite⟩ := State.no_fault hflush
  rw [h.mem m hm] at hmissRead hmissWrite hread hwrite
  have hvalid : m.translation.validAddress = true := by
    apply valid_of_no_fault hactive
    rw [AccessFaults.mk.injEq]
    exact ⟨(Bool.or_eq_false_iff.mp hmissRead).2, hmissWrite, hread, hwrite⟩
  unfold Accessed.request
  rw [hactive, hvalid]
  rfl

end Pipe

-- ===== undisturbed commits

/-- An instruction that acts is none of those that flush by themselves. -/
theorem Accessed.acts_flags {m : Accessed} (h : m.acts = true) :
    m.inst.decoded.validInstruction = false ∧
      m.inst.decoded.syscall = false ∧ m.inst.decoded.eret = false ∧
      (m.inst.ram.active = true → m.translation.validAddress = true) := by
  have hactive : m.inst.ram.active
      = (ramRequest m.inst.decoded.aluOperation 0 0 0).active :=
    ramRequest_active _ _ _ _
  cases hr : m.request with
  | some r =>
    unfold request at hr
    split at hr
    case isFalse => cases hr
    case isTrue hc =>
      obtain ⟨hram, hvalid⟩ := Bool.and_eq_true_iff.mp hc
      rw [hactive] at hram
      obtain ⟨h1, h2, h3⟩ := decode_access hram
      exact ⟨h1, h2, h3, fun _ => hvalid⟩
  | none =>
    have htlbwi : m.inst.decoded.tlbwi = true := by
      unfold acts at h
      rw [hr] at h
      exact h
    obtain ⟨h1, h2, h3, h4⟩ := decode_tlbwi htlbwi
    refine ⟨h1, h2, h3, fun ha => ?_⟩
    rw [hactive] at ha
    exact absurd (ha.symm.trans h4) (by decide)

theorem accessFaults_quiet {r : RamRequest} {t : Translation}
    (haligned : misaligned r = false)
    (hvalid : r.active = true → t.validAddress = true) :
    accessFaults r t = ⟨false, false, false, false⟩ := by
  rw [accessFaults_eq, haligned]
  revert hvalid
  unfold RamRequest.active
  cases r.ramReadEnable <;> cases r.ramWriteEnable <;>
    cases t.validAddress <;> simp

theorem and_user_eq_false {b user : Bool} (h : user = true → b = false) :
    (b && user) = false := by
  cases user with
  | false => exact Bool.and_false b
  | true => rw [h rfl]; rfl

namespace Pipe

variable {p : Pipe} {i : Input}

/-- Nothing about an undisturbed instruction in MEM makes `control` flush, so
it commits. -/
theorem Tracks.undisturbed_flush (h : p.Tracks) {m : Accessed}
    (hm : p.mem = some m) (hacts : m.acts = true)
    (hu : p.cpu.Undisturbed m) : p.cpu.flush = false := by
  obtain ⟨hvalid, hsyscall, heret, htranslated⟩ := Accessed.acts_flags hacts
  have hfaults := accessFaults_quiet hu.aligned htranslated
  have himage := h.mem m hm
  have hmissRead : p.cpu.exMem.tlbMissRead = false := by
    rw [himage]
    show (m.inst.pcTLBMiss || (accessFaults _ _).exReadTLBMiss) = false
    rw [hu.fetch, hfaults]
    rfl
  have hmissWrite : p.cpu.exMem.tlbMissWrite = false := by
    rw [himage]
    exact congrArg AccessFaults.exWriteTLBMiss hfaults
  have hread : (p.cpu.exMem.readError || (p.cpu.exMem.memAddressReadPrivilege
      && inUserMode (p.cpu.cp0 .status12))) = false := by
    rw [himage, Bool.or_eq_false_iff]
    refine ⟨congrArg AccessFaults.exReadError hfaults, ?_⟩
    refine and_user_eq_false fun huser => ?_
    show m.inst.ram.addressReadPrivilege = false
    rw [show m.inst.ram.addressReadPrivilege = _ from
      ramRequest_readPrivilege _ _ _ _]
    exact Bool.and_eq_false_imp.mpr fun _ => (hu.user huser).2.2
  have hwrite : (p.cpu.exMem.writeError
      || (p.cpu.exMem.memAddressWritePrivilege
        && inUserMode (p.cpu.cp0 .status12))) = false := by
    rw [himage, Bool.or_eq_false_iff]
    refine ⟨congrArg AccessFaults.exWriteError hfaults, ?_⟩
    refine and_user_eq_false fun huser => ?_
    show m.inst.ram.addressWritePrivilege = false
    rw [show m.inst.ram.addressWritePrivilege = _ from
      ramRequest_writePrivilege _ _ _ _]
    exact Bool.and_eq_false_imp.mpr fun _ => (hu.user huser).2.2
  have hreserved : (p.cpu.exMem.memValidInstruction
      || (p.cpu.exMem.memprivilege
        && inUserMode (p.cpu.cp0 .status12))) = false := by
    rw [himage, Bool.or_eq_false_iff]
    refine ⟨hvalid, and_user_eq_false fun huser => ?_⟩
    obtain ⟨hpc, hprivilege, -⟩ := hu.user huser
    exact Bool.or_eq_false_iff.mpr ⟨hprivilege, hpc⟩
  have hwatch : isWatched p.cpu.cp0 p.cpu.exMem.memPC = false := by
    rw [himage]
    exact hu.watch
  have hs : p.cpu.exMem.memsyscall = false := by
    rw [himage]
    exact hsyscall
  have he : p.cpu.exMem.memeret = false := by
    rw [himage]
    exact heret
  unfold State.flush State.exc Control.exception
  rw [hu.interrupt, hmissRead, hmissWrite, hread, hwrite, hreserved, hwatch,
    hs, he]
  rfl

/-- So a flush is taken only over an instruction in MEM that has done
nothing yet. -/
theorem Tracks.flush_spares (h : p.Tracks) (hu : p.Undisturbed i)
    (hready : i.cpuBusReady = true) (hflush : p.cpu.flush = true) :
    p.pending = [] ∧ p.cpu.tlbWrite = none := by
  unfold pending State.tlbWrite
  cases hm : p.mem with
  | none =>
    rw [(h.memEmpty hm).tlbwi]
    exact ⟨rfl, rfl⟩
  | some m =>
    have hidle : m.acts = false := by
      cases hacts : m.acts with
      | false => rfl
      | true =>
        rw [h.undisturbed_flush hm hacts (hu hready m hm hacts)] at hflush
        cases hflush
    obtain ⟨hrequest, htlbwi⟩ := Bool.or_eq_false_iff.mp hidle
    rw [Option.isSome_eq_false_iff, Option.isNone_iff_eq_none] at hrequest
    have hwrite : p.cpu.exMem.memtlbwi = false := by
      rw [h.mem m hm]
      exact htlbwi
    rw [hwrite]
    refine ⟨?_, rfl⟩
    show (m.request.map _).toList = []
    rw [hrequest]
    rfl

end Pipe

-- ===== TLB

theorem State.tlb_clock (s : State) (i : Input) :
    (s.clock i).tlb = s.tlbWrite.elim s.tlb
      fun e => update s.tlb e.1 e.2 := by
  show s.tlb.next s.exMem.memtlbwi _ _ _ _ = _
  unfold Tlb.next tlbWrite
  cases s.exMem.memtlbwi <;> rfl

theorem State.tlbWrite_wait {s : State} {i : Input}
    (hready : i.cpuBusReady = false) : (s.clock i).tlbWrite = s.tlbWrite := by
  have hw := waited (s := s) hready
  have hcp : (s.clock i).cp0 = s.cp0 := congrArg Regs.cp hw.regs
  unfold tlbWrite
  rw [hw.exMem, hcp]

/-- The TLB is `t`, or `t` with the `tlbwi` in MEM already written. -/
def State.Holds (s : State) (t : Tlb) : Prop :=
  s.tlb = t ∨ ∃ e, s.tlbWrite = some e ∧ s.tlb = update t e.1 e.2

/-- A `tlbwi` in MEM may write as often as it likes. -/
theorem State.Holds.written {s : State} {t : Tlb} (h : s.Holds t)
    (i : Input) : (s.clock i).tlb
      = s.tlbWrite.elim t fun e => update t e.1 e.2 := by
  rw [tlb_clock]
  obtain h | ⟨e, he, h⟩ := h
  · rw [h]
  · rw [h, he]
    exact update_idem _ _ _

theorem State.Holds.wait {s : State} {t : Tlb} {i : Input} (h : s.Holds t)
    (hready : i.cpuBusReady = false) : (s.clock i).Holds t := by
  have hwritten := h.written i
  unfold Holds
  rw [tlbWrite_wait hready]
  cases he : s.tlbWrite with
  | none =>
    rw [he] at hwritten
    exact .inl hwritten
  | some e =>
    rw [he] at hwritten
    exact .inr ⟨e, rfl, hwritten⟩

-- ===== runs

namespace Pipe

variable {p : Pipe} {i : Input} {tr : List Obs}

/-- What has been seen fits the instructions in flight and the TLB. -/
structure Once (p : Pipe) (tr : List Obs) : Prop where
  tracks : p.Tracks
  accesses : Obs.accepted tr = Obs.owed tr ++ p.pending
  committed : ∀ m e, Obs.commit m e ∈ tr → m.inst.ram.active = true →
    m.request.isSome = true
  tlb : p.cpu.Holds (Log.replay Tlb.reset (Obs.tlbWrites tr))

theorem Once.wait (h : p.Once tr) (hready : i.cpuBusReady = false) :
    (p.next i).Once (tr ++ p.observe i) := by
  have hobs : p.observe i = [] := observe_still (by rw [hready]; rfl)
  rw [hobs, List.append_nil]
  refine ⟨h.tracks.wait hready, ?_, h.committed, ?_⟩
  · rw [next_wait hready]
    exact h.accesses
  · exact h.tlb.wait hready

/-- An undisturbed flush drops no effect that was begun. -/
theorem Once.flush (h : p.Once tr) (hu : p.Undisturbed i)
    (hready : i.cpuBusReady = true) (hflush : p.cpu.flush = true) :
    (p.next i).Once (tr ++ p.observe i) := by
  obtain ⟨hpending, htlbwi⟩ := h.tracks.flush_spares hu hready hflush
  have hobs : p.observe i = [] := observe_still (by rw [hready, hflush]; rfl)
  have hwritten := h.tlb.written i
  rw [htlbwi] at hwritten
  rw [hobs, List.append_nil]
  refine ⟨tracks_flush hready hflush, ?_, h.committed, .inl ?_⟩
  · rw [h.accesses, hpending, next_flush hready hflush]
    rfl
  · exact hwritten

/-- The observations of an edge at which EX and MEM move on. -/
theorem commits_moved (hready : i.cpuBusReady = true)
    (hflush : p.cpu.flush = false) : p.commits i = p.mem := by
  unfold commits
  rw [hready, hflush]
  rfl

/-- What was pending is committed, and what EX asks for is pending. -/
theorem Once.moved (h : p.Once tr) (hlive : i.Live)
    (hready : i.cpuBusReady = true) (hflush : p.cpu.flush = false) :
    (p.next i).Once (tr ++ p.observe i) := by
  have hcommits := commits_moved (p := p) hready hflush
  refine ⟨h.tracks.next i, ?_, ?_, .inl ?_⟩
  · -- what was pending is owed now, what is accepted now is pending
    have howed := owed_observe p i
    rw [hcommits] at howed
    rw [Obs.accepted_append, Obs.owed_append, h.accesses, howed,
      h.tracks.pending_moved hlive hready hflush]
    rfl
  · intro m e hm hactive
    obtain hold | hnew := List.mem_append.mp hm
    · exact h.committed m e hold hactive
    · have hmem := commits_of_mem hnew
      rw [hcommits] at hmem
      exact h.tracks.commit_request hflush hmem hactive
  · have htlb := tlbWrites_observe p i
    rw [hcommits] at htlb
    have hcpu : (p.next i).cpu = p.cpu.clock i := rfl
    rw [Obs.tlbWrites_append, Log.replay_append, htlb, hcpu, h.tlb.written i]
    cases hm : p.mem with
    | none =>
      have hnone : p.cpu.tlbWrite = none := by
        unfold State.tlbWrite
        rw [(h.tracks.memEmpty hm).tlbwi]
        rfl
      rw [hnone]
      rfl
    | some m =>
      cases p.cpu.tlbWrite <;> rfl

theorem once_boot (u : State) (serial : Bool) : (boot u serial).Once [] where
  tracks := tracks_boot u serial
  accesses := rfl
  committed := fun m e hm => by cases hm
  tlb := .inl rfl

/-- Every undisturbed edge keeps the account. -/
theorem Once.step (h : p.Once tr) (hlive : i.Live)
    (hu : p.Undisturbed i) : (p.step i).Once (tr ++ p.observe i) := by
  have hstep : p.step i = p.next i := if_pos hlive
  rw [hstep]
  cases hready : i.cpuBusReady with
  | false => exact h.wait hready
  | true =>
    cases hflush : p.cpu.flush with
    | true => exact h.flush hu hready hflush
    | false => exact h.moved hlive hready hflush

end Pipe

/-- Along a run from reset in which acting instructions in MEM are
undisturbed: the accesses the bus accepted are those of the committed
instructions and then of the one in MEM; every committed load and store
made one; and the TLB is what the committed `tlbwi`s wrote, with the one
in MEM perhaps ahead. -/
theorem effects_exactly_once {u : State} {serial : Bool} {is : List Input}
    (h : Along Pipe.step (fun p i => i.Live ∧ p.Undisturbed i)
      (.boot u serial) is) :
    let p := run Pipe.step (.boot u serial) is
    let tr := trace Pipe.step Pipe.observe (.boot u serial) is
    Obs.accepted tr = Obs.owed tr ++ p.pending ∧
      (∀ m e, Obs.commit m e ∈ tr → m.inst.ram.active = true →
        m.request.isSome = true) ∧
      p.cpu.Holds (Log.replay Tlb.reset (Obs.tlbWrites tr)) := by
  intro p tr
  have honce : p.Once tr := trace_induction (R := Pipe.Once)
    (fun p i tr hp hi => hp.step hi.1 hi.2) (Pipe.once_boot u serial) h
  exact ⟨honce.accesses, honce.committed, honce.tlb⟩

/-- `lui t1,0x8000; sw t1,0(t1); lw t2,0(t1)`: two accesses, both of
committed instructions. -/
theorem effects_exactly_once_two_accesses :
    let is := ticks [0, 0x3c098000, 0xad290000, 0x8d2a0000, 0, 0, 0, 0]
    let tr := trace Pipe.step Pipe.observe (.boot .zero false) is
    (Obs.accepted tr).length = 2 ∧
      Obs.accepted tr = Obs.owed tr
        ++ (run Pipe.step (.boot .zero false) is).pending := by
  intro is tr
  have h : Along Pipe.step (fun p i => i.Live ∧ p.Undisturbed i)
      (.boot .zero false) is := by
    decide +kernel
  exact ⟨by decide +kernel, (effects_exactly_once h).1⟩

/-- `lui t1,0x8000; sw t1,1(t1)`: the store is squashed for its
alignment, and the bus has accepted a write of it to address 1. -/
theorem misaligned_store_reaches_the_bus :
    let is := ticks [0, 0x3c098000, 0xad290001, 0, 0]
    let i : Input := ⟨true, true, 0, false⟩
    let p := run Pipe.step (.boot .zero false) is
    let tr := trace Pipe.step Pipe.observe (.boot .zero false) (is ++ [i])
    p.cpu.exMem.writeError = true ∧ p.cpu.flush = true ∧
      (Obs.accepted tr).map Prod.snd = [⟨1, true, true, 0x80000000⟩] ∧
      Obs.owed tr = [] ∧ (p.step i).pending = [] := by
  intro is i p tr
  exact ⟨by decide +kernel, by decide +kernel, by decide +kernel,
    by decide +kernel, by decide +kernel⟩

end MipsUcore.Cpu
