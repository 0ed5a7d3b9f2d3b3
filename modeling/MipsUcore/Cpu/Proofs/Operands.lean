/-
The operand muxes deliver what program order says.

An instruction in ID is younger than the ones in EX and MEM, so its
operands are those of the registers after both: `State.ahead`. The muxes
of `id` look at EX first, then at MEM, then at the read ports, which see
the write in WB. Register by register this is the same value
(`State.Ordered`), under three conditions the muxes do not check
themselves (`State.Clean`): nothing on its way to register 0 carries a
value, `entrylo1` is not read back, and no write to a CP0 number without
a writable register is in flight when that number is read.
-/
import MipsUcore.Cpu.Arch
import MipsUcore.Cpu.Proofs.ZeroRegister

namespace MipsUcore.Cpu

-- ===== CP0 numbers

/-- No two numbers name one register. -/
theorem CpReg.ofAddress_inj {a b : RegAddr} {r : CpReg}
    (ha : ofAddress a = some r) (hb : ofAddress b = some r) : a = b := by
  unfold ofAddress at ha hb
  split at ha <;> cases ha <;> split at hb <;> first | rfl | cases hb

theorem mtc0Write_eq {a : RegAddr} {r : CpReg}
    (ha : CpReg.ofAddress a = some r) (writeCP : Bool) (address : RegAddr)
    (data : Word) : mtc0Write writeCP address data r
      = if writeCP && address == a then some data else none := by
  have hiff : (CpReg.ofAddress address == some r) = (address == a) := by
    rw [Bool.eq_iff_iff, beq_iff_eq, beq_iff_eq]
    constructor
    · intro h
      exact CpReg.ofAddress_inj h ha
    · rintro rfl
      exact ha
  unfold mtc0Write
  rw [hiff]

/-- The stored read is the register with the number, but for number 3. -/
theorem Cp.value_eq (c : Cp) (write : CpReg → Option Word) {a : RegAddr}
    (h : a ≠ 3) : c.value write a = match CpReg.ofAddress a with
      | some r => c.out write r
      | none => if a = 9 then c.count9 else 0 := by
  unfold Cp.value CpReg.ofAddress
  split <;> simp_all

-- ===== conditions

/-- The registers after the instructions in MEM and EX. -/
def State.ahead (s : State) (w : Word) : Regs :=
  (s.regs.commit (s.memOut w)).commit s.exOut.bypass

/-- An `mtc0` to the number is in EX or MEM. -/
def State.mtc0InFlight (s : State) (a : RegAddr) : Bool :=
  (s.exOut.writeCP && s.exOut.writeCPAddress == a)
    || (s.exMem.memWriteCP && s.exMem.memWriteCPAddress == a)

/-- ID passes on the operands of program order. -/
def State.Ordered (s : State) (w : Word) : Prop :=
  s.idRegister1 w = (s.ahead w).operand1 s.cp.count9 s.decoded ∧
    s.idRegister2 w = (s.ahead w).operand2 s.decoded

instance (s : State) (w : Word) : Decidable (s.Ordered w) :=
  inferInstanceAs (Decidable (_ ∧ _))

/-- Where the muxes are right without a look at the values: what they
leave to the program. -/
structure State.Clean (s : State) (w : Word) : Prop where
  zero : s.readsZero = true →
    zeroForward s.exOut.bypass (s.memOut w) = 0
  entryLo1 : s.decoded.cpReadEnable = true → s.decoded.cpAddress ≠ 3
  unwritable : s.decoded.cpReadEnable = true →
    CpReg.ofAddress s.decoded.cpAddress = none →
    s.mtc0InFlight s.decoded.cpAddress = false

-- ===== the muxes

theorem Regs.read_commit (a : Regs) (b : Bypass) {r : RegAddr}
    (hr : r ≠ 0) : (a.commit b).read r
      = if b.writeRegister && b.writeAddress == r then b.writeData
        else a.read r := by
  unfold read commit
  rw [if_neg hr, if_neg hr]
  by_cases hb : b.writeAddress = r
  · subst hb
    simp only [bne_iff_ne.mpr hr, BEq.rfl, Bool.and_true]
  · have hb' : ¬ r = b.writeAddress := fun h => hb h.symm
    simp [hb, hb']

theorem State.readData_eq (s : State) (r : RegAddr) :
    s.regfile.readData s.memWb true r = s.regs.read r := by
  unfold Regfile.readData Regs.read
  by_cases hr : r = 0
  · rw [if_pos hr, if_pos hr]
  · rw [if_neg hr, if_neg hr]
    show _ = (s.regfile.next true s.memWb).register r
    rw [Regfile.next_register]
    by_cases hw : r = s.memWb.wbWriteAddress
    · subst hw
      simp only [bne_iff_ne.mpr hr, BEq.rfl, Bool.and_true, Bool.true_and,
        if_true]
    · simp [hw]

/-- A general register, forwarded: what is ahead of the instruction in
ID. -/
theorem State.forward_read {s : State} {w : Word} {r : RegAddr}
    (hzero : r = 0 → zeroForward s.exOut.bypass (s.memOut w) = 0) :
    (if s.exOut.bypass.writeRegister
        && s.exOut.bypass.writeAddress == r then s.exOut.bypass.writeData
      else if (s.memOut w).writeRegister && (s.memOut w).writeAddress == r then
        (s.memOut w).writeData
      else s.regfile.readData s.memWb true r) = (s.ahead w).read r := by
  by_cases hr : r = 0
  · subst hr
    exact hzero rfl
  · unfold ahead
    rw [Regs.read_commit _ _ hr, Regs.read_commit _ _ hr, readData_eq]

/-- A CP0 register, forwarded. -/
theorem State.forward_cp {s : State} {w : Word} {a : RegAddr} (h3 : a ≠ 3)
    (hnone : CpReg.ofAddress a = none → s.mtc0InFlight a = false) :
    (if s.exOut.writeCP && s.exOut.writeCPAddress == a then
        s.exOut.writeCPData
      else if s.exMem.memWriteCP && s.exMem.memWriteCPAddress == a then
        s.exMem.memWriteCPData
      else s.cp.value s.memWb.cpWrite a)
      = (s.ahead w).cpRead s.cp.count9 a := by
  unfold Regs.cpRead
  cases hr : CpReg.ofAddress a with
  | some r =>
    show _ = (mtc0Write s.exOut.writeCP s.exOut.writeCPAddress
        s.exOut.writeCPData r).getD
      ((mtc0Write s.exMem.memWriteCP s.exMem.memWriteCPAddress
        s.exMem.memWriteCPData r).getD (s.cp0 r))
    rw [Cp.value_eq _ _ h3, hr, mtc0Write_eq hr, mtc0Write_eq hr]
    cases s.exOut.writeCP && s.exOut.writeCPAddress == a <;>
      cases s.exMem.memWriteCP && s.exMem.memWriteCPAddress == a <;> rfl
  | none =>
    have hquiet := hnone hr
    unfold mtc0InFlight at hquiet
    rw [Bool.or_eq_false_iff] at hquiet
    rw [hquiet.1, hquiet.2, Cp.value_eq _ _ h3, hr]
    rfl

/-- The first operand: a CP0 register, HI, LO or a general register. -/
theorem State.idRegister1_eq {s : State} {w : Word} (h : s.Clean w) :
    s.idRegister1 w = (s.ahead w).operand1 s.cp.count9 s.decoded := by
  unfold idRegister1 register1 Regs.operand1
  cases hc : s.decoded.cpReadEnable with
  | true => exact forward_cp (h.entryLo1 hc) (h.unwritable hc)
  | false =>
    cases hh : s.decoded.hiReadEnable with
    | true => rfl
    | false =>
      cases hl : s.decoded.loReadEnable with
      | true => rfl
      | false =>
        cases he : s.decoded.registerReadEnable1 with
        | true =>
          have hread := forward_read (s := s) (w := w)
            (r := s.decoded.registerAddress1) fun hr => h.zero (by
              unfold readsZero
              rw [he, hr]
              rfl)
          unfold registerData1
          rw [he]
          exact hread
        | false => rfl

theorem State.idRegister2_eq {s : State} {w : Word} (h : s.Clean w) :
    s.idRegister2 w = (s.ahead w).operand2 s.decoded := by
  unfold idRegister2 register2 Regs.operand2
  cases he : s.decoded.registerReadEnable2 with
  | true =>
    have hread := forward_read (s := s) (w := w)
      (r := s.decoded.registerAddress2) fun hr => h.zero (by
        unfold readsZero
        rw [he, hr]
        exact Bool.or_true _)
    unfold registerData2
    rw [he]
    exact hread
  | false => rfl

theorem State.Clean.ordered {s : State} {w : Word} (h : s.Clean w) :
    s.Ordered w :=
  ⟨idRegister1_eq h, idRegister2_eq h⟩

end MipsUcore.Cpu
