/-
The decoder and the two stages behind it implement the instruction set.

`pipelineEffect` is what `id`, `ex` and `mem` assert for one instruction
when nothing is in flight and the operand muxes read the registers.
`instruction_semantics` compares it with the architecture's meaning for
every word. `mem` leaves it to the bus to clear the upper bytes for `lbu`
(`Env.Answers`): RAM and the serial port do, but the boot ROM does not look
at the size of an access, and flash answers with 16 bits.

# Layout

- the decoder, one lemma for each of its overlapping blocks: which word
  reaches which block alone;
- the ALU, one lemma per function family: each hardware spelling is the
  architectural operation;
- one lemma per instruction family: given the control record, the effect;
- the tables: which control record each word of the table decodes to.
-/
import MipsUcore.Cpu.Memory
import MipsUcore.Lib.Bits
import MipsUcore.Isa.Instr
import Mathlib.Algebra.Order.Ring.Abs

namespace MipsUcore.Isa

open Cpu

-- ===== what is compared

/-- A later stage that writes nothing. -/
def quietBypass : Bypass := ⟨false, 0, 0, false, 0, false, 0, false, 0, 0⟩

/-- The bus answers a word access with the word, and a byte access with
the byte on its low wires and zeros above. -/
structure Env.Answers (e : Env) (bus : RamRequest → Word) : Prop where
  word : ∀ r, r.ramDataSize = true → bus r = e.wordAt r.ramAddress
  byte : ∀ r, r.ramDataSize = false →
    bus r = (e.byteAt r.ramAddress).zeroExtend 32

/-- `Register1` with nothing in flight. -/
def Env.operand1 (e : Env) (d : Decoded) : Word :=
  register1 d quietBypass quietBypass (e.gpr d.registerAddress1)
    (e.cp0 d.cpAddress) e.hi e.lo

/-- `Register2` with nothing in flight. -/
def Env.operand2 (e : Env) (d : Decoded) : Word :=
  register2 d quietBypass quietBypass (e.gpr d.registerAddress2)

/-- The access a request of `ex` asks for. -/
def accessOf (ram : RamRequest) : Option Access :=
  if ram.ramWriteEnable then
    some ⟨true, ram.ramDataSize, ram.ramAddress, ram.ramData⟩
  else if ram.ramReadEnable then
    some ⟨false, ram.ramDataSize, ram.ramAddress, 0⟩
  else none

/-- The asserted outputs of the three modules. -/
def effectOf (x : ExOut) (m : Bypass) (b : BranchOut) : Effect where
  reg := if m.writeRegister then some (m.writeAddress, m.writeData) else none
  hi := if m.writeHi then some m.hiData else none
  lo := if m.writeLo then some m.loData else none
  cp0 := if m.writeCP then some (m.writeCPAddress, m.writeCPData) else none
  access := accessOf x.ram
  jump := if b.branchFlag then some b.branchTarget else none
  privileged := x.privilege
  tlbwi := x.tlbwi
  syscall := x.syscall
  eret := x.eret
  reserved := x.validInstruction

/-- `ex` for a control record, with the operands from the registers. -/
def Env.exOut (e : Env) (pc : Word) (d : Decoded) : ExOut :=
  ex (.latch d (e.operand1 d) (e.operand2 d) pc false false)

/-- The effect of a control record, for the word `w` the branch unit
sees and the answers of `bus`. -/
def Env.effectOfDecoded (e : Env) (bus : RamRequest → Word) (pc w : Word)
    (d : Decoded) : Effect :=
  effectOf (e.exOut pc d)
    (mem (.latch (e.exOut pc d) ⟨false, false, false, false⟩)
      (bus (e.exOut pc d).ram))
    (branch pc w (e.operand1 d) (e.operand2 d))

/-- What `id`, `ex` and `mem` assert for the word `w` at `pc`. -/
def pipelineEffect (pc w : Word) (e : Env) (bus : RamRequest → Word) :
    Effect :=
  e.effectOfDecoded bus pc w (decode pc w)

-- ===== blocks of the decoder

/-- The immediate-shift block looks at the words with a zero opcode and
a zero `rs`. -/
theorem shift_block_iff (w : Word) :
    w.extractLsb' 21 11 = 0#11 ↔ opcode w = 0#6 ∧ rs w = 0#5 := by
  have hsplit : w.extractLsb' 21 11 = opcode w ++ rs w := by
    rw [opcode, rs,
      BitVec.extractLsb'_append_extractLsb'_eq_extractLsb' (by decide)]
  rw [hsplit]
  constructor
  · intro h
    have hop := congrArg (BitVec.extractLsb' 5 6) h
    have hrs := congrArg (BitVec.extractLsb' 0 5) h
    rw [BitVec.extractLsb'_append_eq_left] at hop
    rw [BitVec.extractLsb'_append_eq_right] at hrs
    exact ⟨hop, hrs⟩
  · rintro ⟨hop, hrs⟩
    rw [hop, hrs]
    decide

/-- The three whole-word flags taken back. -/
def unflag (d : Decoded) : Decoded :=
  { d with tlbwi := false, syscall := false, eret := false }

/-- Where none of the four groups behind it matches, the `case` statement
is the decoder. -/
theorem decode_unmatched {pc w : Word} (h0 : opcode w ≠ 0b000000#6)
    (ht : w ≠ 0x42000002#32) (he : w ≠ 0x42000018#32) :
    decode pc w = unflag (decodeCase pc w (.base w)) := by
  have hs : ¬ w.extractLsb' 21 11 = 0#11 :=
    fun h => h0 ((shift_block_iff w).1 h).1
  have hy : w ≠ 0x0000000c#32 := by
    rintro rfl
    exact h0 (by decide)
  unfold decode decodeEret decodeSyscall decodeTlbwi decodeShift
  rw [if_neg hs, if_neg ht, if_neg hy, if_neg he]
  rfl

/-- In particular outside opcodes 0 and COP0. -/
theorem decode_case {pc w : Word} (h0 : opcode w ≠ 0b000000#6)
    (h16 : opcode w ≠ 0b010000#6) :
    decode pc w = unflag (decodeCase pc w (.base w)) := by
  refine decode_unmatched h0 ?_ ?_ <;>
  · rintro rfl
    exact h16 (by decide)

/-- Under opcode 0 the `tlbwi` and `eret` matches are off. -/
theorem decode_opcode_zero {pc w : Word} (h0 : opcode w = 0b000000#6)
    (hy : w ≠ 0x0000000c#32) :
    decode pc w = unflag (decodeShift w
      (if sa w = 0#5 then decodeSpecial pc w (.base w) else .base w)) := by
  have ht : w ≠ 0b01000010000000000000000000000010#32 := by
    rintro rfl
    exact absurd h0 (by decide)
  have he : w ≠ 0b01000010000000000000000000011000#32 := by
    rintro rfl
    exact absurd h0 (by decide)
  have hc : decodeCase pc w (.base w)
      = if sa w = 0#5 then decodeSpecial pc w (.base w) else .base w := by
    simp only [decodeCase, h0]
    split
    case h_1 hsa => rw [if_pos hsa]
    case h_2 hsa => rw [if_neg hsa]
  unfold decode decodeEret decodeSyscall decodeTlbwi
  rw [if_neg ht, if_neg hy, if_neg he, hc]
  rfl

-- ===== ALU

/-- The operation code of a three-register function. -/
def AluFn.op : AluFn → AluOp
  | .addu => .addu | .subu => .subu | .slt => .slt | .sltu => .sltu
  | .and => .and | .or => .or | .xor => .xor | .nor => .nor

/-- Its result selector. -/
def AluFn.sel : AluFn → AluSel
  | .addu | .subu | .slt | .sltu => .arithmetic
  | .and | .or | .xor | .nor => .logic

/-- The operation code of an immediate function. -/
def ImmFn.op : ImmFn → AluOp
  | .addiu => .addiu | .slti => .slt | .sltiu => .sltu
  | .andi => .and | .ori => .or | .xori => .xor

/-- Its result selector. -/
def ImmFn.sel : ImmFn → AluSel
  | .addiu | .slti | .sltiu => .arithmetic
  | .andi | .ori | .xori => .logic

/-- The immediate the decoder builds for it. -/
def ImmFn.extend (f : ImmFn) (i : BitVec 16) : Word :=
  match f with
  | .addiu | .slti | .sltiu => i.signExtend 32
  | .andi | .ori | .xori => i.setWidth 32

/-- The operation code of a shift. -/
def ShiftFn.op : ShiftFn → AluOp
  | .sll => .sll | .srl => .srl | .sra => .sra

/-- The comparator of `slt`. -/
theorem sltResult_slt (a b : Word) :
    sltResult .slt a b = decide (a.toInt < b.toInt) := by
  rw [← Bits.slt_by_signs, ← Bits.add_not_add_one]
  rfl

/-- The comparator of `sltu`. -/
theorem sltResult_sltu (a b : Word) :
    sltResult .sltu a b = decide (a.toNat < b.toNat) := rfl

/-- A comparison result as a word. -/
theorem ofBool_setWidth (p : Prop) [Decidable p] :
    (BitVec.ofBool (decide p)).setWidth 32 = if p then 1 else (0 : Word) := by
  by_cases h : p <;> simp [h]

theorem aluResult_alu (f : AluFn) (a b link : Word) :
    aluResult f.sel f.op a b link = f.eval a b := by
  cases f with
  | subu => exact Bits.add_not_add_one a b
  | slt =>
    show (BitVec.ofBool (sltResult .slt a b)).setWidth 32 = _
    rw [sltResult_slt, ofBool_setWidth]
    rfl
  | sltu =>
    show (BitVec.ofBool (sltResult .sltu a b)).setWidth 32 = _
    rw [sltResult_sltu, ofBool_setWidth]
    rfl
  | _ => rfl

theorem aluResult_imm (f : ImmFn) (a : Word) (i : BitVec 16) (link : Word) :
    aluResult f.sel f.op a (f.extend i) link = f.eval a i := by
  cases f with
  | slti =>
    show (BitVec.ofBool (sltResult .slt a (i.signExtend 32))).setWidth 32 = _
    rw [sltResult_slt, ofBool_setWidth,
      BitVec.toInt_signExtend_of_le (by decide)]
    rfl
  | sltiu =>
    show (BitVec.ofBool (sltResult .sltu a (i.signExtend 32))).setWidth 32 = _
    rw [sltResult_sltu, ofBool_setWidth]
    rfl
  | _ => rfl

/-- The ALU shifts by the low five bits of its first operand. -/
theorem aluResult_shift (f : ShiftFn) (a b link : Word) :
    aluResult .shift f.op a b link = f.eval b (shiftAmount a) := by
  cases f with
  | sra =>
    have hlt : shiftAmount a < 32 := (a.extractLsb' 0 5).isLt
    exact Bits.sshiftRight_by_mask b _ (by omega)
  | _ => rfl

theorem shiftAmount_eq_mod (a : Word) : shiftAmount a = a.toNat % 32 := by
  simp [shiftAmount, BitVec.extractLsb'_toNat]

/-- The shift amount the decoder puts into the low bits of the
immediate. -/
theorem shiftAmount_immediate (s : BitVec 5) :
    shiftAmount ((0 : Word).extractLsb' 5 27 ++ s) = s.toNat := by
  unfold shiftAmount
  rw [BitVec.extractLsb'_append_eq_right]

/-- The multiplier computes the signed product. -/
theorem multiplyResult_mult (a b : Word) :
    multiplyResult .mult a b = product a b := by
  have habs (x : Word) : multiplyElement x = x.abs := by
    rw [BitVec.abs_eq, BitVec.neg_eq_not_add]
    rfl
  unfold product
  rw [← Bits.mul_by_magnitudes, ← habs, ← habs, BitVec.neg_eq_not_add]
  rfl

/-- The product is exact: no pair of operands overflows 64 bits. -/
theorem product_toInt (a b : Word) :
    (product a b).toInt = a.toInt * b.toInt := by
  have ha := BitVec.le_toInt a
  have ha' := BitVec.toInt_lt (x := a)
  have hb := BitVec.le_toInt b
  have hb' := BitVec.toInt_lt (x := b)
  have hbound : |a.toInt * b.toInt| ≤ 2 ^ 31 * 2 ^ 31 := by
    rw [abs_mul]
    exact mul_le_mul (abs_le.2 ⟨ha, ha'.le⟩) (abs_le.2 ⟨hb, hb'.le⟩)
      (abs_nonneg _) (by decide)
  obtain ⟨hlo, hhi⟩ := abs_le.1 hbound
  unfold product
  rw [BitVec.toInt_ofInt]
  apply Int.bmod_eq_of_le <;> omega

-- ===== fields of a jump

theorem branchTarget_eq (pc w : Word) :
    branchTarget pc w = branchTo pc (imm w) :=
  congrArg (pc + 4 + ·) (Bits.signExtend_append_zeros (v := 30) (n := 2) _)

theorem jumpTarget_eq (pc w : Word) :
    jumpTarget pc w = jumpTo pc (instrIndex w) := by
  have hmask : ∀ i < 32, (0xf0000000#32).getLsbD i = decide (28 ≤ i) := by
    decide
  have hleft (i : Nat) : (jumpTarget pc w).getLsbD i
      = if i < 2 then (0#2).getLsbD i
        else if i - 2 < 26 then (instrIndex w).getLsbD (i - 2)
        else ((pc + 4).extractLsb' 28 4).getLsbD (i - 2 - 26) := by
    unfold jumpTarget
    rw [BitVec.getLsbD_append, BitVec.getLsbD_append]
  apply BitVec.eq_of_getLsbD_eq
  intro i hi
  unfold jumpTo
  rw [hleft, BitVec.getLsbD_or, BitVec.getLsbD_and, BitVec.getLsbD_shiftLeft,
    hmask i hi]
  by_cases hlow : i < 2
  · have hregion : ¬ 28 ≤ i := by omega
    simp [hlow, hregion]
  · by_cases hidx : i - 2 < 26
    · have hregion : ¬ 28 ≤ i := by omega
      have hin : i - 2 < 32 := by omega
      simp [hlow, hidx, hregion, hi, hin]
    · have hregion : 28 ≤ i := by omega
      have hout : (instrIndex w).getLsbD (i - 2) = false :=
        BitVec.getLsbD_of_ge _ _ (by omega)
      have hslice : i - 2 - 26 < 4 := by omega
      have hbit : 28 + (i - 2 - 26) = i := by omega
      simp [hlow, hidx, hregion, hout, hslice, hbit]

-- ===== branch conditions

/-- A word is zero when the number it stands for is. -/
theorem beq_zero_eq (a : Word) : (a == 0) = decide (a.toInt = 0) := by
  rw [Bool.eq_iff_iff, beq_iff_eq, decide_eq_true_iff]
  constructor
  · rintro rfl
    rfl
  · intro h
    exact BitVec.eq_of_toInt_eq (h.trans BitVec.toInt_zero.symm)

/-- The sign tests of the decoder, as comparisons of the signed value. -/
theorem holds_sign (a b : Word) :
    CmpFn.bltz.holds a b = a.msb ∧ CmpFn.bgez.holds a b = !a.msb ∧
      CmpFn.bgtz.holds a b = (!a.msb && a != 0) ∧
      CmpFn.blez.holds a b = (a.msb || a == 0) := by
  rw [bne, beq_zero_eq, BitVec.msb_eq_toInt]
  refine ⟨rfl, ?_, ?_, ?_⟩ <;>
    rw [Bool.eq_iff_iff] <;> simp [CmpFn.holds] <;> omega

-- ===== instruction families

section families

variable {pc w : Word} {e : Env} {bus : RamRequest → Word}

attribute [local simp] pipelineEffect Env.effectOfDecoded Env.exOut effectOf
  accessOf mem ex ExMem.latch IdEx.latch IdEx.isMtc0 memWriteDataOut

/-- A control record without side effects: nothing but a general register
can be written. -/
structure Plain (d : Decoded) : Prop where
  hi : d.writeHi = false
  lo : d.writeLo = false
  privilege : d.privilege = false
  tlbwi : d.tlbwi = false
  syscall : d.syscall = false
  eret : d.eret = false
  valid : d.validInstruction = false
  ram : ∀ a b i, ramRequest d.aluOperation a b i = .idle
  cp : (d.aluSel == .move && d.aluOperation == .mtc0) = false

/-- A plain record that writes the ALU's value and does not branch. -/
theorem effect_of_alu {d : Decoded} (hd : decode pc w = d) (hp : Plain d)
    (hb : ∀ a b, branch pc w a b = .notTaken) (hw : d.writeRegister = true) :
    pipelineEffect pc w e bus
      = .writes d.writeAddress (aluResult d.aluSel d.aluOperation
          (e.operand1 d) (e.operand2 d) d.linkAddress) := by
  simp [hd, hp.ram, hp.cp, hb, RamRequest.idle, BranchOut.notTaken,
    Effect.none, Effect.writes, hw, hp.hi, hp.lo, hp.privilege, hp.tlbwi,
    hp.syscall, hp.eret, hp.valid]

theorem alu_effect (f : AluFn)
    (hd : decode pc w = (Decoded.base w).alu f.op f.sel)
    (hb : ∀ a b, branch pc w a b = .notTaken) :
    pipelineEffect pc w e bus
      = (Instr.alu f (rs w) (rt w) (rd w)).effect pc e := by
  have hplain : Plain ((Decoded.base w).alu f.op f.sel) := by
    constructor <;> cases f <;> intros <;> rfl
  rw [effect_of_alu hd hplain hb rfl]
  exact congrArg _ (aluResult_alu f _ _ _)

theorem aluImm_effect (f : ImmFn)
    (hd : decode pc w = (Decoded.base w).aluImm f.op f.sel
      (f.extend (imm w)) (rt w))
    (hb : ∀ a b, branch pc w a b = .notTaken) :
    pipelineEffect pc w e bus
      = (Instr.aluImm f (rs w) (rt w) (imm w)).effect pc e := by
  have hplain : Plain ((Decoded.base w).aluImm f.op f.sel
      (f.extend (imm w)) (rt w)) := by
    constructor <;> cases f <;> intros <;> rfl
  rw [effect_of_alu hd hplain hb rfl]
  exact congrArg _ (aluResult_imm f _ _ _)

/-- `lui` is an `or` with `rs`. -/
theorem lui_effect (h15 : opcode w = 0b001111#6) :
    pipelineEffect pc w e bus = .writes (rt w)
      (e.gpr (rs w) ||| (imm w).zeroExtend 32 <<< 16) := by
  have hd : decode pc w = unflag (decodeCase pc w (.base w)) :=
    decode_case (by rw [h15]; decide) (by rw [h15]; decide)
  have hb (a b : Word) : branch pc w a b = .notTaken := by simp [branch, h15]
  simp only [decodeCase, h15] at hd
  have hplain : Plain ((Decoded.base w).aluImm .or .logic
      (imm w ++ 0#16) (rt w)) := by
    constructor <;> intros <;> rfl
  rw [effect_of_alu hd hplain hb rfl]
  refine congrArg (Effect.writes (rt w)) ?_
  show e.gpr (rs w) ||| (imm w ++ 0#16) = _
  rw [Bits.append_zeros]

theorem shift_effect (f : ShiftFn)
    (hd : decode pc w = (Decoded.base w).shiftImm f.op w)
    (hb : ∀ a b, branch pc w a b = .notTaken) :
    pipelineEffect pc w e bus
      = (Instr.shift f (rt w) (rd w) (sa w)).effect pc e := by
  have hplain : Plain ((Decoded.base w).shiftImm f.op w) := by
    constructor <;> cases f <;> intros <;> rfl
  rw [effect_of_alu hd hplain hb rfl]
  refine congrArg (Effect.writes (rd w)) ?_
  refine (aluResult_shift f _ _ _).trans ?_
  exact congrArg (f.eval _) (shiftAmount_immediate (sa w))

theorem shiftVar_effect (f : ShiftFn)
    (hd : decode pc w = (Decoded.base w).alu f.op .shift)
    (hb : ∀ a b, branch pc w a b = .notTaken) :
    pipelineEffect pc w e bus
      = (Instr.shiftVar f (rs w) (rt w) (rd w)).effect pc e := by
  have hplain : Plain ((Decoded.base w).alu f.op .shift) := by
    constructor <;> cases f <;> intros <;> rfl
  rw [effect_of_alu hd hplain hb rfl]
  refine congrArg (Effect.writes (rd w)) ?_
  refine (aluResult_shift f _ _ _).trans ?_
  exact congrArg (f.eval _) (shiftAmount_eq_mod _)

theorem jump_when (c : Bool) (target : Word) :
    (if (BranchOut.when c target).branchFlag = true then
      some (BranchOut.when c target).branchTarget else none)
      = if c = true then some target else none := by
  cases c <;> rfl

/-- A branch record: `hb` is the test the decoder makes, on `rt` only if
it reads it. -/
theorem branch_effect (f : CmpFn) {op : AluOp} (read2 : Bool)
    (hd : decode pc w = (Decoded.base w).jump op true read2)
    (hram : ∀ a b i, ramRequest op a b i = .idle)
    (hb : ∀ a b, branch pc w a b
      = .when (f.holds a (if read2 then b else e.gpr (rt w)))
          (branchTo pc (imm w))) :
    pipelineEffect pc w e bus
      = (Instr.branch f (rs w) (rt w) (imm w)).effect pc e := by
  unfold pipelineEffect
  rw [hd]
  cases read2 <;>
    simp [hram, hb, jump_when, Decoded.jump, Decoded.base, Instr.effect,
      Effect.none, RamRequest.idle, Env.operand1, Env.operand2, register1,
      register2, quietBypass]

/-- An unconditional jump, with or without a link register. -/
theorem jump_effect {op : AluOp} {target : Word} (read1 link : Bool)
    (dest : RegAddr)
    (hd : decode pc w
      = { (Decoded.base w).jump op read1 false with
          writeRegister := link, writeAddress := dest
          linkAddress := if link then pc + 8 else 0 })
    (hram : ∀ a b i, ramRequest op a b i = .idle)
    (hb : ∀ b, branch pc w (if read1 then e.gpr (rs w) else 0) b
      = .when true target) :
    pipelineEffect pc w e bus
      = { Effect.none with
          reg := if link then some (dest, pc + 8) else none
          jump := some target } := by
  cases read1 <;> cases link <;>
    simp_all [aluResult, jump_when, Decoded.jump, Decoded.base, Effect.none,
      RamRequest.idle, Env.operand1, Env.operand2, register1, register2,
      quietBypass]

/-- The operation code of a load. -/
def LoadFn.op : LoadFn → AluOp
  | .lb => .lb | .lbu => .lbu | .lw => .lw

/-- A load returns what the bus answers, sign-extended for `lb`. -/
theorem load_effect (hbus : e.Answers bus) (f : LoadFn)
    (hd : decode pc w = (Decoded.base w).load f.op (rt w))
    (hb : ∀ a b, branch pc w a b = .notTaken) :
    pipelineEffect pc w e bus
      = (Instr.load f (rs w) (rt w) (imm w)).effect pc e := by
  unfold pipelineEffect
  rw [hd]
  have hbyte (b : BitVec 8) : (b.zeroExtend 32).extractLsb' 0 8 = b := by
    ext i hi
    simp [hi, show i < 32 by omega]
  cases f <;>
    simp [hb, hbyte, Decoded.load, Decoded.base, LoadFn.op, Instr.effect,
      Effect.none, LoadFn.value, effectiveAddress, memoryAddress, ramRequest,
      RamRequest.load, hbus.word, hbus.byte, Env.operand1, Env.operand2,
      register1, register2, quietBypass, BranchOut.notTaken]

theorem store_effect {op : AluOp} {word : Bool}
    (hd : decode pc w = (Decoded.base w).store op)
    (hram : ∀ a b i, ramRequest op a b i = .store (memoryAddress a i) b word)
    (hb : ∀ a b, branch pc w a b = .notTaken) :
    pipelineEffect pc w e bus
      = { Effect.none with
          access := some ⟨true, word, effectiveAddress e (rs w) (imm w),
            e.gpr (rt w)⟩ } := by
  simp [hd, hb, hram, Decoded.store, Decoded.base, Effect.none,
    effectiveAddress, memoryAddress, RamRequest.store, Env.operand1,
    Env.operand2, register1, register2, quietBypass, BranchOut.notTaken]

/-- The default record raises the reserved-instruction flag alone. -/
theorem reserved_effect (hd : decode pc w = .base w)
    (hb : ∀ a b, branch pc w a b = .notTaken) :
    pipelineEffect pc w e bus = .reservedOnly := by
  simp [hd, hb, ramRequest, Decoded.base, Effect.reservedOnly, Effect.none,
    RamRequest.idle, BranchOut.notTaken]

/-- A record that writes HI, LO or both and nothing else. -/
theorem hilo_effect {op : AluOp} {read2 writeHi writeLo : Bool}
    (hd : decode pc w
      = { Decoded.base w with
          aluOperation := op
          registerReadEnable1 := true, registerReadEnable2 := read2
          validInstruction := false, writeHi := writeHi, writeLo := writeLo })
    (hram : ∀ a b i, ramRequest op a b i = .idle)
    (hb : ∀ a b, branch pc w a b = .notTaken) :
    pipelineEffect pc w e bus
      = { Effect.none with
          hi := if writeHi then some (hiLoData op (e.gpr (rs w))
            (if read2 then e.gpr (rt w) else 0)).1 else none
          lo := if writeLo then some (hiLoData op (e.gpr (rs w))
            (if read2 then e.gpr (rt w) else 0)).2 else none } := by
  simp [hd, hb, hram, Decoded.base, Effect.none, RamRequest.idle, Env.operand1,
    Env.operand2, register1, register2, quietBypass, BranchOut.notTaken]

theorem mfc0_effect
    (hd : decode pc w
      = { Decoded.base w with
          writeRegister := true, writeAddress := rt w
          aluOperation := .mfc0, aluSel := .move
          validInstruction := false, cpReadEnable := true
          cpAddress := rd w, privilege := true })
    (hb : ∀ a b, branch pc w a b = .notTaken) :
    pipelineEffect pc w e bus = (Instr.mfc0 (rt w) (rd w)).effect pc e := by
  simp [hd, hb, ramRequest, Decoded.base, Effect.none, RamRequest.idle,
    Env.operand1, aluResult, register1, quietBypass, BranchOut.notTaken,
    Instr.effect]

theorem mtc0_effect
    (hd : decode pc w
      = { Decoded.base w with
          aluOperation := .mtc0, aluSel := .move
          validInstruction := false, writeCPAddress := rd w
          registerReadEnable1 := true, registerAddress1 := rt w
          privilege := true })
    (hb : ∀ a b, branch pc w a b = .notTaken) :
    pipelineEffect pc w e bus = (Instr.mtc0 (rt w) (rd w)).effect pc e := by
  simp [hd, hb, ramRequest, Decoded.base, Effect.none, RamRequest.idle,
    Env.operand1, register1, quietBypass, BranchOut.notTaken, Instr.effect]

-- ===== tables

/-- The SPECIAL table reaches the decoder's inner `case` alone. -/
theorem decode_special (h0 : opcode w = 0b000000#6) (hsa : sa w = 0#5)
    (hf : funct w ∉ [0b000000#6, 0b000010#6, 0b000011#6, 0b001100#6]) :
    decode pc w = unflag (decodeSpecial pc w (.base w)) := by
  simp only [List.mem_cons, List.not_mem_nil, or_false, not_or] at hf
  obtain ⟨hf0, hf2, hf3, hfc⟩ := hf
  have hy : w ≠ 0x0000000c#32 := by
    rintro rfl
    exact hfc (by decide)
  have hshift (d : Decoded) : decodeShift w d = d := by
    unfold decodeShift
    split
    · split <;> first | contradiction | rfl
    · rfl
  rw [decode_opcode_zero h0 hy, if_pos hsa, hshift]

theorem special_effect {i : Instr} (h0 : opcode w = 0b000000#6)
    (hsa : sa w = 0#5) (hi : specialOf w = some i) :
    pipelineEffect pc w e bus = i.effect pc e := by
  have hd (hf : funct w ∉ [0b000000#6, 0b000010#6, 0b000011#6, 0b001100#6]) :
      decode pc w = unflag (decodeSpecial pc w (.base w)) :=
    decode_special h0 hsa hf
  have hb (a b : Word) : branch pc w a b
      = bif funct w == 0b001000#6 || funct w == 0b001001#6 then
          .when true a
        else .notTaken := by
    simp only [branch, h0, hsa]
    split
    case h_1 hf => rw [hf]; rfl
    case h_2 hf => rw [hf]; rfl
    case h_3 hjr hjalr =>
      rw [beq_eq_false_iff_ne.mpr hjr, beq_eq_false_iff_ne.mpr hjalr]
      rfl
  unfold specialOf at hi
  unfold decodeSpecial at hd
  split at hi
  all_goals
    rename_i hf
    cases hi
  all_goals
    simp only [hf] at hd hb
    specialize hd (by decide)
  · exact alu_effect .addu hd hb
  · exact alu_effect .subu hd hb
  · exact alu_effect .slt hd hb
  · exact alu_effect .sltu hd hb
  · exact alu_effect .and hd hb
  · exact alu_effect .or hd hb
  · exact alu_effect .xor hd hb
  · exact alu_effect .nor hd hb
  · exact shiftVar_effect .sll hd hb
  · exact shiftVar_effect .srl hd hb
  · exact shiftVar_effect .sra hd hb
  · rw [hilo_effect hd (fun _ _ _ => rfl) hb]
    simp only [hiLoData, multiplyResult_mult]
    rfl
  · rw [effect_of_alu hd (by constructor <;> intros <;> rfl) hb rfl]
    rfl
  · rw [effect_of_alu hd (by constructor <;> intros <;> rfl) hb rfl]
    rfl
  · exact hilo_effect hd (fun _ _ _ => rfl) hb
  · exact hilo_effect hd (fun _ _ _ => rfl) hb
  · exact jump_effect true false (rd w) hd (fun _ _ _ => rfl) (fun b => hb _ b)
  · exact jump_effect true true (rd w) hd (fun _ _ _ => rfl) (fun b => hb _ b)

/-- The inner `case` leaves alone what the SPECIAL table does not list. -/
theorem decodeSpecial_unlisted (h : specialOf w = none) (d : Decoded) :
    decodeSpecial pc w d = d := by
  unfold decodeSpecial
  split <;> simp_all [specialOf]

/-- The jumps under opcode 0 are in the SPECIAL table. -/
theorem branch_opcode_zero (h0 : opcode w = 0b000000#6)
    (h : sa w = 0#5 → specialOf w = none) (a b : Word) :
    branch pc w a b = .notTaken := by
  simp only [branch, h0]
  split
  case h_2 => rfl
  case h_1 hsa =>
    split <;> simp_all [specialOf]

/-- The immediate shifts: the `case` statement leaves them to the block
behind it. -/
theorem shift_table_effect {i : Instr} (h0 : opcode w = 0b000000#6)
    (hrs : rs w = 0#5) (hi : shiftOf w = some i) :
    pipelineEffect pc w e bus = i.effect pc e := by
  have hblock : w.extractLsb' 21 11 = 0#11 := (shift_block_iff w).2 ⟨h0, hrs⟩
  unfold shiftOf at hi
  split at hi
  all_goals
    rename_i hf
    cases hi
  all_goals
    have hy : w ≠ 0x0000000c#32 := by
      rintro rfl
      exact absurd hf (by decide)
    have hnone : specialOf w = none := by simp [specialOf, hf]
    have hd : decode pc w = _ := decode_opcode_zero h0 hy
    rw [decodeSpecial_unlisted hnone, ite_self] at hd
    simp only [decodeShift, hblock, if_true, hf] at hd
    have hb (a b : Word) : branch pc w a b = .notTaken :=
      branch_opcode_zero h0 (fun _ => hnone) a b
  · exact shift_effect .sll hd hb
  · exact shift_effect .srl hd hb
  · exact shift_effect .sra hd hb

/-- What neither table lists is reserved. -/
theorem opcode_zero_reserved (h0 : opcode w = 0b000000#6)
    (hy : w ≠ 0x0000000c#32) (hshift : rs w = 0#5 → shiftOf w = none)
    (hspecial : sa w = 0#5 → specialOf w = none) :
    pipelineEffect pc w e bus = .reservedOnly := by
  have hcase : (if sa w = 0#5 then decodeSpecial pc w (.base w)
      else .base w) = .base w := by
    by_cases hsa : sa w = 0#5
    · rw [if_pos hsa, decodeSpecial_unlisted (hspecial hsa)]
    · rw [if_neg hsa]
  have hblock : decodeShift w (.base w) = .base w := by
    unfold decodeShift
    split
    case isFalse => rfl
    case isTrue hz =>
      have hnone := hshift ((shift_block_iff w).1 hz).2
      split <;> simp_all [shiftOf]
  have hd : decode pc w = .base w := by
    rw [decode_opcode_zero h0 hy, hcase, hblock]
    rfl
  exact reserved_effect hd (branch_opcode_zero h0 hspecial)

/-- A `syscall` with a code is reserved as well: the decoder compares the
whole word. -/
theorem syscall_code_effect (h0 : opcode w = 0b000000#6)
    (hf : funct w = 0b001100#6) (hy : w ≠ 0x0000000c#32) :
    pipelineEffect pc w e bus = .reservedOnly :=
  opcode_zero_reserved h0 hy (fun _ => by simp [shiftOf, hf])
    fun _ => by simp [specialOf, hf]

theorem regimm_effect {i : Instr} (h1 : opcode w = 0b000001#6)
    (hi : regimmOf w = some i) :
    pipelineEffect pc w e bus = i.effect pc e := by
  have hd : decode pc w = unflag (decodeCase pc w (.base w)) :=
    decode_case (by rw [h1]; decide) (by rw [h1]; decide)
  unfold regimmOf at hi
  split at hi
  all_goals
    rename_i hrt
    cases hi
  all_goals
    simp only [decodeCase, h1, hrt] at hd
  · refine branch_effect .bgez false hd (fun _ _ _ => rfl) fun a b => ?_
    rw [(holds_sign a _).2.1]
    simp only [branch, h1, hrt, branchTarget_eq]
  · refine branch_effect .bltz false hd (fun _ _ _ => rfl) fun a b => ?_
    rw [(holds_sign a _).1]
    simp only [branch, h1, hrt, branchTarget_eq]

theorem cop0_effect {i : Instr} (h16 : opcode w = 0b010000#6)
    (hi : cop0Of w = some i) : pipelineEffect pc w e bus = i.effect pc e := by
  unfold cop0Of at hi
  split_ifs at hi with ht he
  · cases hi
    subst ht
    rfl
  · cases hi
    subst he
    rfl
  · have hd : decode pc w = unflag (decodeCase pc w (.base w)) :=
      decode_unmatched (by rw [h16]; decide) ht he
    have hb (a b : Word) : branch pc w a b = .notTaken := by
      simp [branch, h16]
    split at hi
    all_goals
      rename_i hrs
      cases hi
    all_goals
      simp only [decodeCase, h16, hrs] at hd
    · exact mfc0_effect hd hb
    · exact mtc0_effect hd hb

/-- The opcodes that stand for one instruction each. -/
theorem opcode_effect {i : Instr} (hbus : e.Answers bus)
    (h0 : opcode w ≠ 0b000000#6) (h1 : opcode w ≠ 0b000001#6)
    (h16 : opcode w ≠ 0b010000#6)
    (hi : Instr.ofWord w = some i) :
    pipelineEffect pc w e bus = i.effect pc e := by
  have hd : decode pc w = unflag (decodeCase pc w (.base w)) :=
    decode_case h0 h16
  unfold Instr.ofWord at hi
  split at hi <;> rename_i hop <;> try contradiction
  case h_15 =>
    split_ifs at hi with hrs
    cases hi
    rw [lui_effect hop, hrs, e.gpr_zero]
    exact congrArg (Effect.writes (rt w)) BitVec.zero_or
  all_goals
    cases hi
    simp only [decodeCase, hop] at hd
  · exact jump_effect false false (rd w) hd (fun _ _ _ => rfl)
      fun b => by simp only [branch, hop, jumpTarget_eq]
  · exact jump_effect false true 31 hd (fun _ _ _ => rfl)
      fun b => by simp only [branch, hop, jumpTarget_eq]
  · refine branch_effect .beq true hd (fun _ _ _ => rfl) fun a b => ?_
    simp only [branch, hop, branchTarget_eq]
    rfl
  · refine branch_effect .bne true hd (fun _ _ _ => rfl) fun a b => ?_
    simp only [branch, hop, branchTarget_eq]
    simp only [CmpFn.holds, if_true, decide_not]
    rfl
  · refine branch_effect .blez false hd (fun _ _ _ => rfl) fun a b => ?_
    rw [(holds_sign a _).2.2.2]
    simp only [branch, hop, branchTarget_eq]
  · refine branch_effect .bgtz false hd (fun _ _ _ => rfl) fun a b => ?_
    rw [(holds_sign a _).2.2.1]
    simp only [branch, hop, branchTarget_eq]
  · exact aluImm_effect .addiu hd fun a b => by simp [branch, hop]
  · exact aluImm_effect .slti hd fun a b => by simp [branch, hop]
  · exact aluImm_effect .sltiu hd fun a b => by simp [branch, hop]
  · exact aluImm_effect .andi hd fun a b => by simp [branch, hop]
  · exact aluImm_effect .ori hd fun a b => by simp [branch, hop]
  · exact aluImm_effect .xori hd fun a b => by simp [branch, hop]
  · exact load_effect hbus .lb hd fun a b => by simp [branch, hop]
  · exact load_effect hbus .lbu hd fun a b => by simp [branch, hop]
  · exact load_effect hbus .lw hd fun a b => by simp [branch, hop]
  · exact store_effect hd (fun _ _ _ => rfl) fun a b => by simp [branch, hop]
  · exact store_effect hd (fun _ _ _ => rfl) fun a b => by simp [branch, hop]

/-- Every other word is reserved, but for `lui` with a non-zero `rs`. -/
theorem unlisted_effect (hi : Instr.ofWord w = none)
    (hlui : opcode w ≠ 0b001111#6) :
    pipelineEffect pc w e bus = .reservedOnly := by
  by_cases h0 : opcode w = 0b000000#6
  · simp only [Instr.ofWord, h0] at hi
    split_ifs at hi with hf hrs hsa hsa
    all_goals
      simp only [Option.or_eq_none_iff, true_and, and_true] at hi
      have hy : w ≠ 0x0000000c#32 := fun heq => hf (by rw [heq]; decide)
    · exact opcode_zero_reserved h0 hy (fun _ => hi.1) (fun _ => hi.2)
    · exact opcode_zero_reserved h0 hy (fun _ => hi) (fun h => absurd h hsa)
    · exact opcode_zero_reserved h0 hy (fun h => absurd h hrs) (fun _ => hi)
    · exact opcode_zero_reserved h0 hy (fun h => absurd h hrs)
        (fun h => absurd h hsa)
  · have hne : w ≠ 0x42000002#32 ∧ w ≠ 0x42000018#32 := by
      constructor <;>
      · rintro rfl
        exact absurd hi (by decide)
    have hd : decode pc w = unflag (decodeCase pc w (.base w)) :=
      decode_unmatched h0 hne.1 hne.2
    have hcase : decodeCase pc w (.base w) = .base w := by
      unfold decodeCase
      split <;> simp_all [Instr.ofWord, regimmOf, cop0Of]
      all_goals split <;> simp_all
    rw [hcase] at hd
    refine reserved_effect hd fun a b => ?_
    unfold branch
    split <;> simp_all [Instr.ofWord, regimmOf]
    split <;> simp_all

end families

-- ===== the result

/-- For every word: if it encodes a listed instruction, `id`, `ex` and
`mem` assert exactly that instruction's effect, with an exact 64-bit
product for `mult`, except that a `syscall` with a code is a reserved
instruction; if it encodes none, they assert the reserved-instruction flag
and nothing else, except that the opcode of `lui` takes any `rs`. -/
theorem instruction_semantics (pc w : Word) (e : Env)
    {bus : RamRequest → Word} (hbus : e.Answers bus) :
    (∀ i, Instr.ofWord w = some i → (i = .syscall → w = 0x0000000c#32) →
      pipelineEffect pc w e bus = i.effect pc e) ∧
    (opcode w = 0b000000#6 → funct w = 0b001100#6 → w ≠ 0x0000000c#32 →
      pipelineEffect pc w e bus = .reservedOnly) ∧
    (Instr.ofWord w = none → opcode w ≠ 0b001111#6 →
      pipelineEffect pc w e bus = .reservedOnly) ∧
    (opcode w = 0b001111#6 → pipelineEffect pc w e bus =
      .writes (rt w) (e.gpr (rs w) ||| (imm w).zeroExtend 32 <<< 16)) ∧
    ∀ a b : Word, (product a b).toInt = a.toInt * b.toInt := by
  refine ⟨fun i hi hcode => ?_, syscall_code_effect, unlisted_effect,
    lui_effect, product_toInt⟩
  by_cases h0 : opcode w = 0b000000#6
  · simp only [Instr.ofWord, h0] at hi
    split_ifs at hi with hf hrs hsa hsa
    · cases hi
      obtain rfl := hcode rfl
      rfl
    · obtain h | ⟨-, h⟩ := Option.or_eq_some_iff.1 hi
      · exact shift_table_effect h0 hrs h
      · exact special_effect h0 hsa h
    · rw [Option.or_none] at hi
      exact shift_table_effect h0 hrs hi
    · exact special_effect h0 hsa hi
    · cases hi
  · by_cases h1 : opcode w = 0b000001#6
    · simp only [Instr.ofWord, h1] at hi
      exact regimm_effect h1 hi
    · by_cases h16 : opcode w = 0b010000#6
      · simp only [Instr.ofWord, h16] at hi
        exact cop0_effect h16 hi
      · exact opcode_effect hbus h0 h1 h16 hi

/-- Registers that hold seven times their number, and zeros elsewhere. -/
def sampleEnv : Env where
  gpr r := r.setWidth 32 * 7
  gpr_zero := by decide
  hi := 0
  lo := 0
  cp0 _ := 0
  byteAt _ := 0
  wordAt _ := 0

/-- `addu $3,$1,$2`, and a word that encodes nothing. -/
theorem instruction_semantics_addu :
    Instr.ofWord 0x00221821 = some (.alu .addu 1 2 3) ∧
      pipelineEffect 0 0x00221821 sampleEnv (fun _ => 0) = .writes 3 21 ∧
      Instr.ofWord 0xffffffff = none ∧
      pipelineEffect 0 0xffffffff sampleEnv (fun _ => 0) = .reservedOnly := by
  have haddu : Instr.ofWord 0x00221821 = some (.alu .addu 1 2 3) := by decide
  have hnone : Instr.ofWord 0xffffffff = none := by decide
  have hbus : sampleEnv.Answers fun _ => 0 := ⟨fun _ _ => rfl, fun _ _ => rfl⟩
  exact ⟨haddu,
    (instruction_semantics 0 _ sampleEnv hbus).1 _ haddu nofun, hnone,
    (instruction_semantics 0 _ sampleEnv hbus).2.2.1 hnone (by decide)⟩

/-- `syscall` with code 1 raises the reserved-instruction flag and no
system call. -/
theorem syscall_code_reserved :
    Instr.ofWord 0x0000004c = some .syscall ∧
      (Instr.syscall.effect 0 sampleEnv).syscall = true ∧
      pipelineEffect 0 0x0000004c sampleEnv (fun _ => 0) = .reservedOnly ∧
      Effect.reservedOnly.syscall = false := by
  refine ⟨by decide, rfl, ?_, rfl⟩
  exact syscall_code_effect (by decide) (by decide) (by decide)

end MipsUcore.Isa
