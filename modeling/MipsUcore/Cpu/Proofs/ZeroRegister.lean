/-
Reads of register 0.

`regfile` neither writes nor returns register 0, but an operand comes
from the register file only when no instruction in EX or MEM writes the
same number, and the forwarding comparison in `id` does not exclude
number 0. An instruction with destination field 0 and a non-zero result
therefore shows through for two instructions
(`zero_register_reads_five`).

`zero_reads_zero_iff` gives the exact extent: along any run, every read
of register 0 yields 0 if and only if, whenever ID reads it, the youngest
instruction in EX or MEM that writes number 0 computes 0.
-/
import MipsUcore.Cpu.Run

namespace MipsUcore.Cpu

open Machine

-- ===== one source for an operand

/-- A first operand that comes from a general register does not come
from CP0, HI or LO as well. -/
def Decoded.OneSource (d : Decoded) : Prop :=
  d.registerReadEnable1 = true →
    d.cpReadEnable = false ∧ d.hiReadEnable = false ∧ d.loReadEnable = false

theorem decodeSpecial_oneSource (pc w : Word) :
    (decodeSpecial pc w (.base w)).OneSource := by
  unfold decodeSpecial
  split <;> simp [Decoded.OneSource, Decoded.base, Decoded.alu, Decoded.jump]

theorem decodeCase_oneSource (pc w : Word) :
    (decodeCase pc w (.base w)).OneSource := by
  unfold decodeCase
  split
  case h_1 =>
    split
    · exact decodeSpecial_oneSource pc w
    · simp [Decoded.OneSource, Decoded.base]
  all_goals try split
  all_goals
    simp [Decoded.OneSource, Decoded.base, Decoded.aluImm, Decoded.jump,
      Decoded.load, Decoded.store]

theorem decodeShift_oneSource {w : Word} {d : Decoded} (h : d.OneSource) :
    (decodeShift w d).OneSource := by
  unfold decodeShift
  split
  · split <;> first | exact h | simp [Decoded.OneSource, Decoded.shiftImm]
  · exact h

/-- The whole-word matches leave the read enables alone. -/
theorem decode_oneSource (pc w : Word) : (decode pc w).OneSource := by
  have h := decodeShift_oneSource (w := w) (decodeCase_oneSource pc w)
  unfold decode decodeEret decodeSyscall decodeTlbwi
  revert h
  split <;> split <;> split <;> exact id

-- ===== reads

/-- The value the two forwarding stages put in front of register number
0: the result of the youngest instruction in EX or MEM that writes it. -/
def zeroForward (ex mem : Bypass) : Word :=
  if ex.writeRegister && ex.writeAddress == 0 then ex.writeData
  else if mem.writeRegister && mem.writeAddress == 0 then mem.writeData
  else 0

/-- ID reads register 0, as its first or its second operand. -/
def State.readsZero (s : State) : Bool :=
  (s.decoded.registerReadEnable1 && s.decoded.registerAddress1 == 0)
    || (s.decoded.registerReadEnable2 && s.decoded.registerAddress2 == 0)

/-- Both operands that are reads of register 0 are 0. -/
def State.ZeroReadsZero (s : State) (i : Input) : Prop :=
  i.Live →
    (s.decoded.registerReadEnable1 = true →
      s.decoded.registerAddress1 = 0 → s.idRegister1 i.cpuRomData = 0) ∧
    (s.decoded.registerReadEnable2 = true →
      s.decoded.registerAddress2 = 0 → s.idRegister2 i.cpuRomData = 0)

/-- While ID reads register 0, the youngest instruction in EX or MEM that
writes it, if there is one, computes 0. -/
def State.ZeroResultsZero (s : State) (i : Input) : Prop :=
  i.Live → s.readsZero = true →
    zeroForward s.exOut.bypass (s.memOut i.cpuRomData) = 0

/-- The register file returns 0 for number 0 whatever WB writes. -/
theorem Regfile.readData_zero (r : Regfile) (w : MemWb) (readEnable : Bool) :
    r.readData w readEnable 0 = 0 := if_pos rfl

theorem State.idRegister1_of_zero {s : State} (readResult : Word)
    (he : s.decoded.registerReadEnable1 = true)
    (ha : s.decoded.registerAddress1 = 0) : s.idRegister1 readResult
      = zeroForward s.exOut.bypass (s.memOut readResult) := by
  have hone : s.decoded.OneSource := decode_oneSource _ _
  obtain ⟨hc, hh, hl⟩ := hone he
  have hr : s.registerData1 = 0 := by
    unfold registerData1
    rw [ha]
    exact Regfile.readData_zero _ _ _
  simp [idRegister1, register1, zeroForward, hc, hh, hl, he, ha, hr]

theorem State.idRegister2_of_zero {s : State} (readResult : Word)
    (he : s.decoded.registerReadEnable2 = true)
    (ha : s.decoded.registerAddress2 = 0) : s.idRegister2 readResult
      = zeroForward s.exOut.bypass (s.memOut readResult) := by
  have hr : s.registerData2 = 0 := by
    unfold registerData2
    rw [ha]
    exact Regfile.readData_zero _ _ _
  simp [idRegister2, register2, zeroForward, he, ha, hr]

/-- In one state: a read of register 0 is the forwarded value. -/
theorem State.zeroReadsZero_iff (s : State) (i : Input) :
    s.ZeroReadsZero i ↔ s.ZeroResultsZero i := by
  constructor
  · intro h hlive hreads
    obtain ⟨h1, h2⟩ := h hlive
    simp only [readsZero, Bool.or_eq_true, Bool.and_eq_true,
      beq_iff_eq] at hreads
    obtain ⟨he, ha⟩ | ⟨he, ha⟩ := hreads
    · rw [← idRegister1_of_zero _ he ha]
      exact h1 he ha
    · rw [← idRegister2_of_zero _ he ha]
      exact h2 he ha
  · intro h hlive
    refine ⟨fun he ha => ?_, fun he ha => ?_⟩
    · rw [idRegister1_of_zero _ he ha]
      exact h hlive (by simp [readsZero, he, ha])
    · rw [idRegister2_of_zero _ he ha]
      exact h hlive (by simp [readsZero, he, ha])

/-- Along any run from reset, register 0 always reads as 0 if and only if
no read of it ever meets a non-zero result for it in EX or MEM. -/
theorem zero_reads_zero_iff (u : State) (serial : Bool) (is : List Input) :
    Along State.step State.ZeroReadsZero (u.boot serial) is ↔
      Along State.step State.ZeroResultsZero (u.boot serial) is := by
  have h : State.ZeroReadsZero = State.ZeroResultsZero := by
    funext s i
    exact propext (s.zeroReadsZero_iff i)
  rw [h]

/-- `addiu $0,$0,5` followed by `addu t0,$0,$0`: both operands of the
second instruction are 5. -/
theorem zero_register_reads_five :
    let s := State.zero.reached false (ticks [0, 0x24000005, 0x00004021])
    let i : Input := ⟨true, true, 0, false⟩
    s.decoded.registerReadEnable1 = true ∧
      s.decoded.registerAddress1 = 0 ∧ s.idRegister1 i.cpuRomData = 5 ∧
      s.idRegister2 i.cpuRomData = 5 ∧ ¬ s.ZeroReadsZero i := by
  intro s i
  have he : s.decoded.registerReadEnable1 = true := by decide +kernel
  have ha : s.decoded.registerAddress1 = 0 := by decide +kernel
  have h1 : s.idRegister1 i.cpuRomData = 5 := by decide +kernel
  have h2 : s.idRegister2 i.cpuRomData = 5 := by decide +kernel
  refine ⟨he, ha, h1, h2, fun h => ?_⟩
  have hzero := (h (by rfl)).1 he ha
  exact absurd hzero (by decide)

end MipsUcore.Cpu
