/-
The vocabulary of the processor: machine words, the instruction fields
`id.v` slices out of a fetched word, and the enumerations `defines.v`
spells as bit constants.

# What is an enumeration and what stays a bit vector

`ALUOperation` and `ALUSel` are 8- and 3-bit codes that the source only
ever compares for equality, and the codes in use are pairwise distinct,
so they are inductive types here (`AluOp`, `AluSel`): a value outside
the table cannot be built. Opcode, function and register fields come
straight out of an instruction word, where every pattern can occur, so
they stay bit vectors and the decoder matches on literals.

The twelve writable CP0 registers are an enumeration too (`CpReg`). The
source gives each of them its own `writeN`/`writeNdata` port pair and
repeats the same two lines per port; the model indexes one definition
by the register. `count` is not in the enumeration: nothing writes it.
-/
import Mathlib.Data.BitVec

namespace MipsUcore.Cpu

/-- A 32-bit bus, register or instruction word. -/
abbrev Word := BitVec 32

/-- A general-purpose or CP0 register number as an instruction names it. -/
abbrev RegAddr := BitVec 5

-- ===== instruction fields

/-- `IdInstruction[31:26]`. -/
def opcode (w : Word) : BitVec 6 := w.extractLsb' 26 6

/-- `IdInstruction[25:21]`. -/
def rs (w : Word) : RegAddr := w.extractLsb' 21 5

/-- `IdInstruction[20:16]`. -/
def rt (w : Word) : RegAddr := w.extractLsb' 16 5

/-- `IdInstruction[15:11]`. -/
def rd (w : Word) : RegAddr := w.extractLsb' 11 5

/-- `IdInstruction[10:6]`. -/
def sa (w : Word) : BitVec 5 := w.extractLsb' 6 5

/-- `IdInstruction[5:0]`. -/
def funct (w : Word) : BitVec 6 := w.extractLsb' 0 6

/-- `IdInstruction[15:0]`. -/
def imm (w : Word) : BitVec 16 := w.extractLsb' 0 16

/-- `IdInstruction[25:0]`. -/
def instrIndex (w : Word) : BitVec 26 := w.extractLsb' 0 26

-- ===== operation codes

/-- The `EXE_*_OP` codes the decoder emits. `bne` reuses `EXE_BLEZ_OP`
and `bltz` emits `EXE_BGEZAL_OP`, so there is no code for either. -/
inductive AluOp where
  | nop
  | and | or | xor | nor
  | sll | srl | sra
  | mfhi | mthi | mflo | mtlo
  | slt | sltu | addu | subu | addiu
  | mult
  | j | jal | jalr | jr
  | beq | bgez | bgtz | bgezal | blez
  | lb | lbu | lw | sb | sw
  | mfc0 | mtc0
  deriving DecidableEq

/-- The `EXE_RES_*` result selectors the decoder emits. -/
inductive AluSel where
  | nop | logic | shift | move | arithmetic | jumpBranch | loadStore
  deriving DecidableEq

-- ===== CP0 registers

/-- The CP0 registers with a write port, named as in `cp.v`. -/
inductive CpReg where
  | index0 | entryLo02 | entryLo13 | badaddr8 | entryHi10 | compare11
  | status12 | cause13 | epc14 | ebase15 | watchLo18 | watchHi19
  deriving DecidableEq

/-- The register number each write port of `mem_wb` answers to (the
`case(WriteCPAddress)` there); `none` is its empty default arm. -/
def CpReg.ofAddress (a : RegAddr) : Option CpReg :=
  match a with
  | 0#5 => some .index0
  | 2#5 => some .entryLo02
  | 3#5 => some .entryLo13
  | 8#5 => some .badaddr8
  | 10#5 => some .entryHi10
  | 11#5 => some .compare11
  | 12#5 => some .status12
  | 13#5 => some .cause13
  | 14#5 => some .epc14
  | 15#5 => some .ebase15
  | 18#5 => some .watchLo18
  | 19#5 => some .watchHi19
  | _ => none

end MipsUcore.Cpu
