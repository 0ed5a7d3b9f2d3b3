/-
The instruction set, as the MIPS32 architecture defines it.

This is the specification side: an instruction is a value of `Instr`,
`Instr.ofWord` reads one out of a word by the architecture's encoding
tables, and `Instr.effect` is its meaning, in the architecture's terms —
comparisons of signed numbers, a 64-bit signed product, an arithmetic
shift.

# What is listed

The instructions are those the README lists. A word is one of them when
its opcode and selector fields (`funct`, with the shift amount zero for
everything but the three immediate shifts; `rt` under REGIMM; `rs` under
COP0) say so; `tlbwi` and `eret` are single words, and `syscall` has a
code of 20 bits that is the software's. Other fields an instruction does
not use are ignored, except that `lui` is only listed with `rs = 0`, as
the architecture has it.

# Loads

A byte access returns a byte. How the bus puts it on 32 wires is not the
architecture's business: `Env.byteAt` is a byte, `Env.wordAt` a word.
-/
import MipsUcore.Cpu.Defines

namespace MipsUcore.Isa

open Cpu

-- ===== instructions

/-- Three-register arithmetic and logic. -/
inductive AluFn where
  | addu | subu | slt | sltu | and | or | xor | nor
  deriving DecidableEq

/-- Register-immediate arithmetic and logic. -/
inductive ImmFn where
  | addiu | slti | sltiu | andi | ori | xori
  deriving DecidableEq

/-- Shifts. -/
inductive ShiftFn where
  | sll | srl | sra
  deriving DecidableEq

/-- Branch conditions. -/
inductive CmpFn where
  | beq | bne | bgez | bgtz | blez | bltz
  deriving DecidableEq

/-- Loads. -/
inductive LoadFn where
  | lb | lbu | lw
  deriving DecidableEq

/-- The listed instructions, operands in the order the fields have in the
word. -/
inductive Instr where
  | alu (f : AluFn) (rs rt rd : RegAddr)
  | aluImm (f : ImmFn) (rs rt : RegAddr) (immediate : BitVec 16)
  | lui (rt : RegAddr) (immediate : BitVec 16)
  | shift (f : ShiftFn) (rt rd : RegAddr) (sa : BitVec 5)
  | shiftVar (f : ShiftFn) (rs rt rd : RegAddr)
  | mult (rs rt : RegAddr)
  | mfhi (rd : RegAddr)
  | mflo (rd : RegAddr)
  | mthi (rs : RegAddr)
  | mtlo (rs : RegAddr)
  | branch (f : CmpFn) (rs rt : RegAddr) (offset : BitVec 16)
  | j (index : BitVec 26)
  | jal (index : BitVec 26)
  | jr (rs : RegAddr)
  | jalr (rs rd : RegAddr)
  | load (f : LoadFn) (base rt : RegAddr) (offset : BitVec 16)
  | sb (base rt : RegAddr) (offset : BitVec 16)
  | sw (base rt : RegAddr) (offset : BitVec 16)
  | mfc0 (rt rd : RegAddr)
  | mtc0 (rt rd : RegAddr)
  | tlbwi
  | eret
  | syscall
  deriving DecidableEq

-- ===== encoding

/-- The SPECIAL table, for a zero shift amount field. -/
def specialOf (w : Word) : Option Instr :=
  match funct w with
  | 0b100001#6 => some (.alu .addu (rs w) (rt w) (rd w))
  | 0b100011#6 => some (.alu .subu (rs w) (rt w) (rd w))
  | 0b101010#6 => some (.alu .slt (rs w) (rt w) (rd w))
  | 0b101011#6 => some (.alu .sltu (rs w) (rt w) (rd w))
  | 0b100100#6 => some (.alu .and (rs w) (rt w) (rd w))
  | 0b100101#6 => some (.alu .or (rs w) (rt w) (rd w))
  | 0b100110#6 => some (.alu .xor (rs w) (rt w) (rd w))
  | 0b100111#6 => some (.alu .nor (rs w) (rt w) (rd w))
  | 0b000100#6 => some (.shiftVar .sll (rs w) (rt w) (rd w))
  | 0b000110#6 => some (.shiftVar .srl (rs w) (rt w) (rd w))
  | 0b000111#6 => some (.shiftVar .sra (rs w) (rt w) (rd w))
  | 0b011000#6 => some (.mult (rs w) (rt w))
  | 0b010000#6 => some (.mfhi (rd w))
  | 0b010010#6 => some (.mflo (rd w))
  | 0b010001#6 => some (.mthi (rs w))
  | 0b010011#6 => some (.mtlo (rs w))
  | 0b001000#6 => some (.jr (rs w))
  | 0b001001#6 => some (.jalr (rs w) (rd w))
  | _ => none

/-- The immediate shifts, which have a zero `rs` field. -/
def shiftOf (w : Word) : Option Instr :=
  match funct w with
  | 0b000000#6 => some (.shift .sll (rt w) (rd w) (sa w))
  | 0b000010#6 => some (.shift .srl (rt w) (rd w) (sa w))
  | 0b000011#6 => some (.shift .sra (rt w) (rd w) (sa w))
  | _ => none

/-- The REGIMM table. -/
def regimmOf (w : Word) : Option Instr :=
  match rt w with
  | 0b00001#5 => some (.branch .bgez (rs w) (rt w) (imm w))
  | 0b00000#5 => some (.branch .bltz (rs w) (rt w) (imm w))
  | _ => none

/-- The COP0 table. -/
def cop0Of (w : Word) : Option Instr :=
  if w = 0x42000002#32 then some .tlbwi
  else if w = 0x42000018#32 then some .eret
  else
    match rs w with
    | 0b00000#5 => some (.mfc0 (rt w) (rd w))
    | 0b00100#5 => some (.mtc0 (rt w) (rd w))
    | _ => none

/-- The instruction a word encodes. -/
def Instr.ofWord (w : Word) : Option Instr :=
  match opcode w with
  | 0b000000#6 =>
    if funct w = 0b001100#6 then some .syscall
    else
      (if rs w = 0#5 then shiftOf w else none).or
        (if sa w = 0#5 then specialOf w else none)
  | 0b000001#6 => regimmOf w
  | 0b000010#6 => some (.j (instrIndex w))
  | 0b000011#6 => some (.jal (instrIndex w))
  | 0b000100#6 => some (.branch .beq (rs w) (rt w) (imm w))
  | 0b000101#6 => some (.branch .bne (rs w) (rt w) (imm w))
  | 0b000110#6 => some (.branch .blez (rs w) (rt w) (imm w))
  | 0b000111#6 => some (.branch .bgtz (rs w) (rt w) (imm w))
  | 0b001001#6 => some (.aluImm .addiu (rs w) (rt w) (imm w))
  | 0b001010#6 => some (.aluImm .slti (rs w) (rt w) (imm w))
  | 0b001011#6 => some (.aluImm .sltiu (rs w) (rt w) (imm w))
  | 0b001100#6 => some (.aluImm .andi (rs w) (rt w) (imm w))
  | 0b001101#6 => some (.aluImm .ori (rs w) (rt w) (imm w))
  | 0b001110#6 => some (.aluImm .xori (rs w) (rt w) (imm w))
  | 0b001111#6 => if rs w = 0#5 then some (.lui (rt w) (imm w)) else none
  | 0b010000#6 => cop0Of w
  | 0b100000#6 => some (.load .lb (rs w) (rt w) (imm w))
  | 0b100100#6 => some (.load .lbu (rs w) (rt w) (imm w))
  | 0b100011#6 => some (.load .lw (rs w) (rt w) (imm w))
  | 0b101000#6 => some (.sb (rs w) (rt w) (imm w))
  | 0b101011#6 => some (.sw (rs w) (rt w) (imm w))
  | _ => none

-- ===== meaning

/-- What an instruction can read: the registers, the memory. Register 0
is 0. -/
structure Env where
  gpr : RegAddr → Word
  gpr_zero : gpr 0#5 = 0
  hi : Word
  lo : Word
  cp0 : RegAddr → Word
  byteAt : Word → BitVec 8
  wordAt : Word → Word

/-- A memory access: direction, size (`true` is a word), address, and
the data register of a store. -/
structure Access where
  write : Bool
  word : Bool
  address : Word
  data : Word
  deriving DecidableEq

/-- Everything an instruction asserts. `jump` is the target of a taken
branch. -/
structure Effect where
  reg : Option (RegAddr × Word)
  hi : Option Word
  lo : Option Word
  cp0 : Option (RegAddr × Word)
  access : Option Access
  jump : Option Word
  privileged : Bool
  tlbwi : Bool
  syscall : Bool
  eret : Bool
  reserved : Bool
  deriving DecidableEq

/-- No effect. -/
def Effect.none : Effect :=
  ⟨.none, .none, .none, .none, .none, .none, false, false, false, false,
    false⟩

/-- A general register written, and nothing else. -/
def Effect.writes (r : RegAddr) (v : Word) : Effect :=
  { Effect.none with reg := some (r, v) }

/-- The reserved-instruction flag and nothing else. -/
def Effect.reservedOnly : Effect := { Effect.none with reserved := true }

/-- `a` op `b`. -/
def AluFn.eval (f : AluFn) (a b : Word) : Word :=
  match f with
  | .addu => a + b
  | .subu => a - b
  | .slt => if a.toInt < b.toInt then 1 else 0
  | .sltu => if a.toNat < b.toNat then 1 else 0
  | .and => a &&& b
  | .or => a ||| b
  | .xor => a ^^^ b
  | .nor => ~~~(a ||| b)

/-- Arithmetic immediates are sign-extended, logical ones zero-extended. -/
def ImmFn.eval (f : ImmFn) (a : Word) (i : BitVec 16) : Word :=
  match f with
  | .addiu => a + i.signExtend 32
  | .slti => if a.toInt < i.toInt then 1 else 0
  | .sltiu => if a.toNat < (i.signExtend 32).toNat then 1 else 0
  | .andi => a &&& i.zeroExtend 32
  | .ori => a ||| i.zeroExtend 32
  | .xori => a ^^^ i.zeroExtend 32

/-- Shift `a` by `n` places. -/
def ShiftFn.eval (f : ShiftFn) (a : Word) (n : Nat) : Word :=
  match f with
  | .sll => a <<< n
  | .srl => a >>> n
  | .sra => a.sshiftRight n

/-- The signed 64-bit product. -/
def product (a b : Word) : BitVec 64 := BitVec.ofInt 64 (a.toInt * b.toInt)

/-- Is the branch taken? -/
def CmpFn.holds (f : CmpFn) (a b : Word) : Bool :=
  match f with
  | .beq => a = b
  | .bne => a ≠ b
  | .bgez => 0 ≤ a.toInt
  | .bgtz => 0 < a.toInt
  | .blez => a.toInt ≤ 0
  | .bltz => a.toInt < 0

/-- Branch targets are relative to the delay slot, in words. -/
def branchTo (pc : Word) (offset : BitVec 16) : Word :=
  pc + 4#32 + (offset.signExtend 32 <<< 2)

/-- Jump targets stay in the 256 MB region of the delay slot. -/
def jumpTo (pc : Word) (index : BitVec 26) : Word :=
  ((pc + 4#32) &&& 0xf0000000#32) ||| (index.zeroExtend 32 <<< 2)

/-- The value a load returns for the data at its address. -/
def LoadFn.value (f : LoadFn) (e : Env) (address : Word) : Word :=
  match f with
  | .lb => (e.byteAt address).signExtend 32
  | .lbu => (e.byteAt address).zeroExtend 32
  | .lw => e.wordAt address

/-- Base plus sign-extended offset. -/
def effectiveAddress (e : Env) (base : RegAddr) (offset : BitVec 16) :
    Word :=
  e.gpr base + offset.signExtend 32

/-- The meaning of an instruction at address `pc`. -/
def Instr.effect (i : Instr) (pc : Word) (e : Env) : Effect :=
  match i with
  | .alu f rs rt rd => .writes rd (f.eval (e.gpr rs) (e.gpr rt))
  | .aluImm f rs rt i => .writes rt (f.eval (e.gpr rs) i)
  | .lui rt i => .writes rt (i.zeroExtend 32 <<< 16)
  | .shift f rt rd sa => .writes rd (f.eval (e.gpr rt) sa.toNat)
  | .shiftVar f rs rt rd =>
    .writes rd (f.eval (e.gpr rt) ((e.gpr rs).toNat % 32))
  | .mult rs rt =>
    { Effect.none with
      hi := some ((product (e.gpr rs) (e.gpr rt)).extractLsb' 32 32)
      lo := some ((product (e.gpr rs) (e.gpr rt)).extractLsb' 0 32) }
  | .mfhi rd => .writes rd e.hi
  | .mflo rd => .writes rd e.lo
  | .mthi rs => { Effect.none with hi := some (e.gpr rs) }
  | .mtlo rs => { Effect.none with lo := some (e.gpr rs) }
  | .branch f rs rt offset =>
    { Effect.none with
      jump := if f.holds (e.gpr rs) (e.gpr rt) then some (branchTo pc offset)
        else .none }
  | .j index => { Effect.none with jump := some (jumpTo pc index) }
  | .jal index =>
    { Effect.none with
      reg := some (31, pc + 8), jump := some (jumpTo pc index) }
  | .jr rs => { Effect.none with jump := some (e.gpr rs) }
  | .jalr rs rd =>
    { Effect.none with reg := some (rd, pc + 8), jump := some (e.gpr rs) }
  | .load f base rt offset =>
    { Effect.none with
      reg := some (rt, f.value e (effectiveAddress e base offset))
      access := some ⟨false, f = .lw, effectiveAddress e base offset, 0⟩ }
  | .sb base rt offset =>
    { Effect.none with
      access := some ⟨true, false, effectiveAddress e base offset,
        e.gpr rt⟩ }
  | .sw base rt offset =>
    { Effect.none with
      access := some ⟨true, true, effectiveAddress e base offset,
        e.gpr rt⟩ }
  | .mfc0 rt rd =>
    { Effect.none with reg := some (rt, e.cp0 rd), privileged := true }
  | .mtc0 rt rd =>
    { Effect.none with cp0 := some (rd, e.gpr rt), privileged := true }
  | .tlbwi => { Effect.none with tlbwi := true, privileged := true }
  | .eret => { Effect.none with eret := true, privileged := true }
  | .syscall => { Effect.none with syscall := true }

end MipsUcore.Isa
