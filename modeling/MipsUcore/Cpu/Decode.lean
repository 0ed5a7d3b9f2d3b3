/-
Instruction decode: `id.v`.

# One always block, two functions

The decoder's first `always` block assigns every control output from the
instruction word, and three of them (`BranchFlag`, `BranchTarget`,
`NextInstructionInDelaySlot`) also from the operand values `Register1`
and `Register2`, which the second and third blocks select with the
read enables the first block has just produced. Nothing is circular in
the circuit, because the read enables never look at an operand; the
model makes the order explicit by splitting the block by output:
`decode` is everything that reads the word alone, `branch` the three
outputs that read the operands, `register1`/`register2` the muxes in
between.

# Assignment order

The block is a `case` on the opcode followed by three groups of
assignments that override it: the shift-immediate group and the three
whole-word matches for `tlbwi`, `syscall` and `eret`. `decode` threads
one record through the same four layers in the same order.

All definitions are the `reset == 1` branch; what the registers take
while `reset == 0` is beside each register.
-/
import MipsUcore.Cpu.Defines

namespace MipsUcore.Cpu

-- ===== decoder outputs

/-- The outputs of `id` that depend on the word and its address only.
`validInstruction` keeps the source's name and its sense: it is 1 for a
word the decoder does NOT recognise. -/
structure Decoded where
  aluOperation : AluOp
  aluSel : AluSel
  writeAddress : RegAddr
  writeRegister : Bool
  validInstruction : Bool
  registerReadEnable1 : Bool
  registerReadEnable2 : Bool
  registerAddress1 : RegAddr
  registerAddress2 : RegAddr
  hiReadEnable : Bool
  loReadEnable : Bool
  immediate : Word
  writeHi : Bool
  writeLo : Bool
  linkAddress : Word
  instruction : BitVec 16
  cpAddress : RegAddr
  writeCPAddress : RegAddr
  cpReadEnable : Bool
  privilege : Bool
  tlbwi : Bool
  syscall : Bool
  eret : Bool
  deriving DecidableEq

/-- The defaults assigned before the `case` statement. -/
def Decoded.base (w : Word) : Decoded where
  aluOperation := .nop
  aluSel := .nop
  writeAddress := rd w
  writeRegister := false
  validInstruction := true
  registerReadEnable1 := false
  registerReadEnable2 := false
  registerAddress1 := rs w
  registerAddress2 := rt w
  hiReadEnable := false
  loReadEnable := false
  immediate := 0
  writeHi := false
  writeLo := false
  linkAddress := 0
  instruction := imm w
  cpAddress := 0
  writeCPAddress := 0
  cpReadEnable := false
  privilege := false
  tlbwi := false
  syscall := false
  eret := false

-- ===== the case statement

/-- Three-register operations: both sources read, `rd` written. -/
def Decoded.alu (d : Decoded) (op : AluOp) (sel : AluSel) : Decoded :=
  { d with
    writeRegister := true, aluOperation := op, aluSel := sel
    registerReadEnable1 := true, registerReadEnable2 := true
    validInstruction := false }

/-- Immediate operations: `rs` read, `rt` written. -/
def Decoded.aluImm (d : Decoded) (op : AluOp) (sel : AluSel)
    (immediate : Word) (dest : RegAddr) : Decoded :=
  { d with
    writeRegister := true, aluOperation := op, aluSel := sel
    registerReadEnable1 := true, registerReadEnable2 := false
    immediate := immediate, writeAddress := dest
    validInstruction := false }

/-- Branches: no register written, `rt` read by the two-register ones. -/
def Decoded.jump (d : Decoded) (op : AluOp) (read1 read2 : Bool) : Decoded :=
  { d with
    writeRegister := false, aluOperation := op, aluSel := .jumpBranch
    registerReadEnable1 := read1, registerReadEnable2 := read2
    validInstruction := false }

/-- Loads: `rs` read, `rt` written. -/
def Decoded.load (d : Decoded) (op : AluOp) (dest : RegAddr) : Decoded :=
  { d with
    writeRegister := true, aluOperation := op, aluSel := .loadStore
    registerReadEnable1 := true, registerReadEnable2 := false
    writeAddress := dest, validInstruction := false }

/-- Stores: both sources read, nothing written. -/
def Decoded.store (d : Decoded) (op : AluOp) : Decoded :=
  { d with
    writeRegister := false, aluOperation := op, aluSel := .loadStore
    registerReadEnable1 := true, registerReadEnable2 := true
    validInstruction := false }

/-- `case (IdInstruction[5:0])` under `EXE_SPECIAL_INST` with a zero
shift amount. -/
def decodeSpecial (pc w : Word) (d : Decoded) : Decoded :=
  match funct w with
  | 0b100101#6 => d.alu .or .logic
  | 0b100100#6 => d.alu .and .logic
  | 0b100110#6 => d.alu .xor .logic
  | 0b100111#6 => d.alu .nor .logic
  | 0b000100#6 => d.alu .sll .shift        -- sllv
  | 0b000110#6 => d.alu .srl .shift        -- srlv
  | 0b000111#6 => d.alu .sra .shift        -- srav
  | 0b010000#6 =>                          -- mfhi
    { d with
      writeRegister := true, aluOperation := .mfhi, aluSel := .move
      registerReadEnable1 := false, registerReadEnable2 := false
      validInstruction := false, hiReadEnable := true }
  | 0b010010#6 =>                          -- mflo
    { d with
      writeRegister := true, aluOperation := .mflo, aluSel := .move
      registerReadEnable1 := false, registerReadEnable2 := false
      validInstruction := false, loReadEnable := true }
  | 0b010001#6 =>                          -- mthi
    { d with
      writeRegister := false, aluOperation := .mthi
      registerReadEnable1 := true, registerReadEnable2 := false
      validInstruction := false, writeHi := true }
  | 0b010011#6 =>                          -- mtlo
    { d with
      writeRegister := false, aluOperation := .mtlo
      registerReadEnable1 := true, registerReadEnable2 := false
      validInstruction := false, writeLo := true }
  | 0b101010#6 => d.alu .slt .arithmetic
  | 0b101011#6 => d.alu .sltu .arithmetic
  | 0b100001#6 => d.alu .addu .arithmetic
  | 0b100011#6 => d.alu .subu .arithmetic
  | 0b011000#6 =>                          -- mult
    { d with
      writeRegister := false, aluOperation := .mult
      registerReadEnable1 := true, registerReadEnable2 := true
      validInstruction := false, writeHi := true, writeLo := true }
  | 0b001000#6 => { d.jump .jr true false with linkAddress := 0 }
  | 0b001001#6 =>                          -- jalr
    { d.jump .jalr true false with
      writeRegister := true, writeAddress := rd w, linkAddress := pc + 8 }
  | _ => d

/-- `case (IdInstruction[31:26])`. -/
def decodeCase (pc w : Word) (d : Decoded) : Decoded :=
  match opcode w with
  | 0b000000#6 =>                          -- EXE_SPECIAL_INST
    match sa w with
    | 0#5 => decodeSpecial pc w d
    | _ => d
  | 0b001101#6 => d.aluImm .or .logic ((imm w).setWidth 32) (rt w)
  | 0b001100#6 => d.aluImm .and .logic ((imm w).setWidth 32) (rt w)
  | 0b001110#6 => d.aluImm .xor .logic ((imm w).setWidth 32) (rt w)
  | 0b001111#6 =>                          -- lui
    d.aluImm .or .logic (imm w ++ 0#16) (rt w)
  | 0b001010#6 =>                          -- slti
    d.aluImm .slt .arithmetic ((imm w).signExtend 32) (rt w)
  | 0b001011#6 =>                          -- sltiu
    d.aluImm .sltu .arithmetic ((imm w).signExtend 32) (rt w)
  | 0b001001#6 =>                          -- addiu
    d.aluImm .addiu .arithmetic ((imm w).signExtend 32) (rt w)
  | 0b000010#6 => { d.jump .j false false with linkAddress := 0 }
  | 0b000011#6 =>                          -- jal
    { d.jump .jal false false with
      writeRegister := true, writeAddress := 31, linkAddress := pc + 8 }
  | 0b000100#6 => d.jump .beq true true
  | 0b000111#6 => d.jump .bgtz true false
  | 0b000110#6 => d.jump .blez true false
  | 0b000101#6 => d.jump .blez true true   -- bne, under EXE_BLEZ_OP
  | 0b000001#6 =>                          -- EXE_REGimmediate_INST
    match rt w with
    | 0b00001#5 => d.jump .bgez true false
    | 0b00000#5 => d.jump .bgezal true false
    | _ => d
  | 0b100000#6 => d.load .lb (rt w)
  | 0b100100#6 => d.load .lbu (rt w)
  | 0b100011#6 => d.load .lw (rt w)
  | 0b101000#6 => d.store .sb
  | 0b101011#6 => d.store .sw
  | 0b010000#6 =>                          -- EXE_CP
    match rs w with
    | 0b00100#5 =>                         -- mtc0
      { d with
        writeRegister := false, aluOperation := .mtc0, aluSel := .move
        validInstruction := false, writeCPAddress := rd w
        registerReadEnable1 := true, registerAddress1 := rt w
        registerReadEnable2 := false, privilege := true }
    | 0b00000#5 =>                         -- mfc0
      { d with
        writeRegister := true, writeAddress := rt w
        aluOperation := .mfc0, aluSel := .move
        validInstruction := false, cpReadEnable := true
        cpAddress := rd w, registerReadEnable1 := false
        registerReadEnable2 := false, privilege := true }
    | _ => d
  | _ => d

-- ===== the overriding groups

/-- One arm of the shift-immediate group; only the low five bits of
`immediate` are assigned there. -/
def Decoded.shiftImm (d : Decoded) (op : AluOp) (w : Word) : Decoded :=
  { d with
    writeRegister := true, aluOperation := op, aluSel := .shift
    registerReadEnable1 := false, registerReadEnable2 := true
    immediate := d.immediate.extractLsb' 5 27 ++ sa w
    writeAddress := rd w, validInstruction := false }

/-- `if (IdInstruction[31:21] == 11'b0)`: `sll`, `srl`, `sra`. -/
def decodeShift (w : Word) (d : Decoded) : Decoded :=
  if w.extractLsb' 21 11 = 0#11 then
    match funct w with
    | 0b000000#6 => d.shiftImm .sll w
    | 0b000010#6 => d.shiftImm .srl w
    | 0b000011#6 => d.shiftImm .sra w
    | _ => d
  else d

/-- The whole-word match for `tlbwi`. -/
def decodeTlbwi (w : Word) (d : Decoded) : Decoded :=
  if w = 0b01000010000000000000000000000010#32 then
    { d with tlbwi := true, validInstruction := false, privilege := true }
  else { d with tlbwi := false }

/-- The whole-word match for `syscall`. -/
def decodeSyscall (w : Word) (d : Decoded) : Decoded :=
  if w = 0b00000000000000000000000000001100#32 then
    { d with syscall := true, validInstruction := false, privilege := false }
  else { d with syscall := false }

/-- The whole-word match for `eret`. -/
def decodeEret (w : Word) (d : Decoded) : Decoded :=
  if w = 0b01000010000000000000000000011000#32 then
    { d with eret := true, validInstruction := false, privilege := true }
  else { d with eret := false }

/-- The operand-independent outputs of `id`. -/
def decode (pc w : Word) : Decoded :=
  decodeEret w <| decodeSyscall w <| decodeTlbwi w <| decodeShift w <|
    decodeCase pc w (.base w)

-- ===== branches

/-- `BranchFlag`, `BranchTarget` and `NextInstructionInDelaySlot`. -/
structure BranchOut where
  branchFlag : Bool
  branchTarget : Word
  nextInstructionInDelaySlot : Bool
  deriving DecidableEq

/-- The default assignment: no branch. -/
def BranchOut.notTaken : BranchOut := ⟨false, 0, false⟩

/-- A branch to `target` when `c` holds. -/
def BranchOut.when (c : Bool) (target : Word) : BranchOut :=
  if c then ⟨true, target, true⟩ else .notTaken

/-- `PCPlus4 + JumpOffset`. -/
def branchTarget (pc w : Word) : Word :=
  pc + 4 + ((imm w).signExtend 30 ++ 0#2)

/-- `{PCPlus4[31:28], IdInstruction[25:0], 2'b00}`. -/
def jumpTarget (pc w : Word) : Word :=
  (pc + 4).extractLsb' 28 4 ++ instrIndex w ++ 0#2

/-- The branch outputs of the decoder's `case` statement, as a function
of the operands the muxes below select. -/
def branch (pc w register1 register2 : Word) : BranchOut :=
  match opcode w with
  | 0b000000#6 =>
    match sa w with
    | 0#5 =>
      match funct w with
      | 0b001000#6 => .when true register1 -- jr
      | 0b001001#6 => .when true register1 -- jalr
      | _ => .notTaken
    | _ => .notTaken
  | 0b000010#6 => .when true (jumpTarget pc w)
  | 0b000011#6 => .when true (jumpTarget pc w)
  | 0b000100#6 =>                          -- beq
    .when (register1 == register2) (branchTarget pc w)
  | 0b000111#6 =>                          -- bgtz
    .when (!register1.msb && register1 != 0) (branchTarget pc w)
  | 0b000110#6 =>                          -- blez
    .when (register1.msb || register1 == 0) (branchTarget pc w)
  | 0b000101#6 =>                          -- bne
    .when (register1 != register2) (branchTarget pc w)
  | 0b000001#6 =>
    match rt w with
    | 0b00001#5 => .when (!register1.msb) (branchTarget pc w)
    | 0b00000#5 => .when register1.msb (branchTarget pc w)
    | _ => .notTaken
  | _ => .notTaken

-- ===== operand muxes

/-- What a later stage offers the decoder: the `Ex*In`/`Mem*In` inputs
of `id`, the same ten signals from either stage. -/
structure Bypass where
  writeRegister : Bool
  writeData : Word
  writeAddress : RegAddr
  writeHi : Bool
  hiData : Word
  writeLo : Bool
  loData : Word
  writeCP : Bool
  writeCPAddress : RegAddr
  writeCPData : Word
  deriving DecidableEq

/-- `Register1`: CP0, HI, LO, a general register or the immediate, the
youngest bypass first. -/
def register1 (d : Decoded) (ex mem : Bypass)
    (registerData1 cpData hi lo : Word) : Word :=
  if d.cpReadEnable then
    if ex.writeCP && ex.writeCPAddress == d.cpAddress then ex.writeCPData
    else if mem.writeCP && mem.writeCPAddress == d.cpAddress then
      mem.writeCPData
    else cpData
  else if d.hiReadEnable then
    if ex.writeHi then ex.hiData
    else if mem.writeHi then mem.hiData
    else hi
  else if d.loReadEnable then
    if ex.writeLo then ex.loData
    else if mem.writeLo then mem.loData
    else lo
  else if d.registerReadEnable1 && ex.writeRegister
      && ex.writeAddress == d.registerAddress1 then ex.writeData
  else if d.registerReadEnable1 && mem.writeRegister
      && mem.writeAddress == d.registerAddress1 then mem.writeData
  else if d.registerReadEnable1 then registerData1
  else d.immediate

/-- `Register2`: a general register or the immediate. -/
def register2 (d : Decoded) (ex mem : Bypass) (registerData2 : Word) : Word :=
  if d.registerReadEnable2 && ex.writeRegister
      && ex.writeAddress == d.registerAddress2 then ex.writeData
  else if d.registerReadEnable2 && mem.writeRegister
      && mem.writeAddress == d.registerAddress2 then mem.writeData
  else if d.registerReadEnable2 then registerData2
  else d.immediate

/-- `PauseRequest`: the load-use interlock. `ExIsLoad` is also raised by
stores, and the destination is compared whether or not it is written. -/
def pauseRequest (d : Decoded) (exIsLoad : Bool) (exWriteAddress : RegAddr) :
    Bool :=
  if exIsLoad then
    if d.registerReadEnable1 && exWriteAddress == d.registerAddress1 then true
    else d.registerReadEnable2 && exWriteAddress == d.registerAddress2
  else false

end MipsUcore.Cpu
