/-
Execution: `id_ex.v` and `ex.v`.

`ex` is five independent combinational blocks over the `id_ex` register:
the ALU result, the multiplier, the HI/LO write, the CP0 write and the
memory request. Each is its own definition, and `ex` collects them with
the signals that pass straight through.
-/
import MipsUcore.Cpu.Decode

namespace MipsUcore.Cpu

-- ===== id_ex

/-- The registers of `id_ex`. -/
structure IdEx where
  exALUOperation : AluOp
  exALUSel : AluSel
  exRegister1 : Word
  exRegister2 : Word
  exWriteAddress : RegAddr
  exWriteRegister : Bool
  exWriteHi : Bool
  exWriteLo : Bool
  exWriteCPAddress : RegAddr
  exLinkAddress : Word
  exIsInDelaySlot : Bool
  exInstruction : BitVec 16
  extlbwi : Bool
  exsyscall : Bool
  exeret : Bool
  exprivilege : Bool
  exValidInstruction : Bool
  pcTLBMissOut : Bool
  exPC : Word
  deriving DecidableEq

/-- The empty instruction the reset, flush and stall branches insert:
all zero except its address and its delay-slot bit. -/
def IdEx.bubble (pc : Word) (isInDelaySlot : Bool) : IdEx where
  exALUOperation := .nop
  exALUSel := .nop
  exRegister1 := 0
  exRegister2 := 0
  exWriteAddress := 0
  exWriteRegister := false
  exWriteHi := false
  exWriteLo := false
  exWriteCPAddress := 0
  exLinkAddress := 0
  exIsInDelaySlot := isInDelaySlot
  exInstruction := 0
  extlbwi := false
  exsyscall := false
  exeret := false
  exprivilege := false
  exValidInstruction := false
  pcTLBMissOut := false
  exPC := pc

/-- The decoder's outputs, latched with their operands. -/
def IdEx.latch (d : Decoded) (idRegister1 idRegister2 idPC : Word)
    (idIsInDelaySlot pcTLBMiss : Bool) : IdEx where
  exALUOperation := d.aluOperation
  exALUSel := d.aluSel
  exRegister1 := idRegister1
  exRegister2 := idRegister2
  exWriteAddress := d.writeAddress
  exWriteRegister := d.writeRegister
  exWriteHi := d.writeHi
  exWriteLo := d.writeLo
  exWriteCPAddress := d.writeCPAddress
  exLinkAddress := d.linkAddress
  exIsInDelaySlot := idIsInDelaySlot
  exInstruction := d.instruction
  extlbwi := d.tlbwi
  exsyscall := d.syscall
  exeret := d.eret
  exprivilege := d.privilege
  exValidInstruction := d.validInstruction
  pcTLBMissOut := pcTLBMiss
  exPC := idPC

def IdEx.reset : IdEx := .bubble 0 false

/-- One clock edge of `id_ex`. A stall inserts an empty instruction that
carries the address and delay-slot bit of the instruction held in ID. -/
def IdEx.next (r : IdEx) (ready flush : Bool) (flushTarget : Word)
    (pauseSignal : Bool) (d : Decoded) (idRegister1 idRegister2 idPC : Word)
    (idIsInDelaySlot pcTLBMiss : Bool) : IdEx :=
  if !ready then r
  else if flush then .bubble flushTarget false
  else if pauseSignal then .bubble idPC idIsInDelaySlot
  else .latch d idRegister1 idRegister2 idPC idIsInDelaySlot pcTLBMiss

-- ===== ALU

/-- `RegisterConverter`: the subtrahend of `subu` and `slt` is negated. -/
def registerConverter (op : AluOp) (register2 : Word) : Word :=
  if op = .subu ∨ op = .slt then ~~~register2 + 1 else register2

def sumResult (op : AluOp) (register1 register2 : Word) : Word :=
  register1 + registerConverter op register2

/-- `SltResult`: sign analysis around the difference for `slt`, an
unsigned comparison otherwise. -/
def sltResult (op : AluOp) (register1 register2 : Word) : Bool :=
  if op = .slt then
    (register1.msb && !register2.msb)
      || (!register1.msb && !register2.msb
        && (sumResult op register1 register2).msb)
      || (register1.msb && register2.msb
        && (sumResult op register1 register2).msb)
  else register1.ult register2

/-- The shift amount `Register1[4:0]`. -/
def shiftAmount (register1 : Word) : Nat := (register1.extractLsb' 0 5).toNat

/-- `WriteDataOut`. The arithmetic shift ORs a sign mask, moved left by
`32 - sa`, over the logical shift. -/
def aluResult (sel : AluSel) (op : AluOp)
    (register1 register2 linkAddress : Word) : Word :=
  match sel with
  | .logic =>
    match op with
    | .or => register1 ||| register2
    | .and => register1 &&& register2
    | .nor => ~~~(register1 ||| register2)
    | .xor => register1 ^^^ register2
    | _ => 0
  | .shift =>
    match op with
    | .sll => register2 <<< shiftAmount register1
    | .srl => register2 >>> shiftAmount register1
    | .sra =>
      ((BitVec.fill 32 register2.msb) <<< (32 - shiftAmount register1))
        ||| (register2 >>> shiftAmount register1)
    | _ => 0
  | .move =>
    match op with
    | .mfhi => register1
    | .mflo => register1
    | .mfc0 => register1
    | _ => 0
  | .arithmetic =>
    match op with
    | .slt => (BitVec.ofBool (sltResult op register1 register2)).setWidth 32
    | .sltu => (BitVec.ofBool (sltResult op register1 register2)).setWidth 32
    | .addu => sumResult op register1 register2
    | .addiu => sumResult op register1 register2
    | .subu => sumResult op register1 register2
    | _ => 0
  | .jumpBranch => linkAddress
  | _ => 0

-- ===== multiplier

/-- `MultiplyElement1`/`MultiplyElement2`: the magnitude of an operand. -/
def multiplyElement (register : Word) : Word :=
  if register.msb then ~~~register + 1 else register

/-- `MultiplyUnsignedResult`, a 64-bit product. -/
def multiplyUnsignedResult (register1 register2 : Word) : BitVec 64 :=
  (multiplyElement register1).setWidth 64
    * (multiplyElement register2).setWidth 64

def multiplyResult (op : AluOp) (register1 register2 : Word) : BitVec 64 :=
  if op = .mult then
    if register1.msb ^^ register2.msb then
      ~~~(multiplyUnsignedResult register1 register2) + 1
    else multiplyUnsignedResult register1 register2
  else 0

/-- `WriteHiDataOut` and `WriteLoDataOut`. -/
def hiLoData (op : AluOp) (register1 register2 : Word) : Word × Word :=
  match op with
  | .mult =>
    ((multiplyResult op register1 register2).extractLsb' 32 32,
      (multiplyResult op register1 register2).extractLsb' 0 32)
  | .mthi => (register1, 0)
  | .mtlo => (0, register1)
  | _ => (0, 0)

-- ===== memory request

/-- The memory request `ex` raises, with the bookkeeping that goes with
it: whether it interlocks the decoder, how the loaded byte is extended,
and which privilege it needs. -/
structure RamRequest where
  ramAddress : Word
  ramWriteEnable : Bool
  ramData : Word
  ramDataSize : Bool
  ramReadEnable : Bool
  isLoad : Bool
  signExtend : Bool
  addressReadPrivilege : Bool
  addressWritePrivilege : Bool
  deriving DecidableEq

/-- The default arm: no request. -/
def RamRequest.idle : RamRequest :=
  ⟨0, false, 0, false, false, false, false, false, false⟩

/-- A load of the given size (`true` is a word) at `address`. -/
def RamRequest.load (address data : Word) (word signExtend : Bool) :
    RamRequest where
  ramAddress := address
  ramWriteEnable := false
  ramData := data
  ramDataSize := word
  ramReadEnable := true
  isLoad := true
  signExtend := signExtend
  addressReadPrivilege := address.msb
  addressWritePrivilege := false

/-- A store of the given size at `address`. `IsLoad` is raised too. -/
def RamRequest.store (address data : Word) (word : Bool) : RamRequest where
  ramAddress := address
  ramWriteEnable := true
  ramData := data
  ramDataSize := word
  ramReadEnable := false
  isLoad := true
  signExtend := false
  addressReadPrivilege := false
  addressWritePrivilege := address.msb

def memoryAddress (register1 : Word) (instruction : BitVec 16) : Word :=
  register1 + instruction.signExtend 32

/-- The last block of `ex`: one arm per memory operation. -/
def ramRequest (op : AluOp) (register1 register2 : Word)
    (instruction : BitVec 16) : RamRequest :=
  match op with
  | .lb => .load (memoryAddress register1 instruction) register2 false true
  | .lbu => .load (memoryAddress register1 instruction) register2 false false
  | .lw => .load (memoryAddress register1 instruction) register2 true false
  | .sb => .store (memoryAddress register1 instruction) register2 false
  | .sw => .store (memoryAddress register1 instruction) register2 true
  | _ => .idle

-- ===== ex

/-- The outputs of `ex`. -/
structure ExOut where
  writeData : Word
  writeAddress : RegAddr
  writeRegister : Bool
  hiData : Word
  writeHi : Bool
  loData : Word
  writeLo : Bool
  ram : RamRequest
  writeCP : Bool
  writeCPAddress : RegAddr
  writeCPData : Word
  isInDelaySlot : Bool
  tlbwi : Bool
  syscall : Bool
  eret : Bool
  privilege : Bool
  validInstruction : Bool
  pcTLBMiss : Bool
  currentPC : Word
  deriving DecidableEq

/-- Is the latched operation an `mtc0`? The condition of the CP0 block. -/
def IdEx.isMtc0 (r : IdEx) : Bool :=
  r.exALUSel == .move && r.exALUOperation == .mtc0

/-- The combinational module `ex`. -/
def ex (r : IdEx) : ExOut where
  writeData := aluResult r.exALUSel r.exALUOperation r.exRegister1
    r.exRegister2 r.exLinkAddress
  writeAddress := r.exWriteAddress
  writeRegister := r.exWriteRegister
  hiData := (hiLoData r.exALUOperation r.exRegister1 r.exRegister2).1
  writeHi := r.exWriteHi
  loData := (hiLoData r.exALUOperation r.exRegister1 r.exRegister2).2
  writeLo := r.exWriteLo
  ram := ramRequest r.exALUOperation r.exRegister1 r.exRegister2
    r.exInstruction
  writeCP := r.isMtc0
  writeCPAddress := if r.isMtc0 then r.exWriteCPAddress else 0
  writeCPData := if r.isMtc0 then r.exRegister1 else 0
  isInDelaySlot := r.exIsInDelaySlot
  tlbwi := r.extlbwi
  syscall := r.exsyscall
  eret := r.exeret
  privilege := r.exprivilege
  validInstruction := r.exValidInstruction
  pcTLBMiss := r.pcTLBMissOut
  currentPC := r.exPC

/-- The EX half of the decoder's bypass inputs. -/
def ExOut.bypass (x : ExOut) : Bypass where
  writeRegister := x.writeRegister
  writeData := x.writeData
  writeAddress := x.writeAddress
  writeHi := x.writeHi
  hiData := x.hiData
  writeLo := x.writeLo
  loData := x.loData
  writeCP := x.writeCP
  writeCPAddress := x.writeCPAddress
  writeCPData := x.writeCPData

end MipsUcore.Cpu
