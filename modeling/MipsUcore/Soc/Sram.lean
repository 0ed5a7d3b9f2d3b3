/-
The RAM controller: `sram.v`, and the chip behind its pins.

A request is taken at a clock with `Hselect == 1 && ready == 1`; its data
phase are the clocks after it. A read has one, a word write three and a
byte write four: a byte write reads the word, merges the byte into it and
writes the word back. `Hready` is low in all of them but the last.

# The chip

The chip is a parameter of the board, not part of the source: a word is
driven on the data pins while `EN`, `OE` are low and `WE` is high, and
the word on the data pins is stored at a clock with `EN`, `WE` low. While
neither side drives the data pins their value is whatever the clock's
input says.

# Byte lanes

The chip stores words; the controller is little-endian: lane `k` of a
word is its byte at bit `8 * k`.
-/
import MipsUcore.Cpu.Defines
import MipsUcore.Lib.Bits
import MipsUcore.Soc.SerialPort

namespace MipsUcore.Soc

open Cpu (Word)

-- ===== byte lanes

/-- The byte at a lane. -/
def byteAt (lane : BitVec 2) (w : Word) : Byte :=
  match lane with
  | 0#2 => w.extractLsb' 0 8
  | 1#2 => w.extractLsb' 8 8
  | 2#2 => w.extractLsb' 16 8
  | _ => w.extractLsb' 24 8

/-- The word with the byte at a lane replaced: the merge of
`WriteByte1`. -/
def mergeByte (lane : BitVec 2) (w : Word) (b : Byte) : Word :=
  match lane with
  | 0#2 => w.extractLsb' 8 24 ++ b
  | 1#2 => w.extractLsb' 16 16 ++ b ++ w.extractLsb' 0 8
  | 2#2 => w.extractLsb' 24 8 ++ b ++ w.extractLsb' 0 16
  | _ => b ++ w.extractLsb' 0 24

/-- The four lanes. -/
theorem lane_cases (k : BitVec 2) : k = 0#2 ∨ k = 1#2 ∨ k = 2#2 ∨ k = 3#2 := by
  revert k
  decide

theorem byteAt_mergeByte_same (k : BitVec 2) (w : Word) (b : Byte) :
    byteAt k (mergeByte k w b) = b := by
  apply BitVec.eq_of_getLsbD_eq
  intro i hi
  rcases lane_cases k with rfl | rfl | rfl | rfl <;>
    simp only [byteAt, mergeByte, BitVec.getLsbD_extractLsb',
      BitVec.getLsbD_append] <;> grind

theorem byteAt_mergeByte_ne {k l : BitVec 2} (h : l ≠ k) (w : Word)
    (b : Byte) : byteAt l (mergeByte k w b) = byteAt l w := by
  apply BitVec.eq_of_getLsbD_eq
  intro i hi
  rcases lane_cases k with rfl | rfl | rfl | rfl <;>
    rcases lane_cases l with rfl | rfl | rfl | rfl <;>
    simp only [byteAt, mergeByte, BitVec.getLsbD_extractLsb',
      BitVec.getLsbD_append] <;> grind

/-- A word is its four bytes, the lowest last. -/
theorem append_byteAt (w : Word) :
    byteAt 3#2 w ++ byteAt 2#2 w ++ byteAt 1#2 w ++ byteAt 0#2 w = w := by
  apply BitVec.eq_of_getLsbD_eq
  intro i hi
  simp only [byteAt, BitVec.getLsbD_append, BitVec.getLsbD_extractLsb']
  grind

-- ===== the controller

/-- The states of `sram`. -/
inductive SramState
  | idle
  | readWord
  | readByte
  | writeWord1
  | writeWord2
  | writeWord3
  | writeByte1
  | writeByte2
  | writeByte3
  | writeByte4
  deriving DecidableEq, Repr

/-- The registers of `sram`. -/
structure Sram where
  state : SramState
  hwritedataTemp : Word
  haddressTemp : BitVec 22

/-- What the bus presents to `sram` at one clock edge. -/
structure SramInput where
  hselect : Bool
  hwrite : Bool
  hsize : Bool
  hwritedata : Word
  haddress : BitVec 22

/-- The pins: the three enables are active low, `control` says that the
controller drives the data pins, with `dataTemp`. -/
structure SramPins where
  ram1OE : Bool
  ram1WE : Bool
  ram1EN : Bool
  control : Bool
  ram1Address : BitVec 20
  dataTemp : Word

/-- The contents of the chip. -/
abbrev Chip := BitVec 20 → Word

/-- The value on the data pins; `floating` is read when nobody drives
them. -/
def SramPins.data (p : SramPins) (chip : Chip) (floating : Word) : Word :=
  if p.control then p.dataTemp
  else if !p.ram1EN && !p.ram1OE && p.ram1WE then chip p.ram1Address
  else floating

/-- The store the chip makes at the end of a clock. -/
def SramPins.store (p : SramPins) (chip : Chip) (floating : Word) :
    Option (BitVec 20 × Word) :=
  if !p.ram1EN && !p.ram1WE then
    some (p.ram1Address, p.data chip floating)
  else none

/-- The chip with a store made. -/
def Chip.perform (chip : Chip) : Option (BitVec 20 × Word) → Chip
  | none => chip
  | some (a, w) => Function.update chip a w

namespace Sram

/-- The word of the chip the latched address lies in. -/
def wordAddress (s : Sram) : BitVec 20 := s.haddressTemp.extractLsb' 2 20

/-- The lane the latched address names. -/
def lane (s : Sram) : BitVec 2 := s.haddressTemp.extractLsb' 0 2

def hready (s : Sram) : Bool :=
  s.state != .writeByte1 && s.state != .writeByte2 && s.state != .writeWord1
    && s.state != .writeWord2 && s.state != .writeByte3

/-- Reading: the chip drives the data pins. -/
def readPins (s : Sram) : SramPins where
  ram1OE := false
  ram1WE := true
  ram1EN := false
  control := false
  ram1Address := s.wordAddress
  dataTemp := 0

/-- The clocks before and after the write pulse. -/
def holdPins (s : Sram) : SramPins where
  ram1OE := true
  ram1WE := true
  ram1EN := true
  control := true
  ram1Address := s.wordAddress
  dataTemp := s.hwritedataTemp

/-- The write pulse. -/
def writePins (s : Sram) : SramPins :=
  { s.holdPins with ram1WE := false, ram1EN := false }

/-- Nothing selected: nobody drives the data pins. -/
def idlePins (s : Sram) : SramPins where
  ram1OE := true
  ram1WE := true
  ram1EN := true
  control := false
  ram1Address := s.wordAddress
  dataTemp := 0

/-- The pins in reset. -/
def resetPins : SramPins where
  ram1OE := true
  ram1WE := true
  ram1EN := true
  control := true
  ram1Address := 0
  dataTemp := 0

/-- The pins of the combinational block, out of reset. -/
def pins (s : Sram) : SramPins :=
  match s.state with
  | .writeWord1 | .writeWord3 | .writeByte2 | .writeByte4 => s.holdPins
  | .writeWord2 | .writeByte3 => s.writePins
  | .readWord | .readByte | .writeByte1 => s.readPins
  | .idle => s.idlePins

/-- `Hreaddata` for a value on the data pins. -/
def hreaddata (s : Sram) (data : Word) : Word :=
  match s.state with
  | .readWord | .writeByte1 => data
  | .readByte => (byteAt s.lane data).setWidth 32
  | _ => 0

/-- The reset branch. -/
def reset : Sram := ⟨.idle, 0, 0⟩

/-- A request is taken. -/
def accept (i : SramInput) : Sram where
  haddressTemp := i.haddress
  hwritedataTemp := i.hwritedata
  state :=
    if i.hwrite then if i.hsize then .writeWord1 else .writeByte1
    else if i.hsize then .readWord else .readByte

/-- The data phase of a write goes on, or there is none. -/
def advance (s : Sram) (i : SramInput) (data : Word) : Sram :=
  match s.state with
  | .writeByte1 =>
    { s with
      state := .writeByte2
      hwritedataTemp := mergeByte s.lane (s.hreaddata data)
        (s.hwritedataTemp.extractLsb' 0 8) }
  | .writeByte2 => { s with state := .writeByte3 }
  | .writeByte3 => { s with state := .writeByte4 }
  | .writeWord1 => { s with state := .writeWord2 }
  | .writeWord2 => { s with state := .writeWord3 }
  | _ => ⟨.idle, i.hwritedata, i.haddress⟩

/-- One clock edge out of reset. -/
def step (s : Sram) (ready : Bool) (i : SramInput) (data : Word) : Sram :=
  if i.hselect && ready then accept i else s.advance i data

end Sram

end MipsUcore.Soc
