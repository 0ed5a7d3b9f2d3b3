/-
Write-back: `mem_wb.v`, `regfile.v`, `hilo_reg.v` and `cp.v`.

# The CP0 write ports

`mem_wb` latches two kinds of CP0 write — an `mtc0` on its way to a
register chosen by number, and the four updates an exception makes — and
merges them into twelve `WriteN`/`WriteNData` pairs. A pair whose enable
is 0 is never read, so a pair is an `Option Word` here and the twelve
ports are one function of the register (`MemWb.cpWrite`). The `mtc0`
assignment stands last in the source's block and so wins.

# Write-through reads

`regfile`, `hilo_reg` and `cp` all forward the value being written this
cycle to their read outputs. `regfile` never writes and never returns
register 0. `cp` selects the value an `mfc0` reads with its own `case`
on the register number (`Cp.value`), which is not the inverse of the one
in `mem_wb`: number 3 selects `entryHi10`.
-/
import MipsUcore.Cpu.Memory
import Mathlib.Logic.Function.Basic

namespace MipsUcore.Cpu

-- ===== mem_wb

/-- The four CP0 updates `control` asks for when it flushes. -/
structure CpUpdates where
  writeepc : Bool
  writeepcData : Word
  writestatus : Bool
  writestatusData : Word
  writecause : Bool
  writecauseData : Word
  writebadaddr : Bool
  writebadaddrData : Word
  deriving DecidableEq

def CpUpdates.quiet : CpUpdates := ⟨false, 0, false, 0, false, 0, false, 0⟩

/-- The registers of `mem_wb`. -/
structure MemWb where
  wbWriteAddress : RegAddr
  wbWriteRegister : Bool
  wbWriteData : Word
  wbHi : Word
  wbLo : Word
  wbWriteHi : Bool
  wbWriteLo : Bool
  writeCP : Bool
  writeCPAddress : RegAddr
  writeCPData : Word
  updates : CpUpdates
  deriving DecidableEq

/-- Nothing to write but the given exception updates. -/
def MemWb.squash (u : CpUpdates) : MemWb :=
  ⟨0, false, 0, 0, 0, false, false, false, 0, 0, u⟩

def MemWb.reset : MemWb := .squash .quiet

/-- One clock edge of `mem_wb`: a flush drops the instruction's own
writes and keeps the exception's. -/
def MemWb.next (r : MemWb) (ready flush : Bool) (m : Bypass)
    (u : CpUpdates) : MemWb :=
  if !ready then r
  else if flush then .squash u
  else
    { wbWriteAddress := m.writeAddress
      wbWriteRegister := m.writeRegister
      wbWriteData := m.writeData
      wbHi := m.hiData
      wbLo := m.loData
      wbWriteHi := m.writeHi
      wbWriteLo := m.writeLo
      writeCP := m.writeCP
      writeCPAddress := m.writeCPAddress
      writeCPData := m.writeCPData
      updates := u }

/-- The exception half of the merge: the four ports it drives when any
update is requested. -/
def CpUpdates.write (u : CpUpdates) (r : CpReg) : Option Word :=
  if u.writeepc || u.writestatus || u.writecause || u.writebadaddr then
    match r with
    | .epc14 => if u.writeepc then some u.writeepcData else none
    | .status12 => if u.writestatus then some u.writestatusData else none
    | .cause13 => if u.writecause then some u.writecauseData else none
    | .badaddr8 => if u.writebadaddr then some u.writebadaddrData else none
    | _ => none
  else none

/-- The `mtc0` half of the merge. -/
def mtc0Write (writeCP : Bool) (address : RegAddr) (data : Word)
    (r : CpReg) : Option Word :=
  if writeCP && CpReg.ofAddress address == some r then some data else none

/-- The twelve CP0 write ports. -/
def MemWb.cpWrite (w : MemWb) (r : CpReg) : Option Word :=
  (mtc0Write w.writeCP w.writeCPAddress w.writeCPData r).or (w.updates.write r)

-- ===== regfile

/-- The register array of `regfile`. -/
structure Regfile where
  register : RegAddr → Word

def Regfile.reset : Regfile := ⟨fun _ => 0⟩

/-- One clock edge of `regfile`; register 0 is never written. -/
def Regfile.next (r : Regfile) (ready : Bool) (w : MemWb) : Regfile :=
  if !ready then r
  else if w.wbWriteRegister && w.wbWriteAddress != 0 then
    ⟨Function.update r.register w.wbWriteAddress w.wbWriteData⟩
  else r

/-- `ReadData1`/`ReadData2`. -/
def Regfile.readData (r : Regfile) (w : MemWb) (readEnable : Bool)
    (readAddress : RegAddr) : Word :=
  if readAddress = 0 then 0
  else if readAddress == w.wbWriteAddress && w.wbWriteRegister && readEnable
    then w.wbWriteData
  else if readEnable then r.register readAddress
  else 0

-- ===== hilo_reg

/-- The registers of `hilo_reg`. -/
structure HiLo where
  hi : Word
  lo : Word
  deriving DecidableEq

def HiLo.reset : HiLo := ⟨0, 0⟩

/-- One clock edge of `hilo_reg`. -/
def HiLo.next (r : HiLo) (ready : Bool) (w : MemWb) : HiLo :=
  if !ready then r
  else ⟨if w.wbWriteHi then w.wbHi else r.hi,
    if w.wbWriteLo then w.wbLo else r.lo⟩

def HiLo.hiOut (r : HiLo) (w : MemWb) : Word :=
  if w.wbWriteHi then w.wbHi else r.hi

def HiLo.loOut (r : HiLo) (w : MemWb) : Word :=
  if w.wbWriteLo then w.wbLo else r.lo

-- ===== cp

/-- The registers of `cp`. -/
structure Cp where
  regs : CpReg → Word
  count9 : Word
  clockInterrupt : Bool

/-- The reset branch of `cp` leaves `clockInterrupt` alone. -/
def Cp.reset (c : Cp) : Cp := ⟨fun _ => 0, 0, c.clockInterrupt⟩

/-- One clock edge of `cp`, for any values on the write ports. -/
def Cp.next (c : Cp) (ready : Bool) (write : CpReg → Option Word) : Cp :=
  if !ready then c
  else
    { regs := fun r => (write r).getD (c.regs r)
      count9 := c.count9 + 1
      clockInterrupt :=
        c.regs .compare11 != 0 && c.count9 == c.regs .compare11 }

/-- The `*Out` outputs: the value being written, else the stored one. -/
def Cp.out (c : Cp) (write : CpReg → Option Word) (r : CpReg) : Word :=
  (write r).getD (c.regs r)

/-- `value`: what an `mfc0` of register number `address` reads. -/
def Cp.value (c : Cp) (write : CpReg → Option Word) (address : RegAddr) :
    Word :=
  match address with
  | 0#5 => c.out write .index0
  | 2#5 => c.out write .entryLo02
  | 3#5 => c.out write .entryHi10
  | 8#5 => c.out write .badaddr8
  | 9#5 => c.count9
  | 10#5 => c.out write .entryHi10
  | 11#5 => c.out write .compare11
  | 12#5 => c.out write .status12
  | 13#5 => c.out write .cause13
  | 14#5 => c.out write .epc14
  | 15#5 => c.out write .ebase15
  | 18#5 => c.out write .watchLo18
  | 19#5 => c.out write .watchHi19
  | _ => 0

end MipsUcore.Cpu
