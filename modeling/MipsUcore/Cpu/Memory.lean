/-
The memory stage: `ex_mem.v` and `mem.v`.

`ex_mem` also latches what `control` found out about the access while
it was in EX (`AccessFaults`), because the exception it may raise is
only taken one stage later. Two fields are computed rather than copied:
an instruction fetched from the kernel half counts as privileged, and
the faulting address is the program counter when the fetch itself
missed.
-/
import MipsUcore.Cpu.Execute

namespace MipsUcore.Cpu

-- ===== ex_mem

/-- `ExReadTLBMiss`, `ExWriteTLBMiss`, `ExReadError` and `ExWriteError`:
what `control` reports about the access in EX. -/
structure AccessFaults where
  exReadTLBMiss : Bool
  exWriteTLBMiss : Bool
  exReadError : Bool
  exWriteError : Bool
  deriving DecidableEq

/-- The registers of `ex_mem`. -/
structure ExMem where
  memWriteAddress : RegAddr
  memWriteRegister : Bool
  memWriteData : Word
  memWriteHiData : Word
  memWriteLoData : Word
  memWriteHi : Bool
  memWriteLo : Bool
  memRAMReadEnable : Bool
  memSignExtend : Bool
  memWriteCP : Bool
  memWriteCPAddress : RegAddr
  memWriteCPData : Word
  memtlbwi : Bool
  memsyscall : Bool
  memeret : Bool
  memprivilege : Bool
  memValidInstruction : Bool
  tlbMissRead : Bool
  tlbMissWrite : Bool
  readError : Bool
  writeError : Bool
  memAddressReadPrivilege : Bool
  memAddressWritePrivilege : Bool
  memPC : Word
  memBadAddress : Word
  memIsInDelaySlot : Bool
  deriving DecidableEq

/-- The all-zero contents of the reset and flush branches, but for the
address. -/
def ExMem.bubble (pc : Word) : ExMem where
  memWriteAddress := 0
  memWriteRegister := false
  memWriteData := 0
  memWriteHiData := 0
  memWriteLoData := 0
  memWriteHi := false
  memWriteLo := false
  memRAMReadEnable := false
  memSignExtend := false
  memWriteCP := false
  memWriteCPAddress := 0
  memWriteCPData := 0
  memtlbwi := false
  memsyscall := false
  memeret := false
  memprivilege := false
  memValidInstruction := false
  tlbMissRead := false
  tlbMissWrite := false
  readError := false
  writeError := false
  memAddressReadPrivilege := false
  memAddressWritePrivilege := false
  memPC := pc
  memBadAddress := 0
  memIsInDelaySlot := false

/-- The outputs of EX, latched. -/
def ExMem.latch (x : ExOut) (f : AccessFaults) : ExMem where
  memWriteAddress := x.writeAddress
  memWriteRegister := x.writeRegister
  memWriteData := x.writeData
  memWriteHiData := x.hiData
  memWriteLoData := x.loData
  memWriteHi := x.writeHi
  memWriteLo := x.writeLo
  memRAMReadEnable := x.ram.ramReadEnable
  memSignExtend := x.ram.signExtend
  memWriteCP := x.writeCP
  memWriteCPAddress := x.writeCPAddress
  memWriteCPData := x.writeCPData
  memtlbwi := x.tlbwi
  memsyscall := x.syscall
  memeret := x.eret
  memprivilege := x.privilege || x.currentPC.msb
  memValidInstruction := x.validInstruction
  tlbMissRead := x.pcTLBMiss || f.exReadTLBMiss
  tlbMissWrite := f.exWriteTLBMiss
  readError := f.exReadError
  writeError := f.exWriteError
  memAddressReadPrivilege := x.ram.addressReadPrivilege
  memAddressWritePrivilege := x.ram.addressWritePrivilege
  memPC := x.currentPC
  memBadAddress := if x.pcTLBMiss then x.currentPC else x.ram.ramAddress
  memIsInDelaySlot := x.isInDelaySlot

def ExMem.reset : ExMem := .bubble 0

/-- One clock edge of `ex_mem`. -/
def ExMem.next (r : ExMem) (ready flush : Bool) (flushTarget : Word)
    (x : ExOut) (f : AccessFaults) : ExMem :=
  if !ready then r
  else if flush then .bubble flushTarget
  else .latch x f

-- ===== mem

/-- `WriteDataOut` of `mem`: loaded data, sign-extended from a byte for
`lb`, or the ALU result. -/
def memWriteDataOut (r : ExMem) (loadResult : Word) : Word :=
  if r.memRAMReadEnable then
    if r.memSignExtend then (loadResult.extractLsb' 0 8).signExtend 32
    else loadResult
  else r.memWriteData

/-- The outputs of `mem`. They feed `mem_wb` and, unchanged, the MEM half
of the decoder's bypass inputs. -/
def mem (r : ExMem) (loadResult : Word) : Bypass where
  writeRegister := r.memWriteRegister
  writeData := memWriteDataOut r loadResult
  writeAddress := r.memWriteAddress
  writeHi := r.memWriteHi
  hiData := r.memWriteHiData
  writeLo := r.memWriteLo
  loData := r.memWriteLoData
  writeCP := r.memWriteCP
  writeCPAddress := r.memWriteCPAddress
  writeCPData := r.memWriteCPData

end MipsUcore.Cpu
