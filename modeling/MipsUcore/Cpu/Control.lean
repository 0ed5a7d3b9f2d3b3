/-
The control unit: `control.v`.

# Its five blocks

- the clocked registers: which kind of bus access the current answer
  belongs to, the saved instruction word of a stolen fetch, and the two
  interrupt latches — the latter two are the only state of the processor,
  with the TLB, that moves while `ready == 0`;
- the routing of the bus answer to the fetch or the load;
- the stall signal;
- the exception priority chain, which looks at the instruction in MEM
  and at the CP0 values its older neighbours leave it;
- the fault detection and the bus and TLB multiplexers, which look at the
  access in EX.

The nine arms of the priority chain assign the same thirteen outputs.
Seven of them differ only in the cause code, the faulting address and
the entry point (`Control.raise`); the interrupt and `eret` arms keep
their own bodies.
-/
import MipsUcore.Cpu.Writeback
import MipsUcore.Cpu.Tlb

namespace MipsUcore.Cpu

-- ===== registers

/-- The registers of `control`. -/
structure Control where
  isLoadStore : Bool
  lastResult : Word
  isFlush : Bool
  tempSerialInterrupt : Bool
  tempClockInterrupt : Bool
  deriving DecidableEq

/-- One clock edge in reset: the interrupt latches have no reset branch,
and `checkClockInterrupt` is 0. -/
def Control.reset (c : Control) (serialInterrupt clockInterrupt : Bool) :
    Control where
  isLoadStore := false
  lastResult := 0
  isFlush := false
  tempSerialInterrupt := serialInterrupt
  tempClockInterrupt := clockInterrupt || c.tempClockInterrupt

/-- One clock edge out of reset. -/
def Control.next (c : Control) (ready flush : Bool) (ram : RamRequest)
    (readResult : Word) (serialInterrupt clockInterrupt : Bool)
    (checkClockInterrupt : Bool) : Control where
  isLoadStore :=
    if !ready then c.isLoadStore
    else if flush then false
    else ram.ramReadEnable || ram.ramWriteEnable
  lastResult := if !ready then c.lastResult else readResult
  isFlush := if !ready then c.isFlush else flush
  tempSerialInterrupt := serialInterrupt
  tempClockInterrupt :=
    if checkClockInterrupt then false
    else clockInterrupt || c.tempClockInterrupt

-- ===== bus answer

def Control.instructionResult (c : Control) (flush : Bool)
    (readResult : Word) : Word :=
  if flush then 0
  else if c.isLoadStore then c.lastResult
  else if c.isFlush then 0
  else readResult

def Control.loadResult (c : Control) (flush : Bool) (readResult : Word) :
    Word :=
  if flush then 0
  else if c.isLoadStore then readResult
  else 0

/-- `PauseSignal`: an access in EX takes the bus from the fetch. -/
def pauseSignal (ram : RamRequest) (pauseRequest : Bool) : Bool :=
  if ram.ramReadEnable || ram.ramWriteEnable then true else pauseRequest

-- ===== exceptions

/-- The outputs of the priority chain. -/
structure ExcOut where
  updates : CpUpdates
  flush : Bool
  targetAddress : Word
  checkClockInterrupt : Bool
  deriving DecidableEq

/-- The last arm: nothing happens. -/
def ExcOut.quiet : ExcOut := ⟨.quiet, false, 0, false⟩

/-- `WriteepcData`: the branch in front of a delay slot, else the
instruction itself. -/
def epcData (m : ExMem) : Word :=
  if m.memIsInDelaySlot then m.memPC - 4 else m.memPC

/-- `{isInDelaySlot, cp0cause[30:7], code}`. -/
def causeData (m : ExMem) (cause : Word) (code : BitVec 7) : Word :=
  BitVec.ofBool m.memIsInDelaySlot ++ cause.extractLsb' 7 24 ++ code

/-- The cause of an interrupt, with the two pending bits. -/
def interruptCauseData (m : ExMem) (cause : Word) (clock serial : Bool) :
    Word :=
  BitVec.ofBool m.memIsInDelaySlot ++ cause.extractLsb' 16 15
    ++ BitVec.ofBool clock ++ cause.extractLsb' 13 2
    ++ BitVec.ofBool serial ++ cause.extractLsb' 7 5 ++ 0#7

/-- The common body of the seven synchronous exception arms. -/
def raise (cp0 : CpReg → Word) (m : ExMem) (code : BitVec 7)
    (badaddr : Option Word) (target : Word) : ExcOut where
  updates :=
    { writeepc := true
      writeepcData := epcData m
      writestatus := true
      writestatusData := cp0 .status12 ||| 2
      writecause := true
      writecauseData := causeData m (cp0 .cause13) code
      writebadaddr := badaddr.isSome
      writebadaddrData := badaddr.getD 0 }
  flush := true
  targetAddress := target
  checkClockInterrupt := false

/-- The interrupt arm. -/
def Control.interrupt (c : Control) (cp0 : CpReg → Word) (m : ExMem) :
    ExcOut where
  updates :=
    { writeepc := true
      writeepcData := epcData m
      writestatus := true
      writestatusData := cp0 .status12 ||| 2
      writecause := true
      writecauseData := interruptCauseData m (cp0 .cause13)
        c.tempClockInterrupt c.tempSerialInterrupt
      writebadaddr := false
      writebadaddrData := 0 }
  flush := true
  targetAddress := cp0 .ebase15 + 0x180
  checkClockInterrupt := c.tempClockInterrupt

/-- The `eret` arm. -/
def eretOut (cp0 : CpReg → Word) : ExcOut where
  updates :=
    { CpUpdates.quiet with
      writestatus := true
      writestatusData := cp0 .status12 &&& 0xfffffffd }
  flush := true
  targetAddress := cp0 .epc14
  checkClockInterrupt := false

/-- The condition of the interrupt arm. -/
def Control.interruptRequest (c : Control) (status : Word) : Bool :=
  ((c.tempClockInterrupt && status.getLsbD 15)
    || (c.tempSerialInterrupt && status.getLsbD 12))
    && status.getLsbD 0 && !status.getLsbD 1

/-- `cp0status[4] & (~cp0status[1])`: user mode outside an exception. -/
def inUserMode (status : Word) : Bool := status.getLsbD 4 && !status.getLsbD 1

/-- The condition of the debug arm. -/
def isWatched (cp0 : CpReg → Word) (pc : Word) : Bool :=
  (pc == cp0 .watchLo18 && cp0 .watchLo18 != 0)
    || (pc == cp0 .watchHi19 && cp0 .watchHi19 != 0)

/-- The exception priority chain. -/
def Control.exception (c : Control) (cp0 : CpReg → Word) (m : ExMem) :
    ExcOut :=
  if c.interruptRequest (cp0 .status12) then c.interrupt cp0 m
  else if m.tlbMissRead then
    raise cp0 m 0b0001000 (some m.memBadAddress) (cp0 .ebase15)
  else if m.tlbMissWrite then
    raise cp0 m 0b0001100 (some m.memBadAddress) (cp0 .ebase15)
  else if m.readError
      || (m.memAddressReadPrivilege && inUserMode (cp0 .status12)) then
    raise cp0 m 0b0010000 (some m.memBadAddress) (cp0 .ebase15 + 0x180)
  else if m.writeError
      || (m.memAddressWritePrivilege && inUserMode (cp0 .status12)) then
    raise cp0 m 0b0010100 (some m.memBadAddress) (cp0 .ebase15 + 0x180)
  else if m.memValidInstruction
      || (m.memprivilege && inUserMode (cp0 .status12)) then
    raise cp0 m 0b0101000 none (cp0 .ebase15 + 0x180)
  else if isWatched cp0 m.memPC then
    raise cp0 m 0b1011100 none (cp0 .ebase15 + 0x180)
  else if m.memsyscall then
    raise cp0 m 0b0100000 none (cp0 .ebase15 + 0x180)
  else if m.memeret then eretOut cp0
  else .quiet

-- ===== access in EX

/-- `TLBVirtualAddress`: the access in EX, else the next fetch. -/
def tlbVirtualAddress (ram : RamRequest) (b : BranchOut) (pcPlus4 : Word) :
    Word :=
  if ram.ramWriteEnable then ram.ramAddress
  else if ram.ramReadEnable then ram.ramAddress
  else if b.branchFlag then b.branchTarget
  else pcPlus4

/-- `RAMAddress[1:0] != 2'b0 && RAMDataSize == 1'b1`. -/
def misaligned (ram : RamRequest) : Bool :=
  ram.ramAddress.extractLsb' 0 2 != 0 && ram.ramDataSize

/-- `ExReadTLBMiss`, `ExWriteTLBMiss`, `ExReadError`, `ExWriteError`. -/
def accessFaults (ram : RamRequest) (t : Translation) : AccessFaults :=
  if ram.ramWriteEnable then
    if misaligned ram then ⟨false, false, false, true⟩
    else if !t.validAddress then
      if t.isMiss then ⟨false, true, false, false⟩
      else ⟨false, false, false, true⟩
    else ⟨false, false, false, false⟩
  else if ram.ramReadEnable then
    if misaligned ram then ⟨false, false, true, false⟩
    else if !t.validAddress then ⟨true, false, false, false⟩
    else ⟨false, false, false, false⟩
  else ⟨false, false, false, false⟩

def pcReadTLBMiss (ram : RamRequest) (t : Translation) : Bool :=
  if ram.ramWriteEnable then false
  else if ram.ramReadEnable then false
  else !t.validAddress

/-- `Address`, `WriteEnable`, `DataSize` and `WriteData`: the request on
the bus. -/
structure BusRequest where
  address : Word
  writeEnable : Bool
  dataSize : Bool
  writeData : Word
  deriving DecidableEq

/-- The harmless fetch from the boot ROM that stands in for a request
that may not go out. -/
def BusRequest.idle : BusRequest := ⟨0x1fc00000, false, true, 0⟩

def tempDataSize (ram : RamRequest) : Bool :=
  if ram.ramWriteEnable then ram.ramDataSize
  else if ram.ramReadEnable then ram.ramDataSize
  else true

/-- The bus multiplexer. `WriteEnable` looks at the translation and at
`flush`, not at the alignment or the privilege of the access. -/
def busRequest (flush : Bool) (flushTarget : Word) (ram : RamRequest)
    (t : Translation) : BusRequest :=
  if flush then ⟨flushTarget, false, true, 0⟩
  else if t.validAddress then
    { address := t.physicalAddress
      writeEnable := ram.ramWriteEnable
      dataSize := tempDataSize ram
      writeData := if ram.ramWriteEnable then ram.ramData else 0 }
  else .idle

end MipsUcore.Cpu
