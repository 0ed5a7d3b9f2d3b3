/-
The bus: `bus.v`, with the devices it owns.

The master presents a request at every clock. The bus decodes its address
combinationally and shows it to one device, which takes it if `ready` is
up; the select registers then remember the device for the data phase,
and `ready` and `Hreaddata` are that device's until `ready` comes up
again. So the clock that completes one request takes the next one.

There is no idle request: the processor always addresses something, and
an address no device claims is answered at once.

# The devices

`rom`, `vga` and an unclaimed address always answer at once. `flash`
reads for seven clocks. `serial_port` answers a read at once and a write
when the transmitter is done. The contents of the boot ROM and the flash
data pins are parameters: nothing here depends on them.
-/
import MipsUcore.Cpu.Control
import MipsUcore.Soc.Sram
import MipsUcore.Soc.Transmitter

namespace MipsUcore.Soc

open Cpu (Word BusRequest)

-- ===== flash

/-- The states of `flash`. -/
inductive FlashState
  | idle
  | read1
  | read2
  | read3
  | read4
  | read5
  deriving DecidableEq, Repr

/-- The registers of `flash`. -/
structure Flash where
  state : FlashState
  count : BitVec 3
  haddressTemp : BitVec 23
  hreaddata : BitVec 16

namespace Flash

def hready (f : Flash) : Bool := f.state == .read5 || f.state == .idle

/-- The reset branch. -/
def reset (f : Flash) : Flash := { f with state := .idle, count := 0 }

/-- One clock edge out of reset; `data` is on the flash data pins. -/
def step (f : Flash) (hselect ready : Bool) (haddress : BitVec 23)
    (data : BitVec 16) : Flash :=
  if f.hready && ready then
    { f with
      count := 0, haddressTemp := haddress
      state := if hselect then .read1 else .idle }
  else
    match f.state with
    | .read1 => { f with state := .read2, count := 0 }
    | .read2 => { f with state := .read3, count := 0 }
    | .read3 => { f with state := .read4, count := 0 }
    | .read4 =>
      if f.count = 3 then
        { f with state := .read5, count := 0, hreaddata := data }
      else { f with count := f.count + 1, hreaddata := data }
    | .read5 | .idle => { f with state := .idle, count := 0 }

end Flash

-- ===== vga

/-- The bus side of `vga`: the screen has 2400 cells, a byte each. -/
structure Vga where
  hready : Bool
  data : BitVec 12 → Byte

namespace Vga

/-- The reset branch. -/
def reset (v : Vga) : Vga := { v with hready := true }

/-- One clock edge out of reset. -/
def step (v : Vga) (hselect ready hwrite hsize : Bool)
    (haddress : BitVec 12) (hwritedata : Word) : Vga where
  hready := true
  data :=
    if hselect && ready && haddress < 2400 && hwrite && !hsize then
      Function.update v.data haddress (hwritedata.extractLsb' 0 8)
    else v.data

end Vga

-- ===== address decoder

/-- One bit for each device; `nodevice` is the unclaimed rest. -/
structure Selects where
  rom : Bool := false
  serial : Bool := false
  sram : Bool := false
  flash : Bool := false
  vga : Bool := false
  nodevice : Bool := false
  deriving DecidableEq, Repr

/-- What the decoder shows to the devices; what is not shown is 0. The
size, direction and data that `rom` does not look at are left out. -/
structure DeviceInputs where
  hselect : Selects := {}
  haddressRom : BitVec 9 := 0
  hwriteSerial : Bool := false
  hwritedataSerial : Byte := 0
  haddressSerial : BitVec 3 := 0
  hsizeSram : Bool := false
  hwriteSram : Bool := false
  hwritedataSram : Word := 0
  haddressSram : BitVec 22 := 0
  hsizeVga : Bool := false
  hwriteVga : Bool := false
  hwritedataVga : Word := 0
  haddressVga : BitVec 12 := 0
  haddressFlash : BitVec 23 := 0

/-- The combinational decoder, out of reset. -/
def decode (r : BusRequest) : DeviceInputs :=
  if 0x1FC00000#32 ≤ r.address ∧ r.address ≤ 0x1FC001FF#32 then
    { hselect.rom := true, haddressRom := r.address.extractLsb' 0 9 }
  else if 0x1FD003F8#32 ≤ r.address ∧ r.address ≤ 0x1FD003FF#32 then
    { hselect.serial := true
      hwriteSerial := r.writeEnable
      hwritedataSerial := r.writeData.extractLsb' 0 8
      haddressSerial := r.address.extractLsb' 0 3 }
  else if 0x00000000#32 ≤ r.address ∧ r.address ≤ 0x003fffff#32 then
    { hselect.sram := true
      hsizeSram := r.dataSize
      hwriteSram := r.writeEnable
      hwritedataSram := r.writeData
      haddressSram := r.address.extractLsb' 0 22 }
  else if 0x1e000000#32 ≤ r.address ∧ r.address ≤ 0x1effffff#32 then
    { hselect.flash := true
      haddressFlash := r.address.extractLsb' 1 23 + 2 }
  else if 0x10000000#32 ≤ r.address ∧ r.address ≤ 0x10001000#32 then
    { hselect.vga := true
      hsizeVga := r.dataSize
      hwriteVga := r.writeEnable
      hwritedataVga := r.writeData
      haddressVga := r.address.extractLsb' 0 12 }
  else { hselect.nodevice := true }

/-- The part of the decoder `sram` sees. -/
def DeviceInputs.sram (d : DeviceInputs) : SramInput where
  hselect := d.hselect.sram
  hwrite := d.hwriteSram
  hsize := d.hsizeSram
  hwritedata := d.hwritedataSram
  haddress := d.haddressSram

-- ===== the board

/-- The registers of the bus and its devices, with the RAM chip. -/
structure Board where
  hselect : Selects
  romAddress : BitVec 9
  serial : SerialPort
  tx : Transmitter
  sram : Sram
  flash : Flash
  vga : Vga
  chip : Chip

/-- What reaches the board at one clock: the master's request, and
whatever the pins carry that nobody here drives. -/
structure BoardInput where
  hreset : Bool
  request : BusRequest
  floating : Word
  flashData : BitVec 16
  rxD : Option Byte
  kbd : Option Byte

namespace Board

/-- The `ready` multiplexer, out of reset. -/
def ready (b : Board) : Bool :=
  if b.hselect.rom then true
  else if b.hselect.serial then b.serial.hready b.tx.busy
  else if b.hselect.sram then b.sram.hready
  else if b.hselect.flash then b.flash.hready
  else if b.hselect.vga then b.vga.hready
  else true

/-- The value on the RAM's data pins. -/
def ram1data (b : Board) (i : BoardInput) : Word :=
  b.sram.pins.data b.chip i.floating

/-- The `Hreaddata` multiplexer, out of reset. -/
def hreaddata (rom : BitVec 7 → Word) (b : Board) (i : BoardInput) : Word :=
  if b.hselect.rom then rom (b.romAddress.extractLsb' 2 7)
  else if b.hselect.serial then b.serial.receiveData.setWidth 32
  else if b.hselect.sram then b.sram.hreaddata (b.ram1data i)
  else if b.hselect.flash then b.flash.hreaddata.setWidth 32
  else 0

/-- The store the RAM chip makes at this clock. -/
def store (b : Board) (i : BoardInput) : Option (BitVec 20 × Word) :=
  b.sram.pins.store b.chip i.floating

/-- What the serial port sees; in reset the decoder shows nothing and
`ready` is up. -/
def portInput (b : Board) (i : BoardInput) : PortInput where
  hreset := i.hreset
  ready := if i.hreset then b.ready else true
  hselect := i.hreset && (decode i.request).hselect.serial
  hwrite := i.hreset && (decode i.request).hwriteSerial
  haddress := if i.hreset then (decode i.request).haddressSerial else 0
  hwritedata := if i.hreset then (decode i.request).hwritedataSerial else 0
  txDBusy := b.tx.busy
  rxD := i.rxD
  kbd := i.kbd

/-- One clock edge in reset: the select registers load the decoder's
zeros, since `ready` is up. The transmitter has no reset. -/
def reset (b : Board) (i : BoardInput) : Board where
  hselect := {}
  romAddress := b.romAddress
  serial := b.serial.step (b.portInput i)
  tx := b.tx.step b.serial.txDStart b.serial.txDData
  sram := Sram.reset
  flash := b.flash.reset
  vga := b.vga.reset
  chip := b.chip.perform (Sram.resetPins.store b.chip i.floating)

/-- One clock edge out of reset. -/
def next (b : Board) (i : BoardInput) : Board :=
  let d := decode i.request
  { hselect := if b.ready then d.hselect else b.hselect
    romAddress :=
      if d.hselect.rom && b.ready then d.haddressRom else b.romAddress
    serial := b.serial.step (b.portInput i)
    tx := b.tx.step b.serial.txDStart b.serial.txDData
    sram := b.sram.step b.ready d.sram (b.ram1data i)
    flash := b.flash.step d.hselect.flash b.ready d.haddressFlash i.flashData
    vga := b.vga.step d.hselect.vga b.ready d.hwriteVga d.hsizeVga
      d.haddressVga d.hwritedataVga
    chip := b.chip.perform (b.store i) }

/-- One clock edge. -/
def step (b : Board) (i : BoardInput) : Board :=
  if i.hreset then b.next i else b.reset i

end Board

end MipsUcore.Soc
