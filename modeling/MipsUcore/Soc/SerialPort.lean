/-
The serial port: `serial_port.v`.

The port is a sixteen-byte receive ring with no full check, a
transmitter handshake and the interrupt line `break`. Its three inputs
from the line side — the UART receiver, the keyboard and the busy flag of
the transmitter — are free here: a byte may arrive at any clock.

`break` goes up with every received byte and comes down at the first
clock with `ready == 1` that brings no further byte: "one CPU working
cycle" in the README's words. Nothing remembers it afterwards; in
particular it does not look at whether the ring is empty.
-/
import Mathlib.Data.BitVec
import Mathlib.Logic.Function.Basic
import Mathlib.Tactic.SplitIfs

namespace MipsUcore.Soc

/-- A byte of the serial line. -/
abbrev Byte := BitVec 8

/-- The registers of `serial_port` (`breakOut` is `break`). `state` and
`outdata` are declared in the source and never used. -/
structure SerialPort where
  incount : BitVec 4
  incurrent : BitVec 4
  indata : BitVec 4 → Byte
  breakOut : Bool
  receiveData : Byte
  txDBusyLast : Bool           -- _TxD_busy
  hreadyReg : Bool             -- _Hready
  txDStart : Bool              -- _TxD_start
  txDData : Byte               -- _TxD_data

/-- What the bus and the line present at one clock edge. A received byte
is the `*_data` of a `*_data_ready` pulse. -/
structure PortInput where
  hreset : Bool
  ready : Bool
  hselect : Bool
  hwrite : Bool
  haddress : BitVec 3
  hwritedata : Byte
  txDBusy : Bool
  rxD : Option Byte
  kbd : Option Byte

/-- The byte that is stored at this edge: the UART has priority. -/
def PortInput.byte (i : PortInput) : Option Byte := i.rxD.or i.kbd

namespace SerialPort

/-- `readable`: the ring holds a byte the processor has not read. -/
def readable (p : SerialPort) : Bool := p.incurrent != p.incount

def hready (p : SerialPort) (txDBusy : Bool) : Bool :=
  (!txDBusy && p.txDBusyLast) || p.hreadyReg

/-- The reset branch; the ring and the transmitter registers have none. -/
def reset (p : SerialPort) (i : PortInput) : SerialPort :=
  { p with
    incount := 0
    incurrent := 0
    breakOut := false
    receiveData := 0
    txDBusyLast := i.txDBusy
    hreadyReg := false }

/-- The bus half of the clocked block. -/
def access (p : SerialPort) (i : PortInput) : SerialPort :=
  if i.hselect && i.ready then
    if i.hwrite then
      { p with txDStart := true, txDData := i.hwritedata, hreadyReg := false }
    else if i.haddress = 0 then
      { p with
        hreadyReg := true, txDStart := false
        receiveData := p.indata p.incurrent
        incurrent := p.incurrent + 1 }
    else
      { p with
        hreadyReg := true, txDStart := false
        receiveData := 0#6 ++ BitVec.ofBool p.readable ++ 1#1 }
  else { p with txDStart := false }

/-- The line half of the clocked block. -/
def receive (p : SerialPort) (i : PortInput) : SerialPort :=
  match i.byte with
  | some b =>
    { p with
      indata := Function.update p.indata p.incount b
      incount := p.incount + 1
      breakOut := true }
  | none => { p with breakOut := if i.ready then false else p.breakOut }

@[simp] theorem receive_hreadyReg (p : SerialPort) (i : PortInput) :
    (p.receive i).hreadyReg = p.hreadyReg := by
  unfold receive
  split <;> rfl

@[simp] theorem receive_txDStart (p : SerialPort) (i : PortInput) :
    (p.receive i).txDStart = p.txDStart := by
  unfold receive
  split <;> rfl

/-- One clock edge. The two halves write different registers, except that
both read `indata`: a byte read and a byte stored at the same edge do not
see each other, so the bus half goes first. -/
def step (p : SerialPort) (i : PortInput) : SerialPort :=
  if i.hreset then
    { (p.access i).receive i with txDBusyLast := i.txDBusy }
  else p.reset i

/-- `break` goes up with a byte and comes down with `ready`. -/
theorem step_breakOut (p : SerialPort) {i : PortInput}
    (hreset : i.hreset = true) : (p.step i).breakOut
      = (i.byte.isSome || (!i.ready && p.breakOut)) := by
  have hacc : (p.access i).breakOut = p.breakOut := by
    unfold access
    split_ifs <;> rfl
  rw [step, if_pos hreset]
  cases hb : i.byte with
  | some b => simp [receive, hb]
  | none => cases hr : i.ready <;> simp [receive, hb, hr, hacc]

end SerialPort

end MipsUcore.Soc
