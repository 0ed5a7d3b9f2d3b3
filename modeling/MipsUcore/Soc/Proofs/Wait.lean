/-
Every request on the bus is answered.

`Board.wait` bounds the clocks until the selected device has `ready` up:
none for the boot ROM, the screen and an unclaimed address, three for
RAM, seven for the flash, and one transmission for the serial port. Every
clock with `ready` down makes it smaller (`wait_step`).

Only the serial port needs an invariant. It answers a write when the
transmitter's `busy` falls, so it must not wait for a transmission that
never starts: while it owes an answer, its start pulse is up, or the
transmitter is busy, or `busy` has just fallen (`Responsive`). The
transmitter is not reset with the rest, so a write may find it busy with
an older byte; the invariant covers that too.
-/
import MipsUcore.Lib.Machine
import MipsUcore.Soc.Bus

namespace MipsUcore.Soc

open Machine

-- ===== the measures

/-- Clocks until the RAM controller is ready. -/
def Sram.wait (s : Sram) : Nat :=
  match s.state with
  | .writeByte1 => 3
  | .writeByte2 | .writeWord1 => 2
  | .writeByte3 | .writeWord2 => 1
  | _ => 0

theorem Sram.wait_le (s : Sram) : s.wait ≤ 3 := by
  unfold wait
  cases s.state <;> decide

theorem Sram.wait_step {s : Sram} (h : s.hready = false) (i : SramInput)
    (data : Cpu.Word) : (s.step false i data).wait < s.wait := by
  unfold hready at h
  cases hs : s.state <;> simp_all [step, advance, wait]

/-- Clocks until the flash is ready. The counter of `read4` runs up to
three, from wherever it is. -/
def Flash.wait (f : Flash) : Nat :=
  match f.state with
  | .read1 => 7
  | .read2 => 6
  | .read3 => 5
  | .read4 => (3 - f.count).toNat + 1
  | .read5 | .idle => 0

theorem Flash.wait_le (f : Flash) : f.wait ≤ 8 := by
  unfold wait
  cases f.state <;> simp only <;> omega

theorem count_wait (c : BitVec 3) (h : c ≠ 3) :
    (3 - (c + 1)).toNat < (3 - c).toNat := by
  revert c
  decide

theorem Flash.wait_step {f : Flash} (h : f.hready = false)
    (hselect : Bool) (haddress : BitVec 23) (data : BitVec 16) :
    (f.step hselect false haddress data).wait < f.wait := by
  unfold hready at h
  cases hs : f.state <;> simp_all [step, wait]
  case read4 =>
    by_cases hc : f.count = 3#3
    · simp [hc]
    · simpa [hc] using count_wait f.count hc

namespace Board

variable {b : Board}

/-- Clocks until the selected device answers, at most. A serial write
waits for the transmission it starts, of at most `12 * 2 ^ 16 / inc`
clocks, after the clock that starts it. -/
def wait (b : Board) : Nat :=
  if b.hselect.rom then 0
  else if b.hselect.serial then
    if b.serial.hready b.tx.busy then 0
    else if b.tx.busy then b.tx.left / inc + 1
    else 12 * 2 ^ 16 / inc + 2
  else if b.hselect.sram then b.sram.wait
  else if b.hselect.flash then b.flash.wait
  else 0

/-- What keeps every device answering: the screen never waits, and a
serial port that owes an answer has a transmission before it, under way
or just over. -/
structure Responsive (b : Board) : Prop where
  vga : b.vga.hready = true
  serial : b.hselect.serial = true → b.serial.hreadyReg = true ∨
    b.serial.txDStart = true ∨ b.tx.busy = true ∨
      b.serial.txDBusyLast = true

theorem responsive_reset (b : Board) (i : BoardInput) :
    (b.reset i).Responsive where
  vga := rfl
  serial := fun hf => by cases hf

/-- A request the serial port takes is answered at once or starts a
transmission. -/
theorem serial_taken (b : Board) {i : BoardInput} (hres : i.hreset = true)
    (hr : b.ready = true) (hs : (decode i.request).hselect.serial = true) :
    (b.next i).serial.hreadyReg = true ∨
      (b.next i).serial.txDStart = true := by
  have hnext : (b.next i).serial
      = { (b.serial.access (b.portInput i)).receive (b.portInput i) with
          txDBusyLast := b.tx.busy } := by
    simp [next, SerialPort.step, portInput, hres]
  rw [hnext]
  rw [SerialPort.receive_hreadyReg, SerialPort.receive_txDStart]
  have hsel : ((b.portInput i).hselect && (b.portInput i).ready) = true := by
    simp [portInput, hres, hr, hs]
  rw [SerialPort.access, if_pos hsel]
  by_cases hw : (b.portInput i).hwrite = true
  · rw [if_pos hw]
    exact .inr rfl
  · rw [if_neg hw]
    exact .inl (by split <;> rfl)

theorem txDBusyLast_next (b : Board) {i : BoardInput}
    (hres : i.hreset = true) : (b.next i).serial.txDBusyLast = b.tx.busy := by
  simp [next, SerialPort.step, portInput, hres]

/-- A transmission starts when the port asks an idle transmitter. -/
theorem busy_of_start (b : Board) (i : BoardInput)
    (h : b.serial.txDStart = true) (hbusy : b.tx.busy = false) :
    (b.next i).tx.busy = true := by
  have hstate : (b.next i).tx.txDState = 0b0100#4 := by
    simp only [next, Transmitter.step, hbusy, h, Bool.false_eq_true,
      if_false, if_true]
  rw [Transmitter.busy, hstate]
  decide

/-- The serial port has not answered: a transmission is under way, or
starts with this clock. -/
theorem Responsive.transmitting (h : b.Responsive)
    (hs : b.hselect.serial = true) (hw : b.serial.hready b.tx.busy = false) :
    b.tx.busy = true ∨ b.serial.txDStart = true := by
  have hw' : (b.tx.busy = false → b.serial.txDBusyLast = false) ∧
      b.serial.hreadyReg = false := by
    simpa [SerialPort.hready] using hw
  cases hbusy : b.tx.busy
  case true => exact .inl rfl
  case false =>
    rcases h.serial hs with hr | hstart | hb | hl
    · rw [hw'.2] at hr
      cases hr
    · exact .inr hstart
    · rw [hbusy] at hb
      cases hb
    · rw [hw'.1 hbusy] at hl
      cases hl

theorem Responsive.next (h : b.Responsive) {i : BoardInput}
    (hres : i.hreset = true) : (b.next i).Responsive := by
  refine ⟨rfl, fun hs => ?_⟩
  cases hr : b.ready
  case true =>
    have hsel : (decode i.request).hselect.serial = true := by
      simpa [Board.next, hr] using hs
    exact (serial_taken b hres hr hsel).elim .inl fun hst => .inr (.inl hst)
  case false =>
    have hsel : b.hselect.serial = true := by
      simpa [Board.next, hr] using hs
    have hrom : b.hselect.rom = false := by
      cases hrom : b.hselect.rom <;> simp_all [ready]
    have hw : b.serial.hready b.tx.busy = false := by
      simpa [ready, hrom, hsel] using hr
    cases hbusy : b.tx.busy
    case true =>
      exact .inr (.inr (.inr ((txDBusyLast_next b hres).trans hbusy)))
    case false =>
      rcases h.transmitting hsel hw with hb | hstart
      · rw [hbusy] at hb
        cases hb
      · exact .inr (.inr (.inl (busy_of_start b i hstart hbusy)))

/-- A serial port that has not answered is closer to it a clock later. -/
theorem Responsive.serial_wait (h : b.Responsive) {i : BoardInput}
    (hres : i.hreset = true) (hr : b.ready = false)
    (hrom : b.hselect.rom = false) (hs : b.hselect.serial = true) :
    (b.next i).wait < b.wait := by
  have hsel : (b.next i).hselect = b.hselect := by simp [Board.next, hr]
  have hw : b.serial.hready b.tx.busy = false := by
    simpa [ready, hrom, hs] using hr
  simp only [wait, hsel, hrom, hs, hw, if_true, Bool.false_eq_true,
    if_false, inc_eq]
  cases hans : (b.next i).serial.hready (b.next i).tx.busy
  case true =>
    rw [if_pos rfl]
    split <;> omega
  case false =>
    rw [if_neg Bool.false_ne_true]
    cases hbusy : b.tx.busy
    case true =>
      -- still busy: a transmission that has just ended would answer
      have hbusy' : (b.next i).tx.busy = true := by
        by_contra hidle
        simp [SerialPort.hready, txDBusyLast_next b hres, hbusy, hidle] at hans
      have hleft : (b.next i).tx.left + inc = b.tx.left :=
        Transmitter.left_step hbusy hbusy'
      rw [inc_eq] at hleft
      rw [if_pos hbusy', if_pos rfl, ← hleft]
      omega
    case false =>
      have hstart := (h.transmitting hs hw).resolve_left (by simp [hbusy])
      have hle := (b.next i).tx.left_le
      rw [if_pos (busy_of_start b i hstart hbusy), if_neg Bool.false_ne_true]
      omega

/-- Every clock with `ready` down is one clock less to wait. -/
theorem Responsive.wait_step (h : b.Responsive) {i : BoardInput}
    (hres : i.hreset = true) (hr : b.ready = false) :
    (b.next i).wait < b.wait := by
  have hsel : (b.next i).hselect = b.hselect := by simp [Board.next, hr]
  cases hrom : b.hselect.rom
  case true => simp [ready, hrom] at hr
  cases hserial : b.hselect.serial
  case true => exact h.serial_wait hres hr hrom hserial
  cases hsram : b.hselect.sram
  case true =>
    have hw : b.sram.hready = false := by
      simpa [ready, hrom, hserial, hsram] using hr
    have hstep : (b.next i).sram
        = b.sram.step false (decode i.request).sram (b.ram1data i) := by
      simp [Board.next, hr]
    simp only [wait, hsel, hrom, hserial, hsram, hstep, if_true,
      Bool.false_eq_true, if_false]
    exact Sram.wait_step hw _ _
  cases hflash : b.hselect.flash
  case true =>
    have hw : b.flash.hready = false := by
      simpa [ready, hrom, hserial, hsram, hflash] using hr
    have hstep : (b.next i).flash
        = b.flash.step (decode i.request).hselect.flash false
            (decode i.request).haddressFlash i.flashData := by
      simp [Board.next, hr]
    simp only [wait, hsel, hrom, hserial, hsram, hflash, hstep, if_true,
      Bool.false_eq_true, if_false]
    exact Flash.wait_step hw _ _ _
  case false =>
    simp [ready, hrom, hserial, hsram, hflash, h.vga] at hr

theorem wait_le (b : Board) : b.wait ≤ 2606 := by
  have hleft := b.tx.left_le
  have hsram := b.sram.wait_le
  have hflash := b.flash.wait_le
  rw [wait, inc_eq]
  repeat' split
  all_goals omega

/-- With `ready` down now, it comes up within `wait` clocks. -/
theorem Responsive.sometime_ready (h : b.Responsive)
    {is : List BoardInput} (his : ∀ i ∈ is, i.hreset = true)
    (hlen : b.wait < is.length) :
    Sometime step (fun b _ => b.ready = true) b is := by
  refine sometime_of_measure (L := fun _ i => i.hreset = true) ?_ h
    (along_input.2 his) hlen
  intro b i hb hres hr
  have hstep : b.step i = b.next i := by simp [step, hres]
  rw [hstep]
  exact ⟨hb.next hres, hb.wait_step hres (by simpa using hr)⟩

end Board

end MipsUcore.Soc
