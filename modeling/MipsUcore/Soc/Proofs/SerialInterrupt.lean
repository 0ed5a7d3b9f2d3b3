/-
The serial interrupt, from the received byte to the exception.

`SerialUnit` is the serial port and `control`, with the CP0 values, the
instruction in MEM and the bus as free inputs. The request is a pulse:
`break` spans the wait states up to one ready cycle, and
`tempSerialInterrupt` is `break` one clock later. `control` combines it
with the mask of that very cycle and keeps nothing.

So a byte that arrives while the interrupt is masked never interrupts,
however long it then waits unread with the interrupt enabled
(`serial_interrupt_lost_while_masked`). What the pulse does guarantee is
`serial_interrupt_pulse`: with the interrupt enabled over the first ready
cycle after the byte and the cycle behind it, that one ready too, the
interrupt is taken in one of the two; and afterwards, until the next
byte, no serial interrupt is taken whatever the mask does.
-/
import MipsUcore.Lib.Machine
import MipsUcore.Cpu.Proofs.InterruptArm
import MipsUcore.Soc.SerialPort

namespace MipsUcore.Soc

open Machine MipsUcore.Cpu

-- ===== the machine

/-- The serial port and `control`. -/
structure SerialUnit where
  port : SerialPort
  control : Control

/-- What everything else feeds them in one cycle. -/
structure SerialInput where
  port : PortInput
  cp0 : CpReg → Word
  exMem : ExMem
  ram : RamRequest
  readResult : Word
  clockInterrupt : Bool

/-- A byte arrives at this edge. -/
def SerialInput.Arrives (i : SerialInput) : Prop :=
  i.port.hreset = true ∧ i.port.byte.isSome = true

/-- Status enables the serial interrupt: IE, mask bit 12, and not EXL. -/
def SerialInput.Enabled (i : SerialInput) : Prop :=
  i.port.hreset = true ∧ (i.cp0 .status12).getLsbD 0 = true ∧
    (i.cp0 .status12).getLsbD 1 = false ∧
    (i.cp0 .status12).getLsbD 12 = true

namespace SerialUnit

variable (u : SerialUnit) (i : SerialInput)

/-- The exception outputs of `control`. -/
def exc : ExcOut := u.control.exception i.cp0 i.exMem

/-- One clock edge: `CPUSerialInterrupt` is the port's `break`. -/
def step : SerialUnit where
  port := u.port.step i.port
  control :=
    if i.port.hreset then
      u.control.next i.port.ready (u.exc i).flush i.ram i.readResult
        u.port.breakOut i.clockInterrupt (u.exc i).checkClockInterrupt
    else u.control.reset u.port.breakOut i.clockInterrupt

/-- The state after reset: an empty ring, no request anywhere. -/
def idle : SerialUnit where
  port := ⟨0, 0, fun _ => 0, false, 0, false, false, false, 0⟩
  control := ⟨false, 0, false, false, false⟩

/-- An interrupt exception with the serial cause bit is taken. -/
def Taken : Prop :=
  i.port.hreset = true ∧ i.port.ready = true ∧ (u.exc i).IsInterrupt 12

-- ===== one edge

variable {u : SerialUnit} {i : SerialInput}

/-- The latch in `control` is `break`, one clock later, reset or not. -/
theorem step_temp (u : SerialUnit) (i : SerialInput) :
    (u.step i).control.tempSerialInterrupt = u.port.breakOut := by
  unfold step
  cases i.port.hreset <;> rfl

theorem step_break (h : i.port.hreset = true) : (u.step i).port.breakOut
      = (i.port.byte.isSome || (!i.port.ready && u.port.breakOut)) :=
  u.port.step_breakOut h

/-- A request that `control` holds in a ready cycle with the interrupt
enabled is taken. -/
theorem taken_of_temp (htemp : u.control.tempSerialInterrupt = true)
    (hen : i.Enabled) (hready : i.port.ready = true) : u.Taken i := by
  obtain ⟨hr, hie, hexl, him⟩ := hen
  have hreq : u.control.interruptRequest (i.cp0 .status12) = true := by
    unfold Control.interruptRequest
    rw [htemp, hie, hexl, him]
    simp
  exact ⟨hr, hready, Control.exception_isInterrupt_serial hreq htemp⟩

/-- A serial interrupt is only taken for a request that `control` holds. -/
theorem temp_of_taken (h : u.Taken i) :
    u.control.tempSerialInterrupt = true := by
  obtain ⟨-, -, hint⟩ := h
  have hpending := hint.pending
  unfold exc at hpending hint
  rw [Control.exception_of_request (Control.request_of_isInterrupt hint)]
    at hpending
  exact (interruptCauseData_serial _ _ _ _).symm.trans hpending

-- ===== runs

/-- No request is up in the port or in `control`. -/
structure Quiet (u : SerialUnit) : Prop where
  port : u.port.breakOut = false
  control : u.control.tempSerialInterrupt = false

/-- Without a byte, quiet stays quiet. -/
theorem Quiet.step (hu : u.Quiet) (h : ¬ i.Arrives) : (u.step i).Quiet := by
  refine ⟨?_, (step_temp u i).trans hu.port⟩
  cases hr : i.port.hreset with
  | false => simp [SerialUnit.step, SerialPort.step, hr, SerialPort.reset]
  | true =>
    have hnone : i.port.byte.isSome = false := by
      cases hb : i.port.byte.isSome with
      | false => rfl
      | true => exact absurd ⟨hr, hb⟩ h
    rw [step_break hr, hnone, hu.port]
    simp

/-- From a quiet state, no serial interrupt is taken until a byte
arrives. -/
theorem Quiet.along_not_taken {js : List SerialInput} (hu : u.Quiet)
    (h : ∀ i ∈ js, ¬ i.Arrives) :
    Along SerialUnit.step (fun u i => ¬ u.Taken i) u js := by
  refine along_of_inv (I := Quiet) (L := fun _ i => ¬ i.Arrives)
    (fun u i hq hi => ⟨fun ht => ?_, hq.step hi⟩) hu (along_input.2 h)
  have htemp := temp_of_taken ht
  rw [hq.control] at htemp
  exact absurd htemp (by decide)

/-- A request in the port outlasts wait states, and has reached `control`
after the first. -/
theorem run_waits {waits : List SerialInput} (hu : u.port.breakOut = true)
    (h : ∀ w ∈ waits, w.port.hreset = true ∧ w.port.ready = false) :
    (run SerialUnit.step u waits).port.breakOut = true ∧ (waits ≠ [] →
        (run SerialUnit.step u waits).control.tempSerialInterrupt = true) := by
  have hbreak (v : SerialUnit) (w : SerialInput) (hv : v.port.breakOut = true)
      (hw : w.port.hreset = true ∧ w.port.ready = false) :
      (v.step w).port.breakOut = true := by
    rw [step_break hw.1, hw.2, hv]
    simp
  cases waits with
  | nil => exact ⟨hu, fun hne => absurd rfl hne⟩
  | cons w ws =>
    -- from the first wait state on, both are up
    have hrest := run_induction (I := fun v : SerialUnit =>
        v.port.breakOut = true ∧ v.control.tempSerialInterrupt = true)
      (P := fun _ w => w.port.hreset = true ∧ w.port.ready = false)
      (fun v w hv hw => ⟨hbreak v w hv.1 hw, (step_temp v w).trans hv.1⟩)
      ⟨hbreak u w hu (h w List.mem_cons_self), (step_temp u w).trans hu⟩
      (along_input.2 fun w' hw' => h w' (List.mem_cons_of_mem w hw'))
    exact ⟨hrest.1, fun _ => hrest.2⟩

/-- After a ready cycle and one more, neither with a byte, nothing is
left of a request. -/
theorem quiet_of_two (u : SerialUnit) {c d : SerialInput}
    (hc : c.port.hreset = true ∧ c.port.ready = true) (hnc : ¬ c.Arrives)
    (hd : d.port.hreset = true) (hnd : ¬ d.Arrives) :
    ((u.step c).step d).Quiet := by
  have hcbyte : c.port.byte.isSome = false := by
    simpa [SerialInput.Arrives, hc.1] using hnc
  have hdbyte : d.port.byte.isSome = false := by
    simpa [SerialInput.Arrives, hd] using hnd
  have hdown : (u.step c).port.breakOut = false := by
    rw [step_break hc.1, hcbyte, hc.2]
    rfl
  refine ⟨?_, (step_temp _ d).trans hdown⟩
  rw [step_break hd, hdbyte, hdown]
  simp

end SerialUnit

-- ===== the contract

/-- The request of a received byte is a pulse of one processor cycle. Let
a byte arrive at `a`, let `waits` be the wait states up to the first ready
cycle `c`, and let the cycle `d` behind it be ready too.

- If status enables the serial interrupt in `c`, and in `d` unless it was
  taken in `c`, then it is taken in `c` or in `d`.
- If no byte arrives in `c`, in `d` or in `js`, no serial interrupt is
  taken along `js`, whatever status does. -/
theorem serial_interrupt_pulse (u : SerialUnit) (a c d : SerialInput)
    (waits js : List SerialInput) (ha : a.Arrives)
    (hwaits : ∀ w ∈ waits, w.port.hreset = true ∧ w.port.ready = false)
    (hc : c.port.hreset = true ∧ c.port.ready = true)
    (hd : d.port.hreset = true ∧ d.port.ready = true) :
    let v := run SerialUnit.step (u.step a) waits
    (c.Enabled → v.Taken c ∨ (d.Enabled → (v.step c).Taken d)) ∧
    (¬ c.Arrives → ¬ d.Arrives → (∀ i ∈ js, ¬ i.Arrives) →
      Along SerialUnit.step (fun v i => ¬ v.Taken i) ((v.step c).step d)
        js) := by
  intro v
  have hup : (u.step a).port.breakOut = true := by
    rw [SerialUnit.step_break ha.1, ha.2]
    rfl
  obtain ⟨hbreak, htemp⟩ := SerialUnit.run_waits hup hwaits
  refine ⟨fun henc => ?_, fun hnc hnd hjs => ?_⟩
  · -- a wait state before `c` has brought the request to `control`;
    -- without one it gets there at the edge of `c`
    by_cases hne : waits = []
    · right
      intro hend
      exact SerialUnit.taken_of_temp
        ((SerialUnit.step_temp v c).trans hbreak) hend hd.2
    · left
      exact SerialUnit.taken_of_temp (htemp hne) henc hc.2
  · exact (SerialUnit.quiet_of_two v hc hnc hd.1 hnd).along_not_taken hjs

/-- A cycle with an idle bus and a bubble in MEM, in which the line may
deliver a byte. -/
def lineCycle (ready : Bool) (rxD : Option Byte) (status : Word) :
    SerialInput where
  port := ⟨true, ready, false, false, 0, 0, false, rxD, none⟩
  cp0 := fun r => if r = .status12 then status else 0
  exMem := .bubble 0
  ram := .idle
  readResult := 0
  clockInterrupt := false

/-- A byte, one wait state, and an enabled interrupt in the two cycles
that follow. -/
theorem serial_interrupt_pulse_one_wait :
    let a := lineCycle true (some 65) 0x1001
    let c := lineCycle true none 0x1001
    let v := run SerialUnit.step (SerialUnit.idle.step a)
      [lineCycle false none 0x1001]
    a.Arrives ∧ c.Enabled ∧ (v.Taken c ∨ (v.step c).Taken c) := by
  intro a c v
  have ha : a.Arrives := ⟨rfl, rfl⟩
  have hc : c.Enabled := ⟨rfl, by decide, by decide, by decide⟩
  have hpulse := serial_interrupt_pulse SerialUnit.idle a c c
    [lineCycle false none 0x1001] [] ha
    (by intro w hw; rw [List.mem_singleton.1 hw]; exact ⟨rfl, rfl⟩)
    ⟨rfl, rfl⟩ ⟨rfl, rfl⟩
  exact ⟨ha, hc, (hpulse.1 hc).imp_right fun h => h hc⟩

/-- A received, unread byte interrupts within a fixed number of ready
cycles once the interrupt is enabled and stays so. -/
def SerialNeverLost : Prop :=
  ∃ n : Nat, ∀ (u : SerialUnit) (r : SerialInput) (is js : List SerialInput),
    r.port.hreset = false →
    (run SerialUnit.step (u.step r) is).port.readable = true →
    Along SerialUnit.step (fun v i => v.port.readable = true ∧ i.Enabled)
      (run SerialUnit.step (u.step r) is) js →
    n ≤ (js.filter fun i => i.port.ready).length →
    Sometime SerialUnit.step SerialUnit.Taken
      (run SerialUnit.step (u.step r) is) js

/-- A clock edge in reset. -/
def resetCycle : SerialInput :=
  { lineCycle true none 0 with
    port := ⟨false, true, false, false, 0, 0, false, none, none⟩ }

/-- An enabled cycle in which nothing happens on the line or the bus
leaves an unread byte unread. -/
theorem readable_lineCycle (u : SerialUnit) (status : Word) :
    (u.step (lineCycle true none status)).port.readable
      = u.port.readable := rfl

/-- A byte that arrives with interrupts off, then any number of ready
cycles with the serial interrupt enabled: the byte stays unread and no
interrupt is ever taken. -/
theorem serial_interrupt_lost_while_masked : ¬ SerialNeverLost := by
  rintro ⟨n, h⟩
  -- the byte, and two ready cycles behind it, all masked
  have hlost := h SerialUnit.idle resetCycle
    [lineCycle true (some 65) 0, lineCycle true none 0, lineCycle true none 0]
    (List.replicate n (lineCycle true none 0x1001)) rfl (by decide)
  refine not_sometime_of_along ?_ (hlost ?_ ?_)
  · refine (SerialUnit.quiet_of_two _ ⟨rfl, rfl⟩ ?_ rfl ?_).along_not_taken
      fun i hi => ?_
    · simp [SerialInput.Arrives, lineCycle, PortInput.byte]
    · simp [SerialInput.Arrives, lineCycle, PortInput.byte]
    · rw [List.eq_of_mem_replicate hi]
      simp [SerialInput.Arrives, lineCycle, PortInput.byte]
  · refine along_of_inv (I := fun v => v.port.readable = true)
      (L := fun _ i => i = lineCycle true none 0x1001)
      (fun v i hv hi => ?_) (by decide)
      (along_input.2 fun i hi => List.eq_of_mem_replicate hi)
    subst hi
    exact ⟨⟨hv, rfl, by decide, by decide, by decide⟩,
      (readable_lineCycle v _).trans hv⟩
  · rw [List.filter_replicate]
    simp [lineCycle]

end MipsUcore.Soc
