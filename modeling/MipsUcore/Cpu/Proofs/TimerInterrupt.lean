/-
The timer interrupt, from the match to the exception.

`cp` compares `count` with `compare` and pulses `clockInterrupt`;
`control` latches the pulse in `tempClockInterrupt` and lets go of it
when the interrupt arm of its priority chain is selected. `Timer` is
these two modules with everything else as free input: the CP0 write
ports, the instruction in MEM, the access in EX, the bus.

The latch is cleared by `checkClockInterrupt` at any clock edge, while
the flush and the CP0 updates of the same cycle are taken only when
`ready == 1`. So a wait state in the cycle in which the interrupt is
accepted drops it (`timer_interrupt_dropped_by_wait_state`).
`timer_interrupt_kept_iff` says that nothing else does.
-/
import MipsUcore.Cpu.Run
import MipsUcore.Cpu.Proofs.InterruptArm

namespace MipsUcore.Cpu

open Machine

-- ===== the machine

/-- `cp` and `control`. -/
structure Timer where
  cp : Cp
  control : Control

/-- What the rest of the processor feeds them in one cycle. -/
structure TimerInput where
  reset : Bool
  ready : Bool
  write : CpReg → Option Word      -- the CP0 write ports
  exMem : ExMem                    -- the instruction in MEM
  ram : RamRequest                 -- the access in EX
  readResult : Word
  serialInterrupt : Bool

namespace Timer

variable (t : Timer) (i : TimerInput)

/-- The CP0 values `control` sees. -/
def cp0 : CpReg → Word := t.cp.out i.write

/-- The exception outputs of `control`. -/
def exc : ExcOut := t.control.exception (t.cp0 i) i.exMem

/-- One clock edge of the two modules. -/
def step : Timer :=
  if i.reset then
    { cp := t.cp.next i.ready i.write
      control := t.control.next i.ready (t.exc i).flush i.ram i.readResult
        i.serialInterrupt t.cp.clockInterrupt (t.exc i).checkClockInterrupt }
  else
    { cp := t.cp.reset
      control := t.control.reset i.serialInterrupt t.cp.clockInterrupt }

-- ===== properties

/-- An interrupt exception with the timer bit is taken: `ready`, `flush`,
and a cause is written with code 0 and IP7 set. -/
def Taken : Prop :=
  i.reset = true ∧ i.ready = true ∧ (t.exc i).IsInterrupt 15

/-- Status enables the timer interrupt: IE, IM7, and not EXL. -/
def Enabled : Prop :=
  i.reset = true ∧ (t.cp0 i .status12).getLsbD 0 = true ∧
    (t.cp0 i .status12).getLsbD 1 = false ∧
    (t.cp0 i .status12).getLsbD 15 = true

/-- A latched timer interrupt is taken now or stays latched. -/
def Kept : Prop :=
  t.control.tempClockInterrupt = true →
    t.Taken i ∨ (t.step i).control.tempClockInterrupt = true

/-- A wait state falls into the cycle in which the interrupt arm is
selected with the timer interrupt latched. -/
def WaitWhileAccepted : Prop :=
  i.reset = true ∧ i.ready = false ∧
    t.control.tempClockInterrupt = true ∧
    t.control.interruptRequest (t.cp0 i .status12) = true

end Timer

-- ===== one edge

namespace Timer

variable {t : Timer} {i : TimerInput}

/-- The interrupt arm, taken at a ready edge, delivers a latched timer
interrupt. -/
theorem taken_of_request (hr : i.reset = true) (hready : i.ready = true)
    (htemp : t.control.tempClockInterrupt = true)
    (hreq : t.control.interruptRequest (t.cp0 i .status12) = true) :
    t.Taken i :=
  ⟨hr, hready, Control.exception_isInterrupt_timer hreq htemp⟩

/-- The latch after one edge. -/
theorem step_tempClockInterrupt (hr : i.reset = true)
    (htemp : t.control.tempClockInterrupt = true) :
    (t.step i).control.tempClockInterrupt
      = !t.control.interruptRequest (t.cp0 i .status12) := by
  unfold step
  rw [if_pos hr]
  simp only [Control.next, exc, Control.exception_checkClockInterrupt, htemp,
    Bool.and_true, Bool.or_true]
  cases t.control.interruptRequest (t.cp0 i .status12) <;> rfl

/-- One edge loses a latched timer interrupt exactly when it is accepted
during a wait state. -/
theorem kept_iff (t : Timer) (i : TimerInput) :
    t.Kept i ↔ ¬ t.WaitWhileAccepted i := by
  constructor
  · rintro hkept ⟨hr, hwait, htemp, hreq⟩
    obtain htaken | hstays := hkept htemp
    · have hready := htaken.2.1
      rw [hwait] at hready
      exact absurd hready (by decide)
    · rw [step_tempClockInterrupt hr htemp, hreq] at hstays
      exact absurd hstays (by decide)
  · intro hno htemp
    cases hr : i.reset with
    | false =>
      -- an edge in reset holds the latch
      right
      unfold step
      rw [hr, if_neg (by decide)]
      simp [Control.reset, htemp]
    | true =>
      cases hreq : t.control.interruptRequest (t.cp0 i .status12) with
      | false =>
        right
        rw [step_tempClockInterrupt hr htemp, hreq]
        rfl
      | true =>
        left
        cases hready : i.ready with
        | true => exact taken_of_request hr hready htemp hreq
        | false => exact absurd ⟨hr, hready, htemp, hreq⟩ hno

/-- An enabled timer interrupt is taken at a ready edge. -/
theorem taken_of_enabled (htemp : t.control.tempClockInterrupt = true)
    (hen : t.Enabled i) (hready : i.ready = true) : t.Taken i := by
  obtain ⟨hr, hie, hexl, him⟩ := hen
  refine taken_of_request hr hready htemp ?_
  unfold Control.interruptRequest
  rw [htemp, hie, hexl, him]
  simp

end Timer

-- ===== runs

/-- Along any run of `cp` and `control`: latched timer interrupts stay
latched until one is taken if and only if no wait state ever falls into
the cycle that accepts one; and then a latched interrupt that meets a
ready cycle with the timer enabled has been taken. -/
theorem timer_interrupt_kept_iff (t : Timer) (is : List TimerInput) :
    (Along Timer.step Timer.Kept t is ↔
      Along Timer.step (fun t i => ¬ t.WaitWhileAccepted i) t is) ∧
    (Along Timer.step (fun t i => ¬ t.WaitWhileAccepted i) t is →
      t.control.tempClockInterrupt = true →
      Sometime Timer.step (fun t i => t.Enabled i ∧ i.ready = true) t is →
      Sometime Timer.step Timer.Taken t is) := by
  have h : Timer.Kept = fun t i => ¬ t.WaitWhileAccepted i := by
    funext t i
    exact propext (t.kept_iff i)
  rw [← h]
  refine ⟨Iff.rfl, fun hkept htemp hsome => ?_⟩
  exact sometime_of_waiting
    (W := fun t : Timer => t.control.tempClockInterrupt = true) htemp hkept
    (fun t i hw hq => Timer.taken_of_enabled hw hq.1 hq.2) hsome

-- ===== the timer in the processor

/-- The two modules inside the processor. -/
def State.timer (s : State) : Timer := ⟨s.cp, s.control⟩

/-- What the processor feeds them. -/
def State.timerInput (s : State) (i : Input) : TimerInput where
  reset := i.reset
  ready := i.cpuBusReady
  write := s.memWb.cpWrite
  exMem := s.exMem
  ram := s.ram
  readResult := i.cpuRomData
  serialInterrupt := i.cpuSerialInterrupt

theorem State.timer_step (s : State) (i : Input) :
    (s.step i).timer = s.timer.step (s.timerInput i) := by
  unfold step Timer.step
  show _ = if i.reset then _ else _
  cases i.reset <;> rfl

/-- `ori t0,10`; `mtc0 t0,compare`; `ori t1,0x8001`; `mtc0 t1,status`;
then nothing until `count` is 10. -/
def timerProgram : List Word :=
  [0, 0x3408000a, 0x40885800, 0x34098001, 0x40896000, 0, 0, 0, 0, 0, 0, 0]

/-- One wait state after that program: the latched timer interrupt is
gone and no interrupt has been taken. -/
theorem timer_interrupt_dropped_by_wait_state :
    let s := State.zero.reached false (ticks timerProgram)
    let i : Input := ⟨true, false, 0, false⟩
    s.control.tempClockInterrupt = true ∧
      (s.step i).control.tempClockInterrupt = false ∧
      (s.step i).cp0 .cause13 = 0 ∧
      ¬ Along Timer.step Timer.Kept (State.zero.boot false).timer
        (trace State.step (fun s i => [s.timerInput i])
          (State.zero.boot false) (ticks timerProgram ++ [i])) := by
  intro s i
  refine ⟨by decide +kernel, by decide +kernel, by decide +kernel, ?_⟩
  rw [along_map State.timer State.timerInput State.timer_step]
  have hk : (fun s i => Timer.Kept (State.timer s) (State.timerInput s i))
      = fun s i => ¬ Timer.WaitWhileAccepted (State.timer s)
          (State.timerInput s i) := by
    funext s i
    exact propext (Timer.kept_iff _ _)
  rw [hk]
  unfold Timer.WaitWhileAccepted
  decide +kernel

end MipsUcore.Cpu
