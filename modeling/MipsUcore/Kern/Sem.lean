/-
Kernel semaphores: `sem.c` and the part of `wait.c` it uses.

# How the source's data is kept

The `wait_t` of a thread that waits is on its stack, in the frame of
`__down`, so it is named by the thread, and the wait queue is a list of
threads in the order of the links. `wait_in_queue` is then membership. The
`int` that is the value wraps around at its ends, as the compiled code does.

# Where `down` is cut

A thread in `__down` is about to call `schedule`, or behind it; anything
else can happen in between. `up`, `try_down` and both parts of `down` run
with interrupts off.

# Everybody else

The semaphore lives in the kernel with the process table; whatever else
happens there is an event of the table (`table`). Two are narrowed: a
thread in `down` does nothing else, and `wakeup_proc` is called for those
who wait elsewhere. The calls that could wake a thread in `down` by mistake
(`do_kill`, `do_exit`, the timers) are the table's own.
-/
import MipsUcore.Kern.ProcStep

namespace MipsUcore.Kern

open Function

-- ===== wait.h

def wtInterrupted : Nat := 0x80000000

/-- The bits of a `wait_state`. -/
def WaitState.bits : WaitState → Nat
  | .none => 0
  | .child => 1 ||| wtInterrupted
  | .timer => 2 ||| wtInterrupted
  | .ksem => 0x100
  | .kbd => 4 ||| wtInterrupted

/-- What a computation with `int` leaves of a number. -/
def toInt (x : Int) : Int := x.bmod (2 ^ 32)

-- ===== sem.c

/-- Where a thread is in `__down`. -/
inductive DownPoint
  | out
  /-- About to call `schedule`. -/
  | schedule
  /-- Behind `schedule`. -/
  | back
  deriving DecidableEq

/-- What has been done with the semaphore. -/
inductive SemAction
  /-- A `down` or `try_down` has taken a unit. -/
  | granted (p : Nat)
  | queued (p : Nat)
  /-- An `up` has given its unit to the waiter. -/
  | handed (p : Nat)
  | upped (p : Nat)
  deriving DecidableEq

inductive SemEvent
  | down
  | tryDown
  | up
  /-- `current` is in `__down` and goes on. -/
  | go
  | table (e : ProcEvent)

structure SemWorld where
  procs : Procs
  value : Int
  waitQueue : List Nat
  wakeupFlags : Nat → Nat
  point : Nat → DownPoint
  log : List SemAction

namespace SemWorld

variable (w : SemWorld)

/-- `sem_init`; what lies on the stacks does not matter. -/
def semInit (procs : Procs) (wakeupFlags : Nat → Nat) (value : Int) :
    SemWorld where
  procs := procs
  value := value
  waitQueue := []
  wakeupFlags := wakeupFlags
  point _ := .out
  log := []

def waitCurrentSet (waitState : WaitState) : SemWorld :=
  { w with
    procs := w.procs.setProc w.procs.current fun x =>
      { x with state := .sleeping, waitState := waitState }
    wakeupFlags := update w.wakeupFlags w.procs.current wtInterrupted
    waitQueue := w.waitQueue ++ [w.procs.current] }

/-- `wakeup_wait`, with `del` set. -/
def wakeupWait (p : Nat) (wakeupFlags : Nat) : Option SemWorld :=
  (w.procs.wakeupProc p).map fun s =>
    { w with
      procs := s
      waitQueue := w.waitQueue.erase p
      wakeupFlags := update w.wakeupFlags p wakeupFlags }

/-- `__up(sem, WT_KSEM)`. -/
def up : Option SemWorld :=
  match w.waitQueue with
  | [] =>
    some { w with
      value := toInt (w.value + 1)
      log := w.log ++ [.upped w.procs.current] }
  | p :: _ =>
    if (w.procs.proc p).waitState = .ksem then
      (w.wakeupWait p WaitState.ksem.bits).map fun w' =>
        { w' with log := w.log ++ [.upped w.procs.current, .handed p] }
    else none

/-- `__down(sem, WT_KSEM)` up to the call of `schedule`. -/
def down : SemWorld :=
  if 0 < w.value then
    { w with
      value := toInt (w.value - 1)
      log := w.log ++ [.granted w.procs.current] }
  else
    { w.waitCurrentSet .ksem with
      point := update w.point w.procs.current .schedule
      log := w.log ++ [.queued w.procs.current] }

/-- `__down` behind `schedule`, and what `down` asserts of its result. -/
def downBack : Option SemWorld :=
  -- `wait_current_del`
  let w' := { w with waitQueue := w.waitQueue.erase w.procs.current }
  if w.wakeupFlags w.procs.current ≠ WaitState.ksem.bits ∧
      w.wakeupFlags w.procs.current ≠ 0 then none
  else some { w' with point := update w.point w.procs.current .out }

def tryDown : SemWorld :=
  if 0 < w.value then
    { w with
      value := toInt (w.value - 1)
      log := w.log ++ [.granted w.procs.current] }
  else w

def go : DownPoint → Option SemWorld
  | .out => some w
  | .schedule =>
    w.procs.schedule.map fun s =>
      { w with
        procs := s
        point := update w.point w.procs.current .back }
  | .back => w.downBack

/-- `none` is a panic or a failed assertion. -/
def step : SemEvent → Option SemWorld
  | .down => some w.down
  | .tryDown => some w.tryDown
  | .up => w.up
  | .go => w.go (w.point w.procs.current)
  | .table e =>
    (Table.apply ⟨w.procs, []⟩ e).map fun t => { w with procs := t.procs }

/-- `current` is not in `__down` and can call the functions here. -/
def Idle : Prop := w.procs.Free ∧ w.point w.procs.current = .out

/-- When an event can come. -/
def Enabled : SemEvent → Prop
  | .down => w.Idle ∧ w.procs.current ≠ w.procs.idleproc
  | .tryDown => w.Idle
  | .up => w.Idle
  | .go => True
  | .table .tick => True
  | .table (.wakeup p) => w.procs.Possible (.wakeup p) ∧ w.point p = .out
  | .table e => w.procs.Possible e ∧ w.point w.procs.current = .out

instance : Decidable w.Idle := inferInstanceAs (Decidable (_ ∧ _))

instance : (e : SemEvent) → Decidable (w.Enabled e)
  | .down => inferInstanceAs (Decidable (_ ∧ _))
  | .tryDown => inferInstanceAs (Decidable w.Idle)
  | .up => inferInstanceAs (Decidable w.Idle)
  | .go => inferInstanceAs (Decidable True)
  | .table .tick => inferInstanceAs (Decidable True)
  | .table (.wakeup _) => inferInstanceAs (Decidable (_ ∧ _))
  | .table (.fork _ _ _ _) => inferInstanceAs (Decidable (_ ∧ _))
  | .table (.exit _) => inferInstanceAs (Decidable (_ ∧ _))
  | .table (.wait _) => inferInstanceAs (Decidable (_ ∧ _))
  | .table (.kill _) => inferInstanceAs (Decidable (_ ∧ _))
  | .table (.sleep _) => inferInstanceAs (Decidable (_ ∧ _))
  | .table .delTimer => inferInstanceAs (Decidable (_ ∧ _))
  | .table .yield => inferInstanceAs (Decidable (_ ∧ _))
  | .table (.suspend _) => inferInstanceAs (Decidable (_ ∧ _))
  | .table .schedule => inferInstanceAs (Decidable (_ ∧ _))

/-- The events one after the other, as far as they can come. -/
def run (w : SemWorld) : List SemEvent → Option SemWorld
  | [] => some w
  | e :: es => if w.Enabled e then (w.step e).bind fun v => v.run es else none

/-- Reached from a `sem_init(value)` at any time, by events that are
`Allowed`. -/
inductive Reached (Allowed : SemWorld → SemEvent → Prop) (value : Int) :
    SemWorld → Prop
  | init {t : Table} {wakeupFlags : Nat → Nat} : t.Reached →
      Reached Allowed value (semInit t.procs wakeupFlags value)
  | step {w v : SemWorld} {e : SemEvent} : Reached Allowed value w →
      Allowed w e → w.Enabled e → w.step e = some v →
      Reached Allowed value v

end SemWorld

end MipsUcore.Kern
