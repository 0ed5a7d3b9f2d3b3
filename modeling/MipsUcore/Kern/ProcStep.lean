/-
What can happen to the process table, one event at a time.

The events are the calls of `proc.c` and `sched.c` themselves and, apart
from them, `wakeup_proc` of any process at any time and `schedule`: whoever
calls them, and whatever else goes on between them, is covered. A process
that has set itself to sleep (`suspend`, and the first part of `do_wait`
and `do_sleep`) calls `schedule` next; wake-ups and ticks may come before.

What the allocator is asked for is written down as well (`Action`): the
`proc_struct` and the kernel stack of a process come and go together.
-/
import MipsUcore.Kern.Proc

namespace MipsUcore.Kern

/-- A `proc_struct` and a kernel stack are taken or given back. -/
inductive Action
  | alloc (p kstack : Nat)
  | free (p kstack : Nat)
  deriving DecidableEq

/-- The process table, and what has been taken and given back. -/
structure Table where
  procs : Procs
  log : List Action

inductive ProcEvent
  | fork (p kstack : Nat) (mm fs : Option Nat)
  | exit (errorCode : Int)
  | wait (pid : Int)
  | kill (pid : Int)
  | sleep (time : Nat)
  | delTimer
  | yield
  | suspend (waitState : WaitState)
  | wakeup (p : Nat)
  | tick
  | schedule

namespace Procs

variable (s : Procs)

/-- The process is in use: `idleproc`, or on `proc_list`. -/
def IsProc (p : Nat) : Prop := p = s.idleproc ∨ p ∈ s.procList

/-- `current` runs: it is `idleproc`, or it has not put itself to sleep. -/
def Running : Prop := (s.proc s.current).state = .runnable

/-- `current` is not in the middle of `do_sleep`: what it does first when it
comes back from `schedule` there is to take its timer off. -/
def Free : Prop := s.Running ∧ ∀ x ∈ s.timerList, x.proc ≠ s.current

/-- When an event can come. -/
def Possible : ProcEvent → Prop
  | .fork p _ _ _ => s.Free ∧ ¬s.IsProc p
  | .exit _ => s.Free
  | .wait _ => s.Free ∧ s.current ≠ s.idleproc
  | .kill _ => s.Free
  | .sleep _ => s.Free ∧ s.current ≠ s.idleproc
  | .delTimer => s.Running
  | .yield => s.Free
  | .suspend _ => s.Free ∧ s.current ≠ s.idleproc
  | .wakeup p => s.IsProc p ∧ (s.proc p).state ≠ .zombie
  | .tick => True
  | .schedule => True

instance (p : Nat) : Decidable (s.IsProc p) :=
  inferInstanceAs (Decidable (_ ∨ _))

instance : Decidable s.Running := inferInstanceAs (Decidable (_ = _))

instance : Decidable s.Free := inferInstanceAs (Decidable (_ ∧ _))

instance : (e : ProcEvent) → Decidable (s.Possible e)
  | .fork _ _ _ _ => inferInstanceAs (Decidable (_ ∧ _))
  | .exit _ => inferInstanceAs (Decidable s.Free)
  | .wait _ => inferInstanceAs (Decidable (_ ∧ _))
  | .kill _ => inferInstanceAs (Decidable s.Free)
  | .sleep _ => inferInstanceAs (Decidable (_ ∧ _))
  | .delTimer => inferInstanceAs (Decidable s.Running)
  | .yield => inferInstanceAs (Decidable s.Free)
  | .suspend _ => inferInstanceAs (Decidable (_ ∧ _))
  | .wakeup _ => inferInstanceAs (Decidable (_ ∧ _))
  | .tick => inferInstanceAs (Decidable True)
  | .schedule => inferInstanceAs (Decidable True)

end Procs

/-- What a `do_wait` gives back. -/
def Procs.WaitResult.freed (s : Procs) : Procs.WaitResult → List Action
  | .reaped p _ => [.free p (s.proc p).kstack]
  | .blocked => []
  | .failed => []

namespace Table

/-- The event happens; `none` is a panic or a failed assertion. -/
def apply (t : Table) : ProcEvent → Option Table
  | .fork p kstack mm fs =>
    (t.procs.doFork p kstack mm fs).map fun r =>
      ⟨r.1, t.log ++ if 0 < r.2 then [.alloc p kstack] else []⟩
  | .exit errorCode => (t.procs.doExit errorCode).map (⟨·, t.log⟩)
  | .wait pid =>
    (t.procs.doWait pid).map fun r => ⟨r.1, t.log ++ r.2.freed t.procs⟩
  | .kill pid => (t.procs.doKill pid).map fun r => ⟨r.1, t.log⟩
  | .sleep time => (t.procs.doSleep time).map fun r => ⟨r.1, t.log⟩
  | .delTimer => some ⟨t.procs.delTimer t.procs.current, t.log⟩
  | .yield => some ⟨t.procs.doYield, t.log⟩
  | .suspend w =>
    some ⟨t.procs.setProc t.procs.current fun x =>
      { x with state := .sleeping, waitState := w }, t.log⟩
  | .wakeup p => (t.procs.wakeupProc p).map (⟨·, t.log⟩)
  | .tick => t.procs.runTimerList.map (⟨·, t.log⟩)
  | .schedule => t.procs.schedule.map (⟨·, t.log⟩)

/-- The events one after the other, as far as they can come. -/
def run (t : Table) : List ProcEvent → Option Table
  | [] => some t
  | e :: es =>
    if t.procs.Possible e then (t.apply e).bind fun u => u.run es else none

/-- Reached from `proc_init` by events that happened. -/
inductive Reached : Table → Prop
  | boot {mem : Nat → Proc} {idle p kstack fs fs' : Nat} {s : Procs} :
      p ≠ idle → Procs.procInit mem idle p kstack fs fs' = some s →
      Reached ⟨s, [.alloc p kstack]⟩
  | step {t u : Table} {e : ProcEvent} : Reached t → t.procs.Possible e →
      t.apply e = some u → Reached u

end Table

end MipsUcore.Kern
