/-
What the processes do: system calls, ticks, and where each of them goes on
when it runs again.

# Points

A process that is not running is at the point where it called `schedule`;
the one that runs moves from point to point. User processes make system
calls at `user`. `initproc` is in the loop of `init_main`, `idleproc` in
`cpu_idle`. Between two points there is no `schedule`; a tick may come at
any point, which is more often than the interrupt flag lets it.

# The end of a trap

`mips_trap` ends with the test of `PF_EXITING` and `need_resched` if it
came from user mode. A tick that comes in the kernel just returns.

# What is left out

What the calls do to memory and files is done elsewhere; a `do_fork` that
fails for want of memory leaves the table alone (`forkFails`), and `store`
says what `user_mem_check` says about `code_store`. `initproc` starts at
its loop, with its first child: the process that executes the shell.
-/
import MipsUcore.Kern.ProcStep

namespace MipsUcore.Kern

open Function

/-- Where a process goes on behind a call of `schedule`. -/
inductive Resume
  /-- `do_wait` at `repeat:`; `init_main` calls it there. -/
  | waitRepeat (pid : Int)
  /-- `do_wait` behind `schedule`. -/
  | waitBack (pid : Int)
  /-- `do_sleep` behind `schedule`. -/
  | sleepBack
  deriving DecidableEq

inductive Point
  | user
  /-- The end of `mips_trap`. -/
  | trapEnd
  /-- About to call `schedule`. -/
  | schedule (next : Resume)
  | kernel (point : Resume)
  /-- The loop of `cpu_idle`. -/
  | idle
  deriving DecidableEq

/-- The system calls of a user process. -/
inductive Call
  | fork (p kstack : Nat) (mm fs : Option Nat)
  | forkFails
  | exit (errorCode : Int)
  | wait (pid : Int) (store : Bool)
  | kill (pid : Int)
  | sleep (time : Nat)
  | yield

inductive TaskEvent
  | call (c : Call)
  | tick
  /-- `current` goes on to its next point. -/
  | go

structure World where
  procs : Procs
  point : Nat → Point

namespace World

variable (w : World)

/-- `current` is at the point `x` next. -/
def moved (procs : Procs) (x : Point) : World :=
  ⟨procs, update w.point w.procs.current x⟩

def doExit (errorCode : Int) : Option World :=
  (w.procs.doExit errorCode).map fun s => ⟨s, w.point⟩

/-- A system call of `current`. -/
def call : Call → Option World
  | .fork p kstack mm fs =>
    (w.procs.doFork p kstack mm fs).map fun r =>
      -- a new process starts with the return to user mode
      if 0 < r.2 then
        { w with point := update w.point p .user }.moved r.1 .trapEnd
      else w.moved r.1 .trapEnd
  | .forkFails => some (w.moved w.procs .trapEnd)
  | .exit errorCode => w.doExit errorCode
  | .wait pid store =>
    some (w.moved w.procs
      (if store then .kernel (.waitRepeat pid) else .trapEnd))
  | .kill pid => (w.procs.doKill pid).map fun r => w.moved r.1 .trapEnd
  | .sleep time =>
    (w.procs.doSleep time).map fun r =>
      w.moved r.1 (if r.2 then .schedule .sleepBack else .trapEnd)
  | .yield => some (w.moved w.procs.doYield .trapEnd)

/-- What follows on a `do_wait`. When `initproc` has no more children,
`init_main` returns, and its thread ends with `do_exit`. -/
def afterWait (pid : Int) : Procs × Procs.WaitResult → Option World
  | (s, .reaped _ _) =>
    some (w.moved s
      (if w.procs.current = w.procs.initproc then .schedule (.waitRepeat 0)
        else .trapEnd))
  | (s, .blocked) => some (w.moved s (.schedule (.waitBack pid)))
  | (s, .failed) =>
    if w.procs.current = w.procs.initproc then w.doExit 0
    else some (w.moved s .trapEnd)

/-- `current` is in the kernel and goes on. -/
def resume : Resume → Option World
  | .waitRepeat pid => (w.procs.doWait pid).bind (w.afterWait pid)
  | .waitBack pid =>
    if (w.procs.proc w.procs.current).exiting then
      w.doExit (-eKilled)
    else some (w.moved w.procs (.kernel (.waitRepeat pid)))
  | .sleepBack => some (w.moved (w.procs.delTimer w.procs.current) .trapEnd)

/-- `schedule` is called, and comes back at `x`. -/
def switch (x : Point) : Option World :=
  w.procs.schedule.map fun s => w.moved s x

def go : Point → Option World
  | .user => some w
  | .trapEnd =>
    if (w.procs.proc w.procs.current).exiting then
      w.doExit (-eKilled)
    else if (w.procs.proc w.procs.current).needResched then w.switch .user
    else some (w.moved w.procs .user)
  | .schedule next => w.switch (.kernel next)
  | .kernel x => w.resume x
  | .idle =>
    if (w.procs.proc w.procs.current).needResched then w.switch .idle
    else some w

/-- `none` is a panic or a failed assertion. -/
def step : TaskEvent → Option World
  | .call c => w.call c
  | .tick =>
    w.procs.runTimerList.map fun s =>
      if w.point w.procs.current = .user then w.moved s .trapEnd
      else ⟨s, w.point⟩
  | .go => w.go (w.point w.procs.current)

/-- System calls come from user mode; a `proc_struct` comes from free
memory. -/
def Enabled : TaskEvent → Prop
  | .call (.fork p _ _ _) =>
    w.point w.procs.current = .user ∧ ¬w.procs.IsProc p
  | .call _ => w.point w.procs.current = .user
  | .tick => True
  | .go => True

instance : (e : TaskEvent) → Decidable (w.Enabled e)
  | .call (.fork _ _ _ _) => inferInstanceAs (Decidable (_ ∧ _))
  | .call .forkFails => inferInstanceAs (Decidable (_ = _))
  | .call (.exit _) => inferInstanceAs (Decidable (_ = _))
  | .call (.wait _ _) => inferInstanceAs (Decidable (_ = _))
  | .call (.kill _) => inferInstanceAs (Decidable (_ = _))
  | .call (.sleep _) => inferInstanceAs (Decidable (_ = _))
  | .call .yield => inferInstanceAs (Decidable (_ = _))
  | .tick => inferInstanceAs (Decidable True)
  | .go => inferInstanceAs (Decidable True)

/-- The events one after the other, as far as they can come. -/
def run (w : World) : List TaskEvent → Option World
  | [] => some w
  | e :: es => if w.Enabled e then (w.step e).bind fun v => v.run es else none

end World

/-- `proc_init`, and `initproc` up to its loop. -/
inductive World.Boot : World → Prop
  | intro {mem : Nat → Proc} {idle p q kstack kstack' fs fs' : Nat}
      {mm fs'' : Option Nat} {s s' t : Procs} {pid : Int} :
      p ≠ idle → Procs.procInit mem idle p kstack fs fs' = some s →
      s.schedule = some s' → ¬s'.IsProc q →
      s'.doFork q kstack' mm fs'' = some (t, pid) → 0 < pid →
      World.Boot ⟨t, update (update (fun _ => .user)
        p (.kernel (.waitRepeat 0))) idle .idle⟩

/-- Reached by events that are `Allowed`. -/
inductive World.Reached (Allowed : TaskEvent → Prop) : World → Prop
  | boot {w : World} : w.Boot → Reached Allowed w
  | step {w v : World} {e : TaskEvent} : Reached Allowed w → Allowed e →
      w.Enabled e → w.step e = some v → Reached Allowed v

end MipsUcore.Kern
