/-
The process table, the run queue and the timers: `proc.c`, `sched.c` and
`default_sched.c` without memory.

# How the source's data is kept

A process is named by the address of its `proc_struct`. The intrusive lists
(`proc_list`, the buckets of `hash_list`, the run queue, the timers) are
lists of addresses in the order of the links; `run_link` is empty exactly
if the address is not on the run queue, and `list_del` takes the address
out. A timer lives on the stack of the process that sleeps, so it is named
by that process. `PF_EXITING` is the only flag there is, and there is one
run queue, so `rq` says whether a process was ever on it. What no function
here reads is left out: `runs`, `context`, `tf`, `cr3` and `name`.

# Where a call is cut

`do_wait` and `do_sleep` suspend the caller in the middle. Here each is the
part up to the call of `schedule`; who comes back from `schedule`, and
where it goes on, is said by the task model.

`none` is a panic or a failed assertion.
-/
import MipsUcore.Kern.Mmu

namespace MipsUcore.Kern

-- ===== proc.h

/-- `enum proc_state`. -/
inductive ProcState
  | uninit
  | sleeping
  | runnable
  | zombie
  deriving DecidableEq

/-- `wait_state`: 0, or one of the `WT_` constants. -/
inductive WaitState
  | none
  | child
  | timer
  | ksem
  | kbd
  deriving DecidableEq

/-- `wait_state & WT_INTERRUPTED`. -/
def WaitState.interrupted : WaitState → Bool
  | .none => false
  | .child => true
  | .timer => true
  | .ksem => false
  | .kbd => true

def eInval : Int := 3

def eNoMem : Int := 4

def eNoFreeProc : Int := 5

def eKilled : Int := 9

def maxProcess : Nat := 4096

def maxPid : Int := 8192

/-- `struct proc_struct`. -/
structure Proc where
  state : ProcState
  pid : Int
  kstack : Nat
  needResched : Bool
  parent : Option Nat
  mm : Option Nat
  exiting : Bool
  exitCode : Int
  waitState : WaitState
  cptr : Option Nat
  yptr : Option Nat
  optr : Option Nat
  timeSlice : Nat
  fs : Option Nat
  rq : Bool := false
  deriving DecidableEq

/-- The fields `alloc_proc` sets. It leaves `rq` alone: `false` is the case
in which the assertion of `RR_dequeue` could fail. -/
def Proc.alloc : Proc where
  state := .uninit
  pid := -1
  kstack := 0
  needResched := false
  parent := none
  mm := none
  exiting := false
  exitCode := 0
  waitState := .none
  cptr := none
  yptr := none
  optr := none
  timeSlice := 0
  fs := none

/-- `timer_t`. -/
structure Timer where
  expires : Nat
  proc : Nat
  deriving DecidableEq

/-- The processes and what refers to them; an `initproc` of 0 is a null
pointer. -/
structure Procs where
  proc : Nat → Proc
  procList : List Nat
  hashList : Nat → List Nat
  nrProcess : Nat
  nextSafe : Int
  lastPid : Int
  idleproc : Nat
  initproc : Nat
  current : Nat
  runList : List Nat
  timerList : List Timer
  procNum : Nat := 0

namespace Procs

variable (s : Procs)

def setProc (p : Nat) (f : Proc → Proc) : Procs :=
  { s with proc := Function.update s.proc p (f (s.proc p)) }

-- ===== links

def setLinks (p : Nat) : Procs :=
  (s.proc p).parent.elim s fun parent =>
    let s := { s with procList := p :: s.procList }
    let s := s.setProc p fun x =>
      { x with yptr := none, optr := (s.proc parent).cptr }
    let s := (s.proc p).optr.elim s fun o =>
      s.setProc o fun x => { x with yptr := some p }
    let s := s.setProc parent fun x => { x with cptr := some p }
    { s with nrProcess := s.nrProcess + 1 }

def removeLinks (p : Nat) : Procs :=
  let s := { s with procList := s.procList.erase p }
  let s := (s.proc p).optr.elim s fun o =>
    s.setProc o fun x => { x with yptr := (s.proc p).yptr }
  let s := (s.proc p).yptr.elim
    ((s.proc p).parent.elim s fun parent =>
      s.setProc parent fun x => { x with cptr := (s.proc p).optr })
    fun y => s.setProc y fun x => { x with optr := (s.proc p).optr }
  { s with nrProcess := s.nrProcess - 1 }

def pidHashfn (pid : Int) : Nat :=
  (BitVec.ofInt 32 pid * 0x9e370001#32).toNat >>> 22

def hashProc (p : Nat) : Procs :=
  let b := pidHashfn (s.proc p).pid
  { s with hashList := Function.update s.hashList b (p :: s.hashList b) }

def unhashProc (p : Nat) : Procs :=
  { s with hashList := fun b => (s.hashList b).erase p }

def findProc (pid : Int) : Option Nat :=
  if 0 < pid ∧ pid < maxPid then
    (s.hashList (pidHashfn pid)).find? fun p => (s.proc p).pid = pid
  else none

-- ===== get_pid

/-- The loop of `get_pid` over the processes: `last_pid` and `next_safe`
afterwards, and whether it goes to `repeat`. -/
def pidScan : List Int → Int → Int → Int × Int × Bool
  | [], last, safe => (last, safe, false)
  | pid :: pids, last, safe =>
    if pid = last then
      if safe ≤ last + 1 then
        (if maxPid ≤ last + 1 then 1 else last + 1, maxPid, true)
      else pidScan pids (last + 1) safe
    else if last < pid ∧ pid < safe then pidScan pids last pid
    else pidScan pids last safe

/-- `repeat:`; `fuel` bounds the rounds. -/
def pidRepeat (pids : List Int) : Nat → Int → Int → Option (Int × Int)
  | 0, _, _ => none
  | fuel + 1, last, safe =>
    let r := pidScan pids last safe
    if r.2.2 then pidRepeat pids fuel r.1 r.2.1 else some (r.1, r.2.1)

/-- The pids on `proc_list`. -/
def pids : List Int := s.procList.map fun p => (s.proc p).pid

/-- `get_pid`: a round for each process, and one more, is enough. -/
def getPid : Option (Procs × Int) :=
  let last := s.lastPid + 1
  (if maxPid ≤ last then
      pidRepeat s.pids (s.procList.length + 1) 1 maxPid
    else if s.nextSafe ≤ last then
      pidRepeat s.pids (s.procList.length + 1) last maxPid
    else some (last, s.nextSafe)).map fun r =>
      ({ s with lastPid := r.1, nextSafe := r.2 }, r.1)

-- ===== run queue

def maxTimeSlice : Nat := 20

/-- `sched_class_enqueue` with `RR_enqueue`. -/
def enqueue (p : Nat) : Option Procs :=
  if p = s.idleproc then some s
  else if p ∈ s.runList then none
  else
    let s := { s with
      runList := s.runList ++ [p], procNum := s.procNum + 1 }
    some (s.setProc p fun x =>
      if x.timeSlice = 0 ∨ maxTimeSlice < x.timeSlice then
        { x with timeSlice := maxTimeSlice, rq := true }
      else { x with rq := true })

/-- `sched_class_dequeue` with `RR_dequeue`. -/
def dequeue (p : Nat) : Option Procs :=
  if p ∈ s.runList ∧ (s.proc p).rq then
    some { s with
      runList := s.runList.erase p, procNum := s.procNum - 1 }
  else none

def wakeupProc (p : Nat) : Option Procs :=
  if (s.proc p).state = .zombie then none
  else if (s.proc p).state = .runnable then some s
  else
    let s := s.setProc p fun x =>
      { x with state := .runnable, waitState := .none }
    if p = s.current then some s else s.enqueue p

/-- `schedule`, up to the switch to the process that is `current` then. -/
def schedule : Option Procs :=
  let s := s.setProc s.current fun x => { x with needResched := false }
  (if (s.proc s.current).state = .runnable then s.enqueue s.current
    else some s).bind fun s =>
      s.runList.head?.elim (some { s with current := s.idleproc }) fun next =>
        (s.dequeue next).map fun s => { s with current := next }

-- ===== timers

/-- The loop of `add_timer`. -/
def insertTimer (t : Timer) : List Timer → List Timer
  | [] => [t]
  | next :: rest =>
    if t.expires < next.expires then
      t :: { next with expires := next.expires - t.expires } :: rest
    else
      next :: insertTimer { t with expires := t.expires - next.expires } rest

def addTimer (t : Timer) : Option Procs :=
  if 0 < t.expires then
    some { s with timerList := insertTimer t s.timerList }
  else none

/-- The timer of `p` taken out; the one behind it keeps its time. -/
def removeTimer (p : Nat) : List Timer → List Timer
  | [] => []
  | t :: rest =>
    if t.proc = p then
      match rest with
      | [] => []
      | next :: rest =>
        { next with expires := next.expires + t.expires } :: rest
    else t :: removeTimer p rest

def delTimer (p : Nat) : Procs :=
  { s with timerList := removeTimer p s.timerList }

/-- The loop of `run_timer_list`: the timers that have run out. -/
def fireTimers : List Timer → Procs → Option Procs
  | [], s => some s
  | t :: rest, s =>
    if t.expires = 0 then
      if (s.proc t.proc).waitState = .none ∨
          (s.proc t.proc).waitState.interrupted then
        (s.wakeupProc t.proc).bind fun s =>
          fireTimers rest (s.delTimer t.proc)
      else none
    else some s

/-- `sched_class_proc_tick` with `RR_proc_tick`. -/
def procTick (p : Nat) : Procs :=
  s.setProc p fun x =>
    if p = s.idleproc then { x with needResched := true }
    else
      let x := { x with timeSlice := x.timeSlice - 1 }
      if x.timeSlice = 0 then { x with needResched := true } else x

def runTimerList : Option Procs :=
  (match s.timerList with
    | [] => some s
    | t :: rest =>
      if t.expires = 0 then none
      else
        let timers := { t with expires := t.expires - 1 } :: rest
        fireTimers timers { s with timerList := timers }).map
    fun s : Procs => s.procTick s.current

-- ===== calls

/-- The end of `do_fork`, for the process at `p`. -/
def addProc (p : Nat) : Option (Procs × Int) :=
  s.getPid.bind fun r =>
    let s := r.1.setProc p fun x => { x with pid := r.2 }
    ((s.hashProc p).setLinks p |>.wakeupProc p).map fun s => (s, r.2)

/-- A child is handed to `initproc`. -/
def adopt (p : Nat) : Option Procs :=
  let s := s.setProc s.current fun x => { x with cptr := (s.proc p).optr }
  let s := s.setProc p fun x =>
    { x with yptr := none, optr := (s.proc s.initproc).cptr }
  let s := (s.proc p).optr.elim s fun o =>
    s.setProc o fun x => { x with yptr := some p }
  let s := s.setProc p fun x => { x with parent := some s.initproc }
  let s := s.setProc s.initproc fun x => { x with cptr := some p }
  if (s.proc p).state = .zombie ∧
      (s.proc s.initproc).waitState = .child then
    s.wakeupProc s.initproc
  else some s

/-- `while (current->cptr != NULL)` in `do_exit`; `fuel` bounds the
rounds. -/
def adoptAll : Nat → Procs → Option Procs
  | 0, s => (s.proc s.current).cptr.elim (some s) fun _ => none
  | fuel + 1, s =>
    (s.proc s.current).cptr.elim (some s) fun p =>
      (s.adopt p).bind (adoptAll fuel)

/-- `do_exit`, without the release of memory and files. -/
def doExit (errorCode : Int) : Option Procs :=
  if s.current = s.idleproc ∨ s.current = s.initproc then none
  else
    let s := s.setProc s.current fun x =>
      { x with mm := none, state := .zombie, exitCode := errorCode }
    ((s.proc s.current).parent.elim none fun parent =>
      if (s.proc parent).waitState = .child then s.wakeupProc parent
      else some s).bind fun s =>
        (adoptAll s.procList.length s).bind schedule

/-- What a `do_wait` comes to. -/
inductive WaitResult
  | reaped (p : Nat) (exitCode : Int)
  | blocked
  | failed
  deriving DecidableEq

/-- The loop of `do_wait` over the children, from `p` on: the first zombie,
if there is one; `fuel` bounds the rounds. -/
def findZombie : Nat → Option Nat → Option (Option Nat)
  | _, none => some none
  | 0, some _ => none
  | fuel + 1, some p =>
    if (s.proc p).state = .zombie then some (some p)
    else findZombie fuel (s.proc p).optr

/-- `haskid`, and the zombie `do_wait` finds. -/
def waitTarget (pid : Int) : Option (Bool × Option Nat) :=
  if pid = 0 then
    let p := (s.proc s.current).cptr
    (s.findZombie s.procList.length p).map fun z => (p.isSome, z)
  else
    some ((s.findProc pid).elim (false, none) fun p =>
      if (s.proc p).parent = some s.current then
        (true, if (s.proc p).state = .zombie then some p else none)
      else (false, none))

/-- `do_wait` behind `repeat:`, up to `schedule` or to its return. -/
def doWait (pid : Int) : Option (Procs × WaitResult) :=
  (s.waitTarget pid).bind fun t =>
    t.2.elim
      (some (if t.1 then
        (s.setProc s.current fun x =>
          { x with state := .sleeping, waitState := .child }, .blocked)
        else (s, .failed)))
      fun p =>
        if p = s.idleproc ∨ p = s.initproc then none
        else some ((s.unhashProc p).removeLinks p,
          .reaped p (s.proc p).exitCode)

/-- `do_sleep` up to `schedule`; `false` if it returns at once. -/
def doSleep (time : Nat) : Option (Procs × Bool) :=
  if time = 0 then some (s, false)
  else
    ((s.setProc s.current fun x =>
      { x with state := .sleeping, waitState := .timer }).addTimer
        ⟨time, s.current⟩).map fun s => (s, true)

def doKill (pid : Int) : Option (Procs × Int) :=
  (s.findProc pid).elim (some (s, -eInval)) fun p =>
    if (s.proc p).exiting then some (s, -eKilled)
    else
      let s := s.setProc p fun x => { x with exiting := true }
      (if (s.proc p).waitState.interrupted then s.wakeupProc p
        else some s).map fun s => (s, 0)

def doYield : Procs :=
  s.setProc s.current fun x => { x with needResched := true }

/-- What `do_fork` does to the process table once it has the memory: a
`proc_struct` at `p`, a stack, and what `copy_mm` and `copy_fs` gave. -/
def doFork (p kstack : Nat) (mm fs : Option Nat) : Option (Procs × Int) :=
  if maxProcess ≤ s.nrProcess then some (s, -eNoFreeProc)
  else
    (s.setProc p fun _ =>
      { Proc.alloc with
        parent := some s.current, kstack := kstack, mm := mm
        fs := fs }).addProc p

-- ===== boot

/-- Before `proc_init`; `mem` is what the memory holds. -/
def start (mem : Nat → Proc) (idle : Nat) : Procs where
  proc := mem
  procList := []
  hashList _ := []
  nrProcess := 0
  nextSafe := maxPid
  lastPid := maxPid
  idleproc := idle
  initproc := 0
  current := idle
  runList := []
  timerList := []

/-- `proc_init`: `idleproc` at `idle`, `initproc` at `p`. -/
def procInit (mem : Nat → Proc) (idle p kstack fs fs' : Nat) :
    Option Procs :=
  let s := (start mem idle).setProc idle fun _ =>
    { Proc.alloc with
      pid := 0, state := .runnable, needResched := true, fs := some fs }
  let s := { s with nrProcess := s.nrProcess + 1 }
  (s.doFork p kstack none (some fs')).bind fun r =>
    if r.2 ≤ 0 then none
    else
      (r.1.findProc r.2).bind fun q =>
        if (r.1.proc idle).pid = 0 ∧ (r.1.proc q).pid = 1 then
          some { r.1 with initproc := q }
        else none

end Procs

end MipsUcore.Kern
