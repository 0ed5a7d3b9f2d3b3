/-
What the operations on the process table leave alone.

Most of them touch either the links of the family tree or the state of a
process and its place on the run queue, not both. `SameTree` says that the
first are as they were; it holds of everything in `sched.c` and of all of
`do_kill`, `do_yield` and `do_sleep`. What an invariant about the tree needs
to know about these is this one relation. `SameSched` is the other one, for
the functions that move links.
-/
import MipsUcore.Kern.ProcStep
import Mathlib.Logic.Function.Basic

namespace MipsUcore.Kern

open Function

/-- The links of a process, and what they are found by. -/
def Proc.links (x : Proc) :
    Int × Nat × Option Nat × Option Nat × Option Nat × Option Nat :=
  (x.pid, x.kstack, x.parent, x.cptr, x.yptr, x.optr)

/-- What a process is apart from its place in the tree. -/
structure Proc.SameOwn (x y : Proc) : Prop where
  state : y.state = x.state
  pid : y.pid = x.pid
  kstack : y.kstack = x.kstack
  needResched : y.needResched = x.needResched
  exiting : y.exiting = x.exiting
  exitCode : y.exitCode = x.exitCode
  waitState : y.waitState = x.waitState
  timeSlice : y.timeSlice = x.timeSlice
  rq : y.rq = x.rq

/-- The process with other links. -/
def Proc.relink (x : Proc) (parent cptr yptr optr : Option Nat) : Proc :=
  { x with parent := parent, cptr := cptr, yptr := yptr, optr := optr }

theorem Proc.SameOwn.relink (x : Proc) (parent cptr yptr optr : Option Nat) :
    x.SameOwn (x.relink parent cptr yptr optr) :=
  ⟨rfl, rfl, rfl, rfl, rfl, rfl, rfl, rfl, rfl⟩

/-- Nothing has happened to a process but, perhaps, that it was woken. -/
structure Proc.Evolves (x y : Proc) : Prop where
  pid : y.pid = x.pid
  kstack : y.kstack = x.kstack
  exiting : y.exiting = x.exiting
  exitCode : y.exitCode = x.exitCode
  wake : y.state = x.state ∧ y.waitState = x.waitState ∨
    x.state ≠ .zombie ∧ x.state ≠ .runnable ∧ y.state = .runnable ∧
      y.waitState = .none

section
variable {x y z : Proc}

theorem Proc.Evolves.refl (x : Proc) : x.Evolves x :=
  ⟨rfl, rfl, rfl, rfl, .inl ⟨rfl, rfl⟩⟩

/-- Two steps of the scheduler on one process compose. -/
theorem Proc.Evolves.trans (h : x.Evolves y) (h' : y.Evolves z) :
    x.Evolves z := by
  refine ⟨h'.pid.trans h.pid, h'.kstack.trans h.kstack,
    h'.exiting.trans h.exiting, h'.exitCode.trans h.exitCode, ?_⟩
  rcases h.wake with ⟨hs, hw⟩ | ⟨hz, hr, hs, hw⟩
  · rcases h'.wake with ⟨hs', hw'⟩ | ⟨hz', hr', hs', hw'⟩
    · exact .inl ⟨hs'.trans hs, hw'.trans hw⟩
    · exact .inr ⟨hs ▸ hz', hs ▸ hr', hs', hw'⟩
  · rcases h'.wake with ⟨hs', hw'⟩ | ⟨-, hr', -, -⟩
    · exact .inr ⟨hz, hr, hs'.trans hs, hw'.trans hw⟩
    · exact absurd hs hr'

theorem Proc.SameOwn.evolves (h : x.SameOwn y) : x.Evolves y :=
  ⟨h.pid, h.kstack, h.exiting, h.exitCode, .inl ⟨h.state, h.waitState⟩⟩

/-- The scheduler neither makes a zombie nor revives one. -/
theorem Proc.Evolves.zombie (h : x.Evolves y) :
    y.state = .zombie ↔ x.state = .zombie := by
  rcases h.wake with ⟨hs, -⟩ | ⟨hz, -, hs, -⟩
  · rw [hs]
  · rw [hs]
    exact iff_of_false (by decide) hz

/-- What a process waits for is kept or cleared. -/
theorem Proc.Evolves.waitState (h : x.Evolves y) :
    y.waitState = x.waitState ∨ y.waitState = .none := by
  rcases h.wake with ⟨-, hw⟩ | ⟨-, -, -, hw⟩
  · exact .inl hw
  · exact .inr hw

/-- Whoever is asleep stays so until it is woken. -/
theorem Proc.Evolves.asleep (hev : x.Evolves y) (hlive : x.state ≠ .zombie)
    (hw : x.waitState = .timer ∨ x.waitState = .none) :
    y.state ≠ .zombie ∧ (y.waitState = .timer ∨ y.waitState = .none) := by
  refine ⟨fun hz => hlive (hev.zombie.1 hz), ?_⟩
  rcases hev.waitState with heq | hnone
  · rw [heq]
    exact hw
  · exact .inr hnone

/-- Whoever sleeps has slept before. -/
theorem Proc.Evolves.sleeping (h : x.Evolves y) (hy : y.state = .sleeping) :
    x.state = .sleeping ∧ x.waitState = y.waitState := by
  rcases h.wake with ⟨hs, hw⟩ | ⟨-, -, hs, -⟩
  · exact ⟨hs.symm.trans hy, hw.symm⟩
  · exact absurd (hs.symm.trans hy) (by decide)

/-- A runnable process stays runnable. -/
theorem Proc.Evolves.runnable (h : x.Evolves y) (hx : x.state = .runnable) :
    y.state = .runnable ∧ y.waitState = x.waitState := by
  rcases h.wake with ⟨hs, hw⟩ | ⟨-, hr, -, -⟩
  · exact ⟨hs.trans hx, hw⟩
  · exact absurd hx hr

end

namespace Procs

variable {s t u : Procs} {p q : Nat}

-- ===== setProc

@[simp] theorem setProc_self (s : Procs) (p : Nat) (f : Proc → Proc) :
    (s.setProc p f).proc p = f (s.proc p) := update_self ..

theorem setProc_of_ne (s : Procs) (f : Proc → Proc) (h : q ≠ p) :
    (s.setProc p f).proc q = s.proc q := update_of_ne h ..

theorem setProc_proc (s : Procs) (p : Nat) (f : Proc → Proc) (q : Nat) :
    (s.setProc p f).proc q = if q = p then f (s.proc p) else s.proc q :=
  update_apply ..

@[simp] theorem setProc_procList (s : Procs) (p : Nat) (f : Proc → Proc) :
    (s.setProc p f).procList = s.procList := rfl

@[simp] theorem setProc_current (s : Procs) (p : Nat) (f : Proc → Proc) :
    (s.setProc p f).current = s.current := rfl

-- ===== the tree

/-- The table and the links are as they were, and the same processes are
zombies. -/
structure SameTree (s t : Procs) : Prop where
  procList : t.procList = s.procList
  hashList : t.hashList = s.hashList
  nrProcess : t.nrProcess = s.nrProcess
  nextSafe : t.nextSafe = s.nextSafe
  lastPid : t.lastPid = s.lastPid
  idleproc : t.idleproc = s.idleproc
  initproc : t.initproc = s.initproc
  links : ∀ p, (t.proc p).links = (s.proc p).links
  zombie : ∀ p, (t.proc p).state = .zombie ↔ (s.proc p).state = .zombie

section
variable (h : SameTree s t) (p : Nat)
include h

theorem SameTree.pid : (t.proc p).pid = (s.proc p).pid :=
  congrArg (·.1) (h.links p)

theorem SameTree.kstack : (t.proc p).kstack = (s.proc p).kstack :=
  congrArg (·.2.1) (h.links p)

theorem SameTree.parent : (t.proc p).parent = (s.proc p).parent :=
  congrArg (·.2.2.1) (h.links p)

theorem SameTree.cptr : (t.proc p).cptr = (s.proc p).cptr :=
  congrArg (·.2.2.2.1) (h.links p)

theorem SameTree.yptr : (t.proc p).yptr = (s.proc p).yptr :=
  congrArg (·.2.2.2.2.1) (h.links p)

theorem SameTree.optr : (t.proc p).optr = (s.proc p).optr :=
  congrArg (·.2.2.2.2.2) (h.links p)

end

theorem SameTree.refl (s : Procs) : SameTree s s :=
  ⟨rfl, rfl, rfl, rfl, rfl, rfl, rfl, fun _ => rfl, fun _ => Iff.rfl⟩

theorem SameTree.trans (h : SameTree s t) (h' : SameTree t u) :
    SameTree s u where
  procList := h'.procList.trans h.procList
  hashList := h'.hashList.trans h.hashList
  nrProcess := h'.nrProcess.trans h.nrProcess
  nextSafe := h'.nextSafe.trans h.nextSafe
  lastPid := h'.lastPid.trans h.lastPid
  idleproc := h'.idleproc.trans h.idleproc
  initproc := h'.initproc.trans h.initproc
  links p := (h'.links p).trans (h.links p)
  zombie p := (h'.zombie p).trans (h.zombie p)

/-- A change to one process that is none of its links. -/
theorem SameTree.setProc (s : Procs) (p : Nat) {f : Proc → Proc}
    (hlinks : (f (s.proc p)).links = (s.proc p).links)
    (hzombie : (f (s.proc p)).state = .zombie ↔
      (s.proc p).state = .zombie) : SameTree s (s.setProc p f) := by
  refine ⟨rfl, rfl, rfl, rfl, rfl, rfl, rfl, fun q => ?_, fun q => ?_⟩
  · rw [setProc_proc]
    by_cases hq : q = p
    · rw [if_pos hq, hq]
      exact hlinks
    · rw [if_neg hq]
  · rw [setProc_proc]
    by_cases hq : q = p
    · rw [if_pos hq, hq]
      exact hzombie
    · rw [if_neg hq]

/-- The table the processes are found in is as it was. -/
structure SameTable (s t : Procs) : Prop where
  procList : t.procList = s.procList
  hashList : t.hashList = s.hashList
  nrProcess : t.nrProcess = s.nrProcess
  nextSafe : t.nextSafe = s.nextSafe
  lastPid : t.lastPid = s.lastPid
  idleproc : t.idleproc = s.idleproc
  pid : ∀ p, (t.proc p).pid = (s.proc p).pid

/-- A step that keeps the links keeps the pid table. -/
theorem SameTree.table (h : SameTree s t) : SameTable s t :=
  ⟨h.procList, h.hashList, h.nrProcess, h.nextSafe, h.lastPid, h.idleproc,
    h.pid⟩

-- ===== what the scheduler does

/-- `p` at the end of the run queue. -/
def queued (s : Procs) (p : Nat) : Procs :=
  { s with runList := s.runList ++ [p], procNum := s.procNum + 1 }.setProc p
    fun x =>
      if x.timeSlice = 0 ∨ maxTimeSlice < x.timeSlice then
        { x with timeSlice := maxTimeSlice, rq := true }
      else { x with rq := true }

/-- `p` made runnable. -/
def woken (s : Procs) (p : Nat) : Procs :=
  s.setProc p fun x => { x with state := .runnable, waitState := .none }

/-- `current` put to sleep. -/
def slept (s : Procs) (w : WaitState) : Procs :=
  s.setProc s.current fun x => { x with state := .sleeping, waitState := w }

/-- `need_resched` of `current` cleared. -/
def unflagged (s : Procs) : Procs :=
  s.setProc s.current fun x => { x with needResched := false }

/-- `next` taken off the run queue and run. -/
def switched (s : Procs) (next : Nat) : Procs :=
  { s with
    runList := s.runList.erase next, procNum := s.procNum - 1
    current := next }

/-- The enqueue stops at a process that is already queued; the idle
process is never queued. -/
theorem enqueue_some (h : s.enqueue p = some t) : p = s.idleproc ∧ t = s ∨
      p ≠ s.idleproc ∧ p ∉ s.runList ∧ t = s.queued p := by
  rw [enqueue] at h
  by_cases hidle : p = s.idleproc
  · rw [if_pos hidle] at h
    exact .inl ⟨hidle, (Option.some.inj h).symm⟩
  rw [if_neg hidle] at h
  by_cases hmem : p ∈ s.runList
  · rw [if_pos hmem] at h
    cases h
  rw [if_neg hmem] at h
  exact .inr ⟨hidle, hmem, (Option.some.inj h).symm⟩

theorem enqueue_eq (hidle : p ≠ s.idleproc) (hmem : p ∉ s.runList) :
    s.enqueue p = some (s.queued p) := by
  rw [enqueue, if_neg hidle, if_neg hmem]
  rfl

theorem wakeupProc_eq (hz : (s.proc p).state ≠ .zombie) : s.wakeupProc p =
    if (s.proc p).state = .runnable then some s
    else if p = s.current then some (s.woken p)
    else (s.woken p).enqueue p := by
  rw [wakeupProc, if_neg hz]
  rfl

/-- A wakeup stops at a zombie, does nothing to a runnable process and
queues any other one unless it is running. -/
theorem wakeupProc_some (h : s.wakeupProc p = some t) :
    (s.proc p).state ≠ .zombie ∧ ((s.proc p).state = .runnable ∧ t = s ∨
        (s.proc p).state ≠ .runnable ∧ (p = s.current ∧ t = s.woken p ∨
            p ≠ s.current ∧ (s.woken p).enqueue p = some t)) := by
  have hz : (s.proc p).state ≠ .zombie := by
    intro hz
    rw [wakeupProc, if_pos hz] at h
    cases h
  rw [wakeupProc_eq hz] at h
  refine ⟨hz, ?_⟩
  by_cases hr : (s.proc p).state = .runnable
  · rw [if_pos hr] at h
    exact .inl ⟨hr, (Option.some.inj h).symm⟩
  rw [if_neg hr] at h
  refine .inr ⟨hr, ?_⟩
  by_cases hcur : p = s.current
  · rw [if_pos hcur] at h
    exact .inl ⟨hcur, (Option.some.inj h).symm⟩
  · rw [if_neg hcur] at h
    exact .inr ⟨hcur, h⟩

/-- The first process on the queue runs, or `idleproc`. -/
def dispatch (s : Procs) : Option Procs :=
  s.runList.head?.elim (some { s with current := s.idleproc }) fun next =>
    (s.dequeue next).map fun s => { s with current := next }

/-- `current` goes back on the queue, unless it sleeps or is dead; then the
first one runs. -/
theorem schedule_eq (s : Procs) : s.schedule =
    (if (s.proc s.current).state = .runnable then
      s.unflagged.enqueue s.current
    else some s.unflagged).bind dispatch := by
  have hstate : (s.unflagged.proc s.unflagged.current).state =
      (s.proc s.current).state := by
    rw [unflagged, setProc_current, setProc_self]
  rw [← hstate]
  rfl

/-- The head of the queue runs next, the idle process if there is none. -/
theorem dispatch_some (h : s.dispatch = some t) :
    s.runList = [] ∧ t = { s with current := s.idleproc } ∨
      ∃ next rest, s.runList = next :: rest ∧ (s.proc next).rq = true ∧
        t = s.switched next := by
  rw [dispatch] at h
  cases hlist : s.runList with
  | nil =>
    rw [hlist] at h
    exact .inl ⟨rfl, (Option.some.inj h).symm⟩
  | cons next rest =>
    have hin : next ∈ s.runList := hlist ▸ List.mem_cons_self
    rw [hlist] at h
    change (s.dequeue next).map _ = some t at h
    rw [dequeue] at h
    by_cases hrq : (s.proc next).rq = true
    · rw [if_pos ⟨hin, hrq⟩] at h
      exact .inr ⟨next, rest, rfl, hrq, (Option.some.inj h).symm⟩
    · rw [if_neg fun hboth => hrq hboth.2] at h
      cases h

theorem dispatch_cons {next : Nat} {rest : List Nat}
    (hlist : s.runList = next :: rest) (hrq : (s.proc next).rq = true) :
    s.dispatch = some (s.switched next) := by
  have hin : next ∈ s.runList := hlist ▸ List.mem_cons_self
  rw [dispatch, hlist, List.head?_cons, Option.elim_some, dequeue,
    if_pos ⟨hin, hrq⟩]
  rfl

theorem dispatch_nil (hlist : s.runList = []) :
    s.dispatch = some { s with current := s.idleproc } := by
  rw [dispatch, hlist]
  rfl

-- ===== who has been woken

/-- Queueing changes the slice and the queue flag, no other field. -/
theorem queued_proc (s : Procs) (p q : Nat) : ∃ slice rq, (s.queued p).proc q =
        { s.proc q with timeSlice := slice, rq := rq } ∧
      (q = p → rq = true) ∧ (q ≠ p → rq = (s.proc q).rq) := by
  rw [queued, setProc_proc]
  by_cases hq : q = p
  · rw [if_pos hq, hq]
    split
    · exact ⟨_, _, rfl, fun _ => rfl, fun hne => absurd rfl hne⟩
    · exact ⟨_, _, rfl, fun _ => rfl, fun hne => absurd rfl hne⟩
  · rw [if_neg hq]
    exact ⟨_, _, rfl, fun heq => absurd heq hq, fun _ => rfl⟩

-- ===== what the scheduler leaves alone

/-- The queues, the timers and `current` are no part of the tree. -/
theorem SameTree.lists (s : Procs) (r : List Nat) (n c : Nat)
    (l : List Timer) : SameTree s
      { s with runList := r, procNum := n, current := c, timerList := l } :=
  ⟨rfl, rfl, rfl, rfl, rfl, rfl, rfl, fun _ => rfl, fun _ => Iff.rfl⟩

/-- Going to sleep keeps the tree. -/
theorem SameTree.slept (h : (s.proc s.current).state ≠ .zombie)
    (w : WaitState) : SameTree s (s.slept w) :=
  .setProc s s.current rfl (iff_of_false (by simp) h)

/-- Table and tree are as they were, and nothing has happened to a process
but, perhaps, that it was woken. -/
structure Wakes (s t : Procs) : Prop extends SameTree s t where
  evolves : ∀ q, (s.proc q).Evolves (t.proc q)

theorem Wakes.refl (s : Procs) : Wakes s s := ⟨.refl s, fun _ => .refl _⟩

/-- Wakeups compose. -/
theorem Wakes.trans (h : Wakes s t) (h' : Wakes t u) : Wakes s u :=
  ⟨h.toSameTree.trans h'.toSameTree,
    fun q => (h.evolves q).trans (h'.evolves q)⟩

/-- A change to one process that is none of its links. -/
theorem Wakes.setProc (s : Procs) (p : Nat) {f : Proc → Proc}
    (hlinks : (f (s.proc p)).links = (s.proc p).links)
    (hev : (s.proc p).Evolves (f (s.proc p))) : Wakes s (s.setProc p f) := by
  refine ⟨.setProc s p hlinks hev.zombie, fun q => ?_⟩
  rw [setProc_proc]
  by_cases hq : q = p
  · rw [if_pos hq, hq]
    exact hev
  · rw [if_neg hq]
    exact .refl _

/-- The enqueue itself wakes no process. -/
theorem Wakes.enqueue (h : s.enqueue p = some t) : Wakes s t := by
  rcases enqueue_some h with ⟨-, rfl⟩ | ⟨-, -, rfl⟩
  · exact .refl t
  · have hlists : Wakes s
        { s with runList := s.runList ++ [p], procNum := s.procNum + 1 } :=
      ⟨.lists .., fun _ => .refl _⟩
    refine hlists.trans (.setProc _ p ?_ ?_)
    · split <;> rfl
    · split <;> exact ⟨rfl, rfl, rfl, rfl, .inl ⟨rfl, rfl⟩⟩

theorem Wakes.woken (hz : (s.proc p).state ≠ .zombie)
    (hr : (s.proc p).state ≠ .runnable) : Wakes s (s.woken p) :=
  .setProc s p rfl ⟨rfl, rfl, rfl, rfl, .inr ⟨hz, hr, rfl, rfl⟩⟩

/-- A wakeup keeps the tree and does no more than wake. -/
theorem Wakes.wakeupProc (h : s.wakeupProc p = some t) : Wakes s t := by
  obtain ⟨hz, ⟨-, rfl⟩ | ⟨hr, ⟨-, rfl⟩ | ⟨-, h⟩⟩⟩ := wakeupProc_some h
  · exact .refl t
  · exact .woken hz hr
  · exact (Wakes.woken hz hr).trans (.enqueue h)

/-- A wake-up runs nobody and sets no timer. -/
theorem wakeupProc_lists (h : s.wakeupProc p = some t) :
    t.timerList = s.timerList ∧ t.current = s.current := by
  obtain ⟨-, ⟨-, rfl⟩ | ⟨-, ⟨-, rfl⟩ | ⟨-, h⟩⟩⟩ := wakeupProc_some h
  · exact ⟨rfl, rfl⟩
  · exact ⟨rfl, rfl⟩
  · rcases enqueue_some h with ⟨-, rfl⟩ | ⟨-, -, rfl⟩
    · exact ⟨rfl, rfl⟩
    · exact ⟨rfl, rfl⟩

/-- Whoever is woken can run. -/
theorem wakeupProc_runnable (h : s.wakeupProc p = some t) :
    (t.proc p).state = .runnable := by
  obtain ⟨-, ⟨hr, rfl⟩ | ⟨-, ⟨-, rfl⟩ | ⟨-, h⟩⟩⟩ := wakeupProc_some h
  · exact hr
  · rw [woken, setProc_self]
  · have hw : ((s.woken p).proc p).state = .runnable := by
      rw [woken, setProc_self]
    exact (((Wakes.enqueue h).evolves p).runnable hw).1

-- ===== who is left alone

/-- `q` has neither been put to sleep nor woken. -/
def Still (s t : Procs) (q : Nat) : Prop :=
  (t.proc q).state = (s.proc q).state ∧
    (t.proc q).waitState = (s.proc q).waitState

theorem Still.refl (s : Procs) (q : Nat) : Still s s q := ⟨rfl, rfl⟩

theorem Still.trans {u : Procs} (h : Still s t q) (h' : Still t u q) :
    Still s u q := ⟨h'.1.trans h.1, h'.2.trans h.2⟩

theorem Still.setProc (s : Procs) {p : Nat} (f : Proc → Proc) (h : q ≠ p) :
    Still s (s.setProc p f) q := by
  rw [Still, setProc_of_ne _ _ h]
  exact ⟨rfl, rfl⟩

theorem Still.enqueue (h : s.enqueue p = some t) : Still s t q := by
  rcases enqueue_some h with ⟨-, rfl⟩ | ⟨-, -, rfl⟩
  · exact .refl t q
  · obtain ⟨slice, rq, hq, -, -⟩ := queued_proc s p q
    rw [Still, hq]
    exact ⟨rfl, rfl⟩

/-- A process that is not the one woken keeps state and wait. -/
theorem Still.wakeupProc (h : s.wakeupProc p = some t) (hq : q ≠ p) :
    Still s t q := by
  obtain ⟨-, ⟨-, rfl⟩ | ⟨-, ⟨-, rfl⟩ | ⟨-, h⟩⟩⟩ := wakeupProc_some h
  · exact .refl t q
  · exact .setProc s _ hq
  · exact (Still.setProc s _ hq).trans (.enqueue h)

/-- `current` goes back on the queue, or not. -/
theorem requeue_some (hu : (if (s.proc s.current).state = .runnable then
      s.unflagged.enqueue s.current else some s.unflagged) = some u) :
    Wakes s u ∧ u.timerList = s.timerList ∧ ∀ q, Still s u q := by
  have hflag : Wakes s s.unflagged :=
    .setProc s s.current rfl ⟨rfl, rfl, rfl, rfl, .inl ⟨rfl, rfl⟩⟩
  have hstill (q : Nat) : Still s s.unflagged q := by
    by_cases hq : q = s.current
    · rw [Still, unflagged, hq, setProc_self]
      exact ⟨rfl, rfl⟩
    · exact .setProc s _ hq
  split at hu
  · refine ⟨hflag.trans (.enqueue hu), ?_,
      fun q => (hstill q).trans (.enqueue hu)⟩
    rcases enqueue_some hu with ⟨-, rfl⟩ | ⟨-, -, rfl⟩
    · rfl
    · rfl
  · cases hu
    exact ⟨hflag, rfl, hstill⟩

/-- `schedule` wakes nobody and sets no timer. -/
theorem schedule_some (h : s.schedule = some t) :
    Wakes s t ∧ t.timerList = s.timerList ∧ ∀ q, Still s t q := by
  rw [schedule_eq] at h
  obtain ⟨u, hu, ht⟩ := Option.bind_eq_some_iff.1 h
  obtain ⟨hwakes, hrest⟩ := requeue_some hu
  rcases dispatch_some ht with ⟨-, rfl⟩ | ⟨next, rest, -, -, rfl⟩
  · exact ⟨hwakes.trans ⟨.lists .., fun _ => .refl _⟩, hrest⟩
  · exact ⟨hwakes.trans ⟨.lists .., fun _ => .refl _⟩, hrest⟩

/-- A pass of the scheduler only queues and dispatches. -/
theorem Wakes.schedule (h : s.schedule = some t) : Wakes s t :=
  (schedule_some h).1

-- ===== a tick

theorem removeTimer_of_ne {x : Timer} (h : x.proc ≠ p) (l : List Timer) :
    removeTimer p (x :: l) = x :: removeTimer p l := by
  exact if_neg h

/-- The timer behind the removed one takes over its remaining time. -/
theorem removeTimer_of_eq {x : Timer} (h : x.proc = p) (y : Timer)
    (l : List Timer) : removeTimer p (x :: y :: l) =
      { y with expires := y.expires + x.expires } :: l := by
  exact if_pos h

theorem removeTimer_singleton {x : Timer} (h : x.proc = p) :
    removeTimer p [x] = [] := by
  exact if_pos h

/-- The timer that has run out is taken off; the others keep their time. -/
theorem removeTimer_cons {x : Timer} (hx : x.expires = 0) (l : List Timer) :
    removeTimer x.proc (x :: l) = l := by
  cases l with
  | nil => exact removeTimer_singleton rfl
  | cons y l => rw [removeTimer_of_eq rfl, hx, Nat.add_zero]

/-- The timers that have not run out, and who is woken. -/
def expire : List Timer → List Timer × List Nat
  | [] => ([], [])
  | t :: rest =>
    if t.expires = 0 then ((expire rest).1, t.proc :: (expire rest).2)
    else (t :: rest, [])

/-- A tick, as far as the list is concerned. -/
def tickTimers : List Timer → Option (List Timer × List Nat)
  | [] => some ([], [])
  | t :: rest =>
    if t.expires = 0 then none
    else some (expire ({ t with expires := t.expires - 1 } :: rest))

/-- The processes woken one after the other. -/
def wakeAll : List Nat → Procs → Option Procs
  | [], s => some s
  | p :: ps, s =>
    if (s.proc p).waitState = .none ∨ (s.proc p).waitState.interrupted then
      (s.wakeupProc p).bind (wakeAll ps)
    else none

theorem enqueue_withTimers (s : Procs) (p : Nat) (l : List Timer) :
    { s with timerList := l }.enqueue p =
      (s.enqueue p).map fun s => { s with timerList := l } := by
  unfold enqueue
  split_ifs <;> rfl

theorem wakeupProc_withTimers (s : Procs) (p : Nat) (l : List Timer) :
    { s with timerList := l }.wakeupProc p =
      (s.wakeupProc p).map fun s => { s with timerList := l } := by
  have hset : ∀ f, { s with timerList := l }.setProc p f =
      { s.setProc p f with timerList := l } := fun f => rfl
  simp only [wakeupProc, hset, enqueue_withTimers]
  split_ifs <;> rfl

theorem expire_zero {t : Timer} (h : t.expires = 0) (l : List Timer) :
    expire (t :: l) = ((expire l).1, t.proc :: (expire l).2) := if_pos h

theorem expire_pos {t : Timer} (h : t.expires ≠ 0) (l : List Timer) :
    expire (t :: l) = (t :: l, []) := if_neg h

/-- The loop of run_timer_list splits off the expired timers and then
wakes their processes in order. -/
theorem fireTimers_eq (l : List Timer) : ∀ s : Procs,
    fireTimers l { s with timerList := l } =
      wakeAll (expire l).2 { s with timerList := (expire l).1 } := by
  induction l with
  | nil => exact fun s => rfl
  | cons t rest ih =>
    intro s
    rw [fireTimers]
    by_cases ht : t.expires = 0
    · simp only [if_pos ht, expire_zero ht, wakeAll, wakeupProc_withTimers,
        Option.bind_map, Function.comp_def, delTimer, removeTimer_cons ht, ih]
    · rw [if_neg ht, expire_pos ht]
      rfl

theorem runTimerList_eq (s : Procs) : s.runTimerList =
    ((tickTimers s.timerList).bind fun r =>
      wakeAll r.2 { s with timerList := r.1 }).map
        fun s => s.procTick s.current := by
  rw [runTimerList, tickTimers.eq_def]
  cases hl : s.timerList with
  | nil =>
    cases s
    subst hl
    rfl
  | cons t rest =>
    by_cases ht : t.expires = 0
    · simp only [if_pos ht]
      rfl
    · simp only [if_neg ht, fireTimers_eq]
      rfl

/-- The expired timers are a front part of the list, and the first
one left has not expired. -/
theorem expire_spec (l : List Timer) :
    l.map Timer.proc = (expire l).2 ++ (expire l).1.map Timer.proc ∧
      ∀ x, (expire l).1.head? = some x → x.expires ≠ 0 := by
  induction l with
  | nil => exact ⟨rfl, fun x hx => by cases hx⟩
  | cons t rest ih =>
    by_cases ht : t.expires = 0
    · rw [expire_zero ht, List.map_cons, ih.1]
      exact ⟨rfl, ih.2⟩
    · rw [expire_pos ht]
      exact ⟨rfl, fun x hx => Option.some.inj hx ▸ ht⟩

/-- The processes to wake were at the front, and the first timer left
has not expired. -/
theorem tickTimers_some {l l' : List Timer} {w : List Nat}
    (h : tickTimers l = some (l', w)) :
    l.map Timer.proc = w ++ l'.map Timer.proc ∧
      ∀ x, l'.head? = some x → x.expires ≠ 0 := by
  cases l with
  | nil =>
    cases h
    exact expire_spec []
  | cons t rest =>
    rw [tickTimers] at h
    split at h
    · cases h
    · have hspec := expire_spec ({ t with expires := t.expires - 1 } :: rest)
      rw [Option.some.inj h] at hspec
      exact hspec

/-- A head that has not expired can be counted down. -/
theorem tickTimers_isSome {l : List Timer}
    (hl : ∀ x, l.head? = some x → x.expires ≠ 0) :
    ∃ l' w, tickTimers l = some (l', w) := by
  cases l with
  | nil => exact ⟨_, _, rfl⟩
  | cons t rest => exact ⟨_, _, if_neg (hl t rfl)⟩

/-- What wake-ups keep, `wakeAll` keeps. -/
theorem wakeAll_rule {I : Procs → Prop}
    (wake : ∀ s p t, I s → (s.proc p).waitState ≠ .ksem →
      s.wakeupProc p = some t → I t) {ps : List Nat}
    (h : wakeAll ps s = some t) (hs : I s) : I t := by
  induction ps generalizing s with
  | nil => exact Option.some.inj h ▸ hs
  | cons p ps ih =>
    rw [wakeAll] at h
    by_cases hw : (s.proc p).waitState = .none ∨
        (s.proc p).waitState.interrupted = true
    · rw [if_pos hw] at h
      obtain ⟨u, hu, h⟩ := Option.bind_eq_some_iff.1 h
      refine ih h (wake s p u hs (fun heq => ?_) hu)
      rw [heq] at hw
      exact absurd hw (by decide)
    · rw [if_neg hw] at h
      cases h

theorem runTimerList_some (h : s.runTimerList = some t) :
    ∃ l w u, tickTimers s.timerList = some (l, w) ∧
      wakeAll w { s with timerList := l } = some u ∧
      t = u.procTick u.current := by
  rw [runTimerList_eq] at h
  obtain ⟨u, hu, rfl⟩ := Option.map_eq_some_iff.1 h
  obtain ⟨⟨l, w⟩, htick, hu⟩ := Option.bind_eq_some_iff.1 hu
  exact ⟨l, w, u, htick, hu, rfl⟩

/-- What every wakeup of a process not on a semaphore keeps, and every
change of the timers or of the slice, the clock tick keeps. -/
theorem runTimerList_rule {I : Procs → Prop}
    (wake : ∀ s p t, I s → (s.proc p).waitState ≠ .ksem →
      s.wakeupProc p = some t → I t)
    (timers : ∀ s l, I s → I { s with timerList := l })
    (tick : ∀ s, I s → I (s.procTick s.current))
    (h : s.runTimerList = some t) (hs : I s) : I t := by
  obtain ⟨l, w, u, -, hu, rfl⟩ := runTimerList_some h
  exact tick u (wakeAll_rule wake hu (timers s l hs))

theorem procTick_proc (s : Procs) (p q : Nat) :
    ∃ slice flag, (s.procTick p).proc q =
      { s.proc q with timeSlice := slice, needResched := flag } := by
  rw [procTick, setProc_proc]
  by_cases hq : q = p
  · rw [if_pos hq, hq]
    by_cases hidle : p = s.idleproc
    · rw [if_pos hidle]
      exact ⟨_, _, rfl⟩
    · rw [if_neg hidle]
      dsimp only
      split
      · exact ⟨_, _, rfl⟩
      · exact ⟨_, _, rfl⟩
  · rw [if_neg hq]
    exact ⟨_, _, rfl⟩

/-- The tick of the running process wakes no one. -/
theorem Wakes.procTick (s : Procs) (p : Nat) : Wakes s (s.procTick p) := by
  refine ⟨⟨rfl, rfl, rfl, rfl, rfl, rfl, rfl, fun q => ?_, fun q => ?_⟩,
    fun q => ?_⟩
  all_goals
    obtain ⟨slice, flag, hq⟩ := procTick_proc s p q
    rw [hq]
  · rfl
  · exact ⟨rfl, rfl, rfl, rfl, .inl ⟨rfl, rfl⟩⟩

theorem Wakes.runTimerList (h : s.runTimerList = some t) : Wakes s t :=
  runTimerList_rule (fun _ _ _ hs _ hw => hs.trans (.wakeupProc hw))
    (fun _ _ hs => hs.trans ⟨.lists .., fun _ => .refl _⟩)
    (fun u hs => hs.trans (.procTick u u.current)) h (.refl s)

/-- A tick wakes nobody who waits for a semaphore. -/
theorem Still.runTimerList (h : s.runTimerList = some t)
    (hq : (s.proc q).waitState = .ksem) : Still s t q := by
  refine runTimerList_rule (I := fun u => Still s u q)
    (fun u p v hs hp hw => hs.trans (.wakeupProc hw ?_)) (fun _ _ hs => hs)
    (fun u hs => hs.trans ?_) h (.refl s q)
  · rintro rfl
    exact hp (hs.2.trans hq)
  · obtain ⟨slice, flag, heq⟩ := procTick_proc u u.current q
    rw [Still, heq]
    exact ⟨rfl, rfl⟩

-- ===== calls

/-- `do_kill` sets the flag of a process it finds, and may wake it. -/
theorem doKill_some {pid r : Int} (h : s.doKill pid = some (t, r)) :
    t = s ∨ ∃ p u, s.findProc pid = some p ∧
      u = s.setProc p (fun x => { x with exiting := true }) ∧
      ((u.proc p).waitState.interrupted = true ∧ u.wakeupProc p = some t ∨
        (u.proc p).waitState.interrupted = false ∧ t = u) := by
  rw [doKill] at h
  cases hfind : s.findProc pid with
  | none =>
    rw [hfind] at h
    exact .inl (Prod.ext_iff.1 (Option.some.inj h)).1.symm
  | some p =>
    rw [hfind] at h
    change (if (s.proc p).exiting = true then some (s, -eKilled) else _) =
      some (t, r) at h
    by_cases hexit : (s.proc p).exiting = true
    · rw [if_pos hexit] at h
      exact .inl (Prod.ext_iff.1 (Option.some.inj h)).1.symm
    rw [if_neg hexit] at h
    obtain ⟨v, hv, hvt⟩ := Option.map_eq_some_iff.1 h
    obtain rfl := (Prod.ext_iff.1 hvt).1
    refine .inr ⟨p, _, rfl, rfl, ?_⟩
    split at hv
    case isTrue hint => exact .inl ⟨hint, hv⟩
    case isFalse hint =>
      exact .inr ⟨Bool.eq_false_of_not_eq_true hint, (Option.some.inj hv).symm⟩

/-- A kill marks its victim and may wake it; the tree stays. -/
theorem SameTree.doKill {pid r : Int} (h : s.doKill pid = some (t, r)) :
    SameTree s t := by
  rcases doKill_some h with rfl | ⟨p, u, -, rfl, ht⟩
  · exact .refl t
  have hflag : SameTree s (s.setProc p fun x => { x with exiting := true }) :=
    .setProc s p rfl Iff.rfl
  rcases ht with ⟨-, ht⟩ | ⟨-, rfl⟩
  · exact hflag.trans (Wakes.wakeupProc ht).toSameTree
  · exact hflag

/-- `do_sleep` puts `current` to sleep and sets its timer, or does nothing. -/
theorem doSleep_some {time : Nat} {r : Bool}
    (h : s.doSleep time = some (t, r)) :
    time = 0 ∧ t = s ∧ r = false ∨ 0 < time ∧ r = true ∧
      t = { s.slept .timer with
        timerList := insertTimer ⟨time, s.current⟩ s.timerList } := by
  rw [doSleep] at h
  by_cases htime : time = 0
  · rw [if_pos htime] at h
    cases h
    exact .inl ⟨htime, rfl, rfl⟩
  · have hpos : 0 < time := Nat.pos_of_ne_zero htime
    rw [if_neg htime, addTimer, if_pos hpos] at h
    cases h
    exact .inr ⟨hpos, rfl, rfl⟩

/-- A sleep puts the caller to sleep; the tree stays. -/
theorem SameTree.doSleep {time : Nat} {r : Bool}
    (hlive : (s.proc s.current).state ≠ .zombie)
    (h : s.doSleep time = some (t, r)) : SameTree s t := by
  rcases doSleep_some h with ⟨-, rfl, -⟩ | ⟨-, -, rfl⟩
  · exact .refl t
  · exact (SameTree.slept hlive .timer).trans (.lists ..)

theorem SameTree.doYield (s : Procs) : SameTree s s.doYield :=
  .setProc s s.current rfl Iff.rfl

-- ===== links

/-- Each process but for its links, and the queues, are as they were. -/
structure SameSched (s t : Procs) : Prop where
  runList : t.runList = s.runList
  procNum : t.procNum = s.procNum
  current : t.current = s.current
  idleproc : t.idleproc = s.idleproc
  initproc : t.initproc = s.initproc
  timerList : t.timerList = s.timerList
  own : ∀ p, (s.proc p).SameOwn (t.proc p)

/-- A change to one process, seen at a process `q`. -/
theorem setProc_eq (s : Procs) (p : Nat) (f : Proc → Proc) : s.setProc p f =
    { s with proc := fun q => if q = p then f (s.proc q) else s.proc q } := by
  refine congrArg (fun g => { s with proc := g }) (funext fun q => ?_)
  rw [update_apply]
  split_ifs with h
  · rw [h]
  · rfl

/-- One field of a process after a change to one process. -/
theorem setProc_field {β : Type} (g : Proc → β) (s : Procs) (p : Nat)
    (f : Proc → Proc) (q : Nat) : g ((s.setProc p f).proc q) =
      if q = p then g (f (s.proc q)) else g (s.proc q) := by
  rw [setProc_eq]
  exact apply_ite g ..

/-- `if (o != NULL) ...` changes the process `o` names. -/
theorem elim_setProc (s : Procs) (o : Option Nat) (f : Proc → Proc) :
    (o.elim s fun p => s.setProc p f) =
      { s with proc := fun q => if o = some q then f (s.proc q)
        else s.proc q } := by
  cases o with
  | none => simp
  | some p => simp [setProc_eq, eq_comm]

/-- The links are moved when a child is handed to `initproc`. -/
def adoptLinks (s : Procs) (p : Nat) : Procs :=
  let s := s.setProc s.current fun x => { x with cptr := (s.proc p).optr }
  let s := s.setProc p fun x =>
    { x with yptr := none, optr := (s.proc s.initproc).cptr }
  let s := (s.proc p).optr.elim s fun o =>
    s.setProc o fun x => { x with yptr := some p }
  let s := s.setProc p fun x => { x with parent := some s.initproc }
  s.setProc s.initproc fun x => { x with cptr := some p }

/-- The child is the youngest of `initproc` then, and its next brother the
youngest of `current`. -/
theorem adoptLinks_eq (h : s.current ≠ s.initproc) (p : Nat) :
    s.adoptLinks p = { s with
      proc := fun q => (s.proc q).relink
        (if q = p then some s.initproc else (s.proc q).parent)
        (if q = s.initproc then some p
          else if q = s.current then (s.proc p).optr else (s.proc q).cptr)
        (if (s.proc s.initproc).cptr = some q then some p
          else if q = p then none else (s.proc q).yptr)
        (if q = p then (s.proc s.initproc).cptr else (s.proc q).optr) } := by
  simp only [adoptLinks, elim_setProc]
  simp only [setProc_eq, h.symm, if_true, if_false]
  congr 1
  funext q
  split_ifs <;> simp_all [Proc.relink]

/-- A handed over child has the init process as its parent. -/
theorem adoptLinks_parent (h : s.current ≠ s.initproc) (p q : Nat) :
    ((s.adoptLinks p).proc q).parent =
      if q = p then some s.initproc else (s.proc q).parent := by
  rw [adoptLinks_eq h]
  rfl

theorem SameSched.adoptLinks (h : s.current ≠ s.initproc) (p : Nat) :
    SameSched s (s.adoptLinks p) := by
  rw [adoptLinks_eq h]
  exact ⟨rfl, rfl, rfl, rfl, rfl, rfl, fun q => .relink _ _ _ _ _⟩

theorem SameTable.adoptLinks (h : s.current ≠ s.initproc) (p : Nat) :
    SameTable s (s.adoptLinks p) := by
  rw [adoptLinks_eq h]
  exact ⟨rfl, rfl, rfl, rfl, rfl, rfl, fun _ => rfl⟩

/-- A child is handed over, and `initproc` woken if it waits for one. -/
theorem adopt_eq (h : s.current ≠ s.initproc) : s.adopt p =
    if (s.proc p).state = .zombie ∧ (s.proc s.initproc).waitState = .child then
      (s.adoptLinks p).wakeupProc s.initproc
    else some (s.adoptLinks p) := by
  have hsame := SameSched.adoptLinks h p
  change (if ((s.adoptLinks p).proc p).state = .zombie ∧
      ((s.adoptLinks p).proc (s.adoptLinks p).initproc).waitState = .child
    then (s.adoptLinks p).wakeupProc (s.adoptLinks p).initproc
    else some (s.adoptLinks p)) = _
  rw [(hsame.own p).state, hsame.initproc, (hsame.own s.initproc).waitState]

/-- `set_links` makes `p` the youngest child of its parent. -/
theorem setLinks_eq {c : Nat} (hparent : (s.proc p).parent = some c) :
    s.setLinks p = { s with
      proc := fun q => (s.proc q).relink (s.proc q).parent
        (if q = c then some p else (s.proc q).cptr)
        (if (s.proc c).cptr = some q then some p
          else if q = p then none else (s.proc q).yptr)
        (if q = p then (s.proc c).cptr else (s.proc q).optr)
      procList := p :: s.procList, nrProcess := s.nrProcess + 1 } := by
  simp only [setLinks, elim_setProc, hparent, Option.elim_some]
  simp only [setProc_eq, if_true]
  congr 1
  funext q
  split_ifs <;> rfl

/-- A zombie is taken out of the table and the tree. -/
def reap (s : Procs) (p : Nat) : Procs := (s.unhashProc p).removeLinks p

/-- The brothers of `p` are linked to each other, and its parent to the
next one if `p` was the youngest. -/
theorem reap_eq (s : Procs) (p : Nat) : s.reap p = { s with
    proc := fun q => (s.proc q).relink (s.proc q).parent
      (if (s.proc p).yptr = none ∧ (s.proc p).parent = some q then
        (s.proc p).optr else (s.proc q).cptr)
      (if (s.proc p).optr = some q then (s.proc p).yptr else (s.proc q).yptr)
      (if (s.proc p).yptr = some q then (s.proc p).optr else (s.proc q).optr)
    hashList := fun b => (s.hashList b).erase p
    procList := s.procList.erase p, nrProcess := s.nrProcess - 1 } := by
  have hself : (if (s.proc p).optr = some p then
      { s.proc p with yptr := (s.proc p).yptr } else s.proc p) = s.proc p :=
    ite_self _
  simp only [reap, removeLinks, unhashProc, elim_setProc, hself]
  cases hy : (s.proc p).yptr <;>
  · simp only [Option.elim, setProc_eq]
    congr 1
    funext q
    split_ifs <;> simp_all [Proc.relink]

/-- Reaping a zombie does not touch the scheduler. -/
theorem SameSched.reap (s : Procs) (p : Nat) : SameSched s (s.reap p) := by
  rw [reap_eq]
  exact ⟨rfl, rfl, rfl, rfl, rfl, rfl, fun q => .relink _ _ _ _ _⟩

end Procs

end MipsUcore.Kern
