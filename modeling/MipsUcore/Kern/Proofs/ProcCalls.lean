/-
The calls of `proc.c` on a well-formed process table.

`Inv` is the tree, the table, the run queue and the timers together. For
each call there is one lemma: from a state that meets it the call goes
through without a failed assertion, its result meets it again, and the run
queue has kept its order. The one call that may not be made is `do_exit` by
`initproc` or `idleproc`.
-/
import MipsUcore.Kern.Proofs.RunQueue

namespace MipsUcore.Kern

open Threads

namespace Procs

variable {s t : Procs} {p q : Nat}
  {pid : Int} {l : List Nat}

/-- Only a process that sleeps waits for something. -/
def Calm (s : Procs) : Prop :=
  ∀ p, s.IsProc p → (s.proc p).state ≠ .sleeping →
    (s.proc p).waitState = .none

structure Inv (s : Procs) : Prop where
  family : s.Family
  queue : s.Queue
  timers : s.Timers
  calm : s.Calm

theorem Calm.congr (h : s.Calm) (hproc : t.procList = s.procList)
    (hidle : t.idleproc = s.idleproc)
    (hev : ∀ p, (s.proc p).Evolves (t.proc p)) : t.Calm := by
  intro p hp hstate
  rw [IsProc, hproc, hidle] at hp
  rcases (hev p).wake with ⟨hs, hw⟩ | ⟨-, -, -, hw⟩
  · rw [hw]
    exact h p hp (hs ▸ hstate)
  · exact hw

theorem Inv.notIdle (h : s.Inv) (hp : p ∈ s.procList) : p ≠ s.idleproc :=
  fun heq => h.family.table.idle (heq ▸ hp)

-- ===== wake-ups

theorem Inv.wakeupProc (h : s.Inv) (hp : s.IsProc p)
    (hz : (s.proc p).state ≠ .zombie) :
    ∃ t, s.wakeupProc p = some t ∧ t.Inv ∧ s.runList <+: t.runList := by
  obtain ⟨t, ht, hqueue, -, hprefix⟩ := h.queue.wakeupProc hp hz
  have hsame := (Wakes.wakeupProc ht).toSameTree
  exact ⟨t, ht, ⟨h.family.same hsame, hqueue, h.timers.wakeupProc ht,
    h.calm.congr hsame.procList hsame.idleproc (Wakes.wakeupProc ht).evolves⟩,
    hprefix⟩

/-- What `schedule` comes to: the first of the queue runs. -/
theorem Inv.schedule (h : s.Inv) : ∃ t, s.schedule = some t ∧ t.Inv ∧
    (s.requeued = [] ∧ t.runList = [] ∧ t.current = s.idleproc ∨
      s.requeued = t.current :: t.runList) := by
  obtain ⟨t, ht, hqueue, hfirst⟩ := h.queue.schedule h.family.table.idle
  have hsame := (Wakes.schedule ht).toSameTree
  exact ⟨t, ht, ⟨h.family.same hsame, hqueue, h.timers.schedule ht,
    h.calm.congr hsame.procList hsame.idleproc (Wakes.schedule ht).evolves⟩,
    hfirst⟩

/-- `idleproc` is never on the queue. -/
theorem Inv.mem_requeued (h : s.Inv) (hp : p ∈ s.requeued) :
    (s.proc p).state = .runnable ∧ p ≠ s.idleproc := by
  have hold : p ∈ s.runList →
      (s.proc p).state = .runnable ∧ p ≠ s.idleproc := by
    intro hin
    obtain ⟨hlisted, hrun, -⟩ := (h.queue.list.mem p).1 hin
    exact ⟨hrun, h.notIdle hlisted⟩
  rw [requeued] at hp
  split at hp
  case isTrue hcur =>
    rcases List.mem_append.1 hp with hp | hp
    · exact hold hp
    · rw [List.mem_singleton.1 hp]
      exact hcur
  case isFalse => exact hold hp

/-- Whoever `schedule` picks can run. -/
theorem Inv.schedule_running (h : s.Inv) (hs : s.schedule = some t) :
    t.Running := by
  obtain ⟨t', ht, hinv, hfirst⟩ := h.schedule
  cases hs.symm.trans ht
  rcases hfirst with ⟨-, -, hidle⟩ | hcons
  · rw [Running, hidle, ← (Wakes.schedule hs).idleproc]
    exact hinv.queue.idle
  · have hin : t.current ∈ s.requeued := hcons ▸ List.mem_cons_self
    exact (((Wakes.schedule hs).evolves t.current).runnable
      (h.mem_requeued hin).1).1

theorem prefix_of_requeued
    (h : s.requeued = [] ∧ t.runList = [] ∧ t.current = s.idleproc ∨
      s.requeued = t.current :: t.runList) :
    s.runList <+: t.current :: t.runList := by
  have hle := runList_prefix_requeued s
  rcases h with ⟨hnil, -, -⟩ | heq
  · rw [hnil, List.prefix_nil] at hle
    rw [hle]
    exact List.nil_prefix
  · rw [heq] at hle
    exact hle

-- ===== find_proc

/-- `find_proc` finds the processes on `proc_list` by their pids. -/
theorem PidTable.findProc_eq_some_iff (h : s.PidTable) :
    s.findProc pid = some p ↔ p ∈ s.procList ∧ (s.proc p).pid = pid := by
  rw [findProc]
  constructor
  · intro hfind
    split at hfind
    · have hin := List.mem_of_find?_eq_some hfind
      have hpid := List.find?_some hfind
      exact ⟨((h.bucket _ p).1 hin).1, of_decide_eq_true hpid⟩
    · cases hfind
  · rintro ⟨hp, rfl⟩
    rw [if_pos (h.pid p hp)]
    have hin := (h.bucket (pidHashfn (s.proc p).pid) p).2 ⟨hp, rfl⟩
    cases hfind : (s.hashList (pidHashfn (s.proc p).pid)).find? fun q =>
        decide ((s.proc q).pid = (s.proc p).pid) with
    | none =>
      have hnot := List.find?_eq_none.1 hfind p hin
      exact absurd (decide_eq_true rfl) hnot
    | some q =>
      have hq := ((h.bucket _ q).1 (List.mem_of_find?_eq_some hfind)).1
      have hpid := List.find?_some hfind
      rw [h.inj q hq p hp (of_decide_eq_true hpid)]

-- ===== do_wait

/-- The children a `do_wait` of `c` is about. -/
def AwaitedBy (s : Procs) (c : Nat) (pid : Int) (q : Nat) : Prop :=
  q ∈ s.procList ∧ (s.proc q).parent = some c ∧
    (pid = 0 ∨ (s.proc q).pid = pid)

def Awaited (s : Procs) (pid : Int) (q : Nat) : Prop :=
  s.AwaitedBy s.current pid q

/-- `do_wait` fails if there is no such child, reaps one that is a zombie,
and else sleeps. -/
def Waits (s : Procs) (pid : Int) (t : Procs) : WaitResult → Prop
  | .failed => (∀ q, ¬s.Awaited pid q) ∧ t = s
  | .blocked => (∃ q, s.Awaited pid q) ∧
      (∀ q, s.Awaited pid q → (s.proc q).state ≠ .zombie) ∧ t = s.slept .child
  | .reaped p exitCode => s.Awaited pid p ∧ (s.proc p).state = .zombie ∧
      exitCode = (s.proc p).exitCode ∧ t = s.reap p

/-- The loop over the children finds the first zombie. -/
theorem findZombie_eq {before first : Option Nat} {fuel : Nat}
    (h : Linked (fun q => (s.proc q).optr) (fun q => (s.proc q).yptr) before
      first l) (hfuel : l.length ≤ fuel) :
    s.findZombie fuel first =
      some (l.find? fun q => (s.proc q).state = .zombie) := by
  induction l generalizing before first fuel with
  | nil =>
    obtain rfl : first = none := h
    cases fuel with
    | zero => rfl
    | succ fuel => rfl
  | cons x l ih =>
    obtain ⟨rfl, -, htail⟩ := h
    cases fuel with
    | zero => exact absurd hfuel (Nat.not_succ_le_zero _)
    | succ fuel =>
      rw [findZombie]
      by_cases hz : (s.proc x).state = .zombie
      · rw [if_pos hz, List.find?_cons_of_pos (by simpa using hz)]
      · rw [if_neg hz, List.find?_cons_of_neg (by simpa using hz)]
        exact ih htail (Nat.le_of_succ_le_succ hfuel)

theorem PidTable.awaited_pid (h : s.PidTable) (hpid : pid ≠ 0) :
    s.Awaited pid q ↔
      s.findProc pid = some q ∧ (s.proc q).parent = some s.current := by
  rw [h.findProc_eq_some_iff, Awaited, AwaitedBy]
  simp only [hpid, false_or]
  exact ⟨fun hall => ⟨⟨hall.1, hall.2.2⟩, hall.2.1⟩,
    fun hall => ⟨hall.1.1, hall.2, hall.1.2⟩⟩

/-- What `do_wait` looks for: `haskid`, and a zombie if there is one. -/
structure Target (s : Procs) (pid : Int) (r : Bool × Option Nat) : Prop where
  haskid : r.1 = true ↔ ∃ q, s.Awaited pid q
  zombie : ∀ p, r.2 = some p →
    s.Awaited pid p ∧ (s.proc p).state = .zombie
  alive : r.2 = none → ∀ q, s.Awaited pid q → (s.proc q).state ≠ .zombie

theorem Target.of_nobody (h : ∀ q, ¬s.Awaited pid q) :
    s.Target pid (false, none) := by
  refine ⟨?_, fun p hp => absurd hp.symm (Option.some_ne_none p),
    fun _ q hq => absurd hq (h q)⟩
  exact iff_of_false (by decide) fun ⟨q, hq⟩ => h q hq

theorem Family.waitTarget_any (h : s.Family) (hcur : s.IsProc s.current) :
    ∃ r, s.waitTarget 0 = some r ∧ s.Target 0 r := by
  obtain ⟨kids, htree⟩ := h.tree
  obtain ⟨before, -, hchain⟩ := htree.chain _ hcur
  have hmem : ∀ q, s.Awaited 0 q ↔ q ∈ kids s.current := by
    intro q
    rw [htree.mem _ hcur, Awaited, AwaitedBy]
    simp only [true_or, and_true]
  have hshort : (kids s.current).length ≤ s.procList.length :=
    ((htree.nodup _ hcur).subperm fun q hq =>
      ((htree.mem _ hcur q).1 hq).1).length_le
  have hfind := findZombie_eq hchain hshort
  refine ⟨(((s.proc s.current).cptr).isSome,
    (kids s.current).find? fun q => (s.proc q).state = .zombie), ?_, ?_, ?_,
    ?_⟩
  · rw [waitTarget]
    dsimp only
    rw [hfind]
    rfl
  · simp only [hmem]
    have hhead : (s.proc s.current).cptr = (kids s.current).head? :=
      hchain.head_eq
    rw [hhead]
    cases kids s.current with
    | nil => simp
    | cons q l => simp
  · intro p hp
    have hz := List.find?_some hp
    exact ⟨(hmem p).2 (List.mem_of_find?_eq_some hp), of_decide_eq_true hz⟩
  · intro hnone q hq hz
    have hnot := List.find?_eq_none.1 hnone q ((hmem q).1 hq)
    exact hnot (decide_eq_true hz)

theorem PidTable.waitTarget_pid (h : s.PidTable) (hpid : pid ≠ 0) :
    ∃ r, s.waitTarget pid = some r ∧ s.Target pid r := by
  rw [waitTarget, if_neg hpid]
  refine ⟨_, rfl, ?_⟩
  cases hfind : s.findProc pid with
  | none =>
    refine Target.of_nobody fun q hq => ?_
    rw [h.awaited_pid hpid, hfind] at hq
    cases hq.1
  | some x =>
    have honly : ∀ q, s.Awaited pid q → q = x := by
      intro q hq
      rw [h.awaited_pid hpid, hfind] at hq
      exact (Option.some.inj hq.1).symm
    rw [Option.elim_some]
    by_cases hx : (s.proc x).parent = some s.current
    · have hself : s.Awaited pid x := (h.awaited_pid hpid).2 ⟨hfind, hx⟩
      rw [if_pos hx]
      refine ⟨iff_of_true rfl ⟨x, hself⟩, fun p hp => ?_, fun hnone q hq => ?_⟩
      · split at hp
        case isTrue hz =>
          cases hp
          exact ⟨hself, hz⟩
        case isFalse hz => cases hp
      · split at hnone
        case isTrue hz => cases hnone
        case isFalse hz => exact honly q hq ▸ hz
    · rw [if_neg hx]
      refine Target.of_nobody fun q hq => ?_
      obtain rfl := honly q hq
      exact hx hq.2.1

/-- `do_wait` goes through, and does what it should. -/
theorem Family.doWait (h : s.Family) (hi : s.Init)
    (hcur : s.IsProc s.current) (pid : Int) :
    ∃ t r, s.doWait pid = some (t, r) ∧ s.Waits pid t r := by
  obtain ⟨⟨haskid, z⟩, hr, htarget⟩ :
      ∃ r, s.waitTarget pid = some r ∧ s.Target pid r := by
    by_cases hpid : pid = 0
    · subst hpid
      exact h.waitTarget_any hcur
    · exact h.table.waitTarget_pid hpid
  rw [Procs.doWait, hr]
  cases z with
  | none =>
    cases haskid with
    | false =>
      refine ⟨s, .failed, rfl, fun q hq => ?_, rfl⟩
      exact absurd (htarget.haskid.2 ⟨q, hq⟩) (by decide)
    | true =>
      exact ⟨s.slept .child, .blocked, rfl, htarget.haskid.1 rfl,
        htarget.alive rfl, rfl⟩
  | some p =>
    obtain ⟨hawaited, hz⟩ := htarget.zombie p rfl
    have hpanic : ¬(p = s.idleproc ∨ p = s.initproc) := by
      rintro (rfl | rfl)
      · exact h.table.idle hawaited.1
      · exact hi.alive hz
    refine ⟨s.reap p, .reaped p (s.proc p).exitCode, ?_, hawaited, hz, rfl,
      rfl⟩
    exact if_neg hpanic

theorem Running.live (h : s.Running) : (s.proc s.current).state ≠ .zombie := by
  rw [show (s.proc s.current).state = .runnable from h]
  decide

theorem Free.notMem (h : s.Free) : s.current ∉ s.timerProcs := by
  intro hin
  obtain ⟨x, hx, heq⟩ := List.mem_map.1 hin
  exact h.2 x hx heq

section Current

variable {f : Proc → Proc}

/-- `current` is off the queue, whatever becomes of it. -/
theorem Queue.setCurrent (h : s.Queue) (hne : s.current ≠ s.idleproc) :
    (s.setProc s.current f).Queue := by
  have hother : ∀ q, q ≠ s.current →
      (s.setProc s.current f).proc q = s.proc q :=
    fun q hq => setProc_of_ne _ _ hq
  refine ⟨⟨fun q => ?_, h.list.nodup, h.list.num, fun q hq => ?_⟩, h.current,
    ?_⟩
  · change q ∈ s.runList ↔ q ∈ s.procList ∧
      ((s.setProc s.current f).proc q).state = .runnable ∧ ¬q = s.current
    rw [h.list.mem]
    by_cases hq : q = s.current
    · exact iff_of_false (fun hall => hall.2.2 hq) fun hall => hall.2.2 hq
    · rw [hother q hq]
  · have hqc : q ≠ s.current := ((h.list.mem q).1 hq).2.2
    rw [hother q hqc]
    exact h.list.rq q hq
  · exact (congrArg Proc.state (hother _ hne.symm)).trans h.idle

theorem Timers.setCurrent (h : s.Timers) (hfree : s.current ∉ s.timerProcs) :
    (s.setProc s.current f).Timers := by
  refine ⟨⟨h.sleepers.nodup, fun q hq => ?_⟩, h.head⟩
  have hqc : q ≠ s.current := fun heq => hfree (heq ▸ hq)
  rw [setProc_of_ne _ _ hqc]
  exact h.sleepers.proc q hq

/-- Nor does it wait for anything if it is not asleep. -/
theorem Calm.setCurrent (h : s.Calm)
    (hf : (f (s.proc s.current)).state ≠ .sleeping →
      (f (s.proc s.current)).waitState = .none) :
    (s.setProc s.current f).Calm := by
  intro p hp hstate
  rw [setProc_proc] at hstate ⊢
  by_cases hpc : p = s.current
  · rw [if_pos hpc] at hstate ⊢
    exact hf hstate
  · rw [if_neg hpc] at hstate ⊢
    exact h p hp hstate

end Current

/-- `current` is put to sleep. -/
theorem Inv.slept (h : s.Inv) (hrun : s.Running)
    (hne : s.current ≠ s.idleproc) (hfree : s.current ∉ s.timerProcs)
    (w : WaitState) : (s.slept w).Inv :=
  ⟨h.family.same (.slept hrun.live w), h.queue.setCurrent hne,
    h.timers.setCurrent hfree, h.calm.setCurrent fun hne => absurd rfl hne⟩

/-- A zombie leaves. -/
theorem Inv.reap (h : s.Inv) (hp : p ∈ s.procList)
    (hz : (s.proc p).state = .zombie) (hcur : p ≠ s.current) :
    (s.reap p).Inv := by
  have hsame := SameSched.reap s p
  have hmem : ∀ q, q ∈ (s.reap p).procList ↔ q ≠ p ∧ q ∈ s.procList :=
    fun q => h.family.table.mem_reap
  refine ⟨h.family.reap hp hz, h.queue.keep hsame.runList hsame.procNum
      hsame.current (fun q => ?_) (fun q _ => (hsame.own q).rq) ?_ ?_,
    ⟨h.timers.sleepers.keep hsame.timerList fun q hq hlive =>
      ⟨(hmem q).2 ⟨fun heq => hlive (heq ▸ hz), hq⟩, (hsame.own q).evolves⟩,
      hsame.timerList ▸ h.timers.head⟩, fun q hq hstate => ?_⟩
  · rw [hmem, (hsame.own q).state]
    refine ⟨fun hall => ⟨hall.1.2, hall.2⟩, fun hall => ⟨⟨?_, hall.1⟩, hall.2⟩⟩
    rintro rfl
    exact absurd (hz.symm.trans hall.2) (by decide)
  · rw [h.family.table.isProc_reap hp]
    exact ⟨hcur.symm, h.queue.current⟩
  · rw [hsame.idleproc, (hsame.own _).state]
    exact h.queue.idle
  · rw [(hsame.own q).state] at hstate
    rw [(hsame.own q).waitState]
    exact h.calm q ((h.family.table.isProc_reap hp).1 hq).2 hstate

/-- A wait goes through, whichever child it is for. -/
theorem Inv.doWait (h : s.Inv) (hi : s.Init) (hfree : s.Free)
    (hne : s.current ≠ s.idleproc) (pid : Int) :
    ∃ t r, s.doWait pid = some (t, r) ∧ s.Waits pid t r ∧ t.Inv ∧
      t.runList = s.runList := by
  obtain ⟨t, r, ht, hwaits⟩ := h.family.doWait hi h.queue.current pid
  refine ⟨t, r, ht, hwaits, ?_⟩
  cases r with
  | failed =>
    obtain ⟨-, rfl⟩ := hwaits
    exact ⟨h, rfl⟩
  | blocked =>
    obtain ⟨-, -, rfl⟩ := hwaits
    exact ⟨h.slept hfree.1 hne hfree.notMem .child, rfl⟩
  | reaped p exitCode =>
    obtain ⟨hawaited, hz, -, rfl⟩ := hwaits
    refine ⟨h.reap hawaited.1 hz ?_, (SameSched.reap s p).runList⟩
    rintro rfl
    exact hfree.1.live hz

-- ===== do_exit

/-- `c` sleeps in `do_wait`. -/
def SleepsForChild (s : Procs) (c : Nat) : Prop :=
  (s.proc c).state = .sleeping ∧ (s.proc c).waitState = .child

/-- From `s` to `t` processes have been woken and links moved, and no
process that waits for its children has got a dead one meanwhile. -/
structure Onward (s t : Procs) : Prop where
  procList : t.procList = s.procList
  current : t.current = s.current
  idleproc : t.idleproc = s.idleproc
  initproc : t.initproc = s.initproc
  timerList : t.timerList = s.timerList
  evolves : ∀ q, (s.proc q).Evolves (t.proc q)
  runList : s.runList <+: t.runList
  news : ∀ c q, t.SleepsForChild c → (t.proc q).parent = some c →
    (t.proc q).state = .zombie → (s.proc q).parent = some c
  parent : ∀ q, (s.proc q).parent ≠ some s.current →
    (t.proc q).parent = (s.proc q).parent
  ksem : ∀ q, (s.proc q).waitState = .ksem → Still s t q

section Onward
variable {u : Procs}

theorem Onward.refl (s : Procs) : Onward s s :=
  ⟨rfl, rfl, rfl, rfl, rfl, fun _ => .refl _, List.prefix_rfl,
    fun _ _ _ hq _ => hq, fun _ _ => rfl, fun q _ => .refl s q⟩

theorem Onward.trans (h : Onward s t) (h' : Onward t u) : Onward s u where
  procList := h'.procList.trans h.procList
  current := h'.current.trans h.current
  idleproc := h'.idleproc.trans h.idleproc
  initproc := h'.initproc.trans h.initproc
  timerList := h'.timerList.trans h.timerList
  evolves q := (h.evolves q).trans (h'.evolves q)
  runList := h.runList.trans h'.runList
  news c q hc hq hz := by
    obtain ⟨hstate, hwait⟩ := (h'.evolves c).sleeping hc.1
    exact h.news c q ⟨hstate, hwait.trans hc.2⟩ (h'.news c q hc hq hz)
      ((h'.evolves q).zombie.1 hz)
  parent q hq := by
    have hq' := h.parent q hq
    rw [h'.parent q (by rw [hq', h.current]; exact hq), hq']
  ksem q hq := (h.ksem q hq).trans (h'.ksem q ((h.ksem q hq).2.trans hq))

/-- A wake-up by itself. -/
theorem Onward.wakeupProc (h : s.wakeupProc p = some t)
    (hp : (s.proc p).waitState ≠ .ksem)
    (hcur : t.current = s.current) (hrun : s.runList <+: t.runList) :
    Onward s t := by
  have hsame := (Wakes.wakeupProc h).toSameTree
  exact ⟨hsame.procList, hcur, hsame.idleproc, hsame.initproc,
    (wakeupProc_lists h).1, (Wakes.wakeupProc h).evolves, hrun,
    fun c q _ hq _ => (hsame.parent q).symm.trans hq,
    fun q _ => hsame.parent q,
    fun q hq => .wakeupProc h fun heq => hp (heq ▸ hq)⟩

end Onward

/-- In the middle of `do_exit`, with the children `l` left. -/
structure Exiting (s : Procs) (l : List Nat) : Prop where
  leaving : s.Leaving l
  queue : s.Queue
  timers : s.Timers

theorem Exiting.wakeupProc (h : s.Exiting l)
    (hp : s.IsProc p) (hz : (s.proc p).state ≠ .zombie)
    (hw : (s.proc p).waitState ≠ .ksem) :
    ∃ t, s.wakeupProc p = some t ∧ t.Exiting l ∧ Onward s t ∧
      (t.proc p).state = .runnable := by
  obtain ⟨t, ht, hqueue, hcur, hprefix⟩ := h.queue.wakeupProc hp hz
  exact ⟨t, ht, ⟨h.leaving.same (Wakes.wakeupProc ht).toSameTree hcur, hqueue,
    h.timers.wakeupProc ht⟩, .wakeupProc ht hw hcur hprefix,
    wakeupProc_runnable ht⟩

/-- A child is handed over; `initproc` is told if it waits and the child is
dead. -/
theorem Exiting.adopt (h : s.Exiting (p :: l)) :
    ∃ t, s.adopt p = some t ∧ t.Exiting l ∧ Onward s t := by
  have hne := h.leaving.notInit
  have hsched := SameSched.adoptLinks hne p
  have htable := SameTable.adoptLinks hne p
  have hchild : (s.proc p).parent = some s.current := h.leaving.child
  have hparent : ∀ q, (s.proc q).parent ≠ some s.current →
      ((s.adoptLinks p).proc q).parent = (s.proc q).parent := by
    intro q hq
    rw [adoptLinks_parent hne, if_neg]
    rintro rfl
    exact hq hchild
  have hlinks : (s.adoptLinks p).Exiting l := ⟨h.leaving.adoptLinks,
    h.queue.links hsched htable.procList, h.timers.links hsched htable.procList⟩
  have hstill : ∀ q, Still s (s.adoptLinks p) q := fun q =>
    ⟨(hsched.own q).state, (hsched.own q).waitState⟩
  -- the news is all about `p` and `initproc`
  have hnews : ∀ u, SameTree (s.adoptLinks p) u →
      ((u.proc p).state = .zombie → ¬u.SleepsForChild s.initproc) →
      ∀ c q, u.SleepsForChild c → (u.proc q).parent = some c →
        (u.proc q).state = .zombie → (s.proc q).parent = some c := by
    intro u hu hnot c q hc hq hz
    rw [hu.parent, adoptLinks_parent hne] at hq
    by_cases hqp : q = p
    · rw [if_pos hqp] at hq
      cases hq
      exact absurd hc (hnot (hqp ▸ hz))
    · rw [if_neg hqp] at hq
      exact hq
  rw [adopt_eq hne]
  by_cases htell : (s.proc p).state = .zombie ∧
      (s.proc s.initproc).waitState = .child
  · rw [if_pos htell]
    have hinit : (s.adoptLinks p).IsProc s.initproc :=
      htable.isProc.2 (.inr h.leaving.init.listed)
    have halive : ((s.adoptLinks p).proc s.initproc).state ≠ .zombie := by
      rw [(hsched.own _).state]
      exact h.leaving.init.alive
    have hwait : ((s.adoptLinks p).proc s.initproc).waitState ≠ .ksem := by
      rw [(hsched.own _).waitState, htell.2]
      decide
    obtain ⟨t, ht, hexit, hon, hrun⟩ := hlinks.wakeupProc hinit halive hwait
    refine ⟨t, ht, hexit, ⟨hon.procList.trans htable.procList,
      hon.current.trans hsched.current, hon.idleproc.trans hsched.idleproc,
      hon.initproc.trans hsched.initproc,
      hon.timerList.trans hsched.timerList,
      fun q => (hsched.own q).evolves.trans (hon.evolves q),
      hsched.runList ▸ hon.runList, ?_, fun q hq =>
        ((Wakes.wakeupProc ht).parent q).trans (hparent q hq),
      fun q hq => (hstill q).trans
        (hon.ksem q ((hsched.own q).waitState.trans hq))⟩⟩
    refine hnews t (Wakes.wakeupProc ht).toSameTree fun _ hsleeps => ?_
    exact absurd (hrun.symm.trans hsleeps.1) (by decide)
  · rw [if_neg htell]
    refine ⟨_, rfl, hlinks, ⟨htable.procList, hsched.current,
      hsched.idleproc, hsched.initproc, hsched.timerList,
      fun q => (hsched.own q).evolves, ?_, ?_, hparent, fun q _ => hstill q⟩⟩
    · rw [hsched.runList]
    · refine hnews _ (.refl _) fun hz hsleeps => htell ?_
      have hwait := hsleeps.2
      rw [(hsched.own p).state] at hz
      rw [(hsched.own s.initproc).waitState] at hwait
      exact ⟨hz, hwait⟩

/-- All children are handed over, one for each round. -/
theorem Exiting.adoptAll {fuel : Nat} (h : s.Exiting l)
    (hfuel : l.length ≤ fuel) :
    ∃ t, adoptAll fuel s = some t ∧ t.Exiting [] ∧ Onward s t := by
  induction l generalizing s fuel with
  | nil =>
    have hnone : (s.proc s.current).cptr = none := h.leaving.cptr
    refine ⟨s, ?_, h, .refl s⟩
    cases fuel with
    | zero => rw [Procs.adoptAll, hnone]; rfl
    | succ fuel => rw [Procs.adoptAll, hnone]; rfl
  | cons p l ih =>
    have hsome : (s.proc s.current).cptr = some p := h.leaving.cptr
    cases fuel with
    | zero => exact absurd hfuel (Nat.not_succ_le_zero _)
    | succ fuel =>
      obtain ⟨u, hu, hexit, hon⟩ := h.adopt
      obtain ⟨t, ht, hdone, hon'⟩ := ih hexit (Nat.le_of_succ_le_succ hfuel)
      refine ⟨t, ?_, hdone, hon.trans hon'⟩
      rw [Procs.adoptAll, hsome, Option.elim_some, hu]
      exact ht

/-- `do_exit` up to the hand-over: the parent is told if it waits. -/
theorem Exiting.tellParent (h : s.Exiting l) {parent : Nat}
    (hp : s.IsProc parent) (hlive : (s.proc parent).state ≠ .zombie) :
    ∃ t, (if (s.proc parent).waitState = .child then s.wakeupProc parent
        else some s) = some t ∧ t.Exiting l ∧ Onward s t ∧
      ¬t.SleepsForChild parent := by
  by_cases hwait : (s.proc parent).waitState = .child
  · rw [if_pos hwait]
    have hksem : (s.proc parent).waitState ≠ .ksem := by
      rw [hwait]
      decide
    obtain ⟨t, ht, hexit, hon, hrun⟩ := h.wakeupProc hp hlive hksem
    exact ⟨t, ht, hexit, hon, fun hs =>
      absurd (hrun.symm.trans hs.1) (by decide)⟩
  · rw [if_neg hwait]
    exact ⟨s, rfl, h, .refl s, fun hs => hwait hs.2⟩

/-- What `do_exit` has done before it calls `schedule`. -/
structure Exited (s : Procs) (errorCode : Int) (t : Procs) : Prop where
  inv : t.Inv
  init : t.Init
  onward : Onward (s.died errorCode) t
  parent : ∀ c, (s.proc s.current).parent = some c → ¬t.SleepsForChild c

/-- The exit of a user process goes through. -/
theorem Inv.doExit (h : s.Inv) (hi : s.Init) (hfree : s.Free)
    (hidle : s.current ≠ s.idleproc) (hinit : s.current ≠ s.initproc)
    (errorCode : Int) : ∃ u, Exited s errorCode u ∧
      s.doExit errorCode = u.schedule := by
  have hlisted : s.current ∈ s.procList := h.queue.current.resolve_left hidle
  obtain ⟨l, hshort, hleaving⟩ := h.family.died hi hlisted hinit errorCode
  have hexit : (s.died errorCode).Exiting l := ⟨hleaving,
    h.queue.setCurrent hidle, h.timers.setCurrent hfree.notMem⟩
  obtain ⟨c, hparent, hne, hc⟩ := h.family.parent hlisted
  have hparent' : ((s.died errorCode).proc s.current).parent = some c := by
    rw [Procs.died, setProc_self]
    exact hparent
  have hlive : ((s.died errorCode).proc c).state ≠ .zombie := by
    rcases hc with hcidle | hclist
    · have hstate := hexit.queue.idle
      change ((s.died errorCode).proc s.idleproc).state = _ at hstate
      rw [hcidle, hstate]
      decide
    · exact hleaving.parent_alive hlisted hparent' hclist hne
  obtain ⟨u, hu, hexit, hon, htold⟩ := hexit.tellParent hc hlive
  have hfuel : l.length ≤ u.procList.length := by
    rw [hon.procList]
    exact hshort
  obtain ⟨v, hv, hdone, hon'⟩ := hexit.adoptAll hfuel
  have hcalm : (s.died errorCode).Calm := by
    refine h.calm.setCurrent fun _ => h.calm s.current h.queue.current ?_
    rw [show (s.proc s.current).state = .runnable from hfree.1]
    decide
  have hall := hon.trans hon'
  refine ⟨v, ⟨⟨hdone.leaving.done, hdone.queue, hdone.timers,
    hcalm.congr hall.procList hall.idleproc hall.evolves⟩,
    hdone.leaving.init, hall,
    fun c' hc' hsleeps => ?_⟩, ?_⟩
  · cases hparent.symm.trans hc'
    obtain ⟨hstate, hwait⟩ := (hon'.evolves c).sleeping hsleeps.1
    exact htold ⟨hstate, hwait.trans hsleeps.2⟩
  · have hpanic : ¬(s.current = s.idleproc ∨ s.current = s.initproc) := by
      rintro (heq | heq)
      · exact hidle heq
      · exact hinit heq
    rw [Procs.doExit, if_neg hpanic]
    change ((((s.died errorCode).proc s.current).parent.elim none fun parent =>
      if ((s.died errorCode).proc parent).waitState = .child then
        (s.died errorCode).wakeupProc parent
      else some (s.died errorCode)).bind fun s =>
        (Procs.adoptAll s.procList.length s).bind Procs.schedule) = v.schedule
    rw [hparent', Option.elim_some, hu]
    change (Procs.adoptAll u.procList.length u).bind Procs.schedule =
      v.schedule
    rw [hv]
    rfl

-- ===== do_fork

section Fork

variable {kstack : Nat} {mm fs : Option Nat} {pid safe : Int}

/-- The new process has been entered and is to be woken. -/
theorem Inv.born (h : s.Inv) (hrun : s.Running) (hp : ¬s.IsProc p)
    (hfresh : Fresh s.pids pid safe) :
    (s.born p (s.newProc kstack mm fs pid) pid safe).Inv := by
  have hown : ∀ q, (if q = p then s.newProc kstack mm fs pid
      else s.proc q).SameOwn
        ((s.born p (s.newProc kstack mm fs pid) pid safe).proc q) :=
    born_own rfl
  have hsched : SameSched _ (s.born p (s.newProc kstack mm fs pid) pid safe) :=
    SameSched.born (c := s.current) rfl
  have hisproc : ∀ q,
      (s.born p (s.newProc kstack mm fs pid) pid safe).IsProc q ↔
        q = p ∨ s.IsProc q := fun q => isProc_born (c := s.current) rfl
  have hmem : ∀ q,
      q ∈ (s.born p (s.newProc kstack mm fs pid) pid safe).procList ↔
        q = p ∨ q ∈ s.procList := fun q => mem_born (c := s.current) rfl
  have hkept : ∀ q, s.IsProc q → (s.proc q).SameOwn
      ((s.born p (s.newProc kstack mm fs pid) pid safe).proc q) := by
    intro q hq
    have hqp : q ≠ p := fun heq => hp (heq ▸ hq)
    have hq' := hown q
    rwa [if_neg hqp] at hq'
  refine ⟨h.family.born h.queue.current hrun.live hp hfresh,
    h.queue.keep hsched.runList hsched.procNum hsched.current (fun q => ?_)
      (fun q hq => (hkept q (.inr hq)).rq)
      ((hisproc _).2 (.inr h.queue.current)) ?_,
    ⟨h.timers.sleepers.keep hsched.timerList fun q hq _ =>
      ⟨(hmem q).2 (.inr hq), (hkept q (.inr hq)).evolves⟩,
      fun x hx => h.timers.head x
        ((congrArg List.head? hsched.timerList).symm.trans hx)⟩,
    fun q hq hstate => ?_⟩
  · rw [hmem, (hown q).state]
    by_cases hq : q = p
    · subst hq
      rw [if_pos rfl]
      refine iff_of_false (fun hall => absurd hall.2 ?_)
        fun hall => hp (.inr hall.1)
      change ProcState.uninit ≠ _
      decide
    · rw [if_neg hq, or_iff_right hq]
  · rw [hsched.idleproc]
    exact (hkept _ (.inl rfl)).state.trans h.queue.idle
  · rcases (hisproc q).1 hq with rfl | hq
    · rw [(hown q).waitState, if_pos rfl]
      rfl
    · rw [(hkept q hq).state] at hstate
      rw [(hkept q hq).waitState]
      exact h.calm q hq hstate

/-- `do_fork` fails for want of room, or the new process is on the queue. -/
theorem Inv.doFork (h : s.Inv) (hrun : s.Running) (hp : ¬s.IsProc p)
    (kstack : Nat) (mm fs : Option Nat) :
    s.doFork p kstack mm fs = some (s, -eNoFreeProc) ∨
      ∃ pid safe t, s.doFork p kstack mm fs = some (t, pid) ∧
        Fresh s.pids pid safe ∧
        (s.born p (s.newProc kstack mm fs pid) pid safe).wakeupProc p =
          some t ∧ t.Inv ∧ s.runList <+: t.runList := by
  rcases h.family.table.doFork_eq hp kstack mm fs with
    hfull | ⟨pid, safe, hfresh, heq⟩
  · exact .inl hfull
  have hborn : (s.born p (s.newProc kstack mm fs pid) pid safe).Inv :=
    h.born hrun hp hfresh
  have hproc : (s.born p (s.newProc kstack mm fs pid) pid safe).IsProc p :=
    (isProc_born (c := s.current) rfl).2 (.inl rfl)
  have hlive : ((s.born p (s.newProc kstack mm fs pid) pid safe).proc p).state
      ≠ .zombie := by
    rw [(born_own (c := s.current) rfl p).state, if_pos rfl]
    change ProcState.uninit ≠ .zombie
    decide
  obtain ⟨t, ht, hinv, hprefix⟩ := hborn.wakeupProc hproc hlive
  have hrunList : (s.born p (s.newProc kstack mm fs pid) pid safe).runList =
      s.runList := (SameSched.born (c := s.current) rfl).runList
  refine .inr ⟨pid, safe, t, ?_, hfresh, ht, hinv, ?_⟩
  · rw [heq, ht]
    rfl
  · rw [← hrunList]
    exact hprefix

end Fork

-- ===== the other calls

/-- A flag of one process is none of the business of the lists. -/
theorem Inv.setProc (h : s.Inv) {f : Proc → Proc}
    (hf : ∀ x, (f x).links = x.links ∧ (f x).state = x.state ∧
      (f x).waitState = x.waitState ∧ (f x).rq = x.rq) :
    (s.setProc p f).Inv := by
  have hstate : ∀ q, ((s.setProc p f).proc q).state = (s.proc q).state := by
    intro q
    rw [setProc_field Proc.state, (hf _).2.1, ite_self]
  have hwait : ∀ q, ((s.setProc p f).proc q).waitState =
      (s.proc q).waitState := by
    intro q
    rw [setProc_field Proc.waitState, (hf _).2.2.1, ite_self]
  have hrq : ∀ q, ((s.setProc p f).proc q).rq = (s.proc q).rq := by
    intro q
    rw [setProc_field Proc.rq, (hf _).2.2.2, ite_self]
  have hsame : SameTree s (s.setProc p f) :=
    .setProc s p (hf _).1 (by rw [(hf _).2.1])
  refine ⟨h.family.same hsame, h.queue.congr rfl rfl rfl rfl rfl hstate hrq,
    ⟨⟨h.timers.sleepers.nodup, fun q hq => ?_⟩, h.timers.head⟩,
    fun q hq hs => ?_⟩
  · rw [hstate, hwait]
    exact h.timers.sleepers.proc q hq
  · rw [hstate] at hs
    rw [hwait]
    exact h.calm q hq hs

theorem Inv.doKill (h : s.Inv) (pid : Int) :
    ∃ t r, s.doKill pid = some (t, r) ∧ t.Inv ∧ s.runList <+: t.runList := by
  rw [Procs.doKill]
  cases hfind : s.findProc pid with
  | none => exact ⟨s, _, rfl, h, List.prefix_rfl⟩
  | some p =>
    rw [Option.elim_some]
    by_cases hexit : (s.proc p).exiting = true
    · exact ⟨s, _, if_pos hexit, h, List.prefix_rfl⟩
    rw [if_neg hexit]
    have hp := (h.family.table.findProc_eq_some_iff.1 hfind).1
    have hflag : (s.setProc p fun x => { x with exiting := true }).Inv :=
      h.setProc fun x => ⟨rfl, rfl, rfl, rfl⟩
    by_cases hint : ((s.setProc p fun x =>
        { x with exiting := true }).proc p).waitState.interrupted = true
    · -- whoever waits for something is not dead
      have hlive : ((s.setProc p fun x =>
          { x with exiting := true }).proc p).state ≠ .zombie := by
        intro hz
        rw [hflag.calm p (.inr hp) (by rw [hz]; decide)] at hint
        exact absurd hint (by decide)
      obtain ⟨t, ht, hinv, hprefix⟩ := hflag.wakeupProc (.inr hp) hlive
      refine ⟨t, 0, ?_, hinv, hprefix⟩
      dsimp only
      rw [if_pos hint, ht]
      rfl
    · refine ⟨_, 0, ?_, hflag, List.prefix_rfl⟩
      dsimp only
      rw [if_neg hint]
      rfl

theorem Inv.doSleep (h : s.Inv) (hfree : s.Free)
    (hne : s.current ≠ s.idleproc) (time : Nat) :
    ∃ t r, s.doSleep time = some (t, r) ∧ t.Inv ∧ t.runList = s.runList := by
  by_cases htime : time = 0
  · exact ⟨s, false, if_pos htime, h, rfl⟩
  have hslept := h.slept hfree.1 hne hfree.notMem .timer
  have hpos : 0 < time := Nat.pos_of_ne_zero htime
  have hperm := insertTimer_procs ⟨time, s.current⟩ s.timerList
  refine ⟨{ s.slept .timer with
    timerList := insertTimer ⟨time, s.current⟩ s.timerList }, true, ?_,
    ⟨hslept.family.same (.lists ..), ?_, ⟨⟨?_, fun q hq => ?_⟩, ?_⟩, ?_⟩, rfl⟩
  · rw [Procs.doSleep, if_neg htime, addTimer, if_pos hpos]
    rfl
  · exact hslept.queue.congr rfl rfl rfl rfl rfl (fun _ => rfl) fun _ => rfl
  · exact hperm.nodup_iff.2
      (List.nodup_cons.2 ⟨hfree.notMem, h.timers.sleepers.nodup⟩)
  · rcases List.mem_cons.1 (hperm.mem_iff.1 hq) with rfl | hq
    · refine ⟨h.queue.current.resolve_left hne, ?_, ?_⟩
      · rw [Procs.slept, setProc_self]
        change ProcState.sleeping ≠ .zombie
        decide
      · rw [Procs.slept, setProc_self]
        exact .inl rfl
    · exact hslept.timers.sleepers.proc q hq
  · exact insertTimer_head htime h.timers.head
  · exact hslept.calm

theorem Inv.delTimer (h : s.Inv) (p : Nat) : (s.delTimer p).Inv :=
  ⟨h.family.same (.lists ..),
    h.queue.congr rfl rfl rfl rfl rfl (fun _ => rfl) fun _ => rfl,
    h.timers.delTimer p, h.calm⟩

theorem Inv.doYield (h : s.Inv) : s.doYield.Inv :=
  h.setProc fun _ => ⟨rfl, rfl, rfl, rfl⟩

theorem Inv.runTimerList (h : s.Inv) : ∃ t, s.runTimerList = some t ∧
    t.Inv ∧ t.current = s.current ∧ s.runList <+: t.runList := by
  obtain ⟨t, ht, hqueue, htimers, hcur, hprefix⟩ :=
    h.timers.runTimerList h.queue
  have hsame := (Wakes.runTimerList ht).toSameTree
  exact ⟨t, ht, ⟨h.family.same hsame, hqueue, htimers,
    h.calm.congr hsame.procList hsame.idleproc (Wakes.runTimerList ht).evolves⟩,
    hcur, hprefix⟩

end Procs

end MipsUcore.Kern
