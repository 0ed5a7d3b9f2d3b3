/-
No child's exit is lost.

# What is shown

A process that sleeps in `do_wait` has no dead child there it waits for.
When the child exits, the process is woken, and is owed the child from then
on (`Owed`): whatever the others do, it has not lost it when it runs again,
and reaps one, unless it has been killed (`Owed.run`).

# How

An event of a task is at most one event of the process table (`Acts`). What
those leave to everybody but `current` is said once (`Spares`).
-/
import MipsUcore.Kern.Proofs.Tasks

namespace MipsUcore.Kern

open Function

-- ===== what is left to bystanders

/-- What a process keeps that is not running. -/
structure Proc.Keeps (x y : Proc) : Prop where
  pid : y.pid = x.pid
  exitCode : y.exitCode = x.exitCode
  zombie : y.state = .zombie ↔ x.state = .zombie
  runnable : x.state = .runnable → y.state = .runnable

theorem Proc.Evolves.keeps {x y : Proc} (h : x.Evolves y) : x.Keeps y :=
  ⟨h.pid, h.exitCode, h.zombie, fun hr => (h.runnable hr).1⟩

namespace Procs

variable {s t u : Procs} {c p q : Nat}

/-- All but `current` keep what they have, and so do their dead children. -/
structure Spares (s t : Procs) : Prop where
  others : ∀ q, s.IsProc q → q ≠ s.current → (s.proc q).Keeps (t.proc q)
  dead : ∀ q ∈ s.procList, (s.proc q).state = .zombie →
    (s.proc q).parent ≠ some s.current →
    q ∈ t.procList ∧ (t.proc q).parent = (s.proc q).parent

/-- And nobody that was there has died. -/
structure Quiet (s t : Procs) : Prop extends Spares s t where
  noDeath : ∀ q, s.IsProc q → (t.proc q).state = .zombie →
    (s.proc q).state = .zombie

theorem Quiet.same (h : SameTree s t)
    (hothers : ∀ q, q ≠ s.current → (s.proc q).Keeps (t.proc q)) : Quiet s t :=
  ⟨⟨fun q _ hq => hothers q hq, fun q hq _ _ => ⟨h.procList ▸ hq, h.parent q⟩⟩,
    fun q _ hz => (h.zombie q).1 hz⟩

theorem Quiet.wakes (h : Wakes s t) : Quiet s t :=
  .same h.toSameTree fun q _ => (h.evolves q).keeps

theorem Quiet.setCurrent (h : SameTree s t) (f : Proc → Proc)
    (hproc : t.proc = (s.setProc s.current f).proc) : Quiet s t := by
  refine .same h fun q hq => ?_
  rw [hproc, setProc_of_ne _ _ hq]
  exact (Proc.Evolves.refl _).keeps

theorem Quiet.doKill {pid r : Int} (h : s.doKill pid = some (t, r)) :
    Quiet s t := by
  refine .same (.doKill h) fun q _ => ?_
  rcases doKill_some h with rfl | ⟨p, u, -, rfl, hwake⟩
  · exact (Proc.Evolves.refl _).keeps
  have hflag : (s.proc q).Keeps
      ((s.setProc p fun x => { x with exiting := true }).proc q) := by
    rw [setProc_proc]
    by_cases hq : q = p
    · rw [if_pos hq, hq]
      exact ⟨rfl, rfl, .rfl, id⟩
    · rw [if_neg hq]
      exact (Proc.Evolves.refl _).keeps
  rcases hwake with ⟨-, hwake⟩ | ⟨-, rfl⟩
  · have hk := ((Wakes.wakeupProc hwake).evolves q).keeps
    exact ⟨hk.pid.trans hflag.pid, hk.exitCode.trans hflag.exitCode,
      hk.zombie.trans hflag.zombie, fun hr => hk.runnable (hflag.runnable hr)⟩
  · exact hflag

theorem Quiet.reap (h : s.PidTable) (hparent : (s.proc p).parent =
    some s.current) : Quiet s (s.reap p) := by
  have hown := (SameSched.reap s p).own
  refine ⟨⟨fun q _ _ => (hown q).evolves.keeps, fun q hq hz hne => ?_⟩,
    fun q _ hz => ?_⟩
  · refine ⟨h.mem_reap.2 ⟨?_, hq⟩, reap_parent ..⟩
    rintro rfl
    exact hne hparent
  · rw [(hown q).state] at hz
    exact hz

theorem Spares.exited {errorCode : Int} (h : Exited s errorCode u)
    (ht : u.schedule = some t) : Spares s t := by
  have hsame := (Wakes.schedule ht).toSameTree
  have hev : ∀ q, ((s.died errorCode).proc q).Evolves (t.proc q) := fun q =>
    (h.onward.evolves q).trans ((Wakes.schedule ht).evolves q)
  have hparent : ∀ q, ((s.died errorCode).proc q).parent =
      (s.proc q).parent := by
    intro q
    rw [died, setProc_field Proc.parent, ite_self]
  refine ⟨fun q _ hq => ?_, fun q hq _ hne => ⟨?_, ?_⟩⟩
  · have hk := (hev q).keeps
    rw [died, setProc_of_ne _ _ hq] at hk
    exact hk
  · rw [hsame.procList, h.onward.procList]
    exact hq
  · rw [hsame.parent, h.onward.parent q (by rw [hparent]; exact hne), hparent]

theorem Quiet.born {kstack : Nat} {mm fs : Option Nat} {pid safe : Int}
    (h : s.Inv) (hrun : s.Running) (hp : ¬s.IsProc p)
    (hwake : (s.born p (s.newProc kstack mm fs pid) pid safe).wakeupProc p =
      some t) : Quiet s t := by
  have hold : ∀ q, s.IsProc q → q ≠ p := fun q hq heq => hp (heq ▸ hq)
  have hsame := (Wakes.wakeupProc hwake).toSameTree
  have hev := (h.forked hrun hp hwake).evolves
  refine ⟨⟨fun q hq _ => (hev q (hold q hq)).keeps,
    fun q hq _ _ => ⟨?_, ?_⟩⟩, fun q hq hz => (hev q (hold q hq)).zombie.1 hz⟩
  · rw [hsame.procList, mem_born (c := s.current) rfl]
    exact .inr hq
  · rw [hsame.parent, born_parent (c := s.current) rfl,
      if_neg (hold q (.inr hq))]

/-- What an event of the table does to the processes. -/
inductive Moves (s : Procs) : ProcEvent → Procs → Prop
  | own {e : ProcEvent} {t : Procs} (f : Proc → Proc) (running : s.Running)
      (same : SameTree s t) (current : t.current = s.current)
      (proc : t.proc = (s.setProc s.current f).proc) : Moves s e t
  | born {p kstack : Nat} {mm fs : Option Nat} {pid safe : Int} {t : Procs}
      (running : s.Running) (unused : ¬s.IsProc p)
      (wake : (s.born p (s.newProc kstack mm fs pid) pid safe).wakeupProc p =
        some t) : Moves s (.fork p kstack mm fs) t
  | exit {errorCode : Int} {t u : Procs} (exited : Exited s errorCode u)
      (schedule : u.schedule = some t) : Moves s (.exit errorCode) t
  | reap {p : Nat} {pid : Int} {t : Procs}
      (parent : (s.proc p).parent = some s.current) (reap : t = s.reap p) :
      Moves s (.wait pid) t
  | kill {pid r : Int} {t : Procs} (kill : s.doKill pid = some (t, r)) :
      Moves s (.kill pid) t
  | wakeup {p : Nat} {t : Procs} (wake : s.wakeupProc p = some t) :
      Moves s (.wakeup p) t
  | tick {t : Procs} (run : s.runTimerList = some t) : Moves s .tick t
  | schedule {t : Procs} (run : s.schedule = some t) : Moves s .schedule t

/-- At most the timers change. -/
theorem Moves.stay {e : ProcEvent} (hrun : s.Running) (l : List Timer) :
    Moves s e { s with timerList := l } :=
  .own id hrun (.lists ..) rfl (update_eq_self ..).symm

end Procs

theorem Table.exited {t u : Table} {errorCode : Int} (h : t.procs.Inv)
    (hi : t.procs.Init) (hfree : t.procs.Free)
    (hu : t.apply (.exit errorCode) = some u) :
    ∃ s, Procs.Exited t.procs errorCode s ∧ s.schedule = some u.procs := by
  obtain ⟨v, hv, rfl⟩ := Option.map_eq_some_iff.1 hu
  have hpanic : ¬(t.procs.current = t.procs.idleproc ∨
      t.procs.current = t.procs.initproc) := by
    intro hpanic
    rw [Procs.doExit, if_pos hpanic] at hv
    cases hv
  obtain ⟨s, hexit, heq⟩ := h.doExit hi hfree (fun heq => hpanic (.inl heq))
    (fun heq => hpanic (.inr heq)) errorCode
  exact ⟨s, hexit, heq.symm.trans hv⟩

/-- There is nothing else an event can do. -/
theorem Table.moves {t u : Table} {e : ProcEvent} (h : t.procs.Inv)
    (hi : t.procs.Init) (hpos : t.procs.Possible e)
    (hu : t.apply e = some u) : Procs.Moves t.procs e u.procs := by
  cases e with
  | fork p kstack mm fs =>
    obtain ⟨r, hr, rfl⟩ := Option.map_eq_some_iff.1 hu
    obtain ⟨hfree, hp⟩ := hpos
    rcases h.doFork hfree.1 hp kstack mm fs with
      hfull | ⟨pid, safe, t', ht', -, hwake, -⟩
    · cases hr.symm.trans hfull
      exact .stay hfree.1 _
    · cases hr.symm.trans ht'
      exact .born hfree.1 hp hwake
  | exit errorCode =>
    obtain ⟨s, hexit, hs⟩ := exited h hi hpos hu
    exact .exit hexit hs
  | wait pid =>
    obtain ⟨⟨s, r⟩, hs, rfl⟩ := Option.map_eq_some_iff.1 hu
    obtain ⟨t', r', ht', hwaits, -⟩ := h.doWait hi hpos.1 hpos.2 pid
    cases hs.symm.trans ht'
    have hrun := hpos.1.1
    cases r with
    | failed =>
      obtain ⟨-, rfl⟩ := hwaits
      exact .stay hrun _
    | blocked =>
      obtain ⟨-, -, rfl⟩ := hwaits
      exact .own _ hrun (.slept hrun.live .child) rfl rfl
    | reaped p exitCode =>
      obtain ⟨hawaited, -, -, rfl⟩ := hwaits
      exact .reap hawaited.2.1 rfl
  | kill pid =>
    obtain ⟨⟨s, r⟩, hs, rfl⟩ := Option.map_eq_some_iff.1 hu
    exact .kill hs
  | sleep time =>
    obtain ⟨⟨s, r⟩, hs, rfl⟩ := Option.map_eq_some_iff.1 hu
    have hsame := Procs.SameTree.doSleep hpos.1.1.live hs
    rcases Procs.doSleep_some hs with ⟨-, rfl, rfl⟩ | ⟨-, rfl, rfl⟩
    · exact .stay hpos.1.1 _
    · exact .own (fun x => { x with state := .sleeping, waitState := .timer })
        hpos.1.1 hsame rfl rfl
  | delTimer =>
    cases hu
    exact .stay hpos _
  | yield =>
    cases hu
    exact .own _ hpos.1 (.doYield _) rfl rfl
  | suspend w =>
    cases hu
    exact .own _ hpos.1.1 (.slept hpos.1.1.live w) rfl rfl
  | wakeup p =>
    obtain ⟨s, hs, rfl⟩ := Option.map_eq_some_iff.1 hu
    exact .wakeup hs
  | tick =>
    obtain ⟨s, hs, rfl⟩ := Option.map_eq_some_iff.1 hu
    exact .tick hs
  | schedule =>
    obtain ⟨s, hs, rfl⟩ := Option.map_eq_some_iff.1 hu
    exact .schedule hs

/-- Every event of the table but an exit is quiet. -/
theorem Table.spares {t u : Table} {e : ProcEvent} (h : t.procs.Inv)
    (hi : t.procs.Init) (hpos : t.procs.Possible e) (hu : t.apply e = some u) :
    Procs.Quiet t.procs u.procs ∨ ∃ errorCode s, e = .exit errorCode ∧
      Procs.Exited t.procs errorCode s ∧ s.schedule = some u.procs := by
  cases moves h hi hpos hu with
  | own f _ hsame _ hproc => exact .inl (.setCurrent hsame f hproc)
  | born hrun hp hwake => exact .inl (.born h hrun hp hwake)
  | exit hexit hs => exact .inr ⟨_, _, rfl, hexit, hs⟩
  | reap hparent heq => exact .inl (heq ▸ .reap h.family.table hparent)
  | kill hs => exact .inl (.doKill hs)
  | wakeup hs =>
    exact .inl (.wakes (.wakeupProc hs))
  | tick hs =>
    exact .inl (.wakes (.runTimerList hs))
  | schedule hs =>
    exact .inl (.wakes (.schedule hs))

-- ===== one event of the table

namespace World

variable {w v : World} {t : Procs} {x : Point} {p q c : Nat}

/-- What an event of the tasks does: nothing to the table, or what one event
of the table does; and nobody but `current` moves. -/
structure Acts (w v : World) : Prop where
  table : v.procs = w.procs ∨ ∃ e, w.procs.Possible e ∧
    ∀ log, ∃ log', Table.apply ⟨w.procs, log⟩ e = some ⟨v.procs, log'⟩
  point : ∀ c, w.procs.IsProc c → c ≠ w.procs.current →
    v.point c = w.point c

theorem Acts.moved {e : ProcEvent} (hpos : w.procs.Possible e)
    (h : ∀ log, ∃ log', Table.apply ⟨w.procs, log⟩ e = some ⟨t, log'⟩) :
    w.Acts (w.moved t x) :=
  ⟨.inr ⟨e, hpos, h⟩, fun _ _ hc => moved_of_ne _ _ _ hc⟩

theorem Acts.quiet : w.Acts (w.moved w.procs x) :=
  ⟨.inl rfl, fun _ _ hc => moved_of_ne _ _ _ hc⟩

theorem Acts.switch (hv : w.switch x = some v) : w.Acts v := by
  obtain ⟨t, ht, rfl⟩ := Option.map_eq_some_iff.1 hv
  refine .moved (e := .schedule) trivial fun log => ⟨log, ?_⟩
  rw [Table.apply, ht]
  rfl

theorem Acts.doExit {errorCode : Int} (hfree : w.procs.Free)
    (hv : w.doExit errorCode = some v) : w.Acts v := by
  obtain ⟨t, ht, rfl⟩ := Option.map_eq_some_iff.1 hv
  refine ⟨.inr ⟨.exit errorCode, hfree, fun log => ⟨log, ?_⟩⟩,
    fun _ _ _ => rfl⟩
  rw [Table.apply, ht]
  rfl

section Acts

variable (h : w.Tasks)
include h

theorem Tasks.acts_call {c : Call} (he : w.Enabled (.call c))
    (hv : w.call c = some v) : w.Acts v := by
  cases c with
  | fork p kstack mm fs =>
    have hat := h.userAt (.inl he.1)
    obtain ⟨r, hr, rfl⟩ := Option.map_eq_some_iff.1 hv
    have htable : ∀ log, ∃ log', Table.apply ⟨w.procs, log⟩
        (.fork p kstack mm fs) = some ⟨r.1, log'⟩ := by
      intro log
      rw [Table.apply, hr]
      exact ⟨_, rfl⟩
    by_cases hpos : 0 < r.2
    · rw [if_pos hpos]
      refine ⟨.inr ⟨.fork p kstack mm fs, ⟨hat.free, he.2⟩, htable⟩,
        fun c hc hcur => ?_⟩
      have hcp : c ≠ p := fun heq => he.2 (heq ▸ hc)
      change update (update w.point p .user)
        w.procs.current .trapEnd c = w.point c
      rw [update_of_ne hcur, update_of_ne hcp]
    · rw [if_neg hpos]
      exact .moved (e := .fork p kstack mm fs) ⟨hat.free, he.2⟩ htable
  | forkFails => exact Option.some.inj hv ▸ .quiet
  | exit errorCode => exact .doExit (h.userAt (.inl he)).free hv
  | wait pid store => exact Option.some.inj hv ▸ .quiet
  | kill pid =>
    obtain ⟨r, hr, rfl⟩ := Option.map_eq_some_iff.1 hv
    refine .moved (e := .kill pid) (h.userAt (.inl he)).free fun log =>
      ⟨log, ?_⟩
    rw [Table.apply, hr]
    rfl
  | sleep time =>
    have hat := h.userAt (.inl he)
    obtain ⟨r, hr, rfl⟩ := Option.map_eq_some_iff.1 hv
    refine .moved (e := .sleep time) ⟨hat.free, hat.notIdle⟩ fun log =>
      ⟨log, ?_⟩
    rw [Table.apply, hr]
    rfl
  | yield =>
    exact Option.some.inj hv ▸ .moved (e := .yield)
      (h.userAt (.inl he)).free fun log => ⟨log, rfl⟩

theorem Tasks.acts_go
    (hv : w.go (w.point w.procs.current) = some v) : w.Acts v := by
  cases hx : w.point w.procs.current with
  | user =>
    rw [hx] at hv
    exact Option.some.inj hv ▸ ⟨.inl rfl, fun _ _ _ => rfl⟩
  | trapEnd =>
    rw [hx, go] at hv
    split_ifs at hv
    · exact .doExit (h.userAt (.inr hx)).free hv
    · exact .switch hv
    · exact Option.some.inj hv ▸ .quiet
  | schedule r =>
    rw [hx] at hv
    exact .switch hv
  | kernel r =>
    rw [hx] at hv
    cases r with
    | waitRepeat pid =>
      have hfree := h.free (by simp [hx]) (by simp [hx])
      obtain ⟨⟨t, r⟩, ht, hv⟩ := Option.bind_eq_some_iff.1 hv
      have htable : ∀ log, ∃ log', Table.apply ⟨w.procs, log⟩ (.wait pid) =
          some ⟨t, log'⟩ := by
        intro log
        rw [Table.apply, ht]
        exact ⟨_, rfl⟩
      have hpos : w.procs.Possible (.wait pid) :=
        ⟨hfree, h.notIdle (by simp [hx])⟩
      cases r with
      | reaped p exitCode => exact Option.some.inj hv ▸ .moved hpos htable
      | blocked => exact Option.some.inj hv ▸ .moved hpos htable
      | failed =>
        rw [afterWait] at hv
        split_ifs at hv
        · exact .doExit hfree hv
        · exact Option.some.inj hv ▸ .moved hpos htable
    | waitBack pid =>
      rw [go, resume] at hv
      split_ifs at hv
      · exact .doExit (h.free (by simp [hx]) (by simp [hx])) hv
      · exact Option.some.inj hv ▸ .quiet
    | sleepBack =>
      have hrun : w.procs.Running := h.running (by simp [hx])
      exact Option.some.inj hv ▸
        .moved (e := .delTimer) hrun fun log => ⟨log, rfl⟩
  | idle =>
    rw [hx, go] at hv
    split_ifs at hv
    · exact .switch hv
    · exact Option.some.inj hv ▸ ⟨.inl rfl, fun _ _ _ => rfl⟩

theorem Tasks.acts {e : TaskEvent} (he : w.Enabled e)
    (hv : w.step e = some v) : w.Acts v := by
  cases e with
  | call c => exact h.acts_call he hv
  | tick =>
    obtain ⟨t, ht, rfl⟩ := Option.map_eq_some_iff.1 hv
    have htable : ∀ log, ∃ log', Table.apply ⟨w.procs, log⟩ .tick =
        some ⟨t, log'⟩ := by
      intro log
      rw [Table.apply, ht]
      exact ⟨_, rfl⟩
    split_ifs
    · exact .moved (e := .tick) trivial htable
    · exact ⟨.inr ⟨.tick, trivial, htable⟩, fun _ _ _ => rfl⟩
  | go => exact h.acts_go hv

/-- What an event leaves to the others; somebody dies in it only by
`do_exit`. -/
theorem Tasks.spares {e : TaskEvent} (he : w.Enabled e)
    (hv : w.step e = some v) : Procs.Quiet w.procs v.procs ∨ ∃ errorCode u,
      Procs.Exited w.procs errorCode u ∧ u.schedule = some v.procs := by
  rcases (h.acts he hv).table with heq | ⟨ev, hpos, happly⟩
  · rw [heq]
    exact .inl (.wakes (.refl _))
  obtain ⟨log', hu⟩ := happly []
  rcases Table.spares h.inv h.init hpos hu with
    hquiet | ⟨errorCode, u, -, hexit, hs⟩
  · exact .inl hquiet
  · exact .inr ⟨errorCode, u, hexit, hs⟩

end Acts

/-- Where the tasks come, the process table has been brought by its own
events. -/
theorem Reached.refines_table {Allowed : TaskEvent → Prop}
    (h : w.Reached Allowed) : ∃ log, Table.Reached ⟨w.procs, log⟩ := by
  induction h with
  | boot h =>
    cases h with
    | @intro mem idle p q kstack kstack' fs fs' mm fs'' s s' t pid hp hs hs'
        hq ht hpos =>
      have hinit := Procs.procInit_initial hp hs
      have hfree : s'.Free := by
        refine ⟨hinit.inv.schedule_running hs', fun x hx => ?_⟩
        rw [(Procs.schedule_some hs').2.1, hinit.timerList] at hx
        exact absurd hx List.not_mem_nil
      have hfirst : Table.Reached ⟨s', [.alloc p kstack]⟩ := by
        refine (Table.Reached.boot hp hs).step (e := .schedule) trivial ?_
        rw [Table.apply, hs']
        rfl
      refine ⟨[.alloc p kstack] ++ [.alloc q kstack'],
        hfirst.step (e := .fork q kstack' mm fs'') ⟨hfree, hq⟩ ?_⟩
      rw [Table.apply, ht, Option.map_some, if_pos hpos]
  | step hw _ he hv ih =>
    obtain ⟨log, hlog⟩ := ih
    rcases (hw.tasks.acts he hv).table with heq | ⟨ev, hpos, happly⟩
    · exact ⟨log, heq ▸ hlog⟩
    · obtain ⟨log', hu⟩ := happly log
      exact ⟨log', hlog.step hpos hu⟩

-- ===== owed a child

/-- `p` has been woken in `do_wait(pid, _)`, and its child `q` is dead. -/
structure Owed (w : World) (p : Nat) (pid : Int) (q : Nat) (code : Int) :
    Prop where
  runnable : (w.procs.proc p).state = .runnable
  point : w.point p = .kernel (.waitBack pid) ∨
    w.point p = .kernel (.waitRepeat pid)
  child : w.procs.AwaitedBy p pid q
  dead : (w.procs.proc q).state = .zombie
  exitCode : (w.procs.proc q).exitCode = code

/-- The `do_wait(pid, _)` of `current` reaps a child; it is `q` if there was
a choice. -/
def Reaps (w v : World) (pid : Int) (q : Nat) (code : Int) : Prop :=
  ∃ r code', w.procs.doWait pid = some (v.procs, .reaped r code') ∧
    w.procs.Awaited pid r ∧ (w.procs.proc r).state = .zombie ∧
    code' = (w.procs.proc r).exitCode ∧ ¬v.procs.IsProc r ∧
    (pid ≠ 0 → r = q ∧ code' = code)

/-- `current` has found that it was killed, and exits. -/
def Dies (w v : World) : Prop :=
  (w.procs.proc w.procs.current).exiting = true ∧
    (v.procs.proc w.procs.current).state = .zombie

theorem Enabled.user {c : Call} (he : w.Enabled (.call c)) :
    w.point w.procs.current = .user := by
  cases c with
  | fork p kstack mm fs => exact he.1
  | _ => exact he

section Owed

variable {pid code : Int}

/-- What others do leaves the child to `p`. -/
theorem Owed.spared (h : w.Tasks) (ho : w.Owed p pid q code)
    (hp : p ≠ w.procs.current) {e : TaskEvent} (he : w.Enabled e)
    (hv : w.step e = some v) : v.Owed p pid q code := by
  have hspares : Procs.Spares w.procs v.procs := by
    rcases h.spares he hv with hquiet | ⟨errorCode, u, hexit, hs⟩
    · exact hquiet.toSpares
    · exact .exited hexit hs
  obtain ⟨hlisted, hparent, hpid⟩ := ho.child
  have hproc : w.procs.IsProc p := by
    obtain ⟨c, hc, -, hisproc⟩ := h.inv.family.parent hlisted
    exact Option.some.inj (hc.symm.trans hparent) ▸ hisproc
  have hq : q ≠ w.procs.current := fun heq => h.live (heq ▸ ho.dead)
  have hkeeps := hspares.others q (.inr hlisted) hq
  obtain ⟨hlisted', hparent'⟩ := hspares.dead q hlisted ho.dead
    fun heq => hp (Option.some.inj (hparent.symm.trans heq))
  refine ⟨(hspares.others p hproc hp).runnable ho.runnable, ?_,
    ⟨hlisted', hparent'.trans hparent, ?_⟩, hkeeps.zombie.2 ho.dead,
    hkeeps.exitCode.trans ho.exitCode⟩
  · rw [(h.acts he hv).point p hproc hp]
    exact ho.point
  · rw [hkeeps.pid]
    exact hpid

/-- A tick, while `p` runs. -/
theorem Owed.tick (ho : w.Owed w.procs.current pid q code)
    (hv : w.step .tick = some v) : v.Owed w.procs.current pid q code := by
  obtain ⟨t, ht, rfl⟩ := Option.map_eq_some_iff.1 hv
  have hsame := (Procs.Wakes.runTimerList ht).toSameTree
  have hev := (Procs.Wakes.runTimerList ht).evolves
  have huser : w.point w.procs.current ≠ .user := by
    rcases ho.point with hx | hx
    · rw [hx]
      exact Point.noConfusion
    · rw [hx]
      exact Point.noConfusion
  rw [if_neg huser]
  exact ⟨((hev _).runnable ho.runnable).1, ho.point,
    hsame.awaitedBy.2 ho.child, (hev q).zombie.2 ho.dead,
    (hev q).exitCode.trans ho.exitCode⟩

/-- `p` runs again: it takes two steps to reap a child, unless it finds
that it was killed. -/
theorem Owed.go (h : w.Tasks) (ho : w.Owed w.procs.current pid q code) :
    (w.point w.procs.current = .kernel (.waitBack pid) ∧
      (w.procs.proc w.procs.current).exiting = true) ∨
    ∃ v, w.step .go = some v ∧ (w.Reaps v pid q code ∨
      w.point w.procs.current = .kernel (.waitBack pid) ∧
        v.procs.current = w.procs.current ∧
        v.point w.procs.current = .kernel (.waitRepeat pid) ∧
        v.Owed w.procs.current pid q code) := by
  rcases ho.point with hx | hx
  · by_cases hexit : (w.procs.proc w.procs.current).exiting = true
    · exact .inl ⟨hx, hexit⟩
    refine .inr ⟨w.moved w.procs (.kernel (.waitRepeat pid)), ?_,
      .inr ⟨hx, rfl, moved_self .., ?_⟩⟩
    · rw [step, hx, World.go, resume, if_neg hexit]
    · exact ⟨ho.runnable, .inr (moved_self ..), ho.child, ho.dead, ho.exitCode⟩
  · have hfree := h.free (by simp [hx]) (by simp [hx])
    obtain ⟨t, r, ht, hwaits, -⟩ := h.inv.doWait h.init hfree
      (h.notIdle (by simp [hx])) pid
    cases r with
    | failed => exact absurd ho.child (hwaits.1 q)
    | blocked => exact absurd ho.dead (hwaits.2.1 q ho.child)
    | reaped r code' =>
      obtain ⟨hawaited, hz, hcode, rfl⟩ := hwaits
      refine .inr ⟨w.moved (w.procs.reap r)
        (if w.procs.current = w.procs.initproc then .schedule (.waitRepeat 0)
          else .trapEnd), ?_,
        .inl ⟨r, code', ht, hawaited, hz, hcode, ?_, fun hpid => ?_⟩⟩
      · rw [step, hx, World.go, resume, ht]
        rfl
      · intro hr
        exact ((h.inv.family.table.isProc_reap hawaited.1).1 hr).1 rfl
      · -- there is one child of that pid
        have hrq : r = q := h.inv.family.table.inj r hawaited.1 q ho.child.1
          ((hawaited.2.2.resolve_left hpid).trans
            (ho.child.2.2.resolve_left hpid).symm)
        exact ⟨hrq, hcode.trans (hrq ▸ ho.exitCode)⟩

theorem Owed.dies (h : w.Tasks)
    (hx : w.point w.procs.current = .kernel (.waitBack pid))
    (hexit : (w.procs.proc w.procs.current).exiting = true)
    (hv : w.step .go = some v) : w.Dies v := by
  rw [step, hx, World.go, resume, if_pos hexit] at hv
  have hinit : w.procs.current ≠ w.procs.initproc := by
    intro heq
    rw [doExit_init heq] at hv
    cases hv
  obtain ⟨v', hv', -, u, hexited, hs, -⟩ := h.doExit
    (h.free (by simp [hx]) (by simp [hx])) (h.notIdle (by simp [hx])) hinit
    (by simp [hx]) (-eKilled)
  cases hv.symm.trans hv'
  refine ⟨hexit, ((Procs.Wakes.schedule hs).evolves _).zombie.2
    ((hexited.onward.evolves _).zombie.2 ?_)⟩
  rw [Procs.died, Procs.setProc_self]

theorem Owed.step (h : w.Tasks) (ho : w.Owed p pid q code) {e : TaskEvent}
    (he : w.Enabled e) (hv : w.step e = some v) : v.Owed p pid q code ∨
      w.procs.current = p ∧ e = .go ∧ (w.Reaps v pid q code ∨ w.Dies v) := by
  by_cases hp : p = w.procs.current
  case neg => exact .inl (ho.spared h hp he hv)
  subst hp
  cases e with
  | call c =>
    refine absurd he.user ?_
    rcases ho.point with hx | hx
    · rw [hx]
      exact Point.noConfusion
    · rw [hx]
      exact Point.noConfusion
  | tick => exact .inl (ho.tick hv)
  | go =>
    rcases ho.go h with ⟨hx, hexit⟩ | ⟨v', hv', hreaps | ⟨-, -, -, howed⟩⟩
    · exact .inr ⟨rfl, rfl, .inr (Owed.dies h hx hexit hv)⟩
    · cases hv.symm.trans hv'
      exact .inr ⟨rfl, rfl, .inl hreaps⟩
    · cases hv.symm.trans hv'
      exact .inl howed

/-- The child `p` waits for exits. -/
theorem Tasks.owed (h : w.Tasks) (hs : w.procs.SleepsForChild p)
    (hin : w.InWait p pid) (hq : w.procs.AwaitedBy p pid q)
    (halive : (w.procs.proc q).state ≠ .zombie) {e : TaskEvent}
    (he : w.Enabled e) (hv : w.step e = some v)
    (hdead : (v.procs.proc q).state = .zombie) :
    v.Owed p pid q (v.procs.proc q).exitCode := by
  obtain ⟨hlisted, hparent, hpid⟩ := hq
  obtain ⟨c, hc, hcq, hproc⟩ := h.inv.family.parent hlisted
  obtain rfl := Option.some.inj (hc.symm.trans hparent)
  rcases h.spares he hv with hquiet | ⟨errorCode, u, hexit, hsched⟩
  · exact absurd (hquiet.noDeath q (.inr hlisted) hdead) halive
  obtain rfl : q = w.procs.current := by
    by_contra hne
    exact halive (((Procs.Spares.exited hexit hsched).others q (.inr hlisted)
      hne).zombie.1 hdead)
  have hsame := (Procs.Wakes.schedule hsched).toSameTree
  have hev := (Procs.Wakes.schedule hsched).evolves
  have hpoint : w.point c = .kernel (.waitBack pid) := by
    rcases hin with hx | hx
    · exact hx
    · exact absurd (h.off c _ hx) hcq
  have hdied : (w.procs.died errorCode).proc c = w.procs.proc c :=
    Procs.setProc_of_ne _ _ hcq
  have hwoken : (u.proc c).state = .runnable := by
    rcases (hexit.onward.evolves c).wake with ⟨hstate, hwait⟩ | hwoken
    · rw [hdied] at hstate hwait
      exact absurd ⟨hstate.trans hs.1, hwait.trans hs.2⟩
        (hexit.parent c hparent)
    · exact hwoken.2.2.1
  have hparent' : ((w.procs.died errorCode).proc w.procs.current).parent =
      some c := by
    rw [Procs.died, Procs.setProc_field Proc.parent, ite_self]
    exact hparent
  have hstays := hexit.onward.parent w.procs.current fun heq =>
    hcq (Option.some.inj (hparent'.symm.trans heq))
  refine ⟨((hev c).runnable hwoken).1, .inl ?_, ⟨?_, ?_, ?_⟩, hdead, rfl⟩
  · exact ((h.acts he hv).point c hproc hcq).trans hpoint
  · rw [hsame.procList, hexit.onward.procList]
    exact hlisted
  · rw [hsame.parent, hstays]
    exact hparent'
  · rw [hsame.pid, (hexit.onward.evolves _).pid, Procs.died,
      Procs.setProc_field Proc.pid, ite_self]
    exact hpid

theorem Owed.onQueue (h : w.Tasks) (ho : w.Owed p pid q code) :
    w.procs.current = p ∨ p ∈ w.procs.runList := by
  by_cases hcur : w.procs.current = p
  · exact .inl hcur
  obtain ⟨c, hc, -, hproc⟩ := h.inv.family.parent ho.child.1
  obtain rfl := Option.some.inj (hc.symm.trans ho.child.2.1)
  have hidle : c ≠ w.procs.idleproc := by
    rintro rfl
    rcases ho.point with hx | hx
    · exact Point.noConfusion (hx.symm.trans h.idlePoint)
    · exact Point.noConfusion (hx.symm.trans h.idlePoint)
  refine .inr ((h.inv.queue.list.mem c).2 ⟨hproc.resolve_left hidle,
    ho.runnable, fun heq => hcur heq.symm⟩)

-- ===== whole runs

/-- Events that come one after the other. -/
def Runs : World → World → Prop :=
  Relation.ReflTransGen fun w v => ∃ e, w.Enabled e ∧ w.step e = some v

theorem Runs.reached (h : w.Reached fun _ => True) (hr : w.Runs v) :
    v.Reached fun _ => True := by
  induction hr with
  | refl => exact h
  | tail _ hstep ih =>
    obtain ⟨e, he, hv⟩ := hstep
    exact ih.step trivial he hv

/-- `p` is owed the child until it runs, and then reaps it or dies. -/
theorem Owed.run (h : w.Reached fun _ => True) (ho : w.Owed p pid q code)
    (hr : w.Runs v) : v.Owed p pid q code ∨ ∃ a b, w.Runs a ∧
      a.procs.current = p ∧ a.step .go = some b ∧
      (a.Reaps b pid q code ∨ a.Dies b) ∧ b.Runs v := by
  induction hr with
  | refl => exact .inl ho
  | @tail u v hru hstep ih =>
    rcases ih with ho' | ⟨a, b, hra, hcur, hb, hend, hrb⟩
    · obtain ⟨e, he, hv⟩ := hstep
      rcases ho'.step (Runs.reached h hru).tasks he hv with
        howed | ⟨hcur, rfl, hend⟩
      · exact .inl howed
      · exact .inr ⟨u, v, hru, hcur, hv, hend, .refl⟩
    · exact .inr ⟨a, b, hra, hcur, hb, hend, hrb.tail hstep⟩

/-- Once it runs, it goes on to reap, unless it was killed. -/
theorem Owed.returns (h : w.Reached fun _ => True)
    (ho : w.Owed w.procs.current pid q code) :
    (w.procs.proc w.procs.current).exiting = true ∨
      ∃ x y, (x = w ∨ w.step .go = some x ∧
          x.procs.current = w.procs.current) ∧
        x.step .go = some y ∧ x.Reaps y pid q code := by
  rcases ho.go h.tasks with ⟨-, hexit⟩ |
    ⟨v, hv, hreaps | ⟨-, hcur, hpoint, howed⟩⟩
  · exact .inl hexit
  · exact .inr ⟨w, v, .inl rfl, hv, hreaps⟩
  -- at `repeat:` nothing but the reaping is left
  rw [← hcur] at howed hpoint
  have hrepeat : v.point v.procs.current ≠ .kernel (.waitBack pid) := by
    rw [hpoint]
    exact fun heq => Resume.noConfusion (Point.kernel.inj heq)
  have hv' : v.Reached fun _ => True := h.step (e := .go) trivial trivial hv
  rcases howed.go hv'.tasks with ⟨hback, -⟩ | ⟨u, hu, hreaps | ⟨hback, -⟩⟩
  · exact absurd hback hrepeat
  · exact .inr ⟨v, u, .inr ⟨hv, hcur⟩, hu, hreaps⟩
  · exact absurd hback hrepeat

/-- Nobody sleeps for a dead child, and one whose child exits is woken and
reaps: it is owed the child and on the run queue until it runs, and then
takes two steps to reap one and return, unless it was killed. -/
theorem Reached.no_lost_exit (h : w.Reached fun _ => True)
    (hp : w.procs.IsProc p) (hs : w.procs.SleepsForChild p) :
    ∃ pid, w.InWait p pid ∧
      (∀ q, w.procs.AwaitedBy p pid q → (w.procs.proc q).state ≠ .zombie) ∧
      ∀ q e v, w.procs.AwaitedBy p pid q → w.Enabled e →
        w.step e = some v → (v.procs.proc q).state = .zombie →
        v.Owed p pid q (v.procs.proc q).exitCode ∧ ∀ u, v.Runs u →
          (u.Owed p pid q (v.procs.proc q).exitCode ∧
            (u.procs.current = p ∨ p ∈ u.procs.runList) ∧
            (u.procs.current = p → (u.procs.proc p).exiting = true ∨
              ∃ x y, (x = u ∨ u.step .go = some x ∧ x.procs.current = p) ∧
                x.step .go = some y ∧
                x.Reaps y pid q (v.procs.proc q).exitCode)) ∨
          ∃ a b, v.Runs a ∧ a.procs.current = p ∧ a.step .go = some b ∧
            (a.Reaps b pid q (v.procs.proc q).exitCode ∨ a.Dies b) ∧
            b.Runs u := by
  obtain ⟨pid, hin, halive⟩ := h.tasks.wait p hp hs
  refine ⟨pid, hin, halive, fun q e v hq he hv hdead => ?_⟩
  have howed := h.tasks.owed hs hin hq (halive q hq) he hv hdead
  refine ⟨howed, fun u hru => ?_⟩
  have hv' : v.Reached fun _ => True := h.step trivial he hv
  have hu := Runs.reached hv' hru
  rcases howed.run hv' hru with ho | hended
  case inr => exact .inr hended
  refine .inl ⟨ho, ho.onQueue hu.tasks, ?_⟩
  rintro rfl
  exact ho.returns hu

end Owed

instance (s : Procs) (c : Nat) : Decidable (s.SleepsForChild c) :=
  inferInstanceAs (Decidable (_ ∧ _))

instance (s : Procs) (c : Nat) (pid : Int) (q : Nat) :
    Decidable (s.AwaitedBy c pid q) := inferInstanceAs (Decidable (_ ∧ _ ∧ _))

/-- `initproc` sleeps, and the shell exits with 5. -/
theorem no_lost_exit_shell : ∃ w v, booted.bind (·.run [.go, .go]) = some w ∧
    w.procs.SleepsForChild 2 ∧ w.step (.call (.exit 5)) = some v ∧
    v.Owed 2 0 3 5 := by
  have hrun : (booted.bind (·.run [.go, .go])).map (fun w =>
      decide (w.procs.IsProc 2 ∧ w.procs.SleepsForChild 2 ∧
        w.procs.AwaitedBy 2 0 3 ∧ w.Enabled (.call (.exit 5)) ∧
        w.point 2 = .kernel (.waitBack 0))) = some true := by
    decide +kernel
  have hexit : ((booted.bind (·.run [.go, .go])).bind
      (·.step (.call (.exit 5)))).map (fun v =>
        decide ((v.procs.proc 3).state = .zombie ∧
          (v.procs.proc 3).exitCode = 5)) = some true := by
    decide +kernel
  obtain ⟨w, hw, hfacts⟩ := Option.map_eq_some_iff.1 hrun
  obtain ⟨hproc, hsleeps, hchild, he, hpoint⟩ := of_decide_eq_true hfacts
  rw [hw] at hexit
  obtain ⟨v, hv, hfacts'⟩ := Option.map_eq_some_iff.1 hexit
  obtain ⟨hdead, hcode⟩ := of_decide_eq_true hfacts'
  obtain ⟨w', hw', hrun'⟩ := Option.bind_eq_some_iff.1 hw
  have hreached : w.Reached fun _ => True :=
    (reached_of_booted hw').run (fun _ _ => trivial) hrun'
  obtain ⟨pid, hin, -, howed⟩ := hreached.no_lost_exit hproc hsleeps
  have hpid : pid = 0 := by
    rcases hin with hx | hx
    · exact (Resume.waitBack.inj (Point.kernel.inj (hpoint.symm.trans hx))).symm
    · exact Point.noConfusion (hpoint.symm.trans hx)
  subst hpid
  refine ⟨w, v, hw, hsleeps, hv, ?_⟩
  rw [← hcode]
  exact (howed 3 _ v hchild he hv hdead).1

/-- When the shell has exited and been reaped. -/
theorem refines_table_shellExits : ∃ w log,
    booted.bind (·.run shellExits) = some w ∧
      Table.Reached ⟨w.procs, log⟩ := by
  obtain ⟨w, hw⟩ := Option.isSome_iff_exists.1
    (show (booted.bind (·.run shellExits)).isSome = true by decide +kernel)
  obtain ⟨v, hv, hrun⟩ := Option.bind_eq_some_iff.1 hw
  have hreached : w.Reached fun _ => True :=
    (reached_of_booted hv).run (fun _ _ => trivial) hrun
  obtain ⟨log, hlog⟩ := hreached.refines_table
  exact ⟨w, log, hw, hlog⟩

end World

end MipsUcore.Kern
