/-
Every process table that can be reached is well formed.

Each event that can come goes through, but for an exit of `initproc` or
`idleproc`, and keeps the invariant (`Inv.apply`); `proc_init` sets it up.
What the events do to the table and to the memory that was taken for it is
one of three things: nothing, a birth, or the reaping of a zombie by its
parent (`Effect`).
-/
import MipsUcore.Kern.Proofs.ProcCalls

namespace MipsUcore.Kern

open Procs

namespace Table

variable {t u : Table} {e : ProcEvent} {p q : Nat}

/-- What an event does to the table. -/
inductive Effect (t u : Table) (e : ProcEvent) : Prop
  | quiet (log : u.log = t.log)
      (procList : u.procs.procList = t.procs.procList)
      (kstack : ∀ q, (u.procs.proc q).kstack = (t.procs.proc q).kstack)
      (zombie : ∀ q, (t.procs.proc q).state = .zombie →
        (u.procs.proc q).state = .zombie)
  | birth (p kstack : Nat) (unused : ¬t.procs.IsProc p)
      (log : u.log = t.log ++ [.alloc p kstack])
      (procList : ∀ q, q ∈ u.procs.procList ↔ q = p ∨ q ∈ t.procs.procList)
      (new : (u.procs.proc p).kstack = kstack)
      (old : ∀ q, q ≠ p →
        (u.procs.proc q).kstack = (t.procs.proc q).kstack ∧
          ((t.procs.proc q).state = .zombie →
            (u.procs.proc q).state = .zombie))
  | death (pid : Int) (p : Nat) (event : e = .wait pid)
      (listed : p ∈ t.procs.procList)
      (zombie : (t.procs.proc p).state = .zombie)
      (parent : (t.procs.proc p).parent = some t.procs.current)
      (log : u.log = t.log ++ [.free p (t.procs.proc p).kstack])
      (procList : ∀ q, q ∈ u.procs.procList ↔ q ≠ p ∧ q ∈ t.procs.procList)
      (gone : ¬u.procs.IsProc p)
      (same : ∀ q, (t.procs.proc q).SameOwn (u.procs.proc q))

/-- Who runs because of the event. -/
def dispatched (u : Table) : ProcEvent → List Nat
  | .exit _ => [u.procs.current]
  | .schedule => [u.procs.current]
  | _ => []

/-- The event has gone through. -/
structure Goes (t : Table) (e : ProcEvent) (u : Table) : Prop where
  inv : u.procs.Inv
  init : u.procs.Init
  effect : Effect t u e
  order : t.procs.runList <+: u.dispatched e ++ u.procs.runList

/-- A change the tree does not notice. -/
theorem Effect.same {s : Procs} (h : SameTree t.procs s) :
    Effect t ⟨s, t.log⟩ e :=
  .quiet rfl h.procList h.kstack fun q hz => (h.zombie q).2 hz

section Events

variable (h : t.procs.Inv) (hi : t.procs.Init)
include h hi

omit h in
theorem goes_of_same {s : Procs} (hs : s.Inv) (hsame : SameTree t.procs s)
    (horder : t.procs.runList <+: dispatched ⟨s, t.log⟩ e ++ s.runList) :
    t.Goes e ⟨s, t.log⟩ :=
  ⟨hs, hi.same hsame, .same hsame, horder⟩

theorem goes_fork {p kstack : Nat} {mm fs : Option Nat}
    (hpos : t.procs.Possible (.fork p kstack mm fs)) :
    ∃ u, t.apply (.fork p kstack mm fs) = some u ∧
      t.Goes (.fork p kstack mm fs) u := by
  obtain ⟨hfree, hp⟩ := hpos
  rcases h.doFork hfree.1 hp kstack mm fs with
    hfull | ⟨pid, safe, s, hs, hfresh, hwake, hinv, hprefix⟩
  · refine ⟨⟨t.procs, t.log ++ []⟩, ?_, ?_⟩
    · rw [apply, hfull]
      rfl
    · rw [List.append_nil]
      exact goes_of_same hi h (.refl _) List.prefix_rfl
  have hsame := (Wakes.wakeupProc hwake).toSameTree
  have hpos : 0 < pid := hfresh.pos
  refine ⟨⟨s, t.log ++ [.alloc p kstack]⟩, ?_, ⟨hinv, ?_, ?_, hprefix⟩⟩
  · rw [apply, hs, Option.map_some, if_pos hpos]
  · exact (hi.born (c := t.procs.current) rfl hp).same hsame
  · refine .birth p kstack hp rfl (fun q => ?_) ?_
      fun q hq => ⟨?_, fun hz => ?_⟩
    · rw [hsame.procList, mem_born (c := t.procs.current) rfl]
    · rw [hsame.kstack, (born_own (c := t.procs.current) rfl p).kstack,
        if_pos rfl]
      rfl
    · rw [hsame.kstack, (born_own (c := t.procs.current) rfl q).kstack,
        if_neg hq]
    · rw [hsame.zombie, (born_own (c := t.procs.current) rfl q).state,
        if_neg hq]
      exact hz

theorem goes_exit {errorCode : Int} (hfree : t.procs.Free)
    (hidle : t.procs.current ≠ t.procs.idleproc)
    (hinit : t.procs.current ≠ t.procs.initproc) :
    ∃ u, t.apply (.exit errorCode) = some u ∧ t.Goes (.exit errorCode) u := by
  obtain ⟨v, hexit, heq⟩ := h.doExit hi hfree hidle hinit errorCode
  obtain ⟨s, hs, hinv, hfirst⟩ := hexit.inv.schedule
  have hsame := (Wakes.schedule hs).toSameTree
  have hdead : ∀ q, (t.procs.proc q).state = .zombie →
      ((t.procs.died errorCode).proc q).state = .zombie := by
    intro q hz
    rw [Procs.died, setProc_field Proc.state, hz, ite_self]
  have hstack : ∀ q, ((t.procs.died errorCode).proc q).kstack =
      (t.procs.proc q).kstack := by
    intro q
    rw [Procs.died, setProc_field Proc.kstack, ite_self]
  refine ⟨⟨s, t.log⟩, ?_, ⟨hinv, hexit.init.same hsame, ?_, ?_⟩⟩
  · rw [apply, heq, hs]
    rfl
  · refine .quiet rfl ?_ (fun q => ?_) fun q hz => ?_
    · exact hsame.procList.trans hexit.onward.procList
    · exact (hsame.kstack q).trans
        (((hexit.onward.evolves q).kstack).trans (hstack q))
    · rw [hsame.zombie]
      exact (hexit.onward.evolves q).zombie.2 (hdead q hz)
  · exact hexit.onward.runList.trans (prefix_of_requeued hfirst)

theorem goes_wait {pid : Int} (hfree : t.procs.Free)
    (hne : t.procs.current ≠ t.procs.idleproc) :
    ∃ u, t.apply (.wait pid) = some u ∧ t.Goes (.wait pid) u := by
  obtain ⟨s, r, hs, hwaits, hinv, hlist⟩ := h.doWait hi hfree hne pid
  refine ⟨⟨s, t.log ++ r.freed t.procs⟩, ?_, ?_⟩
  · rw [apply, hs]
    rfl
  have horder : t.procs.runList <+: s.runList := by rw [hlist]
  cases r with
  | failed =>
    obtain ⟨-, rfl⟩ := hwaits
    rw [WaitResult.freed, List.append_nil]
    exact goes_of_same hi h (.refl _) List.prefix_rfl
  | blocked =>
    obtain ⟨-, -, rfl⟩ := hwaits
    rw [WaitResult.freed, List.append_nil]
    exact goes_of_same hi hinv (.slept hfree.1.live .child) horder
  | reaped p exitCode =>
    obtain ⟨hawaited, hz, -, rfl⟩ := hwaits
    refine ⟨hinv, hi.reap h.family.table hz, ?_, horder⟩
    exact .death pid p rfl hawaited.1 hz hawaited.2.1 rfl
      (fun q => h.family.table.mem_reap)
      (fun hp => ((h.family.table.isProc_reap hawaited.1).1 hp).1 rfl)
      (SameSched.reap t.procs p).own

/-- Whatever can come goes through, but for an exit of `initproc` or
`idleproc`. -/
theorem goes (hpos : t.procs.Possible e) :
    (∃ u, t.apply e = some u ∧ t.Goes e u) ∨
      (∃ errorCode, e = .exit errorCode) ∧ t.apply e = none ∧
        (t.procs.current = t.procs.idleproc ∨
          t.procs.current = t.procs.initproc) := by
  cases e with
  | fork p kstack mm fs => exact .inl (goes_fork h hi hpos)
  | exit errorCode =>
    by_cases hpanic : t.procs.current = t.procs.idleproc ∨
        t.procs.current = t.procs.initproc
    · refine .inr ⟨⟨errorCode, rfl⟩, ?_, hpanic⟩
      rw [apply, Procs.doExit, if_pos hpanic]
      rfl
    · exact .inl (goes_exit h hi hpos (fun heq => hpanic (.inl heq))
        fun heq => hpanic (.inr heq))
  | wait pid => exact .inl (goes_wait h hi hpos.1 hpos.2)
  | kill pid =>
    obtain ⟨s, r, hs, hinv, horder⟩ := h.doKill pid
    refine .inl ⟨⟨s, t.log⟩, ?_, goes_of_same hi hinv (.doKill hs) horder⟩
    rw [apply, hs]
    rfl
  | sleep time =>
    obtain ⟨s, r, hs, hinv, hlist⟩ := h.doSleep hpos.1 hpos.2 time
    refine .inl ⟨⟨s, t.log⟩, ?_,
      goes_of_same hi hinv (.doSleep hpos.1.1.live hs) ?_⟩
    · rw [apply, hs]
      rfl
    · rw [← hlist]
      exact List.prefix_rfl
  | delTimer =>
    exact .inl ⟨_, rfl, goes_of_same hi (h.delTimer _) (.lists ..)
      List.prefix_rfl⟩
  | yield =>
    exact .inl ⟨_, rfl, goes_of_same hi h.doYield (.doYield _) List.prefix_rfl⟩
  | suspend w =>
    exact .inl ⟨_, rfl, goes_of_same hi
      (h.slept hpos.1.1 hpos.2 hpos.1.notMem w) (.slept hpos.1.1.live w)
      List.prefix_rfl⟩
  | wakeup p =>
    obtain ⟨s, hs, hinv, horder⟩ := h.wakeupProc hpos.1 hpos.2
    refine .inl ⟨⟨s, t.log⟩, ?_,
      goes_of_same hi hinv (Wakes.wakeupProc hs).toSameTree horder⟩
    rw [apply, hs]
    rfl
  | tick =>
    obtain ⟨s, hs, hinv, -, horder⟩ := h.runTimerList
    refine .inl ⟨⟨s, t.log⟩, ?_,
      goes_of_same hi hinv (Wakes.runTimerList hs).toSameTree horder⟩
    rw [apply, hs]
    rfl
  | schedule =>
    obtain ⟨s, hs, hinv, hfirst⟩ := h.schedule
    refine .inl ⟨⟨s, t.log⟩, ?_,
      goes_of_same hi hinv (Wakes.schedule hs).toSameTree
        (prefix_of_requeued hfirst)⟩
    rw [apply, hs]
    rfl

/-- An event that has happened has gone through. -/
theorem goes_of_apply (hpos : t.procs.Possible e) (hu : t.apply e = some u) :
    t.Goes e u := by
  rcases goes h hi hpos with ⟨v, hv, hgoes⟩ | ⟨-, hnone, -⟩
  · cases hu.symm.trans hv
    exact hgoes
  · cases hu.symm.trans hnone

end Events

end Table

-- ===== boot

namespace Procs

/-- `idleproc` as `proc_init` makes it. -/
def idleProc (fs : Nat) : Proc :=
  { Proc.alloc with
    pid := 0, state := .runnable, needResched := true, fs := some fs }

/-- `proc_init` before it makes `initproc`. -/
def idleOnly (mem : Nat → Proc) (idle fs : Nat) : Procs :=
  { (start mem idle).setProc idle fun _ => idleProc fs with nrProcess := 1 }

theorem idleOnly_inv (mem : Nat → Proc) (idle fs : Nat) :
    (idleOnly mem idle fs).Inv := by
  have hproc : (idleOnly mem idle fs).proc idle = idleProc fs :=
    setProc_self (start mem idle) idle fun _ => idleProc fs
  have hisproc : ∀ q, (idleOnly mem idle fs).IsProc q → q = idle := by
    rintro q (hq | hq)
    · exact hq
    · exact absurd hq List.not_mem_nil
  have hnone : ∀ {P : Prop} {q : Nat}, q ∈ [] ↔ q ∈ [] ∧ P := by simp
  refine ⟨⟨⟨fun _ => [], fun q hq => ⟨none, fun _ => rfl, ?_⟩,
    fun q _ => List.nodup_nil, fun q _ r => ?_, fun q hq => ?_,
    fun q hq _ _ => rfl, ?_⟩, ?_⟩, ?_, ?_, fun q hq _ => ?_⟩
  · obtain rfl := hisproc q hq
    change ((idleOnly mem q fs).proc q).cptr = none
    rw [hproc]
    rfl
  · exact hnone
  · exact absurd hq List.not_mem_nil
  · change ((idleOnly mem idle fs).proc idle).parent = none
    rw [hproc]
    rfl
  · refine ⟨List.not_mem_nil, List.nodup_nil, fun b q => ?_,
      fun _ => List.nodup_nil, ?_, fun q hq => ?_, fun q hq => ?_, rfl,
      (by decide : (1 : Int) ≤ maxPid), Int.le_refl maxPid, fun x hx => ?_⟩
    · exact hnone
    · change ((idleOnly mem idle fs).proc idle).pid = 0
      rw [hproc]
      rfl
    · exact absurd hq List.not_mem_nil
    · exact absurd hq List.not_mem_nil
    · exact absurd hx List.not_mem_nil
  · refine ⟨⟨fun q => ?_, List.nodup_nil, rfl, fun q hq => ?_⟩, .inl rfl, ?_⟩
    · exact hnone
    · exact absurd hq List.not_mem_nil
    · change ((idleOnly mem idle fs).proc idle).state = .runnable
      rw [hproc]
      rfl
  · refine ⟨⟨List.nodup_nil, fun q hq => ?_⟩, fun x hx => ?_⟩
    · exact absurd hq List.not_mem_nil
    · cases hx
  · obtain rfl := hisproc q hq
    rw [hproc]
    rfl

/-- Nothing in the invariant depends on who is `initproc`. -/
theorem Inv.withInit {s : Procs} (h : s.Inv) (i : Nat) :
    { s with initproc := i }.Inv := by
  obtain ⟨⟨⟨kids, htree⟩, htable⟩, hqueue, htimers, hcalm⟩ := h
  refine ⟨⟨⟨kids, htree.chain, htree.nodup, htree.mem, htree.parent,
    htree.childless, htree.root⟩, htable.same ⟨rfl, rfl, rfl, rfl, rfl, rfl,
      fun _ => rfl⟩⟩, ?_, ?_, ?_⟩
  · exact hqueue.congr rfl rfl rfl rfl rfl (fun _ => rfl) fun _ => rfl
  · exact htimers.congr rfl rfl fun _ => .refl _
  · exact hcalm.congr rfl rfl fun _ => .refl _

/-- What `proc_init` leaves: `initproc` is the only process but for
`idleproc`, and can run. -/
structure Initial (s : Procs) (idle p kstack : Nat) : Prop where
  inv : s.Inv
  init : s.Init
  idleproc : s.idleproc = idle
  initproc : s.initproc = p
  procList : s.procList = [p]
  timerList : s.timerList = []
  kstack : (s.proc p).kstack = kstack
  pid : (s.proc p).pid = 1
  state : (s.proc p).state = .runnable
  exiting : (s.proc p).exiting = false

theorem procInit_initial {mem : Nat → Proc} {idle p kstack fs fs' : Nat}
    {s : Procs} (hp : p ≠ idle)
    (h : procInit mem idle p kstack fs fs' = some s) :
    s.Initial idle p kstack := by
  have hinv := idleOnly_inv mem idle fs
  have hrun : (idleOnly mem idle fs).Running := hinv.queue.idle
  have hunused : ¬(idleOnly mem idle fs).IsProc p := by
    rintro (heq | hin)
    · exact hp heq
    · exact absurd hin List.not_mem_nil
  obtain ⟨⟨t, pid⟩, ht, h⟩ := Option.bind_eq_some_iff.1 h
  rcases hinv.doFork hrun hunused kstack none (some fs') with
    hfull | ⟨pid', safe, t', ht', -, hwake, hinv', -⟩
  · cases ht.symm.trans hfull
    have hle : -eNoFreeProc ≤ 0 := by decide
    exact absurd ((if_pos hle).symm.trans h).symm (Option.some_ne_none s)
  cases ht.symm.trans ht'
  have hsame := (Wakes.wakeupProc hwake).toSameTree
  have hev := (Wakes.wakeupProc hwake).evolves
  have hlist : t.procList = [p] := by
    rw [hsame.procList, born_eq (c := idle) rfl]
    rfl
  have htidle : t.idleproc = idle := by
    rw [hsame.idleproc, born_eq (c := idle) rfl]
    rfl
  split at h
  · cases h
  obtain ⟨q, hq, h⟩ := Option.bind_eq_some_iff.1 h
  split at h
  case isFalse => cases h
  case isTrue hpids =>
  cases h
  have hqp : q = p := by
    have hin := (hinv'.family.table.findProc_eq_some_iff.1 hq).1
    rw [hlist] at hin
    exact List.mem_singleton.1 hin
  subst hqp
  refine ⟨hinv'.withInit q, ⟨?_, ?_, ?_⟩, htidle, rfl, hlist, ?_, ?_,
    hpids.2, ?_, ?_⟩
  · rw [hlist]
    exact List.mem_singleton_self q
  · rw [hsame.parent, born_parent (c := idle) rfl, if_pos rfl, htidle]
  · rw [wakeupProc_runnable hwake]
    decide
  · rw [(wakeupProc_lists hwake).1, born_eq (c := idle) rfl]
    rfl
  · rw [hsame.kstack, (born_own (c := idle) rfl q).kstack, if_pos rfl]
    rfl
  · exact wakeupProc_runnable (t := t) hwake
  · rw [(hev q).exiting, (born_own (c := idle) rfl q).exiting, if_pos rfl]
    rfl

end Procs

-- ===== whole runs

namespace Table

variable {t u : Table} {p q : Nat}

theorem Reached.inv (h : t.Reached) : t.procs.Inv ∧ t.procs.Init := by
  induction h with
  | boot hp hinit =>
    have hs := procInit_initial hp hinit
    exact ⟨hs.inv, hs.init⟩
  | step _ hpos hu ih =>
    have hgoes := goes_of_apply ih.1 ih.2 hpos hu
    exact ⟨hgoes.inv, hgoes.init⟩

/-- What is held at `p` after one more action, if the action is in order. -/
def Action.replay (p : Nat) (held : Option Nat) :
    Action → Option (Option Nat)
  | .alloc q kstack =>
    if q = p then if held = none then some (some kstack) else none
    else some held
  | .free q kstack =>
    if q = p then if held = some kstack then some none else none
    else some held

/-- The stack that goes with the `proc_struct` at `p`, if there is one; the
outer `none` is for memory that is taken while in use, or given back when
it is not, or with another stack. -/
def held (p : Nat) (log : List Action) : Option (Option Nat) :=
  log.foldlM (Action.replay p) none

theorem held_append (p : Nat) (log : List Action) (a : Action) :
    held p (log ++ [a]) = (held p log).bind fun h => Action.replay p h a := by
  simp only [held, List.foldlM_append, List.foldlM_cons, List.foldlM_nil,
    bind_pure]
  rfl

/-- The stack of a process on the list. -/
def stackOf (t : Table) (p : Nat) : Option Nat :=
  if p ∈ t.procs.procList then some (t.procs.proc p).kstack else none

theorem Effect.held {e : ProcEvent} (h : Effect t u e)
    (hp : Table.held p t.log = some (t.stackOf p)) :
    Table.held p u.log = some (u.stackOf p) := by
  cases h with
  | quiet log procList kstack zombie =>
    rw [log, hp, stackOf, stackOf, procList, kstack]
  | birth q kstack unused log procList new old =>
    rw [log, held_append, hp, Option.bind_some, Action.replay, stackOf]
    by_cases hqp : q = p
    · subst hqp
      have hout : q ∉ t.procs.procList := fun hin => unused (.inr hin)
      rw [if_pos rfl, if_pos (if_neg hout), stackOf,
        if_pos ((procList q).2 (.inl rfl)), new]
    · rw [if_neg hqp, stackOf, (old p (Ne.symm hqp)).1]
      simp only [procList, Ne.symm hqp, false_or]
  | death pid q event listed zombie parent log procList gone same =>
    rw [log, held_append, hp, Option.bind_some, Action.replay, stackOf]
    by_cases hqp : q = p
    · subst hqp
      have hout : q ∉ u.procs.procList := fun hin => ((procList q).1 hin).1 rfl
      rw [if_pos rfl, if_pos (if_pos listed), stackOf, if_neg hout]
    · rw [if_neg hqp, stackOf, (same p).kstack]
      simp only [procList, Ne.symm hqp, ne_eq, not_false_eq_true, true_and]

theorem Reached.held (h : t.Reached) (p : Nat) :
    Table.held p t.log = some (t.stackOf p) := by
  induction h with
  | @boot mem idle q kstack fs fs' s hq hinit =>
    have hs := procInit_initial hq hinit
    change Table.held p ([] ++ [.alloc q kstack]) = some (stackOf ⟨s, _⟩ p)
    rw [held_append, stackOf, hs.procList]
    change Action.replay p none (.alloc q kstack) = _
    rw [Action.replay]
    by_cases hqp : q = p
    · subst hqp
      rw [if_pos rfl, if_pos rfl, if_pos (List.mem_singleton_self q), hs.kstack]
    · rw [if_neg hqp, if_neg fun hin => hqp (List.mem_singleton.1 hin).symm]
  | step hreached hpos hu ih =>
    obtain ⟨hinv, hi⟩ := hreached.inv
    exact (goes_of_apply hinv hi hpos hu).effect.held ih

/-- A zombie stays until its parent reaps it. -/
theorem Effect.zombie_stays {e : ProcEvent} (h : Effect t u e)
    (hp : p ∈ t.procs.procList) (hz : (t.procs.proc p).state = .zombie) :
    (p ∈ u.procs.procList ∧ (u.procs.proc p).state = .zombie) ∨
      (∃ pid, e = .wait pid) ∧ (t.procs.proc p).parent = some t.procs.current ∧
        ¬u.procs.IsProc p ∧
        u.log = t.log ++ [.free p (t.procs.proc p).kstack] := by
  cases h with
  | quiet log procList kstack zombie =>
    exact .inl ⟨procList ▸ hp, zombie p hz⟩
  | birth q kstack unused log procList new old =>
    have hne : p ≠ q := fun heq => unused (.inr (heq ▸ hp))
    exact .inl ⟨(procList p).2 (.inr hp), (old p hne).2 hz⟩
  | death pid q event listed zombie parent log procList gone same =>
    by_cases hqp : p = q
    · subst hqp
      exact .inr ⟨⟨pid, event⟩, parent, gone, log⟩
    · exact .inl ⟨(procList p).2 ⟨hqp, hp⟩, (same p).state.trans hz⟩

theorem Reached.run {es : List ProcEvent} (h : t.Reached)
    (hu : t.run es = some u) : u.Reached := by
  induction es generalizing t with
  | nil => exact Option.some.inj hu ▸ h
  | cons e es ih =>
    rw [Table.run] at hu
    split at hu
    case isTrue hpos =>
      obtain ⟨v, hv, hu⟩ := Option.bind_eq_some_iff.1 hu
      exact ih (h.step hpos hv) hu
    case isFalse => cases hu

end Table

-- ===== tree and pids

/-- The family tree and the table as their users see them. -/
structure Procs.Consistent (s : Procs) : Prop where
  children : ∀ p, s.IsProc p → ∃ kids : List Nat,
    Threads.Linked (fun q => (s.proc q).optr) (fun q => (s.proc q).yptr) none
      (s.proc p).cptr kids ∧ kids.Nodup ∧
    (∀ q, q ∈ kids ↔ s.IsProc q ∧ (s.proc q).parent = some p) ∧
    ∀ q ∈ kids, ∀ r ∈ kids,
      (s.proc q).yptr = some r ↔ (s.proc r).optr = some q
  listed : ∀ p, s.IsProc p → p ≠ s.idleproc → s.procList.count p = 1
  hashed : ∀ p, s.IsProc p → p ≠ s.idleproc → ∀ b,
    (s.hashList b).count p = if b = pidHashfn (s.proc p).pid then 1 else 0
  distinct : ∀ p q, s.IsProc p → s.IsProc q →
    (s.proc p).pid = (s.proc q).pid → p = q
  count : ∃ all : List Nat, all.Nodup ∧ (∀ p, p ∈ all ↔ s.IsProc p) ∧
    s.nrProcess = all.length
  find : ∀ pid p, s.findProc pid = some p ↔
    s.IsProc p ∧ p ≠ s.idleproc ∧ (s.proc p).pid = pid

theorem Procs.Inv.isProc_iff {s : Procs} (h : s.Inv) (p : Nat) :
    s.IsProc p ∧ p ≠ s.idleproc ↔ p ∈ s.procList :=
  ⟨fun hp => hp.1.resolve_left hp.2, fun hp => ⟨.inr hp, h.notIdle hp⟩⟩

theorem Procs.Inv.toConsistent {s : Procs} (h : s.Inv) : s.Consistent := by
  obtain ⟨kids, htree⟩ := h.family.tree
  have htable := h.family.table
  refine ⟨fun p hp => ⟨kids p, ?_, htree.nodup p hp, fun q => ?_,
    fun q hq r hr => ?_⟩, fun p hp hne => ?_, fun p hp hne b => ?_,
    fun p q hp hq heq => ?_, ⟨s.idleproc :: s.procList, ?_, fun p => ?_, ?_⟩,
    fun pid p => ?_⟩
  · obtain ⟨before, hbefore, hchain⟩ := htree.chain p hp
    obtain rfl := hbefore (Option.some_ne_none p).symm
    exact hchain
  · rw [htree.mem p hp]
    refine and_congr_left fun hparent => ⟨.inr, fun hq => ?_⟩
    refine hq.resolve_left fun heq => ?_
    rw [heq, htree.root] at hparent
    exact Option.some_ne_none p hparent.symm
  · obtain ⟨before, hbefore, hchain⟩ := htree.chain p hp
    obtain rfl := hbefore (Option.some_ne_none p).symm
    exact hchain.prev_eq_iff (htree.nodup p hp) hq hr
      fun z _ => (Option.some_ne_none z).symm
  · exact List.count_eq_one_of_mem htable.nodup ((h.isProc_iff p).1 ⟨hp, hne⟩)
  · have hlisted := (h.isProc_iff p).1 ⟨hp, hne⟩
    by_cases hb : b = pidHashfn (s.proc p).pid
    · rw [if_pos hb]
      exact List.count_eq_one_of_mem (htable.bucketNodup b)
        ((htable.bucket b p).2 ⟨hlisted, hb.symm⟩)
    · rw [if_neg hb]
      exact List.count_eq_zero.2 fun hin =>
        hb ((htable.bucket b p).1 hin).2.symm
  · -- the pid of `idleproc` is 0, and nobody else's is
    have hzero := htable.idlePid
    rcases hp with rfl | hp
    · rcases hq with rfl | hq
      · rfl
      · have hpos := (htable.pid q hq).1
        omega
    · rcases hq with rfl | hq
      · have hpos := (htable.pid p hp).1
        omega
      · exact htable.inj p hp q hq heq
  · exact List.nodup_cons.2 ⟨htable.idle, htable.nodup⟩
  · exact List.mem_cons
  · exact htable.count
  · rw [htable.findProc_eq_some_iff, ← and_assoc, h.isProc_iff]

namespace Table

variable {t u : Table} {p q : Nat}

/-- Tree and table are consistent; the memory of a process is given back
once for each time it was taken; a process that has exited stays a zombie
until its parent of the moment reaps it, and then its memory is given
back. -/
theorem Reached.consistent (h : t.Reached) : t.procs.Consistent ∧
    (∀ p, Table.held p t.log = some (t.stackOf p)) ∧
    ∀ e u, t.procs.Possible e → t.apply e = some u →
      ∀ p, t.procs.IsProc p → (t.procs.proc p).state = .zombie →
        (u.procs.IsProc p ∧ (u.procs.proc p).state = .zombie) ∨
          (∃ pid, e = .wait pid) ∧
            (t.procs.proc p).parent = some t.procs.current ∧
            ¬u.procs.IsProc p ∧
            u.log = t.log ++ [.free p (t.procs.proc p).kstack] := by
  obtain ⟨hinv, hi⟩ := h.inv
  refine ⟨hinv.toConsistent, h.held, fun e u hpos hu p hp hz => ?_⟩
  have hgoes := goes_of_apply hinv hi hpos hu
  have hne : p ≠ t.procs.idleproc := by
    rintro rfl
    exact absurd (hz.symm.trans hinv.queue.idle) (by decide)
  have hlisted := (hinv.isProc_iff p).1 ⟨hp, hne⟩
  rcases hgoes.effect.zombie_stays hlisted hz with ⟨hstays, hz'⟩ | hreaped
  · exact .inl ⟨.inr hstays, hz'⟩
  · exact .inr hreaped

/-- `proc_init` on fresh memory: `idleproc` at 1, `initproc` at 2. -/
def booted : Option Table :=
  (procInit (fun _ => Proc.alloc) 1 2 7 5 6).map fun s => ⟨s, [.alloc 2 7]⟩

theorem reached_of_booted (h : booted = some t) : t.Reached := by
  obtain ⟨s, hs, rfl⟩ := Option.map_eq_some_iff.1 h
  exact .boot (by decide) hs

theorem reached_of_run {es : List ProcEvent}
    (h : (booted.bind fun t => t.run es) = some u) : u.Reached := by
  obtain ⟨t, ht, hu⟩ := Option.bind_eq_some_iff.1 h
  exact (reached_of_booted ht).run hu

/-- `initproc` forks; the child runs, exits, and is reaped. -/
def forkExitWait : List ProcEvent :=
  [.schedule, .fork 3 8 none none, .wait 0, .schedule, .exit 5, .wait 0]

/-- In a run in which a child is born, exits and is reaped. -/
theorem consistent_forkExitWait : ∃ t u, booted = some t ∧
    t.run forkExitWait = some u ∧ u.procs.Consistent ∧
    Table.held 3 u.log = some none ∧ Table.held 2 u.log = some (some 7) := by
  have hlog : (booted.bind fun t => t.run forkExitWait).map (·.log) =
      some [.alloc 2 7, .alloc 3 8, .free 3 8] := by decide +kernel
  obtain ⟨u, hu, hlog⟩ := Option.map_eq_some_iff.1 hlog
  obtain ⟨hcons, -, -⟩ := (reached_of_run hu).consistent
  obtain ⟨t, ht, hu⟩ := Option.bind_eq_some_iff.1 hu
  refine ⟨t, u, ht, hu, hcons, ?_, ?_⟩
  · rw [hlog]
    rfl
  · rw [hlog]
    rfl

/-- `find_proc` does not find `idleproc`, whose pid is 0. -/
theorem findProc_idle : ∃ t, booted = some t ∧ t.Reached ∧
    t.procs.IsProc 1 ∧ (t.procs.proc 1).pid = 0 ∧
    t.procs.findProc 0 = none := by
  have hidle : booted.map (fun t =>
      (t.procs.idleproc, (t.procs.proc 1).pid)) = some (1, 0) := by
    decide +kernel
  obtain ⟨t, ht, hidle⟩ := Option.map_eq_some_iff.1 hidle
  obtain ⟨hone, hpid⟩ := Prod.ext_iff.1 hidle
  exact ⟨t, ht, reached_of_booted ht, .inl hone.symm, hpid, rfl⟩

-- ===== pids

/-- A pid that no process on the list has is nobody's. -/
theorem fresh_ne (h : t.procs.Inv) {pid safe : Int}
    (hfresh : Fresh t.procs.pids pid safe) (hp : t.procs.IsProc p) :
    (t.procs.proc p).pid ≠ pid := by
  rcases hp with rfl | hp
  · have hzero := h.family.table.idlePid
    have hpos := hfresh.pos
    omega
  · exact fun heq => hfresh.notMem (heq ▸ List.mem_map_of_mem hp)

/-- `get_pid`: between calls no process has a pid strictly between
`last_pid` and `next_safe`; a call returns a pid that is nobody's, and so
does the one in `do_fork`. -/
theorem Reached.pid_fresh (h : t.Reached)
    (hmax : t.procs.nrProcess ≤ maxProcess) :
    (∀ p, t.procs.IsProc p → ¬(t.procs.lastPid < (t.procs.proc p).pid ∧
      (t.procs.proc p).pid < t.procs.nextSafe)) ∧
    (∃ pid safe, t.procs.getPid =
        some ({ t.procs with lastPid := pid, nextSafe := safe }, pid) ∧
      1 ≤ pid ∧ pid < maxPid ∧
      ∀ p, t.procs.IsProc p → (t.procs.proc p).pid ≠ pid) ∧
    ∀ p kstack mm fs u, t.procs.Possible (.fork p kstack mm fs) →
      t.apply (.fork p kstack mm fs) = some u → u.procs.IsProc p →
      1 ≤ (u.procs.proc p).pid ∧ (u.procs.proc p).pid < maxPid ∧
        ∀ q, t.procs.IsProc q →
          (t.procs.proc q).pid ≠ (u.procs.proc p).pid := by
  obtain ⟨hinv, -⟩ := h.inv
  have htable := hinv.family.table
  refine ⟨fun p hp hbetween => ?_, ?_, fun p kstack mm fs u hpos hu hp => ?_⟩
  · rcases hp with rfl | hp
    · have hzero := htable.idlePid
      have hlast := htable.lastPid
      omega
    · have hgap := htable.gap _ (List.mem_map_of_mem hp) hbetween.1
      omega
  · have hcount := htable.count
    obtain ⟨pid, safe, hrun, hfresh⟩ := getPid_spec
      (by unfold maxProcess at hmax; omega) htable.lastPid htable.gap
      htable.nextSafe
    exact ⟨pid, safe, hrun, hfresh.pos, hfresh.lt,
      fun p hp => fresh_ne hinv hfresh hp⟩
  · obtain ⟨r, hr, rfl⟩ := Option.map_eq_some_iff.1 hu
    obtain ⟨hfree, hunused⟩ := hpos
    rcases hinv.doFork hfree.1 hunused kstack mm fs with
      hfull | ⟨pid, safe, s, hs, hfresh, hwake, -⟩
    · cases hr.symm.trans hfull
      exact absurd hp hunused
    · cases hr.symm.trans hs
      have hpid : (s.proc p).pid = pid := by
        rw [((Wakes.wakeupProc hwake).evolves p).pid,
          (born_own (c := t.procs.current) rfl p).pid, if_pos rfl]
        rfl
      rw [hpid]
      exact ⟨hfresh.pos, hfresh.lt, fun q hq => fresh_ne hinv hfresh hq⟩

/-- When the child has been reaped. -/
theorem pid_fresh_forkExitWait : ∃ u pid safe,
    (booted.bind fun t => t.run forkExitWait) = some u ∧
    u.procs.nrProcess ≤ maxProcess ∧ u.procs.getPid =
      some ({ u.procs with lastPid := pid, nextSafe := safe }, pid) ∧
    ∀ p, u.procs.IsProc p → (u.procs.proc p).pid ≠ pid := by
  have hcount : (booted.bind fun t => t.run forkExitWait).map
      (·.procs.nrProcess) = some 2 := by decide +kernel
  obtain ⟨u, hu, htwo⟩ := Option.map_eq_some_iff.1 hcount
  have hmax : u.procs.nrProcess ≤ maxProcess := by
    rw [htwo]
    decide
  obtain ⟨-, ⟨pid, safe, hrun, -, -, hnew⟩, -⟩ :=
    (reached_of_run hu).pid_fresh hmax
  exact ⟨u, pid, safe, hu, hmax, hrun, hnew⟩

/-- `get_pid` returns the first free pid behind `last_pid`, going round. -/
theorem Reached.pid_first (h : t.Reached)
    (hmax : t.procs.nrProcess ≤ maxProcess) :
    ∃ s pid, t.procs.getPid = some (s, pid) ∧ pid ∉ t.procs.pids ∧
      Passed t.procs.pids (if maxPid ≤ t.procs.lastPid + 1 then 1
        else t.procs.lastPid + 1) pid := by
  have htable := h.inv.1.family.table
  have hcount := htable.count
  have hlast := htable.lastPid
  obtain ⟨pid, _, hrun, hfresh⟩ := getPid_spec
    (by unfold maxProcess at hmax; omega) hlast htable.gap htable.nextSafe
  refine ⟨_, pid, hrun, hfresh.notMem, ?_⟩
  obtain ⟨r, hr, heq⟩ := Option.map_eq_some_iff.1 hrun
  cases heq
  split_ifs at hr ⊢
  · exact pidRepeat_passed (by decide) (by decide) hr
  · exact pidRepeat_passed (by omega) (by omega) hr
  · cases hr
    refine ⟨0, ?_, nofun⟩
    rw [pidAfter_of_lt (by omega) (by omega)]
    simp

/-- The child had pid 2, which is not the next one again. -/
theorem pid_first_forkExitWait : ∃ u s pid,
    (booted.bind fun t => t.run forkExitWait) = some u ∧
    u.procs.getPid = some (s, pid) ∧ pid ∉ u.procs.pids ∧
    Passed u.procs.pids 3 pid := by
  have hpids : (booted.bind fun t => t.run forkExitWait).map
      (fun u => (u.procs.nrProcess, u.procs.lastPid)) = some (2, 2) := by
    decide +kernel
  obtain ⟨u, hu, hpids⟩ := Option.map_eq_some_iff.1 hpids
  obtain ⟨htwo, hlast⟩ := Prod.mk.inj hpids
  obtain ⟨s, pid, h, hnew, hfirst⟩ :=
    (reached_of_run hu).pid_first (htwo ▸ by decide)
  rw [hlast] at hfirst
  exact ⟨u, s, pid, hu, h, hnew, hfirst⟩

-- ===== the run queue

/-- From `t` to `u`; `ds` are those that were made to run on the way. -/
inductive Dispatches (t : Table) : List Nat → Table → Prop
  | none : Dispatches t [] t
  | step {ds : List Nat} {u v : Table} {e : ProcEvent} :
      Dispatches t ds u → u.procs.Possible e → u.apply e = some v →
      Dispatches t (ds ++ v.dispatched e) v

theorem Dispatches.reached {ds : List Nat} (h : Dispatches t ds u)
    (ht : t.Reached) : u.Reached := by
  induction h with
  | none => exact ht
  | step _ hpos hv ih => exact ih.step hpos hv

/-- Those on the queue run first, in their order. -/
theorem Dispatches.order {ds : List Nat} (h : Dispatches t ds u)
    (ht : t.Reached) : t.procs.runList <+: ds ++ u.procs.runList := by
  induction h with
  | none => exact List.prefix_rfl
  | step hrun hpos hv ih =>
    obtain ⟨hinv, hi⟩ := (hrun.reached ht).inv
    have horder := (goes_of_apply hinv hi hpos hv).order
    rw [List.append_assoc]
    exact ih.trans ((List.prefix_append_right_inj _).2 horder)

/-- Who is on the run queue, that nothing about it fails, and that it is
first in, first out: one with `k` others ahead is the one that runs when
the queue is asked for the next one for the `k + 1`st time from now. -/
theorem Reached.run_queue (h : t.Reached) :
    (∀ p, p ∈ t.procs.runList ↔ t.procs.IsProc p ∧
      (t.procs.proc p).state = .runnable ∧ p ≠ t.procs.current ∧
      p ≠ t.procs.idleproc) ∧
    t.procs.runList.Nodup ∧ t.procs.procNum = t.procs.runList.length ∧
    (∀ e, t.procs.Possible e → t.apply e = none →
      (∃ errorCode, e = .exit errorCode) ∧
        (t.procs.current = t.procs.idleproc ∨
          t.procs.current = t.procs.initproc)) ∧
    (∃ s, t.procs.schedule = some s ∧
      (s.current = t.procs.idleproc → t.procs.requeued = [])) ∧
    ∀ k p, t.procs.runList[k]? = some p →
      ∀ ds u, Dispatches t ds u → k < ds.length → ds[k]? = some p := by
  obtain ⟨hinv, hi⟩ := h.inv
  refine ⟨fun p => ?_, hinv.queue.list.nodup, hinv.queue.list.num,
    fun e hpos hnone => ?_, ?_, fun k p hk ds u hrun hlt => ?_⟩
  · rw [hinv.queue.list.mem, ← hinv.isProc_iff]
    exact ⟨fun ⟨⟨hp, hne⟩, hr, hc⟩ => ⟨hp, hr, hc, hne⟩,
      fun ⟨hp, hr, hc, hne⟩ => ⟨⟨hp, hne⟩, hr, hc⟩⟩
  · rcases goes hinv hi hpos with ⟨u, hu, -⟩ | ⟨hexit, -, hpanic⟩
    · cases hu.symm.trans hnone
    · exact ⟨hexit, hpanic⟩
  · obtain ⟨s, hs, hinv', hfirst⟩ := hinv.schedule
    refine ⟨s, hs, fun hidle => ?_⟩
    rcases hfirst with ⟨hnil, -, -⟩ | hcons
    · exact hnil
    · have hin : s.current ∈ t.procs.requeued := hcons ▸ List.mem_cons_self
      exact absurd hidle (hinv.mem_requeued hin).2
  · obtain ⟨rest, heq⟩ := hrun.order h
    have hlen : k < t.procs.runList.length :=
      (List.getElem?_eq_some_iff.1 hk).1
    rw [← List.getElem?_append_left hlen, heq,
      List.getElem?_append_left hlt] at hk
    exact hk

/-- Of two children the second is dispatched behind the first. -/
theorem run_queue_two_children : ∃ t,
    (booted.bind fun t => t.run
      [.schedule, .fork 3 8 none none, .fork 4 9 none none]) = some t ∧
    t.procs.runList[1]? = some 4 ∧
    ∀ ds u, Dispatches t ds u → 1 < ds.length → ds[1]? = some 4 := by
  have hlist : (booted.bind fun t => t.run
      [.schedule, .fork 3 8 none none, .fork 4 9 none none]).map
        (·.procs.runList[1]?) = some (some 4) := by
    decide +kernel
  obtain ⟨t, ht, hsecond⟩ := Option.map_eq_some_iff.1 hlist
  obtain ⟨-, -, -, -, -, hfifo⟩ := (reached_of_run ht).run_queue
  exact ⟨t, ht, hsecond, hfifo 1 4 hsecond⟩

end Table

end MipsUcore.Kern
