/-
The tasks of a running system.

# What is shown

`Tasks` says of each process where it can be: `idleproc` in its loop,
`initproc` in the loop of `init_main`, a process with a timer in
`do_sleep`, and one that waits for a child in `do_wait`, with none of the
children it waits for a zombie. Every event keeps it, and goes through
(`Tasks.step`). Two things stop the kernel, both at `do_exit` of
`initproc`: it has been killed, or its last child is gone.

# How

Every event moves `current` from one point to another; `Tasks.moved` says
what is left to show for such a move. Nobody else is affected but by news
about a dead child, so each call is asked for its news (`NoNews`).
-/
import MipsUcore.Kern.Proofs.ProcTable
import MipsUcore.Kern.Tasks

namespace MipsUcore.Kern

open Function

namespace Procs

variable {s t u : Procs} {c p q : Nat}

-- ===== news

/-- If `c` sleeps in `do_wait` in `t`, it did so in `s`, and its dead
children were dead then. -/
def NoNews (s t : Procs) (c : Nat) : Prop :=
  t.IsProc c → t.SleepsForChild c → s.IsProc c ∧ s.SleepsForChild c ∧
    ∀ pid q, t.AwaitedBy c pid q → (t.proc q).state = .zombie →
      s.AwaitedBy c pid q ∧ (s.proc q).state = .zombie

theorem NoNews.trans (h : NoNews s t c) (h' : NoNews t u c) :
    NoNews s u c := by
  intro hproc hsleeps
  obtain ⟨hproc', hsleeps', hold'⟩ := h' hproc hsleeps
  obtain ⟨hproc'', hsleeps'', hold⟩ := h hproc' hsleeps'
  refine ⟨hproc'', hsleeps'', fun pid q hq hz => ?_⟩
  obtain ⟨hq', hz'⟩ := hold' pid q hq hz
  exact hold pid q hq' hz'

theorem SameTree.awaitedBy (h : SameTree s t) {pid : Int} :
    t.AwaitedBy c pid q ↔ s.AwaitedBy c pid q := by
  rw [AwaitedBy, AwaitedBy, h.procList, h.parent, h.pid]

theorem NoNews.same (h : SameTree s t)
    (hsleeps : t.SleepsForChild c → s.SleepsForChild c) : NoNews s t c :=
  fun hproc hs => ⟨h.table.isProc.1 hproc, hsleeps hs,
    fun _ q hq hz => ⟨h.awaitedBy.1 hq, (h.zombie q).1 hz⟩⟩

theorem SleepsForChild.of_evolves (h : t.SleepsForChild c)
    (hev : (s.proc c).Evolves (t.proc c)) : s.SleepsForChild c := by
  obtain ⟨hstate, hwait⟩ := hev.sleeping h.1
  exact ⟨hstate, hwait.trans h.2⟩

theorem NoNews.evolves (h : SameTree s t)
    (hev : ∀ q, (s.proc q).Evolves (t.proc q)) : NoNews s t c :=
  .same h fun hs => hs.of_evolves (hev c)

theorem NoNews.reap (h : s.PidTable) (hp : p ∈ s.procList) :
    NoNews s (s.reap p) c := by
  intro hproc hsleeps
  have hown := (SameSched.reap s p).own
  refine ⟨((h.isProc_reap hp).1 hproc).2,
    hsleeps.of_evolves (hown c).evolves, ?_⟩
  rintro pid q ⟨hlisted, hparent, hpid⟩ hz
  rw [h.mem_reap] at hlisted
  rw [reap_parent] at hparent
  rw [(hown q).pid] at hpid
  rw [(hown q).state] at hz
  exact ⟨⟨hlisted.2, hparent, hpid⟩, hz⟩

/-- A process that is born is no news: it neither sleeps nor is dead. -/
theorem NoNews.born {x : Proc} {last safe : Int} {d : Nat}
    (hparent : x.parent = some d) (hne : d ≠ p)
    (hx : x.state ≠ .sleeping) (hx' : x.state ≠ .zombie) :
    NoNews s (s.born p x last safe) c := by
  have hown : ∀ q, (if q = p then x else s.proc q).SameOwn
      ((s.born p x last safe).proc q) := born_own hparent
  intro hproc hsleeps
  have hcp : c ≠ p := by
    rintro rfl
    have hstate := hsleeps.1
    rw [(hown c).state, if_pos rfl] at hstate
    exact hx hstate
  have hev : (s.proc c).Evolves ((s.born p x last safe).proc c) := by
    have hc := (hown c).evolves
    rw [if_neg hcp] at hc
    exact hc
  refine ⟨((isProc_born hparent).1 hproc).resolve_left hcp,
    hsleeps.of_evolves hev, ?_⟩
  rintro pid q ⟨hlisted, hqparent, hpid⟩ hz
  have hqp : q ≠ p := by
    rintro rfl
    rw [(hown q).state, if_pos rfl] at hz
    exact hx' hz
  rw [mem_born hparent] at hlisted
  rw [born_parent hparent, if_neg hqp] at hqparent
  rw [(hown q).pid, if_neg hqp] at hpid
  rw [(hown q).state, if_neg hqp] at hz
  exact ⟨⟨hlisted.resolve_left hqp, hqparent, hpid⟩, hz⟩

/-- The parent of the process that exits is told, and so is `initproc`
about the children it gets. -/
theorem NoNews.exited {errorCode : Int} (h : Exited s errorCode t) :
    NoNews s t c := by
  have hdied : ∀ q, q ≠ s.current → (s.died errorCode).proc q = s.proc q :=
    fun q hq => setProc_of_ne _ _ hq
  have hparent : ∀ q, ((s.died errorCode).proc q).parent =
      (s.proc q).parent := by
    intro q
    rw [died, setProc_field Proc.parent, ite_self]
  intro hproc hsleeps
  have hbefore : (s.died errorCode).SleepsForChild c :=
    hsleeps.of_evolves (h.onward.evolves c)
  have hc : c ≠ s.current := by
    rintro rfl
    have hstate := hbefore.1
    rw [died, setProc_self] at hstate
    exact absurd hstate (by change ProcState.zombie ≠ _; decide)
  have hisproc : s.IsProc c := by
    rw [IsProc, h.onward.idleproc, h.onward.procList] at hproc
    exact hproc
  refine ⟨hisproc, ?_, ?_⟩
  · rw [SleepsForChild, hdied c hc] at hbefore
    exact hbefore
  rintro pid q ⟨hlisted, hqparent, hpid⟩ hz
  have hold := h.onward.news c q hsleeps hqparent hz
  rw [hparent] at hold
  have hq : q ≠ s.current := by
    rintro rfl
    exact h.parent c hold hsleeps
  have hz' := (h.onward.evolves q).zombie.1 hz
  rw [hdied q hq] at hz'
  rw [h.onward.procList] at hlisted
  rw [(h.onward.evolves q).pid, hdied q hq] at hpid
  exact ⟨⟨hlisted, hold, hpid⟩, hz'⟩

/-- What a `do_fork` leaves as it was. -/
structure Forked (s : Procs) (p : Nat) (t : Procs) : Prop where
  evolves : ∀ q, q ≠ p → (s.proc q).Evolves (t.proc q)
  current : t.current = s.current
  idleproc : t.idleproc = s.idleproc
  initproc : t.initproc = s.initproc
  timerList : t.timerList = s.timerList
  running : t.Running
  init : s.Init → t.Init
  news : ∀ c, NoNews s t c

theorem Inv.forked (h : s.Inv) (hrun : s.Running) (hp : ¬s.IsProc p)
    {kstack : Nat} {mm fs : Option Nat} {pid safe : Int}
    (hwake : (s.born p (s.newProc kstack mm fs pid) pid safe).wakeupProc p =
      some t) : Forked s p t := by
  have hne : s.current ≠ p := fun heq => hp (heq ▸ h.queue.current)
  have hsame := (Wakes.wakeupProc hwake).toSameTree
  have hev := (Wakes.wakeupProc hwake).evolves
  have hsched : SameSched _ (s.born p (s.newProc kstack mm fs pid) pid safe) :=
    SameSched.born (c := s.current) rfl
  have hold : ∀ q, q ≠ p → (s.proc q).Evolves (t.proc q) := by
    intro q hq
    have hborn : (if q = p then s.newProc kstack mm fs pid
        else s.proc q).SameOwn
          ((s.born p (s.newProc kstack mm fs pid) pid safe).proc q) :=
      born_own (c := s.current) rfl q
    rw [if_neg hq] at hborn
    exact hborn.evolves.trans (hev q)
  have hcur : t.current = s.current :=
    (wakeupProc_lists hwake).2.trans hsched.current
  refine ⟨hold, hcur, hsame.idleproc.trans hsched.idleproc,
    hsame.initproc.trans hsched.initproc,
    (wakeupProc_lists hwake).1.trans hsched.timerList, ?_,
    fun hinit => (hinit.born (c := s.current) rfl hp).same hsame,
    fun c => ?_⟩
  · rw [Running, hcur]
    exact ((hold _ hne).runnable hrun).1
  · exact (NoNews.born (d := s.current) rfl hne
      (by change ProcState.uninit ≠ _; decide)
      (by change ProcState.uninit ≠ _; decide)).trans (.evolves hsame hev)

/-- Who `idleproc` and `initproc` are. -/
structure SameIds (s t : Procs) : Prop where
  idleproc : t.idleproc = s.idleproc
  initproc : t.initproc = s.initproc
  pid : (t.proc s.initproc).pid = (s.proc s.initproc).pid

theorem SameTree.ids (h : SameTree s t) : SameIds s t :=
  ⟨h.idleproc, h.initproc, h.pid _⟩

/-- Who has a timer is not the one that runs and has none. -/
theorem Free.other (h : s.Free) (hp : p ∈ s.timerProcs) :
    p ≠ s.current ∧ p ∈ s.timerProcs :=
  ⟨fun heq => h.notMem (heq ▸ hp), hp⟩

theorem Running.awake (h : t.Running) (hcur : t.current = c) :
    ¬t.SleepsForChild c := by
  rintro ⟨hstate, -⟩
  rw [Running, hcur, hstate] at h
  exact ProcState.noConfusion h

end Procs

-- ===== the points

/-- `init_main` is in its loop, at `do_wait(0, NULL)` or behind it. -/
def Point.InLoop (x : Point) : Prop :=
  ∃ r : Resume, (r = .waitRepeat 0 ∨ r = .waitBack 0) ∧
    (x = .kernel r ∨ x = .schedule r)

namespace World

variable {w v : World} {t : Procs} {x : Point} {p q c : Nat}

/-- `c` sleeps in `do_wait(pid, _)`: it is behind `schedule` there, or
about to call it. -/
def InWait (w : World) (c : Nat) (pid : Int) : Prop :=
  w.point c = .kernel (.waitBack pid) ∨
    w.point c = .schedule (.waitBack pid)

structure Tasks (w : World) : Prop where
  inv : w.procs.Inv
  init : w.procs.Init
  initPid : (w.procs.proc w.procs.initproc).pid = 1
  idlePoint : w.point w.procs.idleproc = .idle
  initPoint : (w.point w.procs.initproc).InLoop
  live : (w.procs.proc w.procs.current).state ≠ .zombie
  running : (∀ r, w.point w.procs.current ≠ .schedule r) → w.procs.Running
  off : ∀ p r, w.point p = .schedule r → p = w.procs.current
  timers : ∀ p ∈ w.procs.timerProcs,
    w.point p = .kernel .sleepBack ∨ w.point p = .schedule .sleepBack
  wait : ∀ c, w.procs.IsProc c → w.procs.SleepsForChild c →
    ∃ pid, w.InWait c pid ∧ ∀ q, w.procs.AwaitedBy c pid q →
      (w.procs.proc q).state ≠ .zombie

/-- `idleproc` and `initproc` may be at `x`, if they run. -/
structure Fits (w : World) (x : Point) : Prop where
  idle : w.procs.current = w.procs.idleproc → x = .idle
  loop : w.procs.current = w.procs.initproc → x.InLoop

@[simp] theorem moved_self (w : World) (t : Procs) (x : Point) :
    (w.moved t x).point w.procs.current = x := update_self ..

theorem moved_of_ne (w : World) (t : Procs) (x : Point)
    (h : p ≠ w.procs.current) : (w.moved t x).point p = w.point p :=
  update_of_ne h ..

theorem moved_stay (w : World) (t : Procs) :
    w.moved t (w.point w.procs.current) = ⟨t, w.point⟩ := by
  rw [World.moved, update_eq_self]

/-- What is to be shown when `current` moves to `x`. -/
theorem Tasks.moved (h : w.Tasks) (hinv : t.Inv) (hinit : t.Init)
    (hids : Procs.SameIds w.procs t) (hfits : w.Fits x)
    (hlive : (t.proc t.current).state ≠ .zombie)
    (hrun : (∃ r, x = .schedule r) ∧ t.current = w.procs.current ∨
      (∀ r, x ≠ .schedule r) ∧ t.Running)
    (htimers : ∀ p ∈ t.timerProcs,
      p ≠ w.procs.current ∧ p ∈ w.procs.timerProcs ∨ p = w.procs.current ∧
          (x = .kernel .sleepBack ∨ x = .schedule .sleepBack))
    (hnews : ∀ c, c ≠ w.procs.current → Procs.NoNews w.procs t c)
    (hwait : t.SleepsForChild w.procs.current →
      ∃ pid, (x = .kernel (.waitBack pid) ∨ x = .schedule (.waitBack pid)) ∧
        ∀ q, t.AwaitedBy w.procs.current pid q →
          (t.proc q).state ≠ .zombie) : (w.moved t x).Tasks := by
  refine ⟨hinv, hinit, ?_, ?_, ?_, hlive, fun hnot => ?_, fun p r hp => ?_,
    fun p hp => ?_, fun c hproc hsleeps => ?_⟩
  · change (t.proc t.initproc).pid = 1
    rw [hids.initproc, hids.pid]
    exact h.initPid
  · change (w.moved t x).point t.idleproc = .idle
    rw [hids.idleproc]
    by_cases hcur : w.procs.idleproc = w.procs.current
    · rw [hcur, moved_self]
      exact hfits.idle hcur.symm
    · rw [moved_of_ne _ _ _ hcur]
      exact h.idlePoint
  · change ((w.moved t x).point t.initproc).InLoop
    rw [hids.initproc]
    by_cases hcur : w.procs.initproc = w.procs.current
    · rw [hcur, moved_self]
      exact hfits.loop hcur.symm
    · rw [moved_of_ne _ _ _ hcur]
      exact h.initPoint
  · rcases hrun with ⟨⟨r, hr⟩, hcur⟩ | ⟨-, hrun⟩
    · refine absurd ?_ (hnot r)
      change (w.moved t x).point t.current = .schedule r
      rw [hcur, moved_self, hr]
    · exact hrun
  · change p = t.current
    by_cases hcur : p = w.procs.current
    · rw [hcur, moved_self] at hp
      rcases hrun with ⟨-, hsame⟩ | ⟨hnot, -⟩
      · rw [hcur, hsame]
      · exact absurd hp (hnot r)
    · rw [moved_of_ne _ _ _ hcur] at hp
      exact absurd (h.off p r hp) hcur
  · rcases htimers p hp with ⟨hne, hold⟩ | ⟨rfl, hx⟩
    · rw [moved_of_ne _ _ _ hne]
      exact h.timers p hold
    · rw [moved_self]
      exact hx
  · by_cases hcur : c = w.procs.current
    · subst hcur
      obtain ⟨pid, hx, hall⟩ := hwait hsleeps
      refine ⟨pid, ?_, hall⟩
      rw [InWait, moved_self]
      exact hx
    · obtain ⟨hproc', hsleeps', hold⟩ := hnews c hcur hproc hsleeps
      obtain ⟨pid, hin, hall⟩ := h.wait c hproc' hsleeps'
      refine ⟨pid, ?_, fun q hq hz => ?_⟩
      · rw [InWait, moved_of_ne _ _ _ hcur]
        exact hin
      · obtain ⟨hq', hz'⟩ := hold pid q hq hz
        exact hall q hq' hz'

-- ===== the moves

section Moves

variable (h : w.Tasks)
include h

theorem Tasks.notIdle (hx : w.point w.procs.current ≠ .idle) :
    w.procs.current ≠ w.procs.idleproc :=
  fun heq => hx (heq ▸ h.idlePoint)

theorem Tasks.notInit (hx : ¬(w.point w.procs.current).InLoop) :
    w.procs.current ≠ w.procs.initproc :=
  fun heq => hx (heq ▸ h.initPoint)

theorem Tasks.notTimer (hx : w.point w.procs.current ≠ .kernel .sleepBack)
    (hx' : w.point w.procs.current ≠ .schedule .sleepBack) :
    w.procs.current ∉ w.procs.timerProcs := by
  intro hin
  rcases h.timers _ hin with heq | heq
  · exact hx heq
  · exact hx' heq

theorem Tasks.free (hx : ∀ r, w.point w.procs.current ≠ .schedule r)
    (hx' : w.point w.procs.current ≠ .kernel .sleepBack) : w.procs.Free := by
  refine ⟨h.running hx, fun y hy heq => ?_⟩
  exact h.notTimer hx' (hx _) (List.mem_map.2 ⟨y, hy, heq⟩)

/-- `current` moves and no other process runs. -/
theorem Tasks.stays (hinv : t.Inv) (hsame : Procs.SameTree w.procs t)
    (hcur : t.current = w.procs.current) (hrun : t.Running)
    (htimers : ∀ p ∈ t.timerProcs,
      p ≠ w.procs.current ∧ p ∈ w.procs.timerProcs)
    (hsleeps : ∀ c, c ≠ w.procs.current → t.SleepsForChild c →
      w.procs.SleepsForChild c)
    (hfits : w.Fits x) (hx : ∀ r, x ≠ .schedule r) : (w.moved t x).Tasks := by
  refine h.moved hinv (h.init.same hsame) hsame.ids hfits hrun.live
    (.inr ⟨hx, hrun⟩) (fun p hp => .inl (htimers p hp))
    (fun c hc => .same hsame (hsleeps c hc)) fun hs => ?_
  exact absurd hs (hrun.awake hcur)

/-- `current` moves and nothing happens. -/
theorem Tasks.stays_idle (hfree : w.procs.Free) (hfits : w.Fits x)
    (hx : ∀ r, x ≠ .schedule r) : (w.moved w.procs x).Tasks :=
  h.stays h.inv (.refl _) rfl hfree.1 (fun _ hp => hfree.other hp)
    (fun _ _ hs => hs) hfits hx

/-- `current` calls `schedule`, and is to go on at `x`. -/
theorem Tasks.switch
    (hx : (∃ r, w.point w.procs.current = .schedule r ∧ x = .kernel r) ∨
      w.procs.Free ∧ ∀ r, x ≠ .schedule r) (hfits : w.Fits x) :
    ∃ v, w.switch x = some v ∧ v.Tasks ∧ w.procs.schedule = some v.procs := by
  obtain ⟨t, ht, hinv, -⟩ := h.inv.schedule
  have hsame := (Procs.Wakes.schedule ht).toSameTree
  obtain ⟨⟨-, hev⟩, htimer, -⟩ := Procs.schedule_some ht
  have hrun := h.inv.schedule_running ht
  have hnot : ∀ r, x ≠ .schedule r := by
    rcases hx with ⟨r, -, rfl⟩ | ⟨-, hnot⟩
    · intro r'
      exact Point.noConfusion
    · exact hnot
  refine ⟨w.moved t x, ?_, ?_, ht⟩
  · rw [World.switch, ht]
    rfl
  refine h.moved hinv (h.init.same hsame) hsame.ids hfits hrun.live
    (.inr ⟨hnot, hrun⟩) (fun p hp => ?_) (fun c _ => .evolves hsame hev)
    fun hs => ?_
  · have hold : p ∈ w.procs.timerProcs := by
      rw [Procs.timerProcs, ← htimer]
      exact hp
    by_cases hcur : p = w.procs.current
    · refine .inr ⟨hcur, ?_⟩
      subst hcur
      rcases hx with ⟨r, hr, rfl⟩ | ⟨hfree, -⟩
      · rcases h.timers _ hold with heq | heq
        · exact absurd (hr.symm.trans heq) Point.noConfusion
        · rw [hr] at heq
          obtain rfl := Point.schedule.inj heq
          exact .inl rfl
      · exact absurd hold hfree.notMem
    · exact .inl ⟨hcur, hold⟩
  · have hs' := hs.of_evolves (hev _)
    rcases hx with ⟨r, hr, rfl⟩ | ⟨hfree, -⟩
    · obtain ⟨pid, hin, hall⟩ := h.wait _ h.inv.queue.current hs'
      refine ⟨pid, .inl ?_, fun q hq hz => ?_⟩
      · rcases hin with heq | heq
        · exact absurd (hr.symm.trans heq) Point.noConfusion
        · rw [hr] at heq
          obtain rfl := Point.schedule.inj heq
          rfl
      · exact hall q (hsame.awaitedBy.1 hq) ((hsame.zombie q).1 hz)
    · exact absurd hs' (hfree.1.awake rfl)

/-- `current` exits. -/
theorem Tasks.doExit (hfree : w.procs.Free)
    (hidle : w.procs.current ≠ w.procs.idleproc)
    (hinit : w.procs.current ≠ w.procs.initproc)
    (hx : ∀ r, w.point w.procs.current ≠ .schedule r) (errorCode : Int) :
    ∃ v, w.doExit errorCode = some v ∧ v.Tasks ∧ ∃ u,
      Procs.Exited w.procs errorCode u ∧ u.schedule = some v.procs ∧
      v.point = w.point := by
  obtain ⟨u, hexit, heq⟩ := h.inv.doExit h.init hfree hidle hinit errorCode
  obtain ⟨t, ht, hinv, -⟩ := hexit.inv.schedule
  have hsame := (Procs.Wakes.schedule ht).toSameTree
  obtain ⟨⟨-, hev⟩, htimer, -⟩ := Procs.schedule_some ht
  refine ⟨⟨t, w.point⟩, ?_, ?_, u, hexit, ht, rfl⟩
  · rw [World.doExit, heq, ht]
    rfl
  rw [← moved_stay]
  have hids : Procs.SameIds w.procs t := by
    refine ⟨hsame.idleproc.trans hexit.onward.idleproc,
      hsame.initproc.trans hexit.onward.initproc, ?_⟩
    rw [hsame.pid, (hexit.onward.evolves _).pid, Procs.died,
      Procs.setProc_of_ne _ _ hinit.symm]
  refine h.moved hinv (hexit.init.same hsame) hids
    ⟨fun heq => absurd heq hidle, fun heq => absurd heq hinit⟩
    (hexit.inv.schedule_running ht).live
    (.inr ⟨hx, hexit.inv.schedule_running ht⟩) (fun p hp => .inl ?_)
    (fun c _ => (Procs.NoNews.exited hexit).trans
      (.evolves hsame hev)) fun hs => ?_
  · rw [Procs.timerProcs, htimer, hexit.onward.timerList] at hp
    exact hfree.other hp
  · -- it is dead
    have hs' := (hs.of_evolves (hev _)).of_evolves (hexit.onward.evolves _)
    have hstate := hs'.1
    rw [Procs.died, Procs.setProc_self] at hstate
    exact absurd hstate (by change ProcState.zombie ≠ _; decide)

end Moves

-- ===== the events

/-- The event has gone through, and `initproc` is killed only if it was. -/
structure Goes (w v : World) : Prop where
  tasks : v.Tasks
  flag : (v.procs.proc w.procs.initproc).exiting =
    (w.procs.proc w.procs.initproc).exiting
  initproc : v.procs.initproc = w.procs.initproc

theorem Goes.evolves (h : (w.moved t x).Tasks)
    (hev : ∀ q, (w.procs.proc q).Evolves (t.proc q))
    (hinit : t.initproc = w.procs.initproc) : w.Goes (w.moved t x) :=
  ⟨h, (hev w.procs.initproc).exiting, hinit⟩

section Events

variable (h : w.Tasks)
include h

/-- The clock tick never stops the kernel. -/
theorem Tasks.tick : ∃ v, w.step .tick = some v ∧ w.Goes v := by
  obtain ⟨t, ht, hinv, hcur, -⟩ := h.inv.runTimerList
  have hsame := (Procs.Wakes.runTimerList ht).toSameTree
  have hev := (Procs.Wakes.runTimerList ht).evolves
  have htimers := Procs.runTimerList_timerProcs ht
  have hrun : w.procs.Running → t.Running := by
    intro hr
    rw [Procs.Running, hcur]
    exact ((hev _).runnable hr).1
  rw [step, ht, Option.map_some]
  by_cases huser : w.point w.procs.current = .user
  · rw [if_pos huser]
    have hfree : w.procs.Free := h.free (by simp [huser]) (by simp [huser])
    refine ⟨_, rfl, .evolves ?_ hev hsame.initproc⟩
    refine h.stays hinv hsame hcur (hrun hfree.1)
      (fun p hp => hfree.other (htimers p hp))
      (fun c _ hs => hs.of_evolves (hev c)) ⟨fun heq => ?_, fun heq => ?_⟩
      (by simp)
    · exact absurd heq (h.notIdle (by simp [huser]))
    · exact absurd heq (h.notInit (by simp [huser, Point.InLoop]))
  · rw [if_neg huser]
    refine ⟨_, rfl, ?_⟩
    rw [← moved_stay]
    refine .evolves ?_ hev hsame.initproc
    refine h.moved hinv (h.init.same hsame) hsame.ids
      ⟨fun heq => heq ▸ h.idlePoint, fun heq => heq ▸ h.initPoint⟩ ?_ ?_
      (fun p hp => ?_) (fun c _ => .evolves hsame hev) fun hs => ?_
    · rw [hcur]
      exact fun hz => h.live ((hev _).zombie.1 hz)
    · by_cases hsched : ∃ r, w.point w.procs.current = .schedule r
      · exact .inl ⟨hsched, hcur⟩
      · have hnot : ∀ r, w.point w.procs.current ≠ .schedule r :=
          fun r hr => hsched ⟨r, hr⟩
        exact .inr ⟨hnot, hrun (h.running hnot)⟩
    · by_cases hpc : p = w.procs.current
      · exact .inr ⟨hpc, hpc ▸ h.timers p (htimers p hp)⟩
      · exact .inl ⟨hpc, htimers p hp⟩
    · obtain ⟨pid, hin, hall⟩ := h.wait _ h.inv.queue.current
        (hs.of_evolves (hev _))
      refine ⟨pid, hin, fun q hq hz => ?_⟩
      exact hall q (hsame.awaitedBy.1 hq) ((hsame.zombie q).1 hz)

/-- What is known of a process that is a user process. -/
structure UserAt (w : World) : Prop where
  free : w.procs.Free
  notIdle : w.procs.current ≠ w.procs.idleproc
  notInit : w.procs.current ≠ w.procs.initproc
  notSchedule : ∀ r, w.point w.procs.current ≠ .schedule r

omit h in
theorem UserAt.fits (hat : w.UserAt) : w.Fits x :=
  ⟨fun heq => absurd heq hat.notIdle, fun heq => absurd heq hat.notInit⟩

theorem Tasks.userAt (hx : w.point w.procs.current = .user ∨
    w.point w.procs.current = .trapEnd) : w.UserAt := by
  rcases hx with hx | hx <;>
    exact ⟨h.free (by simp [hx]) (by simp [hx]), h.notIdle (by simp [hx]),
      h.notInit (by simp [hx, Point.InLoop]), by simp [hx]⟩

/-- A user process can exit at any time. -/
theorem Tasks.exits (hat : w.UserAt) (errorCode : Int) :
    ∃ v, w.doExit errorCode = some v ∧ w.Goes v := by
  obtain ⟨v, hv, htasks, u, hexit, hs, -⟩ := h.doExit hat.free hat.notIdle
    hat.notInit hat.notSchedule errorCode
  refine ⟨v, hv, htasks, ?_,
    (Procs.Wakes.schedule hs).initproc.trans hexit.onward.initproc⟩
  rw [((Procs.Wakes.schedule hs).evolves _).exiting,
    (hexit.onward.evolves _).exiting, Procs.died,
    Procs.setProc_of_ne _ _ hat.notInit.symm]

/-- A user process moves on, and nothing else happens. -/
theorem Tasks.userMoves (hat : w.UserAt) (hx : ∀ r, x ≠ .schedule r) :
    w.Goes (w.moved w.procs x) :=
  ⟨h.stays_idle hat.free hat.fits hx, rfl, rfl⟩

/-- Where nobody is yet, somebody may start. -/
theorem Tasks.fresh (hp : ¬w.procs.IsProc p) (x : Point)
    (hx : ∀ r, x ≠ .schedule r) :
    Tasks { w with point := update w.point p x } := by
  have hold : ∀ q, w.procs.IsProc q → update w.point p x q = w.point q := by
    intro q hq
    refine update_of_ne ?_ ..
    rintro rfl
    exact hp hq
  have hcur := h.inv.queue.current
  refine ⟨h.inv, h.init, h.initPid, ?_, ?_, h.live, fun hnot => ?_,
    fun q r hq => ?_, fun q hq => ?_, fun c hproc hs => ?_⟩
  · exact (hold _ (.inl rfl)).trans h.idlePoint
  · change (update w.point p x w.procs.initproc).InLoop
    rw [hold _ (.inr h.init.listed)]
    exact h.initPoint
  · refine h.running fun r hr => hnot r ?_
    exact (hold _ hcur).trans hr
  · change update w.point p x q = _ at hq
    by_cases hqp : q = p
    · rw [hqp, update_self] at hq
      exact absurd hq (hx r)
    · rw [update_of_ne hqp] at hq
      exact h.off q r hq
  · change update w.point p x q = _ ∨ update w.point p x q = _
    rw [hold q (.inr (h.inv.timers.sleepers.proc q hq).1)]
    exact h.timers q hq
  · obtain ⟨pid, hin, hall⟩ := h.wait c hproc hs
    refine ⟨pid, ?_, hall⟩
    change update w.point p x c = _ ∨ update w.point p x c = _
    rw [hold c hproc]
    exact hin

/-- A fork goes through whenever the record is not in use. -/
theorem Tasks.fork (huser : w.point w.procs.current = .user)
    (hp : ¬w.procs.IsProc p) (kstack : Nat) (mm fs : Option Nat) :
    ∃ v, w.call (.fork p kstack mm fs) = some v ∧ w.Goes v := by
  have hat := h.userAt (.inl huser)
  rcases h.inv.doFork hat.free.1 hp kstack mm fs with
    hfull | ⟨pid, safe, t, ht, hfresh, hwake, hinv, -⟩
  · have hneg : ¬0 < -eNoFreeProc := by decide
    refine ⟨w.moved w.procs .trapEnd, ?_, h.userMoves hat (by simp)⟩
    rw [call, hfull]
    exact congrArg some (if_neg hneg)
  have hpos : 0 < pid := hfresh.pos
  have hfork := h.inv.forked hat.free.1 hp hwake
  have hinitp : w.procs.initproc ≠ p :=
    fun heq => hp (heq ▸ .inr h.init.listed)
  refine ⟨World.moved { w with point := update w.point p .user } t
    .trapEnd, ?_, ⟨?_, (hfork.evolves _ hinitp).exiting, hfork.initproc⟩⟩
  · rw [call, ht]
    exact congrArg some (if_pos hpos)
  refine (h.fresh hp .user (by simp)).moved hinv (hfork.init h.init)
    ⟨hfork.idleproc, hfork.initproc, (hfork.evolves _ hinitp).pid⟩
    ⟨hat.fits.idle, hat.fits.loop⟩ hfork.running.live
    (.inr ⟨by simp, hfork.running⟩) (fun q hq => .inl ?_)
    (fun c _ => hfork.news c) fun hs => ?_
  · rw [Procs.timerProcs, hfork.timerList] at hq
    exact hat.free.other hq
  · exact absurd hs (hfork.running.awake hfork.current)

/-- A kill sets one flag and may wake its target. -/
theorem Tasks.kill (huser : w.point w.procs.current = .user) (pid : Int) :
    ∃ v, w.call (.kill pid) = some v ∧ v.Tasks ∧ (pid ≠ 1 → w.Goes v) := by
  have hat := h.userAt (.inl huser)
  obtain ⟨t, r, ht, hinv, -⟩ := h.inv.doKill pid
  have hsame := Procs.SameTree.doKill ht
  -- nobody is changed but for the flag of the target, and by being woken
  have hold : t.timerList = w.procs.timerList ∧ t.current = w.procs.current ∧
      ∀ q, ∃ flag, (({ w.procs.proc q with exiting := flag } : Proc).Evolves
        (t.proc q) ∧ (w.procs.findProc pid ≠ some q →
          flag = (w.procs.proc q).exiting)) := by
    rcases Procs.doKill_some ht with rfl | ⟨p, u, hfind, rfl, hwake⟩
    · exact ⟨rfl, rfl, fun q => ⟨_, .refl _, fun _ => rfl⟩⟩
    have hflag : ∀ q, ∃ flag, (w.procs.setProc p fun x =>
        { x with exiting := true }).proc q =
          { w.procs.proc q with exiting := flag } ∧
        (w.procs.findProc pid ≠ some q → flag = (w.procs.proc q).exiting) := by
      intro q
      rw [Procs.setProc_proc]
      by_cases hq : q = p
      · rw [if_pos hq, hq]
        exact ⟨true, rfl, fun hnot => absurd hfind hnot⟩
      · rw [if_neg hq]
        exact ⟨_, rfl, fun _ => rfl⟩
    rcases hwake with ⟨-, hwake⟩ | ⟨-, rfl⟩
    · refine ⟨(Procs.wakeupProc_lists hwake).1.trans rfl,
        (Procs.wakeupProc_lists hwake).2.trans rfl, fun q => ?_⟩
      obtain ⟨flag, hq, hkeep⟩ := hflag q
      exact ⟨flag, hq ▸ (Procs.Wakes.wakeupProc hwake).evolves q, hkeep⟩
    · refine ⟨rfl, rfl, fun q => ?_⟩
      obtain ⟨flag, hq, hkeep⟩ := hflag q
      exact ⟨flag, hq ▸ .refl _, hkeep⟩
  obtain ⟨htimer, hcur, hproc⟩ := hold
  have hrun : t.Running := by
    obtain ⟨flag, hev, -⟩ := hproc w.procs.current
    rw [Procs.Running, hcur]
    exact (hev.runnable hat.free.1).1
  have htasks : (w.moved t .trapEnd).Tasks := by
    refine h.stays hinv hsame hcur hrun (fun p hp => ?_) (fun c _ hs => ?_)
      hat.fits (by simp)
    · rw [Procs.timerProcs, htimer] at hp
      exact hat.free.other hp
    · obtain ⟨flag, hev, -⟩ := hproc c
      obtain ⟨hstate, hwait⟩ := hev.sleeping hs.1
      exact ⟨hstate, hwait.trans hs.2⟩
  refine ⟨w.moved t .trapEnd, ?_, htasks,
    fun hpid => ⟨htasks, ?_, hsame.initproc⟩⟩
  · rw [World.call, ht]
    rfl
  · obtain ⟨flag, hev, hkeep⟩ := hproc w.procs.initproc
    refine hev.exiting.trans (hkeep fun hfind => hpid ?_)
    have hid := (h.inv.family.table.findProc_eq_some_iff.1 hfind).2
    rw [h.initPid] at hid
    exact hid.symm

theorem Tasks.sleep (huser : w.point w.procs.current = .user)
    (time : Nat) : ∃ v, w.call (.sleep time) = some v ∧ w.Goes v := by
  have hat := h.userAt (.inl huser)
  obtain ⟨t, r, ht, hinv, -⟩ := h.inv.doSleep hat.free hat.notIdle time
  have hsame := Procs.SameTree.doSleep hat.free.1.live ht
  rw [World.call, ht]
  refine ⟨_, rfl, ?_⟩
  rcases Procs.doSleep_some ht with ⟨-, rfl, rfl⟩ | ⟨-, rfl, rfl⟩
  · exact h.userMoves hat (by simp)
  have hslept : ∀ q, q ≠ w.procs.current →
      (w.procs.slept .timer).proc q = w.procs.proc q :=
    fun q hq => Procs.setProc_of_ne _ _ hq
  have hself : (w.procs.slept .timer).proc w.procs.current =
      { w.procs.proc w.procs.current with
        state := .sleeping, waitState := .timer } := Procs.setProc_self ..
  have hperm := Procs.insertTimer_procs ⟨time, w.procs.current⟩
    w.procs.timerList
  refine ⟨h.moved hinv (h.init.same hsame) hsame.ids hat.fits
    ?_ (.inl ⟨⟨_, rfl⟩, rfl⟩) (fun p hp => ?_) (fun c hc => .same hsame ?_)
    fun hs => ?_, ?_, hsame.initproc⟩
  · change ((w.procs.slept .timer).proc w.procs.current).state ≠ .zombie
    rw [hself]
    exact ProcState.noConfusion
  · rcases List.mem_cons.1 (hperm.mem_iff.1 hp) with rfl | hp
    · exact .inr ⟨rfl, .inr rfl⟩
    · exact .inl (hat.free.other hp)
  · rintro ⟨hstate, hwait⟩
    rw [hslept c hc] at hstate hwait
    exact ⟨hstate, hwait⟩
  · have hwait := hs.2
    rw [hself] at hwait
    exact WaitState.noConfusion hwait
  · change ((w.procs.slept .timer).proc w.procs.initproc).exiting = _
    rw [hslept _ hat.notInit.symm]

theorem Tasks.yield (huser : w.point w.procs.current = .user) :
    w.Goes (w.moved w.procs.doYield .trapEnd) := by
  have hat := h.userAt (.inl huser)
  have hev : ∀ q, (w.procs.proc q).Evolves (w.procs.doYield.proc q) := by
    intro q
    rw [Procs.doYield, Procs.setProc_proc]
    by_cases hq : q = w.procs.current
    · rw [if_pos hq, hq]
      exact ⟨rfl, rfl, rfl, rfl, .inl ⟨rfl, rfl⟩⟩
    · rw [if_neg hq]
      exact .refl _
  refine .evolves ?_ hev rfl
  exact h.stays h.inv.doYield (.doYield _) rfl
    ((hev _).runnable hat.free.1).1 (fun p hp => hat.free.other hp)
    (fun c _ hs => hs.of_evolves (hev c)) hat.fits (by simp)

/-- System calls go through. -/
theorem Tasks.calls {c : Call} (he : w.Enabled (.call c)) :
    ∃ v, w.call c = some v ∧ v.Tasks ∧ (c ≠ .kill 1 → w.Goes v) := by
  have hgoes : (∃ v, w.call c = some v ∧ w.Goes v) →
      ∃ v, w.call c = some v ∧ v.Tasks ∧ (c ≠ .kill 1 → w.Goes v) :=
    fun ⟨v, hv, hg⟩ => ⟨v, hv, hg.tasks, fun _ => hg⟩
  cases c with
  | fork p kstack mm fs => exact hgoes (h.fork he.1 he.2 kstack mm fs)
  | forkFails =>
    exact hgoes ⟨_, rfl, h.userMoves (h.userAt (.inl he)) (by simp)⟩
  | exit errorCode => exact hgoes (h.exits (h.userAt (.inl he)) errorCode)
  | wait pid store =>
    refine hgoes ⟨_, rfl, h.userMoves (h.userAt (.inl he)) fun r => ?_⟩
    cases store with
    | true => exact Point.noConfusion
    | false => exact Point.noConfusion
  | kill pid =>
    obtain ⟨v, hv, htasks, hg⟩ := h.kill he pid
    exact ⟨v, hv, htasks, fun hne => hg fun heq => hne (heq ▸ rfl)⟩
  | sleep time => exact hgoes (h.sleep he time)
  | yield => exact hgoes ⟨_, rfl, h.yield he⟩

/-- `initproc` has no more children and leaves its loop. -/
def Finished (w : World) : Prop :=
  w.point w.procs.current = .kernel (.waitRepeat 0) ∧
    w.procs.current = w.procs.initproc ∧
    ∀ q, ¬w.procs.AwaitedBy w.procs.initproc 0 q

/-- `initproc` has been killed and finds out in `do_wait`. -/
def InitKilled (w : World) : Prop :=
  w.point w.procs.current = .kernel (.waitBack 0) ∧
    w.procs.current = w.procs.initproc ∧
    (w.procs.proc w.procs.initproc).exiting = true

omit h in
theorem doExit_init (hinit : w.procs.current = w.procs.initproc)
    (errorCode : Int) : w.doExit errorCode = none := by
  rw [World.doExit, Procs.doExit, if_pos (.inr hinit)]
  rfl

theorem Tasks.loop_pid {r : Resume} (hx : w.point w.procs.current = .kernel r)
    (hinit : w.procs.current = w.procs.initproc) :
    r = .waitRepeat 0 ∨ r = .waitBack 0 := by
  obtain ⟨r', hr', hpoint⟩ := h.initPoint
  rw [← hinit, hx] at hpoint
  rcases hpoint with heq | heq
  · obtain rfl := Point.kernel.inj heq
    exact hr'
  · exact Point.noConfusion heq

theorem Tasks.waitRepeat {pid : Int}
    (hx : w.point w.procs.current = .kernel (.waitRepeat pid)) :
    (∃ v, w.resume (.waitRepeat pid) = some v ∧ w.Goes v) ∨
      w.resume (.waitRepeat pid) = none ∧ w.Finished := by
  have hfree := h.free (by simp [hx]) (by simp [hx])
  have hidle := h.notIdle (by simp [hx])
  have hpid : w.procs.current = w.procs.initproc → pid = 0 := by
    intro hinit
    simpa using h.loop_pid hx hinit
  obtain ⟨t, r, ht, hwaits, hinv, -⟩ := h.inv.doWait h.init hfree hidle pid
  rw [resume, ht, Option.bind_some]
  cases r with
  | failed =>
    obtain ⟨hnone, rfl⟩ := hwaits
    by_cases hinit : w.procs.current = w.procs.initproc
    · obtain rfl := hpid hinit
      refine .inr ⟨?_, hx, hinit, fun q hq => hnone q ?_⟩
      · rw [afterWait, if_pos hinit, doExit_init hinit]
      · rw [Procs.Awaited, hinit]
        exact hq
    · refine .inl ⟨w.moved w.procs .trapEnd, if_neg hinit, ?_, rfl, rfl⟩
      exact h.stays_idle hfree ⟨fun heq => absurd heq hidle,
        fun heq => absurd heq hinit⟩ (by simp)
  | blocked =>
    obtain ⟨-, halive, rfl⟩ := hwaits
    have hsame := Procs.SameTree.slept hfree.1.live WaitState.child
    have hother : ∀ q, q ≠ w.procs.current →
        (w.procs.slept .child).proc q = w.procs.proc q :=
      fun q hq => Procs.setProc_of_ne _ _ hq
    refine .inl ⟨_, rfl, h.moved hinv (h.init.same hsame) hsame.ids
      ⟨fun heq => absurd heq hidle, fun heq => ?_⟩ ?_
      (.inl ⟨⟨_, rfl⟩, rfl⟩) (fun p hp => .inl (hfree.other hp))
      (fun c hc => .same hsame ?_) (fun _ => ?_), ?_, hsame.initproc⟩
    · exact ⟨.waitBack 0, .inr rfl, .inr (hpid heq ▸ rfl)⟩
    · change ((w.procs.slept .child).proc w.procs.current).state ≠ _
      rw [Procs.slept, Procs.setProc_self]
      exact ProcState.noConfusion
    · intro hs
      rw [Procs.SleepsForChild, hother c hc] at hs
      exact hs
    · refine ⟨pid, .inr rfl, fun q hq hz => ?_⟩
      exact halive q (hsame.awaitedBy.1 hq) ((hsame.zombie q).1 hz)
    · change ((w.procs.slept .child).proc w.procs.initproc).exiting = _
      rw [Procs.slept, Procs.setProc_field Proc.exiting, ite_self]
  | reaped p exitCode =>
    obtain ⟨hawaited, hz, -, rfl⟩ := hwaits
    have hsched := Procs.SameSched.reap w.procs p
    have hrun : (w.procs.reap p).Running := by
      rw [Procs.Running, hsched.current, (hsched.own _).state]
      exact hfree.1
    refine .inl ⟨_, rfl, h.moved hinv (h.init.reap h.inv.family.table hz)
      ⟨hsched.idleproc, hsched.initproc, (hsched.own _).pid⟩
      ⟨fun heq => absurd heq hidle, fun heq => ?_⟩ hrun.live ?_
      (fun q hq => .inl ?_)
      (fun c _ => .reap h.inv.family.table hawaited.1) (fun hs => ?_),
      (hsched.own _).exiting, hsched.initproc⟩
    · rw [if_pos heq]
      exact ⟨.waitRepeat 0, .inl rfl, .inr rfl⟩
    · by_cases hinit : w.procs.current = w.procs.initproc
      · rw [if_pos hinit]
        exact .inl ⟨⟨_, rfl⟩, hsched.current⟩
      · rw [if_neg hinit]
        exact .inr ⟨by simp, hrun⟩
    · rw [Procs.timerProcs, hsched.timerList] at hq
      exact hfree.other hq
    · exact absurd hs (hrun.awake hsched.current)

theorem Tasks.finished (hfin : w.Finished) :
    w.go (w.point w.procs.current) = none := by
  obtain ⟨hx, hinit, hnone⟩ := hfin
  have hnone' : ∀ q, ¬w.procs.Awaited 0 q := by
    intro q
    rw [Procs.Awaited, hinit]
    exact hnone q
  obtain ⟨t, r, ht, hwaits, -⟩ := h.inv.doWait h.init
    (h.free (by simp [hx]) (by simp [hx])) (h.notIdle (by simp [hx])) 0
  rw [hx, go, resume, ht, Option.bind_some]
  cases r with
  | failed => rw [afterWait, if_pos hinit, doExit_init hinit]
  | blocked =>
    obtain ⟨⟨q, hq⟩, -⟩ := hwaits
    exact absurd hq (hnone' q)
  | reaped q exitCode => exact absurd hwaits.1 (hnone' q)

theorem Tasks.waitBack {pid : Int}
    (hx : w.point w.procs.current = .kernel (.waitBack pid)) :
    (∃ v, w.resume (.waitBack pid) = some v ∧ w.Goes v) ∨
      w.resume (.waitBack pid) = none ∧ w.InitKilled := by
  have hfree := h.free (by simp [hx]) (by simp [hx])
  have hidle := h.notIdle (by simp [hx])
  have hpid : w.procs.current = w.procs.initproc → pid = 0 := by
    intro hinit
    simpa using h.loop_pid hx hinit
  rw [resume]
  by_cases hexit : (w.procs.proc w.procs.current).exiting = true
  · rw [if_pos hexit]
    by_cases hinit : w.procs.current = w.procs.initproc
    · obtain rfl := hpid hinit
      exact .inr ⟨doExit_init hinit _, hx, hinit, hinit ▸ hexit⟩
    · exact .inl (h.exits ⟨hfree, hidle, hinit, by simp [hx]⟩ _)
  · rw [if_neg hexit]
    refine .inl ⟨_, rfl, ?_, rfl, rfl⟩
    refine h.stays_idle hfree ⟨fun heq => absurd heq hidle, fun heq => ?_⟩
      (by simp)
    exact ⟨.waitRepeat 0, .inl rfl, .inl (hpid heq ▸ rfl)⟩

theorem Tasks.sleepBack (hx : w.point w.procs.current = .kernel .sleepBack) :
    w.Goes (w.moved (w.procs.delTimer w.procs.current) .trapEnd) := by
  have hrun : w.procs.Running := h.running (by simp [hx])
  have hprocs : (w.procs.delTimer w.procs.current).timerProcs =
      w.procs.timerProcs.erase w.procs.current :=
    Procs.removeTimer_procs _ _
  refine ⟨h.stays (h.inv.delTimer _) (.lists ..) rfl hrun (fun p hp => ?_)
    (fun c _ hs => hs) ⟨fun heq => ?_, fun heq => ?_⟩ (by simp), rfl, rfl⟩
  · rw [hprocs] at hp
    exact h.inv.timers.sleepers.nodup.mem_erase_iff.1 hp
  · exact absurd heq (h.notIdle (by simp [hx]))
  · exact absurd (h.loop_pid hx heq) (by simp)

/-- `current` goes on, or it is `initproc` and the kernel stops. -/
theorem Tasks.goesOn :
    (∃ v, w.go (w.point w.procs.current) = some v ∧ w.Goes v) ∨
      w.go (w.point w.procs.current) = none ∧ (w.Finished ∨ w.InitKilled) := by
  have hswitch : ∀ x, (∃ v, w.switch x = some v ∧ v.Tasks ∧
      w.procs.schedule = some v.procs) →
      ∃ v, w.switch x = some v ∧ w.Goes v := by
    rintro x ⟨v, hv, htasks, hs⟩
    exact ⟨v, hv, htasks, ((Procs.Wakes.schedule hs).evolves _).exiting,
      (Procs.Wakes.schedule hs).initproc⟩
  cases hx : w.point w.procs.current with
  | user => exact .inl ⟨w, rfl, h, rfl, rfl⟩
  | trapEnd =>
    have hat := h.userAt (.inr hx)
    refine .inl ?_
    rw [go]
    by_cases hexit : (w.procs.proc w.procs.current).exiting = true
    · rw [if_pos hexit]
      exact h.exits hat _
    rw [if_neg hexit]
    by_cases hres : (w.procs.proc w.procs.current).needResched = true
    · rw [if_pos hres]
      exact hswitch _ (h.switch (.inr ⟨hat.free, by simp⟩) hat.fits)
    · rw [if_neg hres]
      exact ⟨_, rfl, h.userMoves hat (by simp)⟩
  | schedule r =>
    refine .inl (hswitch _ (h.switch (.inl ⟨r, hx, rfl⟩)
      ⟨fun heq => ?_, fun heq => ?_⟩))
    · exact absurd heq (h.notIdle (by simp [hx]))
    · obtain ⟨r', hr', hpoint⟩ := h.initPoint
      rw [← heq, hx] at hpoint
      rcases hpoint with hk | hk
      · exact Point.noConfusion hk
      · obtain rfl := Point.schedule.inj hk
        exact ⟨r, hr', .inl rfl⟩
  | kernel r =>
    cases r with
    | waitRepeat pid =>
      rcases h.waitRepeat hx with hgoes | ⟨hnone, hfin⟩
      · exact .inl hgoes
      · exact .inr ⟨hnone, .inl hfin⟩
    | waitBack pid =>
      rcases h.waitBack hx with hgoes | ⟨hnone, hkill⟩
      · exact .inl hgoes
      · exact .inr ⟨hnone, .inr hkill⟩
    | sleepBack => exact .inl ⟨_, rfl, h.sleepBack hx⟩
  | idle =>
    have hnotinit := h.notInit (by simp [hx, Point.InLoop])
    refine .inl ?_
    rw [go]
    by_cases hres : (w.procs.proc w.procs.current).needResched = true
    · rw [if_pos hres]
      have hfree := h.free (by simp [hx]) (by simp [hx])
      exact hswitch _ (h.switch (.inr ⟨hfree, by simp⟩)
        ⟨fun _ => rfl, fun heq => absurd heq hnotinit⟩)
    · rw [if_neg hres]
      exact ⟨w, rfl, h, rfl, rfl⟩

/-- Every event goes through, or the kernel stops at `do_exit` of
`initproc`. -/
theorem Tasks.step {e : TaskEvent} (he : w.Enabled e) :
    (∃ v, w.step e = some v ∧ v.Tasks ∧ (e ≠ .call (.kill 1) → w.Goes v)) ∨
    w.step e = none ∧ e = .go ∧ (w.Finished ∨ w.InitKilled) := by
  cases e with
  | call c =>
    obtain ⟨v, hv, htasks, hg⟩ := h.calls he
    exact .inl ⟨v, hv, htasks, fun hne => hg fun heq => hne (heq ▸ rfl)⟩
  | tick =>
    obtain ⟨v, hv, hg⟩ := h.tick
    exact .inl ⟨v, hv, hg.tasks, fun _ => hg⟩
  | go =>
    rcases h.goesOn with ⟨v, hv, hg⟩ | ⟨hnone, hstop⟩
    · exact .inl ⟨v, hv, hg.tasks, fun _ => hg⟩
    · exact .inr ⟨hnone, rfl, hstop⟩

end Events

-- ===== whole runs

/-- The world `initproc` starts its loop in. -/
theorem Boot.tasks (h : w.Boot) : w.Tasks ∧
    (w.procs.proc w.procs.initproc).exiting = false := by
  cases h with
  | @intro mem idle p q kstack kstack' fs fs' mm fs'' s s' t pid hp hs hs' hq
      ht hpos =>
    have hinit := Procs.procInit_initial hp hs
    obtain ⟨s₁, hs₁, hinv', -⟩ := hinit.inv.schedule
    cases hs'.symm.trans hs₁
    have hsame := (Procs.Wakes.schedule hs').toSameTree
    obtain ⟨⟨-, hev⟩, htimer, -⟩ := Procs.schedule_some hs'
    have hrun := hinit.inv.schedule_running hs'
    rcases hinv'.doFork hrun hq kstack' mm fs'' with
      hfull | ⟨pid', safe, t', ht', -, hwake, hinv, -⟩
    · obtain ⟨-, rfl⟩ := Prod.ext_iff.1 (Option.some.inj (ht.symm.trans hfull))
      have hneg : ¬0 < -eNoFreeProc := by decide
      exact absurd hpos hneg
    obtain ⟨rfl, rfl⟩ := Prod.ext_iff.1 (Option.some.inj (ht.symm.trans ht'))
    have hfork := hinv'.forked hrun hq hwake
    have hidle : t.idleproc = idle :=
      hfork.idleproc.trans (hsame.idleproc.trans hinit.idleproc)
    have hinitp : t.initproc = p :=
      hfork.initproc.trans (hsame.initproc.trans hinit.initproc)
    have hpq : p ≠ q := by
      rintro rfl
      refine hq (.inr ?_)
      rw [hsame.procList, hinit.procList]
      exact List.mem_singleton_self p
    have hp' : (s.proc p).Evolves (t.proc p) :=
      (hev p).trans (hfork.evolves p hpq)
    -- only `idleproc` and `initproc` are older than the shell
    have hawake : ∀ c, s.IsProc c → ¬s.SleepsForChild c := by
      rintro c hc ⟨hsleeps, -⟩
      have hstate : (s.proc c).state = .runnable := by
        rcases hc with rfl | hin
        · exact hinit.inv.queue.idle
        · rw [hinit.procList] at hin
          rw [List.mem_singleton.1 hin]
          exact hinit.state
      exact absurd (hstate.symm.trans hsleeps) (by decide)
    refine ⟨⟨hinv, hfork.init (hinit.init.same hsame), ?_, ?_, ?_,
      hfork.running.live, fun _ => hfork.running, fun c r hc => ?_,
      fun c hc => ?_, fun c hproc hsleeps => ?_⟩, ?_⟩
    · rw [hinitp, hp'.pid]
      exact hinit.pid
    · change update _ _ _ t.idleproc = _
      rw [hidle, update_self]
    · dsimp only
      rw [hinitp, update_of_ne hp, update_self]
      exact ⟨.waitRepeat 0, .inl rfl, .inl rfl⟩
    · change update _ _ _ c = _ at hc
      rw [update_apply, update_apply] at hc
      split_ifs at hc
    · change c ∈ t.timerList.map _ at hc
      rw [hfork.timerList, htimer, hinit.timerList] at hc
      exact absurd hc List.not_mem_nil
    · obtain ⟨hproc', hsleeps', -⟩ := (Procs.NoNews.evolves hsame hev).trans
        (hfork.news c) hproc hsleeps
      exact absurd hsleeps' (hawake c hproc')
    · rw [hinitp, hp'.exiting]
      exact hinit.exiting

/-- The invariant holds in every state the kernel reaches. -/
theorem Reached.tasks {Allowed : TaskEvent → Prop} (h : w.Reached Allowed) :
    w.Tasks := by
  induction h with
  | boot h => exact h.tasks.1
  | step _ _ he hv ih =>
    rcases ih.step he with ⟨v', hv', htasks, -⟩ | ⟨hnone, -⟩
    · cases hv.symm.trans hv'
      exact htasks
    · cases hv.symm.trans hnone

/-- No process kills `initproc`. -/
def SparesInit (e : TaskEvent) : Prop := e ≠ .call (.kill 1)

/-- While no one kills the init process, it does not exit. -/
theorem Reached.not_exiting (h : w.Reached SparesInit) :
    (w.procs.proc w.procs.initproc).exiting = false := by
  induction h with
  | boot h => exact h.tasks.2
  | @step w v e hw hspares he hv ih =>
    rcases hw.tasks.step he with ⟨v', hv', htasks, hg⟩ | ⟨hnone, -⟩
    · cases hv.symm.trans hv'
      rw [(hg hspares).initproc, (hg hspares).flag]
      exact ih
    · cases hv.symm.trans hnone

/-- Nothing stops the kernel, but for the end of `init_main`: when its last
child has been reaped, `initproc` leaves its loop and comes to `do_exit`. -/
theorem Reached.no_panic (h : w.Reached SparesInit) {e : TaskEvent}
    (he : w.Enabled e) : w.step e = none ↔ e = .go ∧ w.Finished := by
  constructor
  · intro hnone
    rcases h.tasks.step he with ⟨v, hv, -⟩ | ⟨-, hgo, hfin | hkilled⟩
    · cases hv.symm.trans hnone
    · exact ⟨hgo, hfin⟩
    · cases h.not_exiting.symm.trans hkilled.2.2
  · rintro ⟨rfl, hfin⟩
    exact h.tasks.finished hfin

theorem Reached.run {Allowed : TaskEvent → Prop} {es : List TaskEvent}
    (h : w.Reached Allowed) (hes : ∀ e ∈ es, Allowed e)
    (hv : w.run es = some v) : v.Reached Allowed := by
  induction es generalizing w with
  | nil => exact Option.some.inj hv ▸ h
  | cons e es ih =>
    rw [World.run] at hv
    split at hv
    case isFalse => cases hv
    case isTrue he =>
      obtain ⟨u, hu, hv⟩ := Option.bind_eq_some_iff.1 hv
      exact ih (h.step (hes e List.mem_cons_self) he hu)
        (fun e' he' => hes e' (List.mem_cons_of_mem e he')) hv

/-- A system with its shell: `idleproc`, `initproc` and one user process. -/
def booted : Option World :=
  (Procs.procInit (fun _ => Proc.alloc) 1 2 7 5 6).bind fun s =>
    s.schedule.bind fun s' => (s'.doFork 3 8 none none).bind fun r =>
      if ¬s'.IsProc 3 ∧ 0 < r.2 then
        some ⟨r.1, Function.update (Function.update (fun _ => .user)
          2 (.kernel (.waitRepeat 0))) 1 .idle⟩
      else none

theorem reached_of_booted {Allowed : TaskEvent → Prop} (h : booted = some w) :
    w.Reached Allowed := by
  obtain ⟨s, hs, h⟩ := Option.bind_eq_some_iff.1 h
  obtain ⟨s', hs', h⟩ := Option.bind_eq_some_iff.1 h
  obtain ⟨⟨t, pid⟩, ht, h⟩ := Option.bind_eq_some_iff.1 h
  split at h
  case isFalse => cases h
  case isTrue hok =>
    cases h
    exact .boot (.intro (by decide) hs hs' hok.1 ht hok.2)

/-- The shell exits, and `initproc` reaps it. -/
def shellExits : List TaskEvent :=
  [.go, .go, .call (.exit 0), .go, .go, .go]

theorem shellExits_spares : ∀ e ∈ shellExits, SparesInit e := by
  simp [shellExits, SparesInit]

/-- While the shell runs, a tick is no end of the kernel. -/
theorem no_panic_shell : ∃ w v, booted = some w ∧
    w.run [.go, .go] = some v ∧ v.step .tick ≠ none := by
  have hrun : (booted.bind fun w => w.run [.go, .go]).isSome = true := by
    decide +kernel
  obtain ⟨v, hv⟩ := Option.isSome_iff_exists.1 hrun
  obtain ⟨w, hw, hv⟩ := Option.bind_eq_some_iff.1 hv
  have hreached : v.Reached SparesInit :=
    (reached_of_booted hw).run (by simp [SparesInit]) hv
  refine ⟨w, v, hw, hv, fun hnone => ?_⟩
  have hstop := (hreached.no_panic (e := .tick) trivial).1 hnone
  exact TaskEvent.noConfusion hstop.1

/-- When the shell has exited, the kernel stops at `do_exit` of
`initproc`. -/
theorem panic_shellExits : ∃ w v, booted = some w ∧
    w.run shellExits = some v ∧ v.Reached SparesInit ∧ v.step .go = none := by
  have hrun : (booted.bind fun w => w.run shellExits).map
      (fun v => (v.step .go).isNone) = some true := by
    decide +kernel
  obtain ⟨v, hv, hnone⟩ := Option.map_eq_some_iff.1 hrun
  obtain ⟨w, hw, hv⟩ := Option.bind_eq_some_iff.1 hv
  exact ⟨w, v, hw, hv, (reached_of_booted hw).run shellExits_spares hv,
    Option.isNone_iff_eq_none.1 hnone⟩

/-- A kill of `initproc` stops the kernel as well: it comes out of `do_wait`
and enters `do_exit`. -/
example : (booted.bind fun w => w.run [.go, .go, .call (.kill 1), .go,
    .call .yield, .go]).map (fun v => (v.procs.current, (v.step .go).isNone))
      = some (2, true) := by
  decide +kernel

end World

end MipsUcore.Kern
