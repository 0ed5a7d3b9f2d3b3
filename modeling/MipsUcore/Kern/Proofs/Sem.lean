/-
Semaphores are safe and lose no wake-up.

# The invariant

A thread in `down` is either on the wait queue, and sleeps with `WT_KSEM`,
or it has been handed a unit, and is runnable with `WT_KSEM` in its
`wakeup_flags` (`Inv`). No event of the process table wakes the former or
stops the latter, since nothing but `up` wakes a thread with `WT_KSEM`:
the wait state is not interruptible.

# The count

What was there at first and what was put back is what is left and what was
taken (`Counts`), as long as the `int` does not run over.
-/
import MipsUcore.Kern.Proofs.Waiting
import MipsUcore.Kern.Sem

namespace MipsUcore.Kern

open Function

-- ===== those who wait are left alone

namespace Procs

/-- `q` waits for a semaphore. -/
structure Parked (s : Procs) (q : Nat) : Prop where
  listed : q ∈ s.procList
  state : (s.proc q).state = .sleeping
  waitState : (s.proc q).waitState = .ksem

theorem Parked.notRunning {s : Procs} {q : Nat} (h : s.Parked q)
    (hrun : s.Running) : q ≠ s.current := by
  rintro rfl
  exact absurd (h.state.symm.trans hrun) (by decide)

/-- `current` is another one. -/
theorem Parked.setCurrent {s t : Procs} {q : Nat} (h : s.Parked q)
    (hrun : s.Running) (f : Proc → Proc)
    (hproc : t.proc = (s.setProc s.current f).proc) : Still s t q := by
  rw [Still, hproc]
  exact Still.setProc s f (h.notRunning hrun)

theorem Inv.runTimerList_current {s t : Procs} (h : s.Inv)
    (hs : s.runTimerList = some t) : t.current = s.current := by
  obtain ⟨t', ht', -, hcur, -⟩ := h.runTimerList
  cases hs.symm.trans ht'
  exact hcur

end Procs

namespace Table

variable {t u : Table} {e : ProcEvent} {q : Nat}

theorem Effect.listed (h : Effect t u e) (hq : q ∈ t.procs.procList)
    (hlive : (t.procs.proc q).state ≠ .zombie) : q ∈ u.procs.procList := by
  cases h with
  | quiet log procList kstack zombie => exact procList ▸ hq
  | birth p kstack unused log procList new old =>
    exact (procList q).2 (.inr hq)
  | death pid p event listed zombie parent log procList gone same =>
    exact (procList q).2 ⟨fun heq => hlive (heq ▸ zombie), hq⟩

variable (h : t.procs.Inv) (hi : t.procs.Init) (hpos : t.procs.Possible e)
  (hu : t.apply e = some u)

section
include h hi hpos hu

/-- Only `wakeup_proc` itself wakes a thread that waits for a semaphore. -/
theorem still (hq : t.procs.Parked q) (hw : e ≠ .wakeup q) :
    Procs.Still t.procs u.procs q := by
  cases moves h hi hpos hu with
  | own f hrun _ _ hproc => exact hq.setCurrent hrun f hproc
  | @born p kstack mm fs pid safe s hrun hp hwake =>
    have hqp : q ≠ p := fun heq => hp (.inr (heq ▸ hq.listed))
    have hborn : (if q = p then t.procs.newProc kstack mm fs pid
        else t.procs.proc q).SameOwn ((t.procs.born p
          (t.procs.newProc kstack mm fs pid) pid safe).proc q) :=
      Procs.born_own (c := t.procs.current) rfl q
    rw [if_neg hqp] at hborn
    exact Procs.Still.trans ⟨hborn.state, hborn.waitState⟩
      (.wakeupProc hwake hqp)
  | @exit errorCode _ _ hexit hs =>
    have hdied : Procs.Still t.procs (t.procs.died errorCode) q :=
      .setProc _ _ (hq.notRunning hpos.1)
    exact hdied.trans ((hexit.onward.ksem q (hdied.2.trans hq.waitState)).trans
      ((Procs.schedule_some hs).2.2 q))
  | @reap p _ _ _ heq =>
    have hown := (Procs.SameSched.reap t.procs p).own q
    rw [heq]
    exact ⟨hown.state, hown.waitState⟩
  | kill hs =>
    rcases Procs.doKill_some hs with heq | ⟨p, v, -, rfl, hwake⟩
    · exact heq ▸ .refl _ q
    have hflag : Procs.Still t.procs (t.procs.setProc p fun x =>
        { x with exiting := true }) q := by
      rw [Procs.Still, Procs.setProc_field Proc.state,
        Procs.setProc_field Proc.waitState, ite_self, ite_self]
      exact ⟨rfl, rfl⟩
    rcases hwake with ⟨hint, hwake⟩ | ⟨-, heq⟩
    · refine hflag.trans (.wakeupProc hwake ?_)
      rintro rfl
      rw [hflag.2, hq.waitState] at hint
      exact Bool.false_ne_true hint
    · exact heq ▸ hflag
  | wakeup hs => exact .wakeupProc hs fun heq => hw (heq ▸ rfl)
  | tick hs => exact .runTimerList hs hq.waitState
  | schedule hs => exact (Procs.schedule_some hs).2.2 q

theorem parked (hq : t.procs.Parked q) (hw : e ≠ .wakeup q) : u.procs.Parked q
    := by
  have hstill := still h hi hpos hu hq hw
  have hlive : (t.procs.proc q).state ≠ .zombie := by
    rw [hq.state]
    decide
  exact ⟨(goes_of_apply h hi hpos hu).effect.listed hq.listed hlive,
    hstill.1.trans hq.state, hstill.2.trans hq.waitState⟩

/-- One that does nothing itself is stopped by nothing. -/
theorem runnable (hlisted : q ∈ t.procs.procList)
    (hstate : (t.procs.proc q).state = .runnable) (hne : q ≠ t.procs.current) :
    q ∈ u.procs.procList ∧ (u.procs.proc q).state = .runnable := by
  have hspares : Procs.Spares t.procs u.procs := by
    rcases spares h hi hpos hu with hquiet | ⟨errorCode, s, -, hexit, hs⟩
    · exact hquiet.toSpares
    · exact .exited hexit hs
  have hlive : (t.procs.proc q).state ≠ .zombie := by
    rw [hstate]
    decide
  exact ⟨(goes_of_apply h hi hpos hu).effect.listed hlisted hlive,
    (hspares.others q (.inr hlisted) hne).runnable hstate⟩

/-- Who runs after an event either ran before or has been dispatched. -/
theorem current_eq : u.procs.current = t.procs.current ∨ u.procs.Running := by
  cases moves h hi hpos hu with
  | own _ _ _ hcur _ => exact .inl hcur
  | born hrun hp hwake => exact .inl (h.forked hrun hp hwake).current
  | exit hexit hs => exact .inr (hexit.inv.schedule_running hs)
  | @reap p _ _ _ heq =>
    exact .inl (heq ▸ (Procs.SameSched.reap t.procs p).current)
  | kill hs =>
    rcases Procs.doKill_some hs with heq | ⟨p, v, -, rfl, hwake⟩
    · exact .inl (congrArg Procs.current heq)
    rcases hwake with ⟨-, hwake⟩ | ⟨-, heq⟩
    · exact .inl ((Procs.wakeupProc_lists hwake).2.trans rfl)
    · exact .inl ((congrArg Procs.current heq).trans rfl)
  | wakeup hs => exact .inl (Procs.wakeupProc_lists hs).2
  | tick hs => exact .inl (h.runTimerList_current hs)
  | schedule hs => exact .inr (h.schedule_running hs)

end

/-- The two events that are not something `current` does. -/
def Outside (e : ProcEvent) : Prop := e = .tick ∨ ∃ p, e = .wakeup p

theorem Outside.evolves (h : t.procs.Inv) (he : Outside e)
    (hu : t.apply e = some u) : u.procs.current = t.procs.current ∧
      ∀ q, (t.procs.proc q).Evolves (u.procs.proc q) := by
  rcases he with rfl | ⟨p, rfl⟩
  · obtain ⟨s, hs, rfl⟩ := Option.map_eq_some_iff.1 hu
    exact ⟨h.runTimerList_current hs, (Procs.Wakes.runTimerList hs).evolves⟩
  · obtain ⟨s, hs, rfl⟩ := Option.map_eq_some_iff.1 hu
    exact ⟨(Procs.wakeupProc_lists hs).2, (Procs.Wakes.wakeupProc hs).evolves⟩

end Table

-- ===== the invariant

namespace SemWorld

variable {w v : SemWorld} {p q : Nat}

/-- A unit has been handed to `p`, which will find it when it runs. -/
structure Handed (w : SemWorld) (p : Nat) : Prop where
  listed : p ∈ w.procs.procList
  state : (w.procs.proc p).state = .runnable
  flags : w.wakeupFlags p = WaitState.ksem.bits

structure Inv (w : SemWorld) : Prop where
  inv : w.procs.Inv
  init : w.procs.Init
  nodup : w.waitQueue.Nodup
  waiting : ∀ p ∈ w.waitQueue, w.procs.Parked p ∧ w.point p ≠ .out
  handed : ∀ p, w.point p ≠ .out → p ∉ w.waitQueue → w.Handed p
  off : ∀ p, w.point p = .schedule → p = w.procs.current
  running : w.point w.procs.current = .back → w.procs.Running

theorem Inv.semInit {t : Table} (h : t.Reached) (flags : Nat → Nat)
    (value : Int) : (SemWorld.semInit t.procs flags value).Inv :=
  ⟨h.inv.1, h.inv.2, List.nodup_nil, fun _ hp => absurd hp List.not_mem_nil,
    fun _ hp => absurd rfl hp, fun _ hp => DownPoint.noConfusion hp,
    fun hp => DownPoint.noConfusion hp⟩

/-- The value and the log are not part of it. -/
theorem Inv.count (h : w.Inv) (value : Int) (log : List SemAction) :
    Inv { w with value := value, log := log } := by
  refine ⟨h.inv, h.init, h.nodup, h.waiting, fun p hp hnot => ?_, h.off,
    h.running⟩
  obtain ⟨hlisted, hstate, hflags⟩ := h.handed p hp hnot
  exact ⟨hlisted, hstate, hflags⟩

theorem up_nil (hqueue : w.waitQueue = []) : w.up = some { w with
      value := toInt (w.value + 1)
      log := w.log ++ [.upped w.procs.current] } := by
  rw [up]
  split
  case h_1 => rfl
  case h_2 p rest heq => exact absurd (hqueue.symm.trans heq) (by simp)

section Steps

variable (h : w.Inv)
include h

theorem Inv.notQueued (hrun : w.procs.Running) :
    w.procs.current ∉ w.waitQueue :=
  fun hin => (h.waiting _ hin).1.notRunning hrun rfl

/-- `current` moves on, and the others stay as they are. -/
theorem Inv.moves {x : DownPoint} (hinv : v.procs.Inv) (hinit : v.procs.Init)
    (hpoint : v.point = update w.point w.procs.current x)
    (hlist : v.procs.procList = w.procs.procList) (hnodup : v.waitQueue.Nodup)
    (hqueue : ∀ p, p ≠ w.procs.current → (p ∈ v.waitQueue ↔ p ∈ w.waitQueue))
    (hstill : ∀ p, p ≠ w.procs.current → Procs.Still w.procs v.procs p ∧
      v.wakeupFlags p = w.wakeupFlags p)
    (hwaits : w.procs.current ∈ v.waitQueue →
      v.procs.Parked w.procs.current ∧ x ≠ .out)
    (hhanded : w.procs.current ∉ v.waitQueue → x ≠ .out →
      v.Handed w.procs.current)
    (hoff : x = .schedule → v.procs.current = w.procs.current)
    (hrun : v.procs.Running ∨ v.procs.current = w.procs.current ∧ x ≠ .back) :
    v.Inv := by
  have hself : v.point w.procs.current = x := by
    rw [hpoint, update_self]
  have hother : ∀ p, p ≠ w.procs.current → v.point p = w.point p :=
    fun p hp => hpoint ▸ update_of_ne hp ..
  refine ⟨hinv, hinit, hnodup, fun p hp => ?_, fun p hp hnot => ?_,
    fun p hp => ?_, fun hback => ?_⟩
  · rcases eq_or_ne p w.procs.current with rfl | hpc
    · exact hself ▸ hwaits hp
    · obtain ⟨hparked, hin⟩ := h.waiting p ((hqueue p hpc).1 hp)
      obtain ⟨⟨hstate, hwait⟩, -⟩ := hstill p hpc
      exact ⟨⟨hlist ▸ hparked.listed, hstate.trans hparked.state,
        hwait.trans hparked.waitState⟩, hother p hpc ▸ hin⟩
  · rcases eq_or_ne p w.procs.current with rfl | hpc
    · exact hhanded hnot (hself ▸ hp)
    · have hold := h.handed p (hother p hpc ▸ hp)
        fun hin => hnot ((hqueue p hpc).2 hin)
      obtain ⟨⟨hstate, -⟩, hflags⟩ := hstill p hpc
      exact ⟨hlist ▸ hold.listed, hstate.trans hold.state,
        hflags.trans hold.flags⟩
  · rcases eq_or_ne p w.procs.current with rfl | hpc
    · exact (hoff (hself ▸ hp)).symm
    · exact absurd (h.off p (hother p hpc ▸ hp)) hpc
  · rcases hrun with hrun | ⟨hcur, hne⟩
    · exact hrun
    · rw [hcur, hself] at hback
      exact absurd hback hne

/-- `current` queues up and goes to sleep. -/
theorem Inv.queues (hidle : w.Idle)
    (hne : w.procs.current ≠ w.procs.idleproc) : Inv
      { w.waitCurrentSet .ksem with
        point := update w.point w.procs.current .schedule
        log := w.log ++ [.queued w.procs.current] } := by
  obtain ⟨hfree, hout⟩ := hidle
  have hself : (w.procs.slept .ksem).proc w.procs.current =
      { w.procs.proc w.procs.current with
        state := .sleeping, waitState := .ksem } :=
    Procs.setProc_self ..
  have hstill : ∀ p, p ≠ w.procs.current →
      Procs.Still w.procs (w.procs.slept .ksem) p :=
    fun p hp => .setProc _ _ hp
  have hin : w.procs.current ∈ w.waitQueue ++ [w.procs.current] :=
    List.mem_append_right _ (List.mem_singleton_self _)
  refine h.moves (x := .schedule) (h.inv.slept hfree.1 hne hfree.notMem .ksem)
    (h.init.same (.slept hfree.1.live WaitState.ksem)) rfl rfl ?_
    (fun p hp => ?_)
    (fun p hp => ⟨hstill p hp, update_of_ne hp ..⟩)
    (fun _ => ⟨⟨h.inv.queue.current.resolve_left hne, ?_, ?_⟩,
      DownPoint.noConfusion⟩)
    (fun hnot => absurd hin hnot) (fun _ => rfl)
    (.inr ⟨rfl, DownPoint.noConfusion⟩)
  · change (w.waitQueue ++ [w.procs.current]).Nodup
    rw [← List.concat_eq_append]
    exact h.nodup.concat (h.notQueued hfree.1)
  · change p ∈ w.waitQueue ++ [w.procs.current] ↔ _
    simp [hp]
  · exact congrArg Proc.state hself
  · exact congrArg Proc.waitState hself

/-- The first in the queue is handed a unit. -/
theorem Inv.wakes {rest : List Nat} (hqueue : w.waitQueue = p :: rest)
    (hout : w.point w.procs.current = .out) :
    ∃ v, w.wakeupWait p WaitState.ksem.bits = some v ∧ v.Inv ∧
      v.waitQueue = rest ∧ v.value = w.value := by
  have hin : p ∈ w.waitQueue := hqueue ▸ List.mem_cons_self
  obtain ⟨hparked, hpoint⟩ := h.waiting p hin
  have hlive : (w.procs.proc p).state ≠ .zombie := by
    rw [hparked.state]
    decide
  obtain ⟨s, hs, hinv, -⟩ := h.inv.wakeupProc (.inr hparked.listed) hlive
  have hsame := (Procs.Wakes.wakeupProc hs).toSameTree
  have hev := (Procs.Wakes.wakeupProc hs).evolves
  have hcur := (Procs.wakeupProc_lists hs).2
  have hrest : w.waitQueue.erase p = rest := by
    rw [hqueue, List.erase_cons_head]
  have hnodup := h.nodup
  rw [hqueue] at hnodup
  obtain ⟨hnotin, hnodup⟩ := List.nodup_cons.1 hnodup
  refine ⟨{ w with
    procs := s
    waitQueue := w.waitQueue.erase p
    wakeupFlags := update w.wakeupFlags p WaitState.ksem.bits },
    ?_, ?_, hrest, rfl⟩
  · rw [wakeupWait, hs]
    rfl
  refine ⟨hinv, h.init.same hsame, hrest ▸ hnodup, fun q hq => ?_,
    fun q hq hnot => ?_, fun q hq => (h.off q hq).trans hcur.symm,
    fun hback => ?_⟩
  · rw [hrest] at hq
    obtain ⟨hq', hqpoint⟩ := h.waiting q (hqueue ▸ List.mem_cons_of_mem p hq)
    have hstill : Procs.Still w.procs s q :=
      .wakeupProc hs fun heq => hnotin (heq ▸ hq)
    exact ⟨⟨hsame.procList ▸ hq'.listed, hstill.1.trans hq'.state,
      hstill.2.trans hq'.waitState⟩, hqpoint⟩
  · by_cases hqp : q = p
    · rw [hqp]
      exact ⟨hsame.procList ▸ hparked.listed, Procs.wakeupProc_runnable hs,
        update_self ..⟩
    · have hold : q ∉ w.waitQueue := by
        rw [hqueue]
        intro hq'
        refine hnot ?_
        rw [hrest]
        exact (List.mem_cons.1 hq').resolve_left hqp
      have hhanded := h.handed q hq hold
      exact ⟨hsame.procList ▸ hhanded.listed,
        ((hev q).runnable hhanded.state).1,
        (update_of_ne hqp ..).trans hhanded.flags⟩
  · rw [hcur, hout] at hback
    exact DownPoint.noConfusion hback

theorem Inv.up_cons {rest : List Nat} (hqueue : w.waitQueue = p :: rest)
    (hout : w.point w.procs.current = .out) :
    ∃ v, w.up = some v ∧ v.Inv ∧ v.waitQueue = rest ∧ v.value = w.value ∧
      v.log = w.log ++ [.upped w.procs.current, .handed p] := by
  have hparked := (h.waiting p (hqueue ▸ List.mem_cons_self)).1
  obtain ⟨v, hv, hinv, hrest, hvalue⟩ := h.wakes hqueue hout
  refine ⟨{ v with log := w.log ++ [.upped w.procs.current, .handed p] },
    ?_, hinv.count _ _, hrest, hvalue, rfl⟩
  rw [up]
  split
  case h_1 heq => exact absurd (hqueue.symm.trans heq) (by simp)
  case h_2 q rest' heq =>
    obtain ⟨rfl, rfl⟩ := List.cons.inj (hqueue.symm.trans heq)
    rw [if_pos hparked.waitState, hv]
    rfl

/-- A thread in `down` calls `schedule`. -/
theorem Inv.switches (hpoint : w.point w.procs.current = .schedule) :
    ∃ v, w.go .schedule = some v ∧ v.Inv := by
  obtain ⟨s, hs, hinv, -⟩ := h.inv.schedule
  obtain ⟨⟨hsame, -⟩, -, hstill⟩ := Procs.schedule_some hs
  refine ⟨{ w with
    procs := s
    point := update w.point w.procs.current .back }, ?_,
    h.moves (x := .back) hinv (h.init.same hsame) rfl hsame.procList h.nodup
      (fun p _ => Iff.rfl) (fun p _ => ⟨hstill p, rfl⟩)
      (fun hin => ?_) (fun hnot _ => ?_) DownPoint.noConfusion
      (.inl (h.inv.schedule_running hs))⟩
  · rw [go, hs]
    rfl
  · obtain ⟨hparked, -⟩ := h.waiting _ hin
    exact ⟨⟨hsame.procList ▸ hparked.listed, (hstill _).1.trans hparked.state,
      (hstill _).2.trans hparked.waitState⟩, DownPoint.noConfusion⟩
  · have hhanded := h.handed _ (hpoint ▸ DownPoint.noConfusion) hnot
    exact ⟨hsame.procList ▸ hhanded.listed,
      (hstill _).1.trans hhanded.state, hhanded.flags⟩

/-- A thread that runs again in `down` has been handed its unit. -/
theorem Inv.returns (hpoint : w.point w.procs.current = .back) :
    ∃ v, w.downBack = some v ∧ v.Inv ∧ v.waitQueue = w.waitQueue ∧
      v.value = w.value ∧ v.log = w.log := by
  have hnot := h.notQueued (h.running hpoint)
  have hhanded := h.handed w.procs.current
    (by rw [hpoint]; exact DownPoint.noConfusion) hnot
  have herase : w.waitQueue.erase w.procs.current = w.waitQueue :=
    List.erase_of_not_mem hnot
  refine ⟨_, if_neg fun hbad => hbad.1 hhanded.flags, ?_, herase, rfl, rfl⟩
  refine h.moves (x := .out) h.inv h.init rfl rfl ?_ (fun p _ => ?_)
    (fun p _ => ⟨.refl _ p, rfl⟩) (fun hin => absurd ?_ hnot)
    (fun _ hx => absurd rfl hx) DownPoint.noConfusion
    (.inr ⟨rfl, DownPoint.noConfusion⟩)
  · rw [herase]
    exact h.nodup
  · rw [herase]
  · exact List.mem_of_mem_erase hin

omit h in
theorem Enabled.table {e : ProcEvent} (he : w.Enabled (.table e)) :
    w.procs.Possible e ∧ (w.point w.procs.current = .out ∨ Table.Outside e) ∧
      ∀ p, w.point p ≠ .out → e ≠ .wakeup p := by
  cases e with
  | tick =>
    exact ⟨trivial, .inr (.inl rfl), fun p _ => ProcEvent.noConfusion⟩
  | wakeup q =>
    refine ⟨he.1, .inr (.inr ⟨q, rfl⟩), fun p hp heq => hp ?_⟩
    exact ProcEvent.wakeup.inj heq ▸ he.2
  | _ => exact ⟨he.1, .inl he.2, fun p _ => ProcEvent.noConfusion⟩

/-- Whatever else happens in the kernel. -/
theorem Inv.table {e : ProcEvent} {u : Table} (he : w.Enabled (.table e))
    (hu : Table.apply ⟨w.procs, []⟩ e = some u) :
    Inv { w with procs := u.procs } := by
  obtain ⟨hpos, hactor, hwake⟩ := he.table
  have hgoes := Table.goes_of_apply (t := ⟨w.procs, []⟩) h.inv h.init hpos hu
  refine ⟨hgoes.inv, hgoes.init, h.nodup, fun p hp => ?_,
    fun p hp hnot => ?_, fun p hp => ?_, fun hback => ?_⟩
  · obtain ⟨hparked, hin⟩ := h.waiting p hp
    exact ⟨Table.parked (t := ⟨w.procs, []⟩) h.inv h.init hpos hu hparked
      (hwake p hin), hin⟩
  · have hhanded := h.handed p hp hnot
    have hrun : p ∈ u.procs.procList ∧ (u.procs.proc p).state = .runnable := by
      by_cases hpc : p = w.procs.current
      · have hout := hactor.resolve_left (hpc ▸ hp)
        obtain ⟨-, hev⟩ := hout.evolves (t := ⟨w.procs, []⟩) h.inv hu
        have hlive : (w.procs.proc p).state ≠ .zombie := by
          rw [hhanded.state]
          decide
        exact ⟨hgoes.effect.listed hhanded.listed hlive,
          ((hev p).runnable hhanded.state).1⟩
      · exact Table.runnable (t := ⟨w.procs, []⟩) h.inv h.init hpos hu
          hhanded.listed hhanded.state hpc
    exact ⟨hrun.1, hrun.2, hhanded.flags⟩
  · have hpc := h.off p hp
    have hnotout : w.point w.procs.current ≠ .out := by
      rw [← hpc, show w.point p = .schedule from hp]
      exact DownPoint.noConfusion
    obtain ⟨hcur, -⟩ := (hactor.resolve_left hnotout).evolves
      (t := ⟨w.procs, []⟩) h.inv hu
    exact hpc.trans hcur.symm
  · rcases hactor with hout | hout
    · rcases Table.current_eq (t := ⟨w.procs, []⟩) h.inv h.init hpos hu with
        hcur | hrun
      · rw [hcur] at hback
        exact DownPoint.noConfusion (hback.symm.trans hout)
      · exact hrun
    · obtain ⟨hcur, hev⟩ := hout.evolves (t := ⟨w.procs, []⟩) h.inv hu
      rw [hcur] at hback
      change (u.procs.proc u.procs.current).state = .runnable
      rw [hcur]
      exact ((hev _).runnable (h.running hback)).1

/-- Every event goes through, but for an exit of `initproc` or `idleproc`. -/
theorem Inv.step {e : SemEvent} (he : w.Enabled e) :
    (∃ v, w.step e = some v ∧ v.Inv) ∨
      w.step e = none ∧ (∃ errorCode, e = .table (.exit errorCode)) ∧
        (w.procs.current = w.procs.idleproc ∨
          w.procs.current = w.procs.initproc) := by
  cases e with
  | down =>
    refine .inl ⟨_, rfl, ?_⟩
    rw [down]
    split
    · exact h.count _ _
    · exact h.queues he.1 he.2
  | tryDown =>
    refine .inl ⟨_, rfl, ?_⟩
    rw [tryDown]
    split
    · exact h.count _ _
    · exact h
  | up =>
    refine .inl ?_
    cases hqueue : w.waitQueue with
    | nil => exact ⟨_, up_nil hqueue, h.count _ _⟩
    | cons p rest =>
      obtain ⟨v, hv, hinv, -⟩ := h.up_cons hqueue he.2
      exact ⟨v, hv, hinv⟩
  | go =>
    refine .inl ?_
    rw [SemWorld.step]
    cases hpoint : w.point w.procs.current with
    | out => exact ⟨w, rfl, h⟩
    | schedule => exact h.switches hpoint
    | back =>
      obtain ⟨v, hv, hinv, -⟩ := h.returns hpoint
      exact ⟨v, hv, hinv⟩
  | table e =>
    obtain ⟨hpos, -, -⟩ := he.table
    rcases Table.goes (t := ⟨w.procs, []⟩) h.inv h.init hpos with
      ⟨u, hu, -⟩ | ⟨⟨errorCode, rfl⟩, hnone, hwho⟩
    · refine .inl ⟨{ w with procs := u.procs }, ?_, h.table he hu⟩
      rw [SemWorld.step, hu]
      rfl
    · refine .inr ⟨?_, ⟨errorCode, rfl⟩, hwho⟩
      rw [SemWorld.step, hnone]
      rfl

end Steps

-- ===== the count

/-- What an event does to the semaphore. -/
inductive Change (w v : SemWorld) (e : SemEvent) : Prop
  | same (value : v.value = w.value) (queue : v.waitQueue = w.waitQueue)
      (log : v.log = w.log)
  | take (pos : 0 < w.value) (value : v.value = toInt (w.value - 1))
      (queue : v.waitQueue = w.waitQueue)
      (log : v.log = w.log ++ [.granted w.procs.current])
  | queue (pos : ¬0 < w.value) (value : v.value = w.value)
      (queue : v.waitQueue = w.waitQueue ++ [w.procs.current])
      (log : v.log = w.log ++ [.queued w.procs.current])
  | put (event : e = .up) (empty : w.waitQueue = [])
      (value : v.value = toInt (w.value + 1)) (queue : v.waitQueue = [])
      (log : v.log = w.log ++ [.upped w.procs.current])
  | hand (p : Nat) (event : e = .up) (value : v.value = w.value)
      (queue : w.waitQueue = p :: v.waitQueue)
      (log : v.log = w.log ++ [.upped w.procs.current, .handed p])

theorem Inv.change (h : w.Inv) {e : SemEvent} (he : w.Enabled e)
    (hv : w.step e = some v) : Change w v e := by
  cases e with
  | down =>
    cases hv
    rw [down]
    split
    case isTrue hpos => exact .take hpos rfl rfl rfl
    case isFalse hpos => exact .queue hpos rfl rfl rfl
  | tryDown =>
    cases hv
    rw [tryDown]
    split
    case isTrue hpos => exact .take hpos rfl rfl rfl
    case isFalse => exact .same rfl rfl rfl
  | up =>
    cases hqueue : w.waitQueue with
    | nil =>
      obtain rfl := Option.some.inj (hv.symm.trans (up_nil hqueue))
      exact .put rfl hqueue rfl hqueue rfl
    | cons p rest =>
      obtain ⟨v', hv', -, hrest, hvalue, hlog⟩ := h.up_cons hqueue he.2
      cases hv.symm.trans hv'
      exact .hand p rfl hvalue (hrest ▸ hqueue) hlog
  | go =>
    rw [SemWorld.step] at hv
    cases hpoint : w.point w.procs.current with
    | out =>
      rw [hpoint] at hv
      exact Option.some.inj hv ▸ .same rfl rfl rfl
    | schedule =>
      rw [hpoint] at hv
      obtain ⟨s, -, rfl⟩ := Option.map_eq_some_iff.1 hv
      exact .same rfl rfl rfl
    | back =>
      rw [hpoint] at hv
      obtain ⟨v', hv', -, hqueue, hvalue, hlog⟩ := h.returns hpoint
      cases hv.symm.trans hv'
      exact .same hvalue hqueue hlog
  | table e =>
    obtain ⟨u, -, rfl⟩ := Option.map_eq_some_iff.1 hv
    exact .same rfl rfl rfl

/-- `up`s that are done. -/
def ups (log : List SemAction) : Nat :=
  log.countP fun
    | .upped _ => true
    | _ => false

/-- `down`s and `try_down`s that have got their unit. -/
def grants (log : List SemAction) : Nat :=
  log.countP fun
    | .granted _ => true
    | .handed _ => true
    | _ => false

/-- Who has queued, in order. -/
def queuedOrder (log : List SemAction) : List Nat :=
  log.filterMap fun
    | .queued p => some p
    | _ => none

/-- Who has been handed a unit, in order. -/
def handedOrder (log : List SemAction) : List Nat :=
  log.filterMap fun
    | .handed p => some p
    | _ => none

theorem ups_append (l l' : List SemAction) : ups (l ++ l') = ups l + ups l' :=
  List.countP_append

theorem grants_append (l l' : List SemAction) :
    grants (l ++ l') = grants l + grants l' := List.countP_append

theorem queuedOrder_append (l l' : List SemAction) :
    queuedOrder (l ++ l') = queuedOrder l ++ queuedOrder l' :=
  List.filterMap_append

theorem handedOrder_append (l l' : List SemAction) :
    handedOrder (l ++ l') = handedOrder l ++ handedOrder l' :=
  List.filterMap_append

def intMax : Int := 2 ^ 31 - 1

structure Counts (value : Int) (w : SemWorld) : Prop where
  nonneg : 0 ≤ w.value
  le : w.value ≤ intMax
  empty : 0 < w.value → w.waitQueue = []
  count : value + ups w.log = w.value + grants w.log
  order : queuedOrder w.log = handedOrder w.log ++ w.waitQueue

/-- An `up` does not find the value at its end. -/
def Fits (w : SemWorld) (e : SemEvent) : Prop :=
  e = .up → w.waitQueue = [] → w.value < intMax

theorem toInt_eq {x : Int} (hpos : 0 ≤ x) (hle : x ≤ intMax) :
    toInt x = x := by
  have hmax : intMax = 2147483647 := rfl
  refine Int.bmod_eq_of_le ?_ ?_
  · omega
  · omega

/-- What an event writes to the log accounts for what it changes. -/
theorem Counts.logged {value : Int} {l : List SemAction}
    (hc : Counts value w) (hlog : v.log = w.log ++ l) (hpos : 0 ≤ v.value)
    (hle : v.value ≤ intMax) (hempty : 0 < v.value → v.waitQueue = [])
    (hcount : w.value + ups l = v.value + grants l)
    (horder : w.waitQueue ++ queuedOrder l = handedOrder l ++ v.waitQueue) :
    Counts value v := by
  refine ⟨hpos, hle, hempty, ?_, ?_⟩
  · have hbefore := hc.count
    rw [hlog, ups_append, grants_append]
    omega
  · rw [hlog, queuedOrder_append, handedOrder_append, hc.order,
      List.append_assoc, horder, List.append_assoc]

theorem Counts.change {value : Int} {e : SemEvent} (hc : Counts value w)
    (hfits : Fits w e) (h : Change w v e) : Counts value v := by
  have hnonneg := hc.nonneg
  have hle := hc.le
  cases h with
  | same hvalue hqueue hlog =>
    exact ⟨hvalue ▸ hnonneg, hvalue ▸ hle, fun hpos => hqueue ▸
      hc.empty (hvalue ▸ hpos), by rw [hlog, hvalue]; exact hc.count,
      by rw [hlog, hqueue]; exact hc.order⟩
  | take hpos hvalue hqueue hlog =>
    rw [toInt_eq (by omega) (by omega)] at hvalue
    refine hc.logged hlog (by omega) (by omega)
      (fun _ => hqueue ▸ hc.empty hpos) ?_ ?_
    · simp [ups, grants, hvalue]
    · rw [hqueue]
      exact List.append_nil _
  | queue hpos hvalue hqueue hlog =>
    exact hc.logged hlog (hvalue ▸ hnonneg) (hvalue ▸ hle)
      (fun hpos' => absurd (hvalue ▸ hpos') hpos) (hvalue ▸ rfl) hqueue.symm
  | put hevent hempty hvalue hqueue hlog =>
    have hlt := hfits hevent hempty
    rw [toInt_eq (by omega) (by omega)] at hvalue
    refine hc.logged hlog (by omega) (by omega) (fun _ => hqueue) ?_ ?_
    · simp [ups, grants, hvalue]
    · rw [hempty, hqueue]
      rfl
  | hand p hevent hvalue hqueue hlog =>
    have hzero : ¬0 < w.value := by
      intro hpos
      rw [hc.empty hpos] at hqueue
      exact List.cons_ne_nil _ _ hqueue.symm
    refine hc.logged hlog (hvalue ▸ hnonneg) (hvalue ▸ hle)
      (fun hpos => absurd (hvalue ▸ hpos) hzero) (hvalue ▸ rfl) ?_
    rw [hqueue]
    exact List.append_nil _

-- ===== whole runs

section Runs

variable {value : Int} {Allowed : SemWorld → SemEvent → Prop}

theorem Reached.inv (h : w.Reached Allowed value) : w.Inv := by
  induction h with
  | init ht => exact .semInit ht _ _
  | step _ _ he hv ih =>
    rcases ih.step he with ⟨v', hv', hinv⟩ | ⟨hnone, -⟩
    · cases hv.symm.trans hv'
      exact hinv
    · cases hv.symm.trans hnone

theorem Counts.semInit (hpos : 0 ≤ value) (hle : value ≤ intMax)
    (procs : Procs) (flags : Nat → Nat) :
    Counts value (SemWorld.semInit procs flags value) :=
  ⟨hpos, hle, fun _ => rfl, rfl, rfl⟩

theorem Reached.counts (h : w.Reached Fits value) (hpos : 0 ≤ value)
    (hle : value ≤ intMax) : Counts value w := by
  induction h with
  | init ht => exact .semInit hpos hle _ _
  | step hw hfits he hv ih => exact ih.change hfits (hw.inv.change he hv)

/-- Who holds a unit. -/
def holders (log : List SemAction) : List Nat :=
  log.foldl (fun holders a => match a with
    | .granted p => p :: holders
    | .handed p => p :: holders
    | .queued _ => holders
    | .upped p => holders.erase p) []

/-- Only those that hold a unit call `up`. -/
def AsLock (w : SemWorld) (e : SemEvent) : Prop :=
  e = .up → w.procs.current ∈ holders w.log

theorem holders_change {e : SemEvent} (hlock : AsLock w e) (h : Change w v e)
    (hw : (holders w.log).length + ups w.log = grants w.log) :
    (holders v.log).length + ups v.log = grants v.log := by
  cases h with
  | same hvalue hqueue hlog => rw [hlog]; exact hw
  | take hpos hvalue hqueue hlog =>
    rw [hlog, ups_append, grants_append, holders, List.foldl_append]
    change (holders w.log).length + 1 + (ups w.log + 0) = grants w.log + 1
    omega
  | queue hpos hvalue hqueue hlog =>
    rw [hlog, ups_append, grants_append, holders, List.foldl_append]
    exact hw
  | put hevent hempty hvalue hqueue hlog =>
    have hin := hlock hevent
    have hlen := List.length_erase_of_mem hin
    have hpos := List.length_pos_of_mem hin
    rw [hlog, ups_append, grants_append, holders, List.foldl_append]
    change ((holders w.log).erase w.procs.current).length +
      (ups w.log + 1) = grants w.log + 0
    omega
  | hand p hevent hvalue hqueue hlog =>
    have hin := hlock hevent
    have hlen := List.length_erase_of_mem hin
    have hpos := List.length_pos_of_mem hin
    rw [hlog, ups_append, grants_append, holders, List.foldl_append]
    change ((holders w.log).erase w.procs.current).length + 1 +
      (ups w.log + 1) = grants w.log + 1
    omega

/-- A semaphore of value 1 that is used as a lock. -/
theorem Reached.lock (h : w.Reached AsLock 1) : Counts 1 w ∧
    (holders w.log).length + ups w.log = grants w.log := by
  induction h with
  | init ht => exact ⟨.semInit (by decide) (by decide) _ _, rfl⟩
  | @step w v e hw hlock he hv ih =>
    obtain ⟨hcounts, hheld⟩ := ih
    have hchange := hw.inv.change he hv
    refine ⟨hcounts.change ?_ hchange, holders_change hlock hchange hheld⟩
    -- one is held, so the value is 0
    intro hevent _
    have hcount := hcounts.count
    have hmax : intMax = 2147483647 := rfl
    omega

/-- What a semaphore is good for, as long as its value does not run over;
used as a lock it does not, and is held by one at most. -/
theorem semaphore_safe (hpos : 0 ≤ value) (hle : value ≤ intMax) :
    (∀ w : SemWorld, w.Reached Fits value →
      0 ≤ w.value ∧ (0 < w.value → w.waitQueue = []) ∧
      value + ups w.log = w.value + grants w.log ∧
      queuedOrder w.log = handedOrder w.log ++ w.waitQueue ∧
      (∀ p, w.point p ≠ .out →
        p ∈ w.waitQueue ∧ w.procs.Parked p ∨ w.Handed p) ∧
      ∀ e, w.Enabled e → w.step e = none →
        (∃ errorCode, e = .table (.exit errorCode)) ∧
          (w.procs.current = w.procs.idleproc ∨
            w.procs.current = w.procs.initproc)) ∧
    (value = 1 → ∀ w : SemWorld, w.Reached AsLock value →
      (holders w.log).length ≤ 1) := by
  refine ⟨fun w h => ?_, ?_⟩
  · have hcounts := h.counts hpos hle
    refine ⟨hcounts.nonneg, hcounts.empty, hcounts.count, hcounts.order,
      fun p hp => ?_, fun e he hnone => ?_⟩
    · by_cases hin : p ∈ w.waitQueue
      · exact .inl ⟨hin, (h.inv.waiting p hin).1⟩
      · exact .inr (h.inv.handed p hp hin)
    · rcases h.inv.step he with ⟨v, hv, -⟩ | ⟨-, hexit⟩
      · cases hv.symm.trans hnone
      · exact hexit
  · rintro rfl w h
    obtain ⟨hcounts, hheld⟩ := h.lock
    have hcount := hcounts.count
    have hnonneg := hcounts.nonneg
    omega

theorem Reached.run {es : List SemEvent} (h : w.Reached Allowed value)
    (hes : ∀ w, ∀ e ∈ es, Allowed w e) (hv : w.run es = some v) :
    v.Reached Allowed value := by
  induction es generalizing w with
  | nil => exact Option.some.inj hv ▸ h
  | cons e es ih =>
    rw [SemWorld.run] at hv
    split at hv
    case isFalse => cases hv
    case isTrue he =>
      obtain ⟨u, hu, hv⟩ := Option.bind_eq_some_iff.1 hv
      exact ih (h.step (hes w e List.mem_cons_self) he hu)
        (fun w e' he' => hes w e' (List.mem_cons_of_mem e he')) hv

end Runs

/-- `initproc` takes the lock, its child queues and is killed there. -/
def childWaits : List SemEvent :=
  [.table .schedule, .table (.fork 3 8 none none), .down, .table .schedule,
    .down, .go, .table (.kill 2)]

/-- The kill leaves the child on the queue. -/
theorem semaphore_safe_childWaits : ∃ t w, Table.booted = some t ∧
    (semInit t.procs (fun _ => 0) 1).run childWaits = some w ∧
    w.waitQueue = [3] ∧ 0 ≤ w.value ∧
    (1 : Int) + ups w.log = w.value + grants w.log := by
  have hrun : (Table.booted.bind fun t =>
      (semInit t.procs (fun _ => 0) 1).run childWaits).map (·.waitQueue) =
      some [3] := by decide +kernel
  obtain ⟨w, hw, hqueue⟩ := Option.map_eq_some_iff.1 hrun
  obtain ⟨t, ht, hw⟩ := Option.bind_eq_some_iff.1 hw
  have hreached : w.Reached Fits 1 := by
    refine Reached.run (.init (Table.reached_of_booted ht)) ?_ hw
    intro w e he hup
    subst hup
    simp [childWaits] at he
  obtain ⟨hsafe, -⟩ := @semaphore_safe 1 (by decide) (by decide)
  obtain ⟨hnonneg, -, hcount, -⟩ := hsafe w hreached
  exact ⟨t, w, ht, hw, hqueue, hnonneg, hcount⟩

/-- An `up` at the end of the range of `int`. -/
theorem up_overflow : ∃ t w, Table.booted = some t ∧
    (semInit t.procs (fun _ => 0) intMax).run [.up] = some w ∧
    w.Reached (fun _ _ => True) intMax ∧ w.value = -(2 ^ 31) := by
  have hrun : (Table.booted.bind fun t =>
      (semInit t.procs (fun _ => 0) intMax).run [.up]).map (·.value) =
      some (-(2 ^ 31)) := by decide +kernel
  obtain ⟨w, hw, hvalue⟩ := Option.map_eq_some_iff.1 hrun
  obtain ⟨t, ht, hw⟩ := Option.bind_eq_some_iff.1 hw
  exact ⟨t, w, ht, hw, Reached.run (.init (Table.reached_of_booted ht))
    (fun _ _ _ => trivial) hw, hvalue⟩

end SemWorld

end MipsUcore.Kern
