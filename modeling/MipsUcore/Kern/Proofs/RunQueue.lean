/-
The run queue and the timers.

# The run queue

On the queue are, once each, the processes that could run and do not
(`Queue`). Every operation either keeps the queue, puts one process at its
end or takes the first one off, and none of its assertions can fail.

# The timers

A process with a timer is in `do_sleep`, so it is alive, and it waits for
the timer or has been woken already (`Timers`). The first timer has time
left, which is the assertion of `run_timer_list`.
-/
import MipsUcore.Kern.Proofs.Family

namespace MipsUcore.Kern

namespace Procs

variable {s t : Procs} {p q : Nat}

/-- On the queue are the processes that could run, but for those that are
`Off` it. -/
structure QueueBut (s : Procs) (Off : Nat → Prop) : Prop where
  mem : ∀ p, p ∈ s.runList ↔
    p ∈ s.procList ∧ (s.proc p).state = .runnable ∧ ¬Off p
  nodup : s.runList.Nodup
  num : s.procNum = s.runList.length
  rq : ∀ p ∈ s.runList, (s.proc p).rq = true

structure Queue (s : Procs) : Prop where
  list : s.QueueBut (· = s.current)
  current : s.IsProc s.current
  idle : (s.proc s.idleproc).state = .runnable

/-- Who has a timer. -/
def timerProcs (s : Procs) : List Nat := s.timerList.map Timer.proc

/-- A process that has a timer has one, and is in `do_sleep`. -/
structure Sleepers (s : Procs) : Prop where
  nodup : s.timerProcs.Nodup
  proc : ∀ p ∈ s.timerProcs, p ∈ s.procList ∧
    (s.proc p).state ≠ .zombie ∧
    ((s.proc p).waitState = .timer ∨ (s.proc p).waitState = .none)

structure Timers (s : Procs) : Prop where
  sleepers : s.Sleepers
  head : ∀ x, s.timerList.head? = some x → x.expires ≠ 0

-- ===== what is the same

/-- The queue stays, and so do those who could run. -/
theorem Queue.keep (h : s.Queue) (hrun : t.runList = s.runList)
    (hnum : t.procNum = s.procNum) (hcur : t.current = s.current)
    (hmem : ∀ p, p ∈ t.procList ∧ (t.proc p).state = .runnable ↔
      p ∈ s.procList ∧ (s.proc p).state = .runnable)
    (hrq : ∀ p ∈ s.procList, (t.proc p).rq = (s.proc p).rq)
    (hproc : t.IsProc s.current)
    (hidle : (t.proc t.idleproc).state = .runnable) : t.Queue := by
  refine ⟨⟨fun p => ?_, hrun ▸ h.list.nodup, ?_, fun p hp => ?_⟩,
    hcur ▸ hproc, hidle⟩
  · rw [hrun, hcur, h.list.mem, ← and_assoc, ← and_assoc, hmem]
  · rw [hnum, hrun]
    exact h.list.num
  · rw [hrun] at hp
    rw [hrq p ((h.list.mem p).1 hp).1]
    exact h.list.rq p hp

/-- A change that is none to the state of a process, the lists or
`current`. -/
theorem Queue.congr (h : s.Queue) (hproc : t.procList = s.procList)
    (hrun : t.runList = s.runList) (hnum : t.procNum = s.procNum)
    (hcur : t.current = s.current) (hidle : t.idleproc = s.idleproc)
    (hstate : ∀ p, (t.proc p).state = (s.proc p).state)
    (hrq : ∀ p, (t.proc p).rq = (s.proc p).rq) : t.Queue := by
  refine h.keep hrun hnum hcur (fun p => ?_) (fun p _ => hrq p) ?_ ?_
  · rw [hproc, hstate]
  · rw [IsProc, hidle, hproc]
    exact h.current
  · rw [hidle, hstate]
    exact h.idle

theorem Queue.links (h : s.Queue) (hst : SameSched s t)
    (hproc : t.procList = s.procList) : t.Queue :=
  h.congr hproc hst.runList hst.procNum hst.current hst.idleproc
    (fun p => (hst.own p).state) fun p => (hst.own p).rq

theorem Sleepers.keep (h : s.Sleepers) (htimer : t.timerList = s.timerList)
    (hev : ∀ p ∈ s.procList, (s.proc p).state ≠ .zombie →
      p ∈ t.procList ∧ (s.proc p).Evolves (t.proc p)) : t.Sleepers := by
  have hprocs : t.timerProcs = s.timerProcs := by
    rw [timerProcs, timerProcs, htimer]
  refine ⟨hprocs ▸ h.nodup, fun p hp => ?_⟩
  obtain ⟨hlisted, hlive, hw⟩ := h.proc p (hprocs ▸ hp)
  obtain ⟨hlisted', hev⟩ := hev p hlisted hlive
  exact ⟨hlisted', hev.asleep hlive hw⟩

theorem Sleepers.congr (h : s.Sleepers) (hproc : t.procList = s.procList)
    (htimer : t.timerList = s.timerList)
    (hev : ∀ p, (s.proc p).Evolves (t.proc p)) : t.Sleepers :=
  h.keep htimer fun p hp _ => ⟨hproc ▸ hp, hev p⟩

theorem Timers.congr (h : s.Timers) (hproc : t.procList = s.procList)
    (htimer : t.timerList = s.timerList)
    (hev : ∀ p, (s.proc p).Evolves (t.proc p)) : t.Timers :=
  ⟨h.sleepers.congr hproc htimer hev, fun x hx => h.head x (htimer ▸ hx)⟩

theorem Timers.links (h : s.Timers) (hst : SameSched s t)
    (hproc : t.procList = s.procList) : t.Timers :=
  h.congr hproc hst.timerList fun p => (hst.own p).evolves

-- ===== the run queue

/-- A process that could run is put on the queue. -/
theorem QueueBut.queued {Off : Nat → Prop} (h : s.QueueBut Off)
    (hp : p ∈ s.procList) (hrun : (s.proc p).state = .runnable)
    (hoff : p ∉ s.runList) : (s.queued p).QueueBut fun q => Off q ∧ q ≠ p := by
  have hlist : (s.queued p).runList = s.runList ++ [p] := rfl
  have hstate : ∀ q, ((s.queued p).proc q).state = (s.proc q).state := by
    intro q
    obtain ⟨slice, rq, hq, -, -⟩ := queued_proc s p q
    rw [hq]
  refine ⟨fun q => ?_, ?_, ?_, fun q hq => ?_⟩
  · change q ∈ s.runList ++ [p] ↔ q ∈ s.procList ∧ _
    rw [List.mem_append, List.mem_singleton, hstate]
    by_cases hqp : q = p
    · subst hqp
      exact iff_of_true (.inr rfl) ⟨hp, hrun, fun hboth => hboth.2 rfl⟩
    · rw [h.mem]
      simp only [hqp, or_false, ne_eq, not_false_eq_true, and_true]
  · exact h.nodup.append (List.nodup_singleton p)
      (List.disjoint_singleton.2 hoff)
  · rw [hlist, List.length_append]
    exact congrArg (· + 1) h.num
  · obtain ⟨slice, rq, hproc, hself, hother⟩ := queued_proc s p q
    rw [hproc]
    by_cases hqp : q = p
    · exact hself hqp
    · rw [hlist, List.mem_append, List.mem_singleton] at hq
      exact (hother hqp).trans (h.rq q (hq.resolve_right hqp))

/-- Who is off the queue matters only for those that could run. -/
theorem QueueBut.of_iff {Off Off' : Nat → Prop} (h : s.QueueBut Off)
    (hoff : ∀ q ∈ s.procList, (s.proc q).state = .runnable →
      (Off q ↔ Off' q)) : s.QueueBut Off' := by
  refine ⟨fun q => ?_, h.nodup, h.num, h.rq⟩
  rw [h.mem]
  refine and_congr_right fun hq => and_congr_right fun hrun => ?_
  rw [hoff q hq hrun]

section Wakeup

variable (h : s.Queue)
include h

/-- A sleeping process is made runnable: it is off the queue for now. -/
theorem Queue.woken (hstate : (s.proc p).state ≠ .runnable) :
    (s.woken p).QueueBut fun q => q = s.current ∨ q = p := by
  refine ⟨fun q => ?_, h.list.nodup, h.list.num, fun q hq => ?_⟩
  · change q ∈ s.runList ↔ q ∈ s.procList ∧ _
    rw [h.list.mem, Procs.woken, setProc_field Proc.state]
    by_cases hqp : q = p
    · rw [hqp]
      exact iff_of_false (fun hall => hstate hall.2.1)
        fun hall => hall.2.2 (.inr rfl)
    · rw [if_neg hqp]
      simp only [hqp, or_false]
  · rw [Procs.woken, setProc_field Proc.rq, ite_self]
    exact h.list.rq q hq

theorem Queue.woken_idle (hstate : (s.proc p).state ≠ .runnable) :
    ((s.woken p).proc s.idleproc).state = .runnable := by
  rw [Procs.woken, setProc_field Proc.state]
  by_cases hp : s.idleproc = p
  · exact absurd (hp ▸ h.idle) hstate
  · rw [if_neg hp]
    exact h.idle

/-- Nobody but a zombie fails to be woken, and whoever is put on the queue
is put behind the others. -/
theorem Queue.wakeupProc (hp : s.IsProc p) (hz : (s.proc p).state ≠ .zombie) :
    ∃ t, s.wakeupProc p = some t ∧ t.Queue ∧ t.current = s.current ∧
      s.runList <+: t.runList := by
  rw [wakeupProc_eq hz]
  by_cases hr : (s.proc p).state = .runnable
  · exact ⟨s, if_pos hr, h, rfl, List.prefix_rfl⟩
  rw [if_neg hr]
  have hwoken := h.woken hr
  by_cases hcur : p = s.current
  · refine ⟨s.woken p, if_pos hcur, ⟨?_, h.current, h.woken_idle hr⟩, rfl,
      List.prefix_rfl⟩
    refine hwoken.of_iff fun q _ _ => ?_
    rw [hcur, or_self]
    rfl
  · rw [if_neg hcur]
    have hpidle : p ≠ (s.woken p).idleproc := fun heq => hr (heq ▸ h.idle)
    have hlisted : p ∈ s.procList := hp.resolve_left hpidle
    have hoff : p ∉ s.runList := fun hin => hr ((h.list.mem p).1 hin).2.1
    have hrun : ((s.woken p).proc p).state = .runnable := by
      rw [Procs.woken, setProc_self]
    refine ⟨(s.woken p).queued p, enqueue_eq hpidle hoff, ⟨?_, h.current, ?_⟩,
      rfl, List.prefix_append ..⟩
    · refine (hwoken.queued hlisted hrun hoff).of_iff fun q _ _ => ?_
      constructor
      · rintro ⟨hq | hq, hne⟩
        · exact hq
        · exact absurd hq hne
      · rintro rfl
        exact ⟨.inl rfl, Ne.symm hcur⟩
    · obtain ⟨slice, rq, hproc, -, -⟩ :=
        queued_proc (s.woken p) p (s.woken p).idleproc
      change (((s.woken p).queued p).proc (s.woken p).idleproc).state = _
      rw [hproc]
      exact h.woken_idle hr

end Wakeup

-- ===== schedule

/-- The queue when `schedule` has put `current` back. -/
def requeued (s : Procs) : List Nat :=
  if (s.proc s.current).state = .runnable ∧ s.current ≠ s.idleproc then
    s.runList ++ [s.current]
  else s.runList

theorem runList_prefix_requeued (s : Procs) : s.runList <+: s.requeued := by
  rw [requeued]
  split
  · exact List.prefix_append ..
  · exact List.prefix_rfl

theorem Queue.unflagged (h : s.Queue) : s.unflagged.Queue := by
  refine h.congr rfl rfl rfl rfl rfl (fun p => ?_) fun p => ?_
  · rw [Procs.unflagged, setProc_field Proc.state, ite_self]
  · rw [Procs.unflagged, setProc_field Proc.rq, ite_self]

theorem Queue.requeue (h : s.Queue) (hidle : s.idleproc ∉ s.procList) :
    ∃ u, (if (s.proc s.current).state = .runnable then
        s.unflagged.enqueue s.current else some s.unflagged) = some u ∧
      u.QueueBut (fun _ => False) ∧ u.runList = s.requeued ∧
      u.idleproc = s.idleproc ∧ (u.proc u.idleproc).state = .runnable := by
  have hun := h.unflagged
  have hstate : (s.unflagged.proc s.current).state =
      (s.proc s.current).state := by
    rw [Procs.unflagged, setProc_self]
  by_cases hr : (s.proc s.current).state = .runnable
  · rw [if_pos hr]
    by_cases hcur : s.current = s.idleproc
    · refine ⟨s.unflagged, if_pos hcur, ?_, ?_, rfl, hun.idle⟩
      · refine hun.list.of_iff fun q hq _ => iff_of_false ?_ not_false
        exact fun heq => hidle (hcur ▸ heq ▸ hq)
      · rw [requeued, if_neg fun hboth => hboth.2 hcur]
        rfl
    · have hlisted : s.current ∈ s.procList := h.current.resolve_left hcur
      have hoff : s.current ∉ s.unflagged.runList := fun hin =>
        ((hun.list.mem _).1 hin).2.2 rfl
      refine ⟨s.unflagged.queued s.current, enqueue_eq hcur hoff, ?_, ?_, rfl,
        ?_⟩
      · refine (hun.list.queued hlisted (hstate.trans hr) hoff).of_iff
          fun q _ _ => iff_of_false ?_ not_false
        exact fun hboth => hboth.2 hboth.1
      · rw [requeued, if_pos ⟨hr, hcur⟩]
        rfl
      · obtain ⟨slice, rq, hproc, -, -⟩ :=
          queued_proc s.unflagged s.current s.idleproc
        change ((s.unflagged.queued s.current).proc s.idleproc).state = _
        rw [hproc]
        exact hun.idle
  · refine ⟨s.unflagged, if_neg hr, ?_, ?_, rfl, hun.idle⟩
    · refine hun.list.of_iff fun q hq hrun => iff_of_false ?_ not_false
      rintro rfl
      exact hr (hstate.symm.trans hrun)
    · rw [requeued, if_neg fun hboth => hr hboth.1]
      rfl

/-- The first one runs; `idleproc` only if there is nobody else. -/
theorem QueueBut.dispatch (h : s.QueueBut fun _ => False)
    (hidle : s.idleproc ∉ s.procList)
    (hrun : (s.proc s.idleproc).state = .runnable) :
    ∃ t, s.dispatch = some t ∧ t.Queue ∧
      (s.runList = [] ∧ t.runList = [] ∧ t.current = s.idleproc ∨
        s.runList = t.current :: t.runList) := by
  cases hlist : s.runList with
  | nil =>
    refine ⟨_, dispatch_nil hlist, ⟨⟨fun q => ?_, h.nodup, h.num, h.rq⟩,
      .inl rfl, hrun⟩, .inl ⟨rfl, hlist, rfl⟩⟩
    change q ∈ s.runList ↔ q ∈ s.procList ∧ (s.proc q).state = .runnable ∧
      ¬q = s.idleproc
    rw [h.mem]
    refine and_congr_right fun hq => and_congr_right fun _ => ?_
    exact iff_of_true not_false fun heq => hidle (heq ▸ hq)
  | cons next rest =>
    have hin : next ∈ s.runList := hlist ▸ List.mem_cons_self
    have hrest : (s.switched next).runList = rest := by
      change s.runList.erase next = rest
      rw [hlist, List.erase_cons_head]
    have hnodup := h.nodup
    rw [hlist] at hnodup
    obtain ⟨hnotin, hnodup⟩ := List.nodup_cons.1 hnodup
    refine ⟨_, dispatch_cons hlist (h.rq next hin),
      ⟨⟨fun q => ?_, ?_, ?_, fun q hq => ?_⟩, ?_, hrun⟩, .inr ?_⟩
    · have hmem := h.mem q
      rw [hlist, List.mem_cons] at hmem
      change q ∈ (s.switched next).runList ↔ q ∈ s.procList ∧
        (s.proc q).state = .runnable ∧ ¬q = next
      rw [hrest]
      by_cases hq : q = next
      · subst hq
        exact iff_of_false hnotin fun hall => hall.2.2 rfl
      · rw [or_iff_right hq] at hmem
        rw [hmem]
        simp only [hq, not_false_eq_true]
    · rw [hrest]
      exact hnodup
    · have hnum := h.num
      rw [hlist, List.length_cons] at hnum
      rw [hrest]
      change s.procNum - 1 = rest.length
      omega
    · rw [hrest] at hq
      exact h.rq q (hlist ▸ .tail next hq)
    · exact .inr ((h.mem next).1 hin).1
    · rw [hrest]
      rfl

/-- The scheduler always finds a process to run: the head of the queue,
or the idle process if it is empty. -/
theorem Queue.schedule (h : s.Queue) (hidle : s.idleproc ∉ s.procList) :
    ∃ t, s.schedule = some t ∧ t.Queue ∧
      (s.requeued = [] ∧ t.runList = [] ∧ t.current = s.idleproc ∨
        s.requeued = t.current :: t.runList) := by
  obtain ⟨u, hu, hbut, hlist, huidle, hrun⟩ := h.requeue hidle
  have hidle' : u.idleproc ∉ u.procList := by
    rw [huidle, (requeue_some hu).1.procList]
    exact hidle
  obtain ⟨t, ht, hqueue, hfirst⟩ := hbut.dispatch hidle' hrun
  refine ⟨t, ?_, hqueue, ?_⟩
  · rw [schedule_eq, hu]
    exact ht
  · rw [hlist, huidle] at hfirst
    exact hfirst

-- ===== timers

theorem Timers.wakeupProc (h : s.Timers) (hw : s.wakeupProc p = some t) :
    t.Timers :=
  h.congr (Wakes.wakeupProc hw).procList (wakeupProc_lists hw).1
    (Wakes.wakeupProc hw).evolves

theorem Timers.schedule (h : s.Timers) (hs : s.schedule = some t) :
    t.Timers := by
  obtain ⟨⟨-, hev⟩, htimer, -⟩ := schedule_some hs
  exact h.congr (Wakes.schedule hs).procList htimer hev

/-- The insertion adds one process to the timers and drops none. -/
theorem insertTimer_procs (x : Timer) (l : List Timer) :
    ((insertTimer x l).map Timer.proc).Perm (x.proc :: l.map Timer.proc) := by
  induction l generalizing x with
  | nil => exact .refl _
  | cons y l ih =>
    rw [insertTimer]
    split
    · exact .refl _
    · exact ((ih _).cons y.proc).trans (.swap ..)

theorem insertTimer_head {x : Timer} (hx : x.expires ≠ 0) {l : List Timer}
    (hl : ∀ y, l.head? = some y → y.expires ≠ 0) :
    ∀ y, (insertTimer x l).head? = some y → y.expires ≠ 0 := by
  intro y hy
  cases l with
  | nil => exact Option.some.inj hy ▸ hx
  | cons z l =>
    rw [insertTimer] at hy
    split at hy
    · exact Option.some.inj hy ▸ hx
    · exact hl y hy

/-- The removal drops the timer of one process and keeps the order. -/
theorem removeTimer_procs (p : Nat) (l : List Timer) :
    (removeTimer p l).map Timer.proc = (l.map Timer.proc).erase p := by
  induction l with
  | nil => rfl
  | cons x l ih =>
    rw [List.map_cons]
    by_cases hx : x.proc = p
    · rw [hx, List.erase_cons_head]
      cases l with
      | nil => rw [removeTimer_singleton hx]
      | cons y l =>
        rw [removeTimer_of_eq hx]
        rfl
    · rw [removeTimer_of_ne hx, List.map_cons, ih,
        List.erase_cons_tail (by simpa using hx)]

theorem removeTimer_head {p : Nat} {l : List Timer}
    (hl : ∀ y, l.head? = some y → y.expires ≠ 0) :
    ∀ y, (removeTimer p l).head? = some y → y.expires ≠ 0 := by
  intro y hy
  cases l with
  | nil => cases hy
  | cons x l =>
    have hx := hl x rfl
    by_cases hp : x.proc = p
    · cases l with
      | nil =>
        rw [removeTimer_singleton hp] at hy
        cases hy
      | cons z l =>
        rw [removeTimer_of_eq hp] at hy
        cases hy
        dsimp only
        omega
    · rw [removeTimer_of_ne hp] at hy
      exact hl y hy

theorem delTimer_timerProcs (s : Procs) (p : Nat) :
    (s.delTimer p).timerProcs = s.timerProcs.erase p :=
  removeTimer_procs p s.timerList

theorem Sleepers.delTimer (h : s.Sleepers) (p : Nat) :
    (s.delTimer p).Sleepers := by
  refine ⟨?_, fun q hq => ?_⟩
  · rw [delTimer_timerProcs]
    exact h.nodup.erase p
  · rw [delTimer_timerProcs] at hq
    exact h.proc q (List.mem_of_mem_erase hq)

theorem Timers.delTimer (h : s.Timers) (p : Nat) : (s.delTimer p).Timers :=
  ⟨h.sleepers.delTimer p, removeTimer_head h.head⟩

-- ===== a tick

/-- The processes that are asleep are woken one after the other. -/
theorem Queue.wakeAll {ps : List Nat} (h : s.Queue)
    (hps : ∀ p ∈ ps, p ∈ s.procList ∧ (s.proc p).state ≠ .zombie ∧
      ((s.proc p).waitState = .timer ∨ (s.proc p).waitState = .none)) :
    ∃ t, wakeAll ps s = some t ∧ t.Queue ∧ t.current = s.current ∧
      s.runList <+: t.runList := by
  induction ps generalizing s with
  | nil => exact ⟨s, rfl, h, rfl, List.prefix_rfl⟩
  | cons p ps ih =>
    obtain ⟨⟨hlisted, hlive, hwait⟩, hps⟩ := List.forall_mem_cons.1 hps
    have hassert : (s.proc p).waitState = .none ∨
        (s.proc p).waitState.interrupted = true :=
      hwait.symm.imp_right fun hw => by rw [hw]; rfl
    obtain ⟨u, hu, hqueue, hcur, hprefix⟩ := h.wakeupProc (.inr hlisted) hlive
    have hasleep : ∀ q ∈ ps, q ∈ u.procList ∧ (u.proc q).state ≠ .zombie ∧
        ((u.proc q).waitState = .timer ∨ (u.proc q).waitState = .none) := by
      intro q hq
      obtain ⟨hlisted, hlive, hw⟩ := hps q hq
      rw [(Wakes.wakeupProc hu).procList]
      exact ⟨hlisted, ((Wakes.wakeupProc hu).evolves q).asleep hlive hw⟩
    obtain ⟨t, ht, hqt, hcur', hprefix'⟩ := ih hqueue hasleep
    refine ⟨t, ?_, hqt, hcur'.trans hcur, hprefix.trans hprefix'⟩
    rw [Procs.wakeAll, if_pos hassert, hu]
    exact ht

theorem Queue.procTick (h : s.Queue) (p : Nat) : (s.procTick p).Queue := by
  refine h.congr rfl rfl rfl rfl rfl (fun q => ?_) fun q => ?_
  · obtain ⟨slice, flag, hq⟩ := procTick_proc s p q
    rw [hq]
  · obtain ⟨slice, flag, hq⟩ := procTick_proc s p q
    rw [hq]

theorem Timers.procTick (h : s.Timers) (p : Nat) : (s.procTick p).Timers :=
  h.congr rfl rfl (Wakes.procTick s p).evolves

/-- A tick passes its assertions. -/
theorem Timers.runTimerList (htimers : s.Timers) (hqueue : s.Queue) :
    ∃ t, s.runTimerList = some t ∧ t.Queue ∧ t.Timers ∧
      t.current = s.current ∧ s.runList <+: t.runList := by
  obtain ⟨l, w, htick⟩ := tickTimers_isSome htimers.head
  obtain ⟨hprocs, hhead⟩ := tickTimers_some htick
  obtain ⟨hnodup, hasleep⟩ := htimers.sleepers
  rw [timerProcs, hprocs] at hnodup hasleep
  obtain ⟨t, ht, hqt, hcur, hprefix⟩ :=
    Queue.wakeAll (s := { s with timerList := l })
      (hqueue.congr rfl rfl rfl rfl rfl (fun _ => rfl) fun _ => rfl)
      fun p hp => hasleep p (List.mem_append_left _ hp)
  have htt : t.Timers := wakeAll_rule (fun _ _ _ hs _ hw => hs.wakeupProc hw)
    ht ⟨⟨(List.nodup_append.1 hnodup).2.1,
      fun p hp => hasleep p (List.mem_append_right w hp)⟩, hhead⟩
  refine ⟨t.procTick t.current, ?_, hqt.procTick _, htt.procTick _, hcur,
    hprefix⟩
  rw [runTimerList_eq, htick, Option.bind_some, ht]
  rfl

/-- A tick sets no timers. -/
theorem runTimerList_timerProcs (h : s.runTimerList = some t) :
    ∀ p ∈ t.timerProcs, p ∈ s.timerProcs := by
  obtain ⟨l, w, u, htick, hu, rfl⟩ := runTimerList_some h
  have hlist : u.timerList = l := wakeAll_rule (I := fun u => u.timerList = l)
      (fun _ _ _ hs _ hw => (wakeupProc_lists hw).1.trans hs) hu rfl
  intro p hp
  rw [timerProcs, (tickTimers_some htick).1, ← hlist]
  exact List.mem_append_right w hp

end Procs

end MipsUcore.Kern
