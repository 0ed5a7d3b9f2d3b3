/-
The timers of `sched.c` fire on time.

# Time left

`expires` counts from the timer in front, so a timer has the sum of the
list up to it left. `due d` are the processes whose timers have `d` ticks
left, in the order of the list. A timer is added at the end of its queue and
leaves the other queues as they are, deleting one takes it out of its own,
and a tick moves every queue one down. No sum exceeds the time its timer was
added with, so `unsigned int` is wide enough.

# What a tick wakes

`tickTimers` is the list's part of `run_timer_list`; what remains of the
function wakes the processes it names, in order (`runTimerList_eq`).
-/
import MipsUcore.Kern.Proofs.RunQueue

namespace MipsUcore.Kern.Procs

variable {p q n d : Nat} {l l' : List Timer} {w : List Nat}

-- ===== the timers with the same time left

/-- Who is due at `d`, if the list starts at `n`. -/
def due (n d : Nat) : List Timer → List Nat
  | [] => []
  | t :: rest =>
    (if n + t.expires = d then [t.proc] else []) ++ due (n + t.expires) d rest

theorem due_past (h : d < n) (l : List Timer) : due n d l = [] := by
  induction l generalizing n with
  | nil => rfl
  | cons t rest ih =>
    rw [due, if_neg (by omega), ih (by omega), List.nil_append]

theorem due_succ (n d : Nat) (l : List Timer) :
    due (n + 1) (d + 1) l = due n d l := by
  induction l generalizing n with
  | nil => rfl
  | cons t rest ih =>
    rw [due, due, Nat.add_right_comm, ih]
    simp only [Nat.add_right_cancel_iff]

/-- Only processes with a timer are ever due. -/
theorem due_subset (n d : Nat) (l : List Timer) :
    due n d l ⊆ l.map Timer.proc := by
  induction l generalizing n with
  | nil => exact List.Subset.refl _
  | cons t rest ih =>
    refine List.append_subset.2 ⟨?_, List.subset_cons_of_subset _ (ih _)⟩
    split
    · exact List.cons_subset.2 ⟨List.mem_cons_self, List.nil_subset _⟩
    · exact List.nil_subset _

/-- A new timer is due after its own time and moves no other. -/
theorem due_insertTimer (n d : Nat) (x : Timer) (l : List Timer) :
    due n d (insertTimer x l) =
      due n d l ++ if n + x.expires = d then [x.proc] else [] := by
  induction l generalizing n x with
  | nil => exact List.append_nil _
  | cons t rest ih =>
    rw [insertTimer]
    by_cases hlt : x.expires < t.expires
    · have hsum : n + x.expires + (t.expires - x.expires) = n + t.expires := by
        omega
      rw [if_pos hlt, due, due, due, hsum]
      by_cases hd : n + x.expires = d
      · rw [if_pos hd, if_neg (by omega), due_past (by omega)]
        rfl
      · rw [if_neg hd, List.nil_append, List.append_nil]
    · have hsum : n + t.expires + (x.expires - t.expires) = n + x.expires := by
        omega
      rw [if_neg hlt, due, due, ih, hsum, List.append_assoc]

theorem due_removeTimer_head {t : Timer} (ht : t.proc = p) :
    due n d (removeTimer p (t :: l)) = due (n + t.expires) d l := by
  cases l with
  | nil => rw [removeTimer_singleton ht]; rfl
  | cons y rest =>
    rw [removeTimer_of_eq ht, due, due, Nat.add_comm y.expires, Nat.add_assoc]

/-- A removed timer moves no other. -/
theorem due_removeTimer (n d p : Nat) (l : List Timer) :
    (due n d (removeTimer p l)).Sublist (due n d l) ∧
      ∀ q ≠ p, q ∈ due n d l → q ∈ due n d (removeTimer p l) := by
  induction l generalizing n with
  | nil => exact ⟨List.Sublist.refl _, fun q _ hq => hq⟩
  | cons t rest ih =>
    by_cases ht : t.proc = p
    · rw [due_removeTimer_head ht]
      refine ⟨List.sublist_append_right .., fun q hne hq => ?_⟩
      refine (List.mem_append.1 hq).resolve_left fun hin => ?_
      split at hin
      · exact hne ((List.mem_singleton.1 hin).trans ht)
      · cases hin
    · rw [removeTimer_of_ne ht]
      refine ⟨(ih _).1.append_left _, fun q hne hq => ?_⟩
      exact List.mem_append.2
        ((List.mem_append.1 hq).imp_right ((ih _).2 q hne))

/-- Who has run out is woken; the others keep their time. -/
theorem expire_due (l : List Timer) : (expire l).2 = due 0 0 l ∧
    ∀ d, due 0 (d + 1) (expire l).1 = due 0 (d + 1) l := by
  induction l with
  | nil => exact ⟨rfl, fun d => rfl⟩
  | cons t rest ih =>
    by_cases ht : t.expires = 0
    · rw [expire_zero ht]
      simp only [due, ht, ih.1, ih.2]
      exact ⟨rfl, fun d => rfl⟩
    · rw [expire_pos ht, due, if_neg (by omega), due_past (by omega)]
      exact ⟨rfl, fun d => rfl⟩

/-- A tick fires the timers due in one and brings the others closer. -/
theorem tickTimers_due (h : tickTimers l = some (l', w)) : w = due 0 1 l ∧
    ∀ d, due 0 (d + 1) l' = due 0 (d + 2) l := by
  cases l with
  | nil =>
    obtain ⟨rfl, rfl⟩ := Prod.mk.inj (Option.some.inj h)
    exact ⟨rfl, fun d => rfl⟩
  | cons t rest =>
    rw [tickTimers] at h
    by_cases ht : t.expires = 0
    · rw [if_pos ht] at h
      cases h
    rw [if_neg ht] at h
    have hlater : ∀ d, due 0 d ({ t with expires := t.expires - 1 } :: rest) =
        due 0 (d + 1) (t :: rest) := by
      intro d
      have hsum : 0 + 1 + (t.expires - 1) = 0 + t.expires := by omega
      rw [← due_succ]
      simp only [due, hsum]
    obtain ⟨hfired, hleft⟩ :=
      expire_due ({ t with expires := t.expires - 1 } :: rest)
    rw [Option.some.inj h] at hfired hleft
    exact ⟨hfired.trans (hlater 0), fun d => (hleft d).trans (hlater _)⟩

-- ===== runs

/-- What happens to the list. -/
inductive TimerOp
  | add (t : Timer)
  | del (p : Nat)
  | tick

/-- The timer of `p` is neither deleted nor added again. -/
def TimerOp.Spares (p : Nat) : TimerOp → Prop
  | .add t => t.proc ≠ p
  | .del q => q ≠ p
  | .tick => True

/-- The operations lead from one list to the other, and the ticks wake the
processes of the log. `add_timer` asserts that the timer has time left and is
not on a list. -/
inductive TimerRun :
    List Timer → List TimerOp → List (List Nat) → List Timer → Prop
  | nil (m : List Timer) : TimerRun m [] [] m
  | add {m m' : List Timer} {ops log} (t : Timer) (hpos : 0 < t.expires)
    (hnew : t.proc ∉ m.map Timer.proc)
    (hrun : TimerRun (insertTimer t m) ops log m') :
    TimerRun m (.add t :: ops) log m'
  | del {m m' : List Timer} {ops log} (r : Nat)
    (hrun : TimerRun (removeTimer r m) ops log m') :
    TimerRun m (.del r :: ops) log m'
  | tick {m n m' : List Timer} {ops v log}
    (htick : tickTimers m = some (n, v)) (hrun : TimerRun n ops log m') :
    TimerRun m (.tick :: ops) (v :: log) m'

variable {ops : List TimerOp} {log : List (List Nat)}

/-- Whoever is left alone is woken by the tick its timer is due at, and by
that one only. -/
theorem TimerRun.mem_iff (hrun : TimerRun l ops log l')
    (hq : ∀ op ∈ ops, op.Spares q) {k : Nat} {w : List Nat}
    (hw : log[k]? = some w) : q ∈ w ↔ q ∈ due 0 (k + 1) l := by
  induction hrun generalizing k with
  | nil => cases hw
  | add t _ _ _ ih =>
    obtain ⟨ht, hq⟩ := List.forall_mem_cons.1 hq
    rw [ih hq hw, due_insertTimer, List.mem_append, or_iff_left]
    split
    · exact fun hin => ht (List.mem_singleton.1 hin).symm
    · exact List.not_mem_nil
  | del r _ ih =>
    obtain ⟨hr, hq⟩ := List.forall_mem_cons.1 hq
    obtain ⟨hsub, hkept⟩ := due_removeTimer 0 (k + 1) r _
    exact (ih hq hw).trans ⟨fun hin => hsub.subset hin, hkept q (Ne.symm hr)⟩
  | tick htick _ ih =>
    obtain ⟨rfl, hlater⟩ := tickTimers_due htick
    cases k with
    | zero => rw [Option.some.inj hw]
    | succ k => rw [ih (List.forall_mem_cons.1 hq).2 hw, hlater]

/-- Nobody behind `q` is `p`. -/
def Behind (p q : Nat) (w : List Nat) : Prop :=
  w.Pairwise fun a b => a = q → b ≠ p

theorem Behind.add {v : List Nat} {x : Nat} (h : Behind p q v)
    (hx : ∀ a ∈ v, a = q → x ≠ p) (c : Prop) [Decidable c] :
    Behind p q (v ++ if c then [x] else []) := by
  split
  · refine List.pairwise_append.2 ⟨h, List.pairwise_singleton .., ?_⟩
    exact fun a ha b hb => (List.mem_singleton.1 hb).symm ▸ hx a ha
  · exact (List.append_nil v).symm ▸ h

/-- If `p` is due behind `q` in no tick and gets no new timer, it is
woken behind `q` in none. -/
theorem TimerRun.behind (hrun : TimerRun l ops log l')
    (hp : ∀ op ∈ ops, op.Spares p) (h : ∀ d, Behind p q (due 0 (d + 1) l)) :
    ∀ w ∈ log, Behind p q w := by
  induction hrun with
  | nil => exact fun w hw => absurd hw List.not_mem_nil
  | add t _ _ _ ih =>
    obtain ⟨ht, hp⟩ := List.forall_mem_cons.1 hp
    refine ih hp fun d => ?_
    rw [due_insertTimer]
    exact (h d).add (fun _ _ _ => ht) _
  | del r _ ih =>
    refine ih (List.forall_mem_cons.1 hp).2 fun d => ?_
    exact (h d).sublist (due_removeTimer 0 (d + 1) r _).1
  | tick htick _ ih =>
    obtain ⟨rfl, hlater⟩ := tickTimers_due htick
    refine List.forall_mem_cons.2 ⟨h 0, ih (List.forall_mem_cons.1 hp).2 ?_⟩
    exact fun d => hlater d ▸ h (d + 1)

/-- The assertion of `run_timer_list` after any run. -/
theorem TimerRun.head (hrun : TimerRun l ops log l')
    (hl : ∀ x, l.head? = some x → x.expires ≠ 0) :
    ∀ x, l'.head? = some x → x.expires ≠ 0 := by
  induction hrun with
  | nil => exact hl
  | add t hpos _ _ ih => exact ih (insertTimer_head hpos.ne' hl)
  | del r _ ih => exact ih (removeTimer_head hl)
  | tick htick _ ih => exact ih (tickTimers_some htick).2

/-- After any run from the empty list, a tick passes its assertion and wakes
the processes of `tickTimers` one after the other. A timer added then wakes
its process at the tick it was set to and at no other, once, and behind those
that were added before it. -/
theorem timers_fire_on_time (hrun : TimerRun [] ops log l) :
    (∃ m v, tickTimers l = some (m, v) ∧
      ∀ s : Procs, s.timerList = l → s.runTimerList =
        (wakeAll v { s with timerList := m }).map
          fun s => s.procTick s.current) ∧
    ∀ (q T : Nat) (later : List TimerOp) (log' : List (List Nat)),
      TimerRun l (.add ⟨T, q⟩ :: later) log' l' →
      (∀ op ∈ later, op.Spares q) → ∀ k w, log'[k]? = some w →
        (q ∈ w ↔ k + 1 = T) ∧ Behind q q w ∧
        ∀ p ∈ l.map Timer.proc, (∀ op ∈ later, op.Spares p) →
          Behind p q w := by
  have hhead := hrun.head fun x hx => by cases hx
  constructor
  · obtain ⟨m, v, hm⟩ := tickTimers_isSome hhead
    refine ⟨m, v, hm, fun s hs => ?_⟩
    rw [runTimerList_eq, hs, hm]
    rfl
  · intro q T later log' hadd hq k w hw
    cases hadd with
    | add _ hpos hnew hlater =>
    have hnot : ∀ d, q ∉ due 0 d l := fun d hin => hnew (due_subset 0 d l hin)
    have hbehind : ∀ p, (∀ op ∈ later, op.Spares p) → Behind p q w := by
      intro p hp
      refine hlater.behind hp (fun d => ?_) w (List.mem_of_getElem? hw)
      rw [due_insertTimer]
      have hout : ∀ a ∈ due 0 (d + 1) l, a ≠ q := fun a ha heq =>
        hnot _ (heq ▸ ha)
      refine Behind.add ?_ (fun a ha heq => absurd heq (hout a ha)) _
      exact List.pairwise_of_forall_mem_list fun a ha b _ heq =>
        absurd heq (hout a ha)
    refine ⟨?_, hbehind q hq, fun p _ => hbehind p⟩
    rw [hlater.mem_iff hq hw, due_insertTimer, List.mem_append,
      or_iff_right (hnot _), Nat.zero_add]
    by_cases hT : T = k + 1
    · rw [if_pos hT]
      exact iff_of_true List.mem_cons_self hT.symm
    · rw [if_neg hT]
      exact iff_of_false List.not_mem_nil (Ne.symm hT)

/-- Processes 1 and 2 wait for the same tick, and 3 for the one before. -/
theorem timers_fire_on_time_three : Behind 1 2 [1, 2] := by
  have hrun : TimerRun [] [.add ⟨2, 1⟩] [] [⟨2, 1⟩] :=
    .add _ (by decide) (by decide) (.nil _)
  have hlater : TimerRun [⟨2, 1⟩] [.add ⟨2, 2⟩, .add ⟨1, 3⟩, .tick, .tick]
      [[3], [1, 2]] [] :=
    .add _ (by decide) (by decide) (.add _ (by decide) (by decide)
      (.tick rfl (.tick rfl (.nil _))))
  have hspare : ∀ p ∈ [1, 2], ∀ op ∈ [TimerOp.add ⟨1, 3⟩, .tick, .tick],
      op.Spares p := by
    simp [TimerOp.Spares]
  exact ((timers_fire_on_time hrun).2 2 2 _ _ hlater (hspare 2 (by decide)) 1 _
    rfl).2.2 1 (by decide) (hspare 1 (by decide))

end MipsUcore.Kern.Procs
