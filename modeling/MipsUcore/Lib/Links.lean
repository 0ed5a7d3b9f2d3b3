/-
Lists threaded through two maps, `next` and `prev`: doubly linked lists
without a header, as children hang on their parent.

`Linked next prev before first l` says that from `first` on, `next` visits
the members of `l` in order and ends, and `prev` leads back, from the first
member to `before`. For a whole list `before` is `none`; the rest of a list
whose first members have been moved away still has the last of them there.

The moves are putting a member in front (`push`), taking the first one off
(`tail`) and taking any one out (`erase`). Each says only what the maps have
to be at the members afterwards, so any update that gets there will do.
-/
import Mathlib.Data.List.Nodup
import Mathlib.Logic.Function.Basic

namespace Threads

variable {α : Type*}

/-- From `first` on, `next` visits `l`; `prev` leads back to `before`. -/
def Linked (next prev : α → Option α) :
    Option α → Option α → List α → Prop
  | _, first, [] => first = none
  | before, first, x :: l =>
    first = some x ∧ prev x = before ∧ Linked next prev (some x) (next x) l

namespace Linked

variable {next prev next' prev' : α → Option α} {before first : Option α}
  {x y : α} {l : List α}

variable (h : Linked next prev before first l)

section
include h

/-- The list starts at its first member. -/
theorem head_eq : first = l.head? := by
  cases l with
  | nil => exact h
  | cons x l => exact h.1

end

/-- What is left when the first member has gone. -/
theorem tail (h : Linked next prev before first (x :: l)) :
    Linked next prev (some x) (next x) l := h.2.2

section
include h

/-- A change of the maps outside the members is none. -/
theorem congr (hnext : ∀ z ∈ l, next' z = next z)
    (hprev : ∀ z ∈ l, prev' z = prev z) :
    Linked next' prev' before first l := by
  induction l generalizing before first with
  | nil => exact h
  | cons x l ih =>
    obtain ⟨hfirst, hback, htail⟩ := h
    have hx : next' x = next x := hnext x List.mem_cons_self
    refine ⟨hfirst, (hprev x List.mem_cons_self).trans hback, ?_⟩
    rw [hx]
    exact ih htail (fun z hz => hnext z (.tail x hz))
      fun z hz => hprev z (.tail x hz)

/-- A member is followed by a member. -/
theorem next_mem (hx : x ∈ l) (hy : next x = some y) : y ∈ l := by
  induction l generalizing before first with
  | nil => exact absurd hx List.not_mem_nil
  | cons z l ih =>
    obtain ⟨-, -, htail⟩ := h
    rcases List.mem_cons.1 hx with rfl | hx
    · have hhead := htail.head_eq
      rw [hy] at hhead
      exact .tail x (List.mem_of_mem_head? hhead.symm)
    · exact .tail z (ih htail hx)

/-- A member that is not the first leads back to a member. -/
theorem prev_mem (hx : x ∈ l)
    (hne : first ≠ some x) : ∃ y ∈ l, prev x = some y := by
  induction l generalizing before first with
  | nil => exact absurd hx List.not_mem_nil
  | cons z l ih =>
    obtain ⟨hfirst, -, htail⟩ := h
    rcases List.mem_cons.1 hx with rfl | hx
    · exact absurd hfirst hne
    · by_cases hsecond : next z = some x
      · cases l with
        | nil => exact absurd hx List.not_mem_nil
        | cons w l =>
          obtain ⟨hw, hback, -⟩ := htail
          cases hsecond.symm.trans hw
          exact ⟨z, List.mem_cons_self, hback⟩
      · obtain ⟨y, hy, hback⟩ := ih htail hx hsecond
        exact ⟨y, .tail z hy, hback⟩

/-- `prev` leads back along `next`. -/
theorem prev_eq_iff (hnodup : l.Nodup)
    (hx : x ∈ l) (hy : y ∈ l) (hbefore : ∀ z ∈ l, before ≠ some z) :
    prev x = some y ↔ next y = some x := by
  induction l generalizing before first with
  | nil => exact absurd hx List.not_mem_nil
  | cons z l ih =>
    obtain ⟨-, hback, htail⟩ := h
    obtain ⟨hnotin, hnodup'⟩ := List.nodup_cons.1 hnodup
    have hbefore' : ∀ w ∈ l, some z ≠ some w := fun w hw heq =>
      hnotin ((Option.some.inj heq) ▸ hw)
    rcases List.mem_cons.1 hx with rfl | hxl
    · -- the first member: nobody leads on to it
      constructor
      · intro heq
        exact absurd (hback.symm.trans heq) (hbefore y hy)
      · intro heq
        rcases List.mem_cons.1 hy with rfl | hyl
        · have hhead := htail.head_eq
          rw [heq] at hhead
          exact absurd (List.mem_of_mem_head? hhead.symm) hnotin
        · exact absurd (htail.next_mem hyl heq) hnotin
    · rcases List.mem_cons.1 hy with rfl | hyl
      · constructor
        · intro heq
          by_contra hne
          obtain ⟨w, hw, hwback⟩ := htail.prev_mem hxl hne
          exact hbefore' w hw (heq.symm.trans hwback)
        · intro heq
          cases l with
          | nil => exact absurd hxl List.not_mem_nil
          | cons w l =>
            obtain ⟨hw, hwback, -⟩ := htail
            cases heq.symm.trans hw
            exact hwback
      · exact ih htail hnodup' hxl hyl hbefore'

end

/-- Only the first member of a whole list leads back nowhere. -/
theorem prev_eq_none_iff (h : Linked next prev none first l) (hx : x ∈ l) :
    prev x = none ↔ first = some x := by
  constructor
  · intro hnone
    by_contra hne
    obtain ⟨y, -, hy⟩ := h.prev_mem hx hne
    rw [hnone] at hy
    cases hy
  · intro hfirst
    cases l with
    | nil => exact absurd hx List.not_mem_nil
    | cons z l =>
      obtain ⟨hz, hback, -⟩ := h
      cases hfirst.symm.trans hz
      exact hback

section
include h

/-- Only the first member need lead back elsewhere. -/
theorem rebase (hnodup : l.Nodup)
    {before' : Option α} (hnext : ∀ z ∈ l, next' z = next z)
    (hfirst : ∀ z, first = some z → prev' z = before')
    (hprev : ∀ z ∈ l, first ≠ some z → prev' z = prev z) :
    Linked next' prev' before' first l := by
  cases l with
  | nil => exact h
  | cons x l =>
    obtain ⟨hx, -, htail⟩ := h
    obtain ⟨hnotin, -⟩ := List.nodup_cons.1 hnodup
    have hsame : next' x = next x := hnext x List.mem_cons_self
    refine ⟨hx, hfirst x hx, ?_⟩
    rw [hsame]
    refine htail.congr (fun z hz => hnext z (.tail x hz)) fun z hz => ?_
    refine hprev z (.tail x hz) fun heq => hnotin ?_
    rw [hx] at heq
    exact (Option.some.inj heq) ▸ hz

/-- A new member in front. -/
theorem push (hnodup : l.Nodup)
    (hnext : ∀ z ∈ l, next' z = next z) (hx : next' x = first)
    (hback : prev' x = none) (hfirst : ∀ z, first = some z → prev' z = some x)
    (hprev : ∀ z ∈ l, first ≠ some z → prev' z = prev z) :
    Linked next' prev' none (some x) (x :: l) := by
  refine ⟨rfl, hback, ?_⟩
  rw [hx]
  exact h.rebase hnodup hnext hfirst hprev

end

section Erase

variable [DecidableEq α]

include h

/-- A member is taken out: its neighbours are joined. -/
theorem erase (hnodup : l.Nodup)
    (hx : x ∈ l) (hbefore : ∀ z ∈ l, before ≠ some z)
    (hnext : ∀ z ∈ l, z ≠ x → next' z = if next z = some x then next x
      else next z)
    (hprev : ∀ z ∈ l, z ≠ x → prev' z = if prev z = some x then prev x
      else prev z) :
    Linked next' prev' before (if first = some x then next x else first)
      (l.erase x) := by
  induction l generalizing before first with
  | nil => exact absurd hx List.not_mem_nil
  | cons y l ih =>
    obtain ⟨hfirst, hback, htail⟩ := h
    obtain ⟨hnotin, hnodup'⟩ := List.nodup_cons.1 hnodup
    by_cases hxy : y = x
    · -- the first member goes; the next one leads back past it
      subst hxy
      rw [hfirst, if_pos rfl, List.erase_cons_head]
      have hne : ∀ z ∈ l, z ≠ y := fun z hz heq => hnotin (heq ▸ hz)
      refine htail.rebase hnodup' (fun z hz => ?_) (fun z hz => ?_)
        fun z hz hnot => ?_
      · have hskip : next z ≠ some y := fun heq =>
          hnotin (htail.next_mem hz heq)
        rw [hnext z (.tail y hz) (hne z hz), if_neg hskip]
      · have hin : z ∈ l := by
          have hhead := htail.head_eq
          rw [hz] at hhead
          exact List.mem_of_mem_head? hhead.symm
        have hprevz : prev z = some y := by
          cases l with
          | nil => exact absurd hin List.not_mem_nil
          | cons w l =>
            obtain ⟨hw, hwback, -⟩ := htail
            cases hz.symm.trans hw
            exact hwback
        rw [hprev z (.tail y hin) (hne z hin), if_pos hprevz, hback]
      · obtain ⟨w, hw, hwback⟩ := htail.prev_mem hz hnot
        have hskip : prev z ≠ some y := by
          rw [hwback]
          exact fun heq => hne w hw (Option.some.inj heq)
        rw [hprev z (.tail y hz) (hne z hz), if_neg hskip]
    · have hx' : x ∈ l := (List.mem_cons.1 hx).resolve_left (Ne.symm hxy)
      have hstay : first ≠ some x := by
        rw [hfirst]
        exact fun heq => hxy (Option.some.inj heq)
      rw [if_neg hstay, List.erase_cons_tail (by simpa using hxy)]
      refine ⟨hfirst, ?_, ?_⟩
      · have hskip : prev y ≠ some x := by
          rw [hback]
          exact hbefore x hx
        rw [hprev y List.mem_cons_self hxy, if_neg hskip, hback]
      · rw [hnext y List.mem_cons_self hxy]
        refine ih htail hnodup' hx' (fun z hz heq => ?_)
          (fun z hz => hnext z (.tail y hz)) fun z hz => hprev z (.tail y hz)
        exact hnotin ((Option.some.inj heq) ▸ hz)

end Erase

end Linked

end Threads
