/-
Chains: a list threaded through a `next` map.

`Chain next stop i l` says that from `i` on, `next` visits the members of
`l` in order and then arrives at `stop`. A free list kept in an array of
indices is one, with its end mark as `stop`; so is a chain of pointers
that ends in null. Taking the first member and putting a new one in front
are the two moves, and a change of `next` outside the members is none.
-/
import Mathlib.Data.List.Range
import Mathlib.Logic.Function.Basic

namespace Threads

variable {α : Type*}

/-- From `i` on, `next` visits `l` and arrives at `stop`. -/
inductive Chain (next : α → α) (stop : α) : α → List α → Prop
  | nil : Chain next stop stop []
  | cons {i : α} {l : List α} : i ≠ stop → Chain next stop (next i) l →
      Chain next stop i (i :: l)

namespace Chain

variable {next : α → α} {stop i j : α} {l l' : List α}

/-- A chain from the end mark has no members. -/
theorem eq_nil (h : Chain next stop stop l) : l = [] := by
  cases h with
  | nil => rfl
  | cons hne _ => exact absurd rfl hne

/-- A chain without members starts at the end mark. -/
theorem eq_stop (h : Chain next stop i []) : i = stop := by
  cases h
  rfl

/-- A chain that does not start at the end mark has a first member. -/
theorem exists_cons (h : Chain next stop i l) (hi : i ≠ stop) :
    ∃ l', l = i :: l' ∧ Chain next stop (next i) l' := by
  cases h with
  | nil => exact absurd rfl hi
  | cons _ hl => exact ⟨_, rfl, hl⟩

theorem start_eq (h : Chain next stop i (j :: l)) : i = j := by
  cases h
  rfl

theorem tail (h : Chain next stop i (j :: l)) :
    Chain next stop (next j) l := by
  cases h with
  | cons _ hl => exact hl

/-- The members are determined by the start. -/
theorem unique (h : Chain next stop i l) (h' : Chain next stop i l') :
    l = l' := by
  induction h generalizing l' with
  | nil => exact h'.eq_nil.symm
  | cons hne _ ih =>
    obtain ⟨l'', rfl, hl''⟩ := h'.exists_cons hne
    rw [ih hl'']

/-- A change outside the members keeps the chain. -/
theorem congr {next' : α → α} (h : Chain next stop i l)
    (hnext : ∀ j ∈ l, next' j = next j) : Chain next' stop i l := by
  induction h with
  | nil => exact .nil
  | @cons i l hne _ ih =>
    have hi : next' i = next i := hnext i List.mem_cons_self
    refine .cons hne ?_
    rw [hi]
    exact ih fun j hj => hnext j (List.mem_cons_of_mem _ hj)

/-- A new member goes in front. -/
theorem push [DecidableEq α] (h : Chain next stop i l) (hj : j ∉ l)
    (hne : j ≠ stop) : Chain (Function.update next j i) stop j (j :: l) := by
  refine .cons hne ?_
  rw [Function.update_self]
  refine h.congr fun k hk => Function.update_of_ne ?_ _ _
  rintro rfl
  exact hj hk

end Chain

/-- The chain through the numbers from `m` to `m + n`. -/
theorem Chain.range' {next : Nat → Nat} {stop m n : Nat}
    (hlast : next (m + n) = stop) (hstop : m + n < stop)
    (hnext : ∀ i, m ≤ i → i < m + n → next i = i + 1) :
    Chain next stop m (List.range' m (n + 1)) := by
  induction n generalizing m with
  | zero =>
    refine .cons (by omega) ?_
    have hm : next m = stop := hlast
    rw [hm]
    exact .nil
  | succ n ih =>
    refine .cons (by omega) ?_
    rw [hnext m (Nat.le_refl m) (by omega)]
    have hend : m + (n + 1) = m + 1 + n := by omega
    rw [hend] at hlast hstop
    exact ih hlast hstop fun i hi hi' => hnext i (by omega) (by omega)

end Threads
