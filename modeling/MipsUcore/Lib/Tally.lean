/-
Tallies: what a finite number of parties hold together.

Each party is at some point `f t`, and a party at the point `b` counts
for `w b`. The tally is the sum. One party moves at a time, so the only
fact about a step is `tally_update`: what the party counted for before is
exchanged for what it counts for now.

Nothing here knows who the parties are or what is counted.
-/
import Mathlib.Algebra.BigOperators.Group.Finset.Basic
import Mathlib.Algebra.Order.BigOperators.Group.Finset
import Mathlib.Data.Fintype.Basic

namespace Tally

open Function

variable {τ β : Type*} [Fintype τ]

/-- What all parties count for together. -/
def tally (w : β → Nat) (f : τ → β) : Nat := ∑ t, w (f t)

variable {w : β → Nat} {f : τ → β}

theorem le_tally (w : β → Nat) (f : τ → β) (t : τ) : w (f t) ≤ tally w f :=
  Finset.single_le_sum (f := fun t => w (f t)) (fun _ _ => Nat.zero_le _)
    (Finset.mem_univ t)

theorem tally_eq_zero : tally w f = 0 ↔ ∀ t, w (f t) = 0 := by
  simp [tally, Finset.sum_eq_zero_iff]

/-- Who counts for no more holds no more. -/
theorem tally_le_tally {v w : β → Nat} (h : ∀ t, v (f t) ≤ w (f t)) :
    tally v f ≤ tally w f :=
  Finset.sum_le_sum fun t _ => h t

/-- Somebody counts for less, and nobody for more. -/
theorem tally_lt_tally {v w : β → Nat} (h : ∀ t, v (f t) ≤ w (f t)) {t : τ}
    (ht : v (f t) < w (f t)) : tally v f < tally w f :=
  Finset.sum_lt_sum (fun t _ => h t) ⟨t, Finset.mem_univ t, ht⟩

/-- Only one party counts. -/
theorem tally_eq_of_alone {t : τ} (h : ∀ x, x ≠ t → w (f x) = 0) :
    tally w f = w (f t) :=
  Finset.sum_eq_single t (fun x _ hx => h x hx)
    fun ht => absurd (Finset.mem_univ t) ht

variable [DecidableEq τ]

/-- One party moves. -/
theorem tally_update (w : β → Nat) (f : τ → β) (t : τ) (b : β) :
    tally w (update f t b) + w (f t) = tally w f + w b := by
  have hmem : t ∈ (Finset.univ : Finset τ) := Finset.mem_univ t
  have hnew := Finset.add_sum_erase Finset.univ
    (fun x => w (update f t b x)) hmem
  have hold := Finset.add_sum_erase Finset.univ (fun x => w (f x)) hmem
  have hrest : ∑ x ∈ Finset.univ.erase t, w (update f t b x)
      = ∑ x ∈ Finset.univ.erase t, w (f x) := by
    refine Finset.sum_congr rfl fun x hx => ?_
    rw [update_of_ne (Finset.ne_of_mem_erase hx)]
  simp only [update_self] at hnew
  simp only [tally]
  omega

/-- A move between points that count the same. -/
theorem tally_update_same {t : τ} {b : β} (h : w b = w (f t)) :
    tally w (update f t b) = tally w f := by
  have hmove := tally_update w f t b
  omega

end Tally
