/-
One owner for everything in use.

Owners name things: `names o` is what the owner `o` holds, if it holds
anything. `Sole` says that nothing is named twice and that what is named
is in use; `Covered` says that whatever is in use is named. Both survive
when an owner takes a thing that was not in use (`claim`) and when one
gives its thing back (`release`).
-/
import Mathlib.Logic.Function.Basic

namespace Owners

open Function

variable {ι β : Type*} [DecidableEq ι] {names : ι → Option β}
  {used used' : β → Prop} {o : ι} {b : β}

/-- Nothing has two owners, and what has an owner is in use. -/
structure Sole (names : ι → Option β) (used : β → Prop) : Prop where
  inj : ∀ {o o' : ι} {b : β}, names o = some b → names o' = some b → o = o'
  used : ∀ {o : ι} {b : β}, names o = some b → used b

/-- Whatever is in use has an owner. -/
def Covered (names : ι → Option β) (used : β → Prop) : Prop :=
  ∀ b, used b → ∃ o, names o = some b

omit [DecidableEq ι] in
/-- A thing in use has exactly one owner. -/
theorem Sole.existsUnique (h : Sole names used) (hc : Covered names used)
    (hb : used b) : ∃! o, names o = some b := by
  obtain ⟨o, ho⟩ := hc b hb
  exact ⟨o, ho, fun o' ho' => h.inj ho' ho⟩

-- ===== taking

/-- An owner may take a thing that is not in use. -/
theorem Sole.claim (h : Sole names used) (hb : ¬used b)
    (hused : ∀ c, used' c ↔ c = b ∨ used c) :
    Sole (update names o (some b)) used' := by
  have hold {p : ι} {c : β} (hp : p ≠ o)
      (hc : update names o (some b) p = some c) :
      names p = some c := by
    rwa [update_of_ne hp] at hc
  have hnew {c : β} (hc : update names o (some b) o = some c) :
      c = b := by
    rw [update_self] at hc
    exact (Option.some.inj hc).symm
  constructor
  · intro p q c hp hq
    by_cases hpo : p = o <;> by_cases hqo : q = o
    · rw [hpo, hqo]
    · subst hpo
      rw [hnew hp] at hq
      exact absurd (h.used (hold hqo hq)) hb
    · subst hqo
      rw [hnew hq] at hp
      exact absurd (h.used (hold hpo hp)) hb
    · exact h.inj (hold hpo hp) (hold hqo hq)
  · intro p c hp
    rw [hused]
    by_cases hpo : p = o
    · subst hpo
      exact .inl (hnew hp)
    · exact .inr (h.used (hold hpo hp))

/-- Only an owner that holds nothing may take: else what it held
would be in use and nobody's. -/
theorem Covered.claim (h : Covered names used) (ho : names o = none)
    (hused : ∀ c, used' c ↔ c = b ∨ used c) :
    Covered (update names o (some b)) used' := by
  intro c hc
  rcases (hused c).mp hc with rfl | hc
  · exact ⟨o, update_self ..⟩
  · obtain ⟨p, hp⟩ := h c hc
    have hpo : p ≠ o := by
      rintro rfl
      rw [ho] at hp
      exact Option.some_ne_none c hp.symm
    exact ⟨p, by rw [update_of_ne hpo, hp]⟩

-- ===== giving back

/-- An owner may give up what it holds. -/
theorem Sole.release (h : Sole names used) (ho : names o = some b)
    (hused : ∀ c, used' c ↔ c ≠ b ∧ used c) :
    Sole (update names o none) used' := by
  have hold {p : ι} {c : β} (hc : update names o none p = some c) :
      p ≠ o ∧ names p = some c := by
    by_cases hp : p = o
    · rw [hp, update_self] at hc
      cases hc
    · rw [update_of_ne hp] at hc
      exact ⟨hp, hc⟩
  constructor
  · intro p q c hp hq
    exact h.inj (hold hp).2 (hold hq).2
  · intro p c hp
    obtain ⟨hpo, hp⟩ := hold hp
    rw [hused]
    refine ⟨?_, h.used hp⟩
    rintro rfl
    exact hpo (h.inj hp ho)

theorem Covered.release (h : Covered names used) (ho : names o = some b)
    (hused : ∀ c, used' c ↔ c ≠ b ∧ used c) :
    Covered (update names o none) used' := by
  intro c hc
  obtain ⟨hcb, hc⟩ := (hused c).mp hc
  obtain ⟨p, hp⟩ := h c hc
  have hpo : p ≠ o := by
    rintro rfl
    rw [ho] at hp
    exact hcb (Option.some.inj hp).symm
  exact ⟨p, by rw [update_of_ne hpo, hp]⟩

end Owners
