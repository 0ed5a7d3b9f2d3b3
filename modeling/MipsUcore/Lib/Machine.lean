/-
Clocked machines: a step function driven by a list of inputs.

`run` is the state after the inputs, `trace` what an observer of every
edge has collected, and `Along` says that a condition on the state and
the input held at every edge. Conditions on a whole run — "no exception
is raised", "the bus is never busy here" — are `Along` conditions, and
every result about a run is one of the rules below: it names what one
edge keeps and gets what the run keeps.

Nothing here knows what the machine is.
-/
import Mathlib.Data.List.Basic
import Mathlib.Logic.Function.Iterate

namespace Machine

variable {σ ι ο : Type*} {step : σ → ι → σ}

-- ===== runs

/-- The state after the inputs. -/
def run (step : σ → ι → σ) (s : σ) (is : List ι) : σ := is.foldl step s

@[simp] theorem run_nil (s : σ) : run step s [] = s := rfl

@[simp] theorem run_cons (s : σ) (i : ι) (is : List ι) :
    run step s (i :: is) = run step (step s i) is := rfl

theorem run_append (s : σ) (is js : List ι) :
    run step s (is ++ js) = run step (run step s is) js :=
  List.foldl_append

/-- A machine with something written next to it runs as before. -/
theorem run_map {σ' : Type*} {step' : σ' → ι → σ'} (f : σ → σ')
    (hstep : ∀ s i, f (step s i) = step' (f s) i) (s : σ) (is : List ι) :
    f (run step s is) = run step' (f s) is := by
  induction is generalizing s with
  | nil => rfl
  | cons i is ih => rw [run_cons, run_cons, ih, hstep]

/-- Everything `out` reports at the edges of the run, oldest first. -/
def trace (step : σ → ι → σ) (out : σ → ι → List ο) : σ → List ι → List ο
  | _, [] => []
  | s, i :: is => out s i ++ trace step out (step s i) is

@[simp] theorem trace_nil (out : σ → ι → List ο) (s : σ) :
    trace step out s [] = [] := rfl

@[simp] theorem trace_cons (out : σ → ι → List ο) (s : σ) (i : ι)
    (is : List ι) :
    trace step out s (i :: is)
      = out s i ++ trace step out (step s i) is := rfl

-- ===== conditions along the run

/-- `P` holds of the state and the input at every edge of the run. -/
def Along (step : σ → ι → σ) (P : σ → ι → Prop) : σ → List ι → Prop
  | _, [] => True
  | s, i :: is => P s i ∧ Along step P (step s i) is

@[simp] theorem along_nil (P : σ → ι → Prop) (s : σ) :
    Along step P s [] := trivial

@[simp] theorem along_cons (P : σ → ι → Prop) (s : σ) (i : ι)
    (is : List ι) :
    Along step P s (i :: is) ↔ P s i ∧ Along step P (step s i) is := Iff.rfl

instance decidableAlong (P : σ → ι → Prop) [∀ s i, Decidable (P s i)] :
    ∀ (s : σ) (is : List ι), Decidable (Along step P s is)
  | _, [] => isTrue trivial
  | s, i :: is =>
    have := decidableAlong P (step s i) is
    inferInstanceAs (Decidable (P s i ∧ Along step P (step s i) is))

/-- `P` holds at some edge of the run. -/
def Sometime (step : σ → ι → σ) (P : σ → ι → Prop) : σ → List ι → Prop
  | _, [] => False
  | s, i :: is => P s i ∨ Sometime step P (step s i) is

-- ===== rules

variable {P L Q : σ → ι → Prop} {I : σ → Prop} {s : σ} {is : List ι}

/-- The invariant rule: what every edge keeps under `P`, a run along
which `P` holds keeps. -/
theorem run_induction (hstep : ∀ s i, I s → P s i → I (step s i))
    (hs : I s) (h : Along step P s is) : I (run step s is) := by
  induction is generalizing s with
  | nil => exact hs
  | cons i is ih => exact ih (hstep s i hs h.1) h.2

/-- What the invariant implies holds along the run. -/
theorem along_of_inv
    (hstep : ∀ s i, I s → L s i → P s i ∧ I (step s i)) (hs : I s)
    (h : Along step L s is) : Along step P s is := by
  induction is generalizing s with
  | nil => trivial
  | cons i is ih =>
    obtain ⟨hp, hnext⟩ := hstep s i hs h.1
    exact ⟨hp, ih hnext h.2⟩

/-- A condition on the inputs alone. -/
theorem along_input {P : ι → Prop} :
    Along step (fun _ i => P i) s is ↔ ∀ i ∈ is, P i := by
  induction is generalizing s with
  | nil => simp
  | cons i is ih => rw [along_cons, ih, List.forall_mem_cons]

/-- The invariant rule for a relation between the state and everything
observed so far. -/
theorem trace_induction {out : σ → ι → List ο} {R : σ → List ο → Prop}
    (hstep : ∀ s i tr, R s tr → P s i → R (step s i) (tr ++ out s i))
    {tr : List ο} (hs : R s tr) (h : Along step P s is) :
    R (run step s is) (tr ++ trace step out s is) := by
  induction is generalizing s tr with
  | nil => simpa using hs
  | cons i is ih =>
    have hnext := ih (hstep s i tr hs h.1) h.2
    rwa [List.append_assoc] at hnext

theorem along_append {js : List ι} : Along step P s (is ++ js) ↔
      Along step P s is ∧ Along step P (run step s is) js := by
  induction is generalizing s with
  | nil => exact ⟨fun h => ⟨trivial, h⟩, fun h => h.2⟩
  | cons i is ih =>
    rw [List.cons_append, along_cons, along_cons, run_cons, ih, and_assoc]

/-- Simulation. The events a machine reports are the inputs of another
one, `apply`, that says what they mean. If every edge keeps the relation
`R` and reports only events that `L` allows, so does every run. -/
theorem simulation {α ε : Type*} {apply : α → ε → α}
    {out : σ → ι → List ε} {L : α → ε → Prop} {R : σ → α → Prop}
    (hstep : ∀ s i a, R s a → P s i → Along apply L a (out s i) ∧
      R (step s i) (run apply a (out s i)))
    {a : α} (hs : R s a) (h : Along step P s is) :
    Along apply L a (trace step out s is) ∧
      R (run step s is) (run apply a (trace step out s is)) := by
  induction is generalizing s a with
  | nil => exact ⟨trivial, hs⟩
  | cons i is ih =>
    obtain ⟨hlegal, hnext⟩ := hstep s i a hs h.1
    obtain ⟨hrest, hend⟩ := ih hnext h.2
    rw [trace_cons, along_append, run_append]
    exact ⟨⟨hlegal, hrest⟩, hend⟩

/-- Two conditions that agree wherever the invariant holds hold along
the same runs. -/
theorem along_congr (hstep : ∀ s i, I s → I (step s i))
    (hPQ : ∀ s i, I s → (P s i ↔ Q s i)) (hs : I s)
    (is : List ι) : Along step P s is ↔ Along step Q s is := by
  induction is generalizing s with
  | nil => exact Iff.rfl
  | cons i is ih =>
    rw [along_cons, along_cons, hPQ s i hs, ih (hstep s i hs)]

theorem not_sometime_of_along
    (h : Along step (fun s i => ¬ P s i) s is) : ¬ Sometime step P s is := by
  induction is generalizing s with
  | nil => exact id
  | cons i is ih => exact fun hs => hs.elim h.1 (ih h.2)

/-- What waits for `Q` and is released only by `R`: if `W` survives every
edge without `R`, and `Q` cannot pass without `R` while `W` holds, then a
run that starts in `W` and sees `Q` sees `R`. -/
theorem sometime_of_waiting {W : σ → Prop} {R : σ → ι → Prop} (hs : W s)
    (hkeep : Along step (fun s i => W s → R s i ∨ W (step s i)) s is)
    (hQ : ∀ s i, W s → Q s i → R s i) (h : Sometime step Q s is) :
    Sometime step R s is := by
  induction is generalizing s with
  | nil => exact h
  | cons i is ih =>
    obtain hq | hlater := h
    · exact .inl (hQ s i hs hq)
    · obtain hr | hw := hkeep.1 hs
      · exact .inl hr
      · exact .inr (ih hw hkeep.2 hlater)

/-- Progress by a measure: if every edge without `P` keeps the invariant
and makes `f` smaller, `P` comes within `f` edges. -/
theorem sometime_of_measure {f : σ → Nat}
    (hstep : ∀ s i, I s → L s i → ¬ P s i →
      I (step s i) ∧ f (step s i) < f s) (hs : I s) (h : Along step L s is)
    (hlen : f s < is.length) : Sometime step P s is := by
  induction is generalizing s with
  | nil => exact absurd hlen (Nat.not_lt_zero _)
  | cons i is ih =>
    by_cases hP : P s i
    · exact .inl hP
    · obtain ⟨hnext, hless⟩ := hstep s i hs h.1 hP
      rw [List.length_cons] at hlen
      exact .inr (ih hnext h.2 (by omega))

/-- A machine inside a larger one: a condition on its runs is a condition
on the runs of the whole. -/
theorem along_map {σ' ι' : Type*} {step' : σ' → ι' → σ'} (f : σ → σ')
    (g : σ → ι → ι') (hstep : ∀ s i, f (step s i) = step' (f s) (g s i))
    (P : σ' → ι' → Prop) (s : σ) (is : List ι) :
    Along step' P (f s) (trace step (fun s i => [g s i]) s is) ↔
      Along step (fun s i => P (f s) (g s i)) s is := by
  induction is generalizing s with
  | nil => exact Iff.rfl
  | cons i is ih =>
    rw [trace_cons, List.singleton_append, along_cons, along_cons, ← hstep, ih]

/-- Along a run a quantity that never falls stays below its value at the
end. -/
theorem along_le_run {f : σ → Nat} (hmono : ∀ s i, f s ≤ f (step s i))
    (h : Along step P s is) : f s ≤ f (run step s is) ∧
      Along step (fun s' i => P s' i ∧ f (step s' i) ≤ f (run step s is))
        s is := by
  induction is generalizing s with
  | nil => exact ⟨Nat.le_refl _, trivial⟩
  | cons i is ih =>
    obtain ⟨hle, hrest⟩ := ih h.2
    exact ⟨Nat.le_trans (hmono s i) hle, ⟨h.1, hle⟩, hrest⟩

-- ===== autonomous machines

/-- Everything a machine without inputs reports in its first `n` steps. -/
def outputs (next : σ → σ) (out : σ → List ο) (s : σ) (n : Nat) : List ο :=
  (List.range n).flatMap fun m => out (next^[m] s)

theorem outputs_succ (next : σ → σ) (out : σ → List ο) (s : σ) (n : Nat) :
    outputs next out s (n + 1) = outputs next out s n ++ out (next^[n] s) := by
  unfold outputs
  rw [List.range_succ, List.flatMap_append, List.flatMap_singleton]

theorem outputs_prefix {next : σ → σ} {out : σ → List ο} {s : σ} {m n : Nat}
    (h : m ≤ n) : outputs next out s m <+: outputs next out s n := by
  induction h with
  | refl => exact List.prefix_refl _
  | step _ ih =>
    rw [outputs_succ]
    exact ih.trans (List.prefix_append _ _)

end Machine
