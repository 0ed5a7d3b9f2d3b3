/-
Logs of writes to a keyed store.

A store is a function from keys; a log is the list of its writes, oldest
first, and `replay` is the store the log leaves behind: the value under a
key is the one most recently written there. Hardware writes several keys
at one edge through ports, a value or none for every key; `entries` lists
what the ports write, and replaying it is what the ports do
(`replay_entries`).
-/
import Mathlib.Data.List.Basic
import Mathlib.Logic.Function.Basic

namespace Log

open Function

variable {κ ν : Type*} [DecidableEq κ]

/-- The store after the writes of the log. -/
def replay (store : κ → ν) (log : List (κ × ν)) : κ → ν :=
  log.foldl (fun f e => update f e.1 e.2) store

@[simp] theorem replay_cons (store : κ → ν) (k : κ) (v : ν)
    (log : List (κ × ν)) :
    replay store ((k, v) :: log) = replay (update store k v) log :=
  rfl

theorem replay_append (store : κ → ν) (log log' : List (κ × ν)) :
    replay store (log ++ log') = replay (replay store log) log' :=
  List.foldl_append

/-- What the ports write, in the order of `keys`. -/
def entries (keys : List κ) (port : κ → Option ν) : List (κ × ν) :=
  keys.filterMap fun k => (port k).map (Prod.mk k)

omit [DecidableEq κ] in
theorem entries_cons_none {keys : List κ} {port : κ → Option ν} {k : κ}
    (h : port k = none) : entries (k :: keys) port = entries keys port := by
  unfold entries
  rw [List.filterMap_cons, h, Option.map_none]

omit [DecidableEq κ] in
theorem entries_cons_some {keys : List κ} {port : κ → Option ν} {k : κ}
    {v : ν} (h : port k = some v) :
    entries (k :: keys) port = (k, v) :: entries keys port := by
  unfold entries
  rw [List.filterMap_cons, h, Option.map_some]

/-- A key outside the list keeps its value. -/
theorem replay_entries_of_not_mem {keys : List κ} (port : κ → Option ν)
    (store : κ → ν) {k : κ} (hk : k ∉ keys) :
    replay store (entries keys port) k = store k := by
  induction keys generalizing store with
  | nil => rfl
  | cons a keys ih =>
    obtain ⟨hne, hrest⟩ := not_or.mp (mt List.mem_cons.mpr hk)
    cases hp : port a with
    | none =>
      rw [entries_cons_none hp]
      exact ih store hrest
    | some v =>
      rw [entries_cons_some hp, replay_cons, ih _ hrest,
        update_of_ne hne]

/-- Replaying what the ports write is what the ports do. -/
theorem replay_entries {keys : List κ} (port : κ → Option ν)
    (store : κ → ν) {k : κ} (hk : k ∈ keys) :
    replay store (entries keys port) k = (port k).getD (store k) := by
  induction keys generalizing store with
  | nil => cases hk
  | cons a keys ih =>
    by_cases hmem : k ∈ keys
    · cases hp : port a with
      | none =>
        rw [entries_cons_none hp]
        exact ih store hmem
      | some v =>
        rw [entries_cons_some hp, replay_cons, ih _ hmem]
        by_cases hka : k = a
        · subst hka
          rw [hp]
          rfl
        · rw [update_of_ne hka]
    · have hka : k = a := (List.mem_cons.mp hk).resolve_right hmem
      subst hka
      cases hp : port k with
      | none =>
        rw [entries_cons_none hp]
        exact replay_entries_of_not_mem port store hmem
      | some v =>
        rw [entries_cons_some hp, replay_cons,
          replay_entries_of_not_mem port _ hmem, update_self]
        rfl

end Log
