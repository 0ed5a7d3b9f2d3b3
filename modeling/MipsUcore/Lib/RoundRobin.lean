/-
A table that is filled in turn.

`Carousel` has `2 ^ w` slots and a pointer to the one that is written next. What
it holds is told by the values pushed so far, the last one first: the newest
`2 ^ w` of them (`Carousel.Recent`).

# Working sets

Where a value is pushed only when it is not in the table, and all values
come from a set that fits into the table, only so many are pushed: the first
`2 ^ w`, which may replace entries nobody has looked at, and then each value
of the set at most once (`Missed.length_le`).
-/
import Mathlib.Data.BitVec
import Mathlib.Data.Finset.Card
import Mathlib.Data.List.Nodup
import Mathlib.Logic.Function.Basic

namespace RoundRobin

open Function

-- ===== carousels

/-- Slots and the one that is written next. -/
structure Carousel (w : Nat) (α : Type*) where
  slot : BitVec w → α
  next : BitVec w

namespace Carousel

variable {w : Nat} {α : Type*} {r : Carousel w α} {h : List α}

def push (r : Carousel w α) (a : α) : Carousel w α :=
  ⟨update r.slot r.next a, r.next + 1⟩

/-- The slots behind the pointer hold `h`, as far as there are slots. -/
def Recent (r : Carousel w α) (h : List α) : Prop :=
  ∀ i a, i < 2 ^ w → h[i]? = some a →
    r.slot (r.next - 1 - BitVec.ofNat w i) = a

theorem recent_nil (r : Carousel w α) : r.Recent [] := by
  intro i a _ h
  cases h

theorem Recent.push (hr : r.Recent h) (a : α) :
    (r.push a).Recent (a :: h) := by
  intro i b hi hb
  show update r.slot r.next a (r.next + 1 - 1 - BitVec.ofNat w i) = b
  rw [BitVec.add_sub_cancel]
  cases i with
  | zero =>
    cases hb
    show update r.slot r.next a (r.next - 0) = a
    rw [sub_zero, update_self]
  | succ i =>
    -- an older slot is not the one just written
    have hne : r.next - BitVec.ofNat w (i + 1) ≠ r.next := by
      intro heq
      have hzero := congrArg BitVec.toNat (sub_eq_self.mp heq)
      rw [BitVec.toNat_ofNat, Nat.mod_eq_of_lt hi] at hzero
      cases hzero
    have hback : r.next - BitVec.ofNat w (i + 1)
        = r.next - 1 - BitVec.ofNat w i := by
      rw [BitVec.ofNat_add, ← sub_sub, sub_right_comm]
      rfl
    rw [update_of_ne hne, hback]
    exact hr i b (by omega) hb

/-- Once every slot has been written, all of them are recent. -/
theorem Recent.mem_take (hr : r.Recent h) (hfull : 2 ^ w ≤ h.length)
    (j : BitVec w) : r.slot j ∈ h.take (2 ^ w) := by
  have hi := (r.next - 1 - j).isLt
  have hslot : r.next - 1 - BitVec.ofNat w (r.next - 1 - j).toNat = j := by
    rw [BitVec.ofNat_toNat, BitVec.setWidth_eq, sub_sub_cancel]
  have hget := hr _ _ hi (List.getElem?_eq_getElem (hi.trans_le hfull))
  rw [hslot] at hget
  rw [hget]
  exact List.mem_take_iff_getElem.mpr ⟨_, by omega, rfl⟩

end Carousel

-- ===== working sets

variable {α : Type*}

/-- Each value was missing when it was added: it is not among the newest
`c` before it. Nothing is asked of the first `c`. -/
def Missed (c : Nat) : List α → Prop
  | [] => True
  | a :: h => (c ≤ h.length → a ∉ h.take c) ∧ Missed c h

theorem length_le_card {h : List α} {n : Finset α} (hnodup : h.Nodup)
    (hsub : ∀ a ∈ h, a ∈ n) : h.length ≤ n.card := by
  classical
  rw [← List.toFinset_card_of_nodup hnodup]
  exact Finset.card_le_card fun a ha => hsub a (List.mem_toFinset.mp ha)

/-- Behind the first `c`, the values are different. -/
theorem Missed.nodup {c : Nat} {n : Finset α} {h : List α}
    (hm : Missed c h) (hsub : ∀ a ∈ h, a ∈ n) (hc : n.card ≤ c) :
    (h.take (h.length - c)).Nodup := by
  induction h with
  | nil =>
    rw [List.take_nil]
    exact List.nodup_nil
  | cons a h ih =>
    have hrest := ih hm.2 fun b hb => hsub b (List.mem_cons_of_mem a hb)
    rw [List.length_cons]
    by_cases hfull : c ≤ h.length
    · rw [Nat.succ_sub hfull, List.take_succ_cons, List.nodup_cons]
      refine ⟨fun hmem => hm.1 hfull ?_, hrest⟩
      -- the different values fit into the table, so they are all in it
      have hlen := length_le_card hrest fun b hb =>
        hsub b (List.mem_cons_of_mem a (List.mem_of_mem_take hb))
      rw [List.length_take, Nat.min_eq_left (by omega)] at hlen
      exact List.take_subset_take_left h (hlen.trans hc) hmem
    · rw [Nat.sub_eq_zero_of_le (by omega)]
      exact List.nodup_nil

theorem Missed.length_le {c : Nat} {n : Finset α} {h : List α}
    (hm : Missed c h) (hsub : ∀ a ∈ h, a ∈ n) (hc : n.card ≤ c) :
    h.length ≤ c + n.card := by
  have hlen := length_le_card (hm.nodup hsub hc) fun a ha =>
    hsub a (List.mem_of_mem_take ha)
  rw [List.length_take, Nat.min_eq_left (by omega)] at hlen
  omega

end RoundRobin
