/-
What `exec` makes of the arguments.

A page for each string lies at the top of the user stack, with the array
of pointers below, and `sp` starts at the very top. So all of them are
where the new program's stack grows (`exec_arguments_below_sp`): they survive
as long as the stack stays above the last string
(`exec_arguments_intact_iff`), and with sixteen strings or more the array is
below the area of the stack.
-/
import MipsUcore.Kern.Exec
import Mathlib.Tactic.Ring

namespace MipsUcore.Kern

-- ===== stores

variable {accepts : Nat → Bool} {mem mem' : Nat → BitVec 8}

theorem storeBytes_eq {a : Nat} {bs : List (BitVec 8)}
    (h : storeBytes accepts mem a bs = some mem') (x : Nat) :
    mem' x = if a ≤ x ∧ x < a + bs.length then bs.getD (x - a) 0
      else mem x := by
  induction bs generalizing a mem with
  | nil =>
    cases h
    rw [if_neg (by simp)]
  | cons b bs ih =>
    rw [storeBytes] at h
    split_ifs at h
    rw [ih h, List.length_cons]
    by_cases hx : x = a
    · subst hx
      rw [if_neg (by omega), if_pos (by omega), Function.update_self,
        Nat.sub_self, List.getD_cons_zero]
    · rw [Function.update_of_ne hx]
      by_cases hin : a + 1 ≤ x ∧ x < a + 1 + bs.length
      · have hsub : x - a = x - (a + 1) + 1 := by omega
        rw [if_pos hin, if_pos (by omega), hsub, List.getD_cons_succ]
      · rw [if_neg hin, if_neg (by omega)]

theorem storeBytes_some {a : Nat} {bs : List (BitVec 8)}
    (h : ∀ x, a ≤ x → x < a + bs.length → accepts x = true) :
    ∃ mem', storeBytes accepts mem a bs = some mem' := by
  induction bs generalizing a mem with
  | nil => exact ⟨mem, rfl⟩
  | cons b bs ih =>
    rw [List.length_cons] at h
    rw [storeBytes, if_pos (h a (by omega) (by omega))]
    exact ih fun x hx hlt => h x (by omega) (by omega)

theorem length_pointerBytes (a : Nat) : (pointerBytes a).length = 4 := by
  simp [pointerBytes]

-- ===== the loop

variable {argc i : Nat} {kargv : List (List (BitVec 8))}

/-- The string and the pointer of an argument are in place. -/
structure Placed (argc i : Nat) (s : List (BitVec 8))
    (mem : Nat → BitVec 8) : Prop where
  string : ∀ k ≤ s.length, mem (argString argc i + k) = (s ++ [0]).getD k 0
  pointer : ∀ k < 4, mem (uargv argc + 4 * i + k)
    = (pointerBytes (argString argc i)).getD k 0

/-- The arguments from `i` on, and what is not theirs. -/
theorem placeArgs_eq (hargc : argc ≤ 32) (hi : i + kargv.length = argc)
    (hlen : ∀ s ∈ kargv, s.length < pgsize)
    (h : placeArgs accepts argc i kargv mem = some mem') :
    (∀ j s, kargv[j]? = some s → Placed argc (i + j) s mem') ∧
      ∀ x, x < argString argc i →
        x < uargv argc + 4 * i ∨ argStacktop argc ≤ x → mem' x = mem x := by
  -- over the arguments: the later ones leave the earlier ones alone
  induction kargv generalizing i mem with
  | nil =>
    cases h
    exact ⟨fun j s hj => by simp at hj, fun _ _ _ => rfl⟩
  | cons s kargv ih =>
    rw [List.length_cons] at hi
    rw [List.forall_mem_cons] at hlen
    obtain ⟨mem₁, hstring, h⟩ := Option.bind_eq_some_iff.1 h
    obtain ⟨mem₂, hpointer, h⟩ := Option.bind_eq_some_iff.1 h
    obtain ⟨hlater, hsame⟩ := ih (by omega) hlen.2 h
    have hbytes := storeBytes_eq hstring
    have hwords := storeBytes_eq hpointer
    rw [List.length_append, List.length_singleton] at hbytes
    rw [length_pointerBytes] at hwords
    have htop : argStacktop argc = 0x80000000 - argc * 4096 := rfl
    have hargv : uargv argc = argStacktop argc - argc * 4 := rfl
    have hat : argString argc i = argStacktop argc + i * 4096 := rfl
    have hnext : argString argc (i + 1) = argStacktop argc + (i + 1) * 4096 :=
      rfl
    have hpage : s.length < 4096 := hlen.1
    refine ⟨fun j s' hj => ?_, fun x hx hout => ?_⟩
    · cases j with
      | succ j =>
        rw [show i + (j + 1) = i + 1 + j by omega]
        exact hlater j s' hj
      | zero =>
        cases hj
        rw [Nat.add_zero]
        refine ⟨fun k hk => ?_, fun k hk => ?_⟩
        · rw [hsame _ (by omega) (by omega), hwords, if_neg (by omega), hbytes,
            if_pos (by omega), Nat.add_sub_cancel_left]
        · rw [hsame _ (by omega) (by omega), hwords,
            if_pos (by omega), Nat.add_sub_cancel_left]
    · rw [hsame x (by omega) (by omega), hwords, if_neg (by omega), hbytes,
        if_neg (by omega)]

/-- The loop ends where every store below the top goes through. -/
theorem placeArgs_some (hargc : argc ≤ 32) (hi : i + kargv.length = argc)
    (hlen : ∀ s ∈ kargv, s.length < pgsize)
    (h : ∀ x, uargv argc ≤ x → x < ustacktop → accepts x = true) :
    ∃ mem', placeArgs accepts argc i kargv mem = some mem' := by
  induction kargv generalizing i mem with
  | nil => exact ⟨mem, rfl⟩
  | cons s kargv ih =>
    rw [List.length_cons] at hi
    rw [List.forall_mem_cons] at hlen
    have htop : argStacktop argc = 0x80000000 - argc * 4096 := rfl
    have hargv : uargv argc = argStacktop argc - argc * 4 := rfl
    have hat : argString argc i = argStacktop argc + i * 4096 := rfl
    have hend : ustacktop = 0x80000000 := rfl
    have hpage : s.length < 4096 := hlen.1
    have hstring (m : Nat → BitVec 8) :
        ∃ m', storeBytes accepts m (argString argc i) (s ++ [0]) = some m' := by
      refine storeBytes_some fun x hx hlt => ?_
      rw [List.length_append, List.length_singleton] at hlt
      exact h x (by omega) (by omega)
    have hpointer (m : Nat → BitVec 8) : ∃ m', storeBytes accepts m
        (uargv argc + 4 * i) (pointerBytes (argString argc i)) = some m' := by
      refine storeBytes_some fun x hx hlt => ?_
      rw [length_pointerBytes] at hlt
      exact h x (by omega) (by omega)
    obtain ⟨mem₁, hstring⟩ := hstring mem
    obtain ⟨mem₂, hpointer⟩ := hpointer mem₁
    rw [placeArgs, hstring, Option.bind_some, hpointer, Option.bind_some]
    exact ih (by omega) hlen.2

-- ===== the layout

/-- The regions of the arguments, address and size: the array of pointers,
and the strings. -/
def region (kargv : List (List (BitVec 8))) : Nat → Nat × Nat
  | 0 => ((userEntry kargv.length).a1, kargv.length * 4)
  | i + 1 => (argString kargv.length i, (kargv.getD i []).length + 1)

/-- The regions do not meet. -/
def Region.Apart (r r' : Nat × Nat) : Prop :=
  r.1 + r.2 ≤ r'.1 ∨ r'.1 + r'.2 ≤ r.1

/-- The arguments lie in the area of the stack, one beside the other. -/
structure Laid (kargv : List (List (BitVec 8))) : Prop where
  inside : ∀ j ≤ kargv.length, ustacktop - ustacksize ≤ (region kargv j).1 ∧
    (region kargv j).1 + (region kargv j).2 ≤ ustacktop
  disjoint : ∀ j ≤ kargv.length, ∀ j' ≤ kargv.length, j ≠ j' →
    Region.Apart (region kargv j) (region kargv j')

theorem region_zero : region kargv 0 = (0x80000000 - kargv.length * 4096
    - kargv.length * 4, kargv.length * 4) := rfl

theorem region_succ (i : Nat) : region kargv (i + 1) =
    (0x80000000 - kargv.length * 4096 + i * 4096,
      (kargv.getD i []).length + 1) := rfl

theorem length_getD_le (hlen : ∀ s ∈ kargv, s.length ≤ 4095) (i : Nat) :
    (kargv.getD i []).length ≤ 4095 := by
  rw [List.getD_eq_getElem?_getD]
  cases hi : kargv[i]? with
  | none => exact Nat.zero_le _
  | some s => exact hlen s (List.mem_of_getElem? hi)

/-- From sixteen arguments on the array is below the area of the stack. -/
theorem laid_iff (hnum : kargv.length ≤ 32)
    (hlen : ∀ s ∈ kargv, s.length ≤ 4095) :
    Laid kargv ↔ kargv.length ≤ 15 := by
  have hend : ustacktop = 0x80000000 := rfl
  have harea : ustacksize = 16 * 4096 := rfl
  constructor
  · intro h
    have harray := (h.inside 0 (Nat.zero_le _)).1
    rw [region_zero] at harray
    omega
  · intro hfew
    refine ⟨fun j hj => ?_, fun j hj j' hj' hne => ?_⟩
    · cases j with
      | zero =>
        rw [region_zero]
        omega
      | succ i =>
        have hfit := length_getD_le hlen i
        rw [region_succ]
        omega
    · cases j with
      | zero =>
        cases j' with
        | zero => exact absurd rfl hne
        | succ i' =>
          left
          rw [region_zero, region_succ]
          omega
      | succ i =>
        cases j' with
        | zero =>
          right
          rw [region_zero, region_succ]
          omega
        | succ i' =>
          have hfit := length_getD_le hlen i
          have hfit' := length_getD_le hlen i'
          rw [Region.Apart, region_succ, region_succ]
          omega

/-- For every list of accepted arguments, the array of pointers and each
string begin below `sp`, where the stack of the new program grows. They lie
in the area of the stack, disjoint, exactly if there are at most fifteen.
What `load_icode` stores is a pointer to a copy with its NUL for each of
them, and with at most fifteen it stores all if the area of the stack
accepts stores. -/
theorem exec_arguments_below_sp (kargv : List (List (BitVec 8)))
    (hone : 1 ≤ kargv.length) (hnum : kargv.length ≤ 32)
    (hlen : ∀ s ∈ kargv, s.length ≤ 4095) :
    (∀ j ≤ kargv.length, (region kargv j).1 < (userEntry kargv.length).sp) ∧
    (Laid kargv ↔ kargv.length ≤ 15) ∧
    (∀ accepts mem mem',
      placeArgs accepts kargv.length 0 kargv mem = some mem' →
      ∀ i s, kargv[i]? = some s → Placed kargv.length i s mem') ∧
    ∀ accepts mem, (∀ x, ustacktop - ustacksize ≤ x → x < ustacktop →
      accepts x = true) → kargv.length ≤ 15 →
      ∃ mem', placeArgs accepts kargv.length 0 kargv mem = some mem' := by
  have hpages : ∀ s ∈ kargv, s.length < pgsize :=
    fun s hs => Nat.lt_succ_of_le (hlen s hs)
  have hsp : (userEntry kargv.length).sp = 0x80000000 := rfl
  refine ⟨?_, laid_iff hnum hlen, ?_, ?_⟩
  · intro j hj
    cases j with
    | zero =>
      rw [region_zero]
      omega
    | succ i =>
      rw [region_succ]
      omega
  · intro accepts mem mem' hrun i s hi
    have hplaced := (placeArgs_eq hnum (Nat.zero_add _) hpages hrun).1 i s hi
    rwa [Nat.zero_add] at hplaced
  · intro accepts mem haccepts hfew
    refine placeArgs_some hnum (Nat.zero_add _) hpages fun x hx hlt => ?_
    -- the array is the lowest of what is stored
    have harray := (((laid_iff hnum hlen).2 hfew).inside 0 (Nat.zero_le _)).1
    exact haccepts x (harray.trans hx) hlt

/-- Two arguments: the array and the second string. -/
theorem exec_arguments_below_sp_two :
    (region [[108, 115], [47]] 0).1 < (userEntry 2).sp ∧
      (region [[108, 115], [47]] 2).1 < (userEntry 2).sp := by
  obtain ⟨hbelow, -⟩ := exec_arguments_below_sp [[108, 115], [47]]
    (by decide) (by decide) (by decide)
  exact ⟨hbelow 0 (by decide), hbelow 2 (by decide)⟩

/-- One argument, a single letter: the array and the whole string are below
`sp`. Of sixteen arguments the array is below the area of the stack. -/
theorem exec_letter_below_sp :
    (region [[97]] 0).1 + (region [[97]] 0).2 ≤ (userEntry 1).sp ∧
      (region [[97]] 1).1 + (region [[97]] 1).2 ≤ (userEntry 1).sp ∧
      ¬Laid (List.replicate 16 [97]) := by
  refine ⟨by decide, by decide, fun h => ?_⟩
  exact absurd (h.inside 0 (by decide)).1 (by decide)

/-- A stack that is `depth` bytes deep does not reach the arguments either. -/
structure Intact (kargv : List (List (BitVec 8))) (depth : Nat) : Prop
    extends Laid kargv where
  safe : ∀ j ≤ kargv.length, Region.Apart (region kargv j)
    ((userEntry kargv.length).sp - depth, depth)

/-- Although they begin below `sp`, at most fifteen arguments survive as long
as the stack stays above the end of the last string, and no longer. -/
theorem exec_arguments_intact_iff (kargv : List (List (BitVec 8)))
    (depth : Nat) (hone : 1 ≤ kargv.length) (hnum : kargv.length ≤ 32)
    (hlen : ∀ s ∈ kargv, s.length ≤ 4095) (hdepth : depth ≤ ustacksize) :
    Intact kargv depth ↔ kargv.length ≤ 15 ∧
      depth + ((kargv.getD (kargv.length - 1) []).length + 1) ≤ pgsize := by
  have hsp : (userEntry kargv.length).sp = 0x80000000 := rfl
  have harea : ustacksize = 16 * 4096 := rfl
  have hpage : pgsize = 4096 := rfl
  constructor
  · intro h
    have hfew := (laid_iff hnum hlen).1 h.toLaid
    have hlast := h.safe kargv.length (Nat.le_refl _)
    obtain ⟨m, hm⟩ := Nat.exists_eq_add_of_le' hone
    rw [Region.Apart, hm, region_succ, ← hm] at hlast
    rw [show kargv.length - 1 = m by omega]
    omega
  · rintro ⟨hfew, hdeep⟩
    refine ⟨(laid_iff hnum hlen).2 hfew, fun j hj => .inl ?_⟩
    cases j with
    | zero =>
      rw [region_zero]
      omega
    | succ i =>
      rw [region_succ]
      by_cases hi : i = kargv.length - 1
      · rw [← hi] at hdeep
        omega
      · have hfit := length_getD_le hlen i
        omega

/-- Two arguments under a shallow stack. -/
theorem exec_arguments_intact_two : Intact [[108, 115], [47]] 1024 :=
  (exec_arguments_intact_iff [[108, 115], [47]] 1024 (by decide) (by decide)
    (by decide) (by decide)).2 (by decide)

/-- One argument under a stack of a page. -/
example : ¬Region.Apart (region [[97]] 1) ((userEntry 1).sp - 4096, 4096) := by
  unfold Region.Apart
  decide

end MipsUcore.Kern
