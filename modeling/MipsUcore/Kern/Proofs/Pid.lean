/-
`get_pid`: it ends, and its result is no process's pid.

# Why it ends

`last_pid` only moves past pids that are in use (`pidScan_spec`). Among as
many pids in a row as there are processes, and one more, one is free; each
time the scan starts again it is nearer to that one (`pidRepeat_spec`). So
there are at most as many rounds as processes, and one more.

# Why it is right

No pid in use lies strictly between `last_pid` and `next_safe` (`Gap`).
The calls that do not scan live on that, and the scan re-establishes it.
-/
import MipsUcore.Kern.Proc
import Mathlib.Data.List.Nodup
import Mathlib.Data.List.Range

namespace MipsUcore.Kern

namespace Procs

variable {pids : List Int} {last safe : Int}

/-- No pid in use between `last` and `safe`. -/
def Gap (pids : List Int) (last safe : Int) : Prop :=
  ∀ x ∈ pids, last < x → safe ≤ x

-- ===== one scan

/-- What a scan comes to: it ends at a free pid, or starts again behind
pids that are in use. -/
def ScanEnd (pids : List Int) (last : Int) (r : Int × Int × Bool) : Prop :=
  (r.2.2 = false ∧ last ≤ r.1 ∧ r.1 < r.2.1 ∧ r.2.1 ≤ maxPid ∧
      (∀ x, last ≤ x → x < r.1 → x ∈ pids) ∧
      r.1 ∉ pids ∧ Gap pids r.1 r.2.1) ∨
    r.2.2 = true ∧ r.2.1 = maxPid ∧ ∃ m, last < m ∧ m ≤ maxPid ∧
      r.1 = (if maxPid ≤ m then 1 else m) ∧
      ∀ x, last ≤ x → x < m → x ∈ pids

theorem pidScan_end (seen rest : List Int) (first : Int)
    (hlt : last < safe) (hsafe : safe ≤ maxPid) (hle : first ≤ last)
    (hused : ∀ x, first ≤ x → x < last → x ∈ seen ++ rest)
    (hseen : ∀ x ∈ seen, x ≠ last ∧ (last < x → safe ≤ x)) :
    ScanEnd (seen ++ rest) first (pidScan rest last safe) := by
  induction rest generalizing seen last safe with
  | nil =>
    refine .inl ⟨rfl, hle, hlt, hsafe, hused, ?_, ?_⟩
    · intro hin
      rw [List.append_nil] at hin
      exact (hseen last hin).1 rfl
    · intro x hx
      rw [List.append_nil] at hx
      exact (hseen x hx).2
  | cons pid rest ih =>
    have hsplit : seen ++ pid :: rest = (seen ++ [pid]) ++ rest := by simp
    have hmem : pid ∈ seen ++ pid :: rest :=
      List.mem_append_right seen List.mem_cons_self
    rw [pidScan]
    by_cases heq : pid = last
    · rw [if_pos heq]
      -- one more pid in use has been passed
      have hused' : ∀ x, first ≤ x → x < last + 1 →
          x ∈ seen ++ pid :: rest := by
        intro x hx hx'
        rcases Int.lt_or_eq_of_le (Int.lt_add_one_iff.1 hx') with hlt' | heq'
        · exact hused x hx hlt'
        · rw [heq', ← heq]
          exact hmem
      by_cases hover : safe ≤ last + 1
      · rw [if_pos hover]
        exact .inr ⟨rfl, rfl, last + 1, by omega, by omega, rfl, hused'⟩
      · rw [if_neg hover]
        rw [hsplit] at hused' ⊢
        refine ih _ (by omega) hsafe (by omega) hused' ?_
        intro x hx
        rcases List.mem_append.1 hx with hx | hx
        · have hx' := hseen x hx
          constructor
          · intro hbad
            omega
          · intro hgt
            exact hx'.2 (by omega)
        · obtain rfl := List.mem_singleton.1 hx
          omega
    · rw [if_neg heq]
      by_cases hnear : last < pid ∧ pid < safe
      · rw [if_pos hnear]
        rw [hsplit] at hused ⊢
        refine ih _ hnear.1 (by omega) hle hused ?_
        intro x hx
        rcases List.mem_append.1 hx with hx | hx
        · have hx' := hseen x hx
          refine ⟨hx'.1, fun hgt => ?_⟩
          omega
        · obtain rfl := List.mem_singleton.1 hx
          exact ⟨heq, fun _ => Int.le_refl _⟩
      · rw [if_neg hnear]
        rw [hsplit] at hused ⊢
        refine ih _ hlt hsafe hle hused ?_
        intro x hx
        rcases List.mem_append.1 hx with hx | hx
        · exact hseen x hx
        · obtain rfl := List.mem_singleton.1 hx
          exact ⟨heq, fun hgt => by omega⟩

/-- A scan of all processes from `last`. -/
theorem pidScan_spec (pids : List Int) (hlt : last < maxPid) :
    ScanEnd pids last (pidScan pids last maxPid) :=
  pidScan_end [] pids last hlt (Int.le_refl _) (Int.le_refl _)
    (fun x hx hx' => absurd hx (by omega))
    fun x hx => absurd hx List.not_mem_nil

-- ===== all scans

/-- The pid `k` behind `last`; behind the last one comes 1. -/
def pidAfter (last : Int) (k : Nat) : Int :=
  (last - 1 + k) % (maxPid - 1) + 1

theorem pidAfter_of_lt (hpos : 1 ≤ last) {k : Nat} (h : last + k < maxPid) :
    pidAfter last k = last + k := by
  unfold pidAfter maxPid at *
  omega

/-- Counting on from a pid further on. -/
theorem pidAfter_add {m : Int} (hm : last < m)
    (hmax : m ≤ maxPid) {k : Nat} (hk : m ≤ last + k) : pidAfter last k
      = pidAfter (if maxPid ≤ m then 1 else m) (k - (m - last).toNat) := by
  unfold pidAfter maxPid at *
  split <;> omega

/-- Behind a pid, among as many pids as there are processes and one more,
one is free. -/
theorem exists_free (pids : List Int) (last : Int)
    (hfew : pids.length < (maxPid - 1).toNat) :
    ∃ k ≤ pids.length, pidAfter last k ∉ pids := by
  by_contra hall
  push Not at hall
  have hinj : ∀ i ∈ List.range (pids.length + 1),
      ∀ j ∈ List.range (pids.length + 1),
      pidAfter last i = pidAfter last j → i = j := by
    intro i hi j hj heq
    rw [List.mem_range] at hi hj
    unfold pidAfter maxPid at *
    omega
  have hnodup : ((List.range (pids.length + 1)).map (pidAfter last)).Nodup :=
    List.nodup_range.map_on hinj
  have hsub : (List.range (pids.length + 1)).map (pidAfter last) ⊆ pids := by
    intro x hx
    obtain ⟨k, hk, rfl⟩ := List.mem_map.1 hx
    rw [List.mem_range] at hk
    exact hall k (by omega)
  have hlen := (hnodup.subperm hsub).length_le
  rw [List.length_map, List.length_range] at hlen
  omega

/-- What `get_pid` returns. -/
structure Fresh (pids : List Int) (last safe : Int) : Prop where
  pos : 1 ≤ last
  lt : last < maxPid
  safeLe : safe ≤ maxPid
  notMem : last ∉ pids
  gap : Gap pids last safe

/-- With a free pid `k` further on there are at most `k` more rounds. -/
theorem pidRepeat_spec {k fuel : Nat} (hk : k < fuel) (hpos : 1 ≤ last)
    (hlt : last < maxPid) (hfree : pidAfter last k ∉ pids) :
    ∃ r, pidRepeat pids fuel last maxPid = some r ∧ Fresh pids r.1 r.2 := by
  induction fuel generalizing k last with
  | zero => omega
  | succ fuel ih =>
    rcases pidScan_spec pids hlt with
      ⟨hend, hle, hlt', hsafe, -, hnot, hgap⟩ | ⟨hagain, hsafe, m, hm⟩
    · refine ⟨((pidScan pids last maxPid).1, (pidScan pids last maxPid).2.1),
        ?_, ?_⟩
      · simp only [pidRepeat, hend]
        rfl
      · exact ⟨by omega, by omega, hsafe, hnot, hgap⟩
    · obtain ⟨hgt, hmax, hnext, hused⟩ := hm
      -- the free pid is not among those that were passed
      have hfar : m ≤ last + k := by
        by_contra hnear
        push Not at hnear
        have hk' : pidAfter last k = last + k := pidAfter_of_lt hpos (by omega)
        rw [hk'] at hfree
        exact hfree (hused _ (by omega) hnear)
      rw [pidAfter_add hgt hmax hfar] at hfree
      have hstart : 1 ≤ (if maxPid ≤ m then 1 else m) ∧
          (if maxPid ≤ m then 1 else m) < maxPid := by
        split <;> omega
      obtain ⟨r, hr, hfresh⟩ := ih (k := k - (m - last).toNat) (by omega)
        hstart.1 hstart.2 hfree
      refine ⟨r, ?_, hfresh⟩
      rw [← hr]
      simp only [pidRepeat, hagain, hsafe, hnext]
      rfl

/-- Going round from `last`, all before `pid` are in use. -/
def Passed (pids : List Int) (last pid : Int) : Prop :=
  ∃ k, pid = pidAfter last k ∧ ∀ j < k, pidAfter last j ∈ pids

theorem pidRepeat_passed {fuel : Nat} {r : Int × Int} (hpos : 1 ≤ last)
    (hlt : last < maxPid) (h : pidRepeat pids fuel last maxPid = some r) :
    Passed pids last r.1 := by
  induction fuel generalizing last with
  | zero => cases h
  | succ fuel ih =>
    rcases pidScan_spec pids hlt with
      ⟨hend, hle, hlt', hsafe, hused, -⟩ |
      ⟨hagain, hsafe, m, hgt, hmax, hnext, hused⟩
    · simp only [pidRepeat, hend] at h
      cases h
      refine ⟨((pidScan pids last maxPid).1 - last).toNat, ?_, fun j hj => ?_⟩
      · rw [pidAfter_of_lt hpos (by omega)]
        omega
      · rw [pidAfter_of_lt hpos (by omega)]
        exact hused _ (by omega) (by omega)
    · simp only [pidRepeat, hagain, hsafe, hnext] at h
      obtain ⟨k, hk, hall⟩ := ih (by split <;> omega) (by split <;> omega) h
      refine ⟨k + (m - last).toNat, ?_, fun j hj => ?_⟩
      · rw [pidAfter_add hgt hmax (by omega), hk, Nat.add_sub_cancel]
      · by_cases hnear : last + j < m
        · rw [pidAfter_of_lt hpos (by omega)]
          exact hused _ (by omega) hnear
        · rw [pidAfter_add hgt hmax (by omega)]
          exact hall _ (by omega)

/-- `get_pid` returns a pid nobody has. -/
theorem getPid_spec {s : Procs} (hfew : s.procList.length < 8191)
    (hlast : 1 ≤ s.lastPid) (hgap : Gap s.pids s.lastPid s.nextSafe)
    (hsafe : s.nextSafe ≤ maxPid) : ∃ last safe, s.getPid
        = some ({ s with lastPid := last, nextSafe := safe }, last) ∧
      Fresh s.pids last safe := by
  have hlen : s.pids.length = s.procList.length := List.length_map ..
  have hscan : ∀ last, 1 ≤ last → last < maxPid →
      ∃ r, pidRepeat s.pids (s.procList.length + 1) last maxPid = some r ∧
        Fresh s.pids r.1 r.2 := by
    intro last hpos hlt
    obtain ⟨k, hk, hfree⟩ := exists_free s.pids last (by
      unfold maxPid
      omega)
    exact pidRepeat_spec (by omega) hpos hlt hfree
  simp only [getPid]
  by_cases hwrap : maxPid ≤ s.lastPid + 1
  · obtain ⟨r, hr, hfresh⟩ := hscan 1 (Int.le_refl _) (by decide)
    refine ⟨r.1, r.2, ?_, hfresh⟩
    rw [if_pos hwrap, hr]
    rfl
  · rw [if_neg hwrap]
    by_cases hdone : s.nextSafe ≤ s.lastPid + 1
    · obtain ⟨r, hr, hfresh⟩ := hscan (s.lastPid + 1) (by omega) (by omega)
      refine ⟨r.1, r.2, ?_, hfresh⟩
      rw [if_pos hdone, hr]
      rfl
    · refine ⟨s.lastPid + 1, s.nextSafe, ?_, by omega, by omega, hsafe, ?_, ?_⟩
      · rw [if_neg hdone]
        rfl
      · intro hin
        have := hgap _ hin (by omega)
        omega
      · intro x hx hgt
        exact hgap x hx (by omega)

end Procs

end MipsUcore.Kern
