/-
Reference counts of pages are exact.

# The count and what is pending

The entries of all page directories are slots, and a present entry points
from its slot to a page. `count` is the number of slots that point to a
page: a tally, so that writing one entry moves one slot (`count_setPte`).

`page_insert` counts the page before it writes the entry, and drops the
old page in between. So the law carries a pending reference: the count
kept for a page of the zone is the number of its slots and of the pending
references (`Exact`). Page tables are counted once, and neither they nor
pages with a slot or a pending reference are free.

`page_remove_pte` gives the page back before it clears the entry. Nothing
looks at the entry in between, so the proof takes the steps in the other
order.
-/
import MipsUcore.Kern.Proofs.CopyRange
import MipsUcore.Lib.Tally
import Mathlib.Tactic.IntervalCases

namespace MipsUcore.Kern

open Cpu Tally Function

namespace Vm

variable {z n : Nat} {dirs : Finset Nat} {s t u : Vm}
  {d la q : Nat} {pte : Word}

-- ===== slots

/-- The page an entry maps. -/
def pteTarget (pte : Word) : Option Nat :=
  if ptepPresent pte then some (ppn (pteAddr pte)).toNat else none

theorem pteTarget_zero : pteTarget 0 = none := rfl

/-- The page each slot points to; a slot is a directory and a page of its
address space. -/
def slots (s : Vm) (dirs : Finset Nat) (x : dirs × Fin (2 ^ 20)) :
    Option Nat :=
  pteTarget (s.entry x.1 (x.2 * pgsize))

/-- The number of present entries that map the page `q`. -/
def count (s : Vm) (dirs : Finset Nat) (q : Nat) : Nat :=
  tally (fun o => if o = some q then 1 else 0) (s.slots dirs)

/-- The page is a page table. -/
def IsTable (s : Vm) (dirs : Finset Nat) (q : Nat) : Prop :=
  ∃ d ∈ dirs, ∃ i, (s.dir d i).map Prod.fst = some q

/-- Writing an entry moves its slot. -/
theorem count_setPte (hd : d ∈ dirs)
    (hdir : (s.dir d (pdx la)).isSome) (pte : Word) (q : Nat) :
    (s.setPte d la pte).count dirs q
        + (if pteTarget (s.entry d la) = some q then 1 else 0)
      = s.count dirs q + if pteTarget pte = some q then 1 else 0 := by
  have hpage : la / pgsize % 2 ^ 20 < 2 ^ 20 := Nat.mod_lt _ (by decide)
  let x : dirs × Fin (2 ^ 20) := (⟨d, hd⟩, ⟨la / pgsize % 2 ^ 20, hpage⟩)
  have hslot (y : dirs × Fin (2 ^ 20)) :
      (pdx (y.2 * pgsize) = pdx la ∧ ptx (y.2 * pgsize) = ptx la) ↔
        y.2 = x.2 := by
    rw [Fin.ext_iff, pdx_eq, pdx_eq, ptx_eq, ptx_eq]
    show _ ↔ y.2.val = la / pgsize % 2 ^ 20
    unfold pgsize
    omega
  have hslots : (s.setPte d la pte).slots dirs
      = update (s.slots dirs) x (pteTarget pte) := by
    funext y
    rw [slots, entry_setPte hdir]
    by_cases hy : y = x
    · rw [if_pos ⟨by rw [hy], (hslot y).2 (by rw [hy])⟩, hy,
        update_self]
    · rw [update_of_ne hy, if_neg]
      · rfl
      · intro heq
        exact hy (Prod.ext (Subtype.ext heq.1) ((hslot y).1 heq.2))
  have hold : s.slots dirs x = pteTarget (s.entry d la) := by
    have hsame := (hslot x).2 rfl
    rw [slots, entry, entry, getPte, getPte, hsame.1, hsame.2]
  have hmove := tally_update (fun o => if o = some q then 1 else 0)
    (s.slots dirs) x (pteTarget pte)
  rw [hold, ← hslots] at hmove
  exact hmove

theorem count_congr (h : ∀ d la, t.entry d la = s.entry d la) (q : Nat) :
    t.count dirs q = s.count dirs q := by
  have hslots : t.slots dirs = s.slots dirs := by
    funext x
    rw [slots, slots, h]
  rw [count, count, hslots]

/-- A page that an entry maps has a slot. -/
theorem count_pos (hd : d ∈ dirs)
    (hq : pteTarget (s.entry d la) = some q) : 0 < s.count dirs q := by
  have hdir : (s.dir d (pdx la)).isSome := by
    cases hnone : s.dir d (pdx la) with
    | some _ => rfl
    | none =>
      have hzero : s.entry d la = 0 := by
        rw [entry, getPte, hnone]
        rfl
      rw [hzero] at hq
      cases hq
  have hmove := count_setPte hd hdir 0 q
  rw [if_pos hq, pteTarget_zero, if_neg (by simp)] at hmove
  omega

-- ===== law

/-- The references of a page: its slots, and the pending ones. -/
def references (s : Vm) (dirs : Finset Nat) (pending : Nat → Nat)
    (q : Nat) : Nat :=
  s.count dirs q + pending q

/-- One more reference to `q` is pending. -/
def also (q : Nat) (pending : Nat → Nat) (q' : Nat) : Nat :=
  pending q' + if some q = some q' then 1 else 0

/-- A page that may be mapped: of the zone, taken, and no page table. -/
def Data (z n : Nat) (dirs : Finset Nat) (s : Vm) (q : Nat) : Prop :=
  (z ≤ q ∧ q < z + n) ∧ q ∉ s.pmm.freeSet ∧ ¬s.IsTable dirs q

/-- Every page of the zone is counted exactly, and none in use is free. -/
structure Exact (z n : Nat) (dirs : Finset Nat) (pending : Nat → Nat)
    (s : Vm) : Prop where
  good : s.pmm.Good z n
  small : z + n ≤ 2 ^ 19
  ref : ∀ q, z ≤ q → q < z + n → ¬s.IsTable dirs q →
    (s.pmm.page q).ref = s.references dirs pending q
  used : ∀ q, 0 < s.references dirs pending q → Data z n dirs s q
  table : ∀ q, s.IsTable dirs q → q ∉ s.pmm.freeSet ∧ (s.pmm.page q).ref = 1
  single : ∀ d ∈ dirs, ∀ d' ∈ dirs, ∀ i i' q,
    (s.dir d i).map Prod.fst = some q → (s.dir d' i').map Prod.fst = some q →
    d = d' ∧ i = i'

variable {pending pending' : Nat → Nat}

/-- The count of a data page is changed together with what is pending. -/
theorem Exact.pageRefAdd (h : Exact z n dirs pending s)
    (hq : Data z n dirs s q) (i : Int) (hself : (pending' q : Int)
      = pending q + i) (hother : ∀ q', q' ≠ q → pending' q' = pending q') :
    Exact z n dirs pending' (s.pageRefAdd q i) where
  good := h.good.use hq.2.1 ((s.pmm.page q).ref + i) (s.pmm.page q).slab
  small := h.small
  ref q' hz hn htable := by
    have hcount : (s.pageRefAdd q i).count dirs q' = s.count dirs q' := rfl
    rw [references, hcount]
    by_cases hne : q' = q
    · subst hne
      rw [pageRefAdd_ref, h.ref q' hz hn htable, references]
      omega
    · have hpage : (s.pageRefAdd q i).pmm.page q' = s.pmm.page q' :=
        update_of_ne hne _ _
      rw [hpage, h.ref q' hz hn htable, references, hother q' hne]
  used q' hpos := by
    by_cases hne : q' = q
    · subst hne
      exact hq
    · refine h.used q' ?_
      have hsame : (s.pageRefAdd q i).references dirs pending' q'
          = s.count dirs q' + pending' q' := rfl
      rwa [hsame, hother q' hne] at hpos
  table q' htable := by
    have hne : q' ≠ q := fun heq => hq.2.2 (heq ▸ htable)
    have hpage : (s.pageRefAdd q i).pmm.page q' = s.pmm.page q' :=
      update_of_ne hne _ _
    rw [hpage]
    exact h.table q' htable
  single := h.single

/-- `page_ref_inc`. -/
theorem Exact.refInc (h : Exact z n dirs pending s) (hq : Data z n dirs s q) :
    Exact z n dirs (also q pending) (s.pageRefAdd q 1) := by
  refine h.pageRefAdd hq 1 (by simp [also]) fun q' hne => ?_
  simp [also, Ne.symm hne]

/-- `page_ref_dec`. -/
theorem Exact.refDec (h : Exact z n dirs (also q pending) s) :
    Exact z n dirs pending (s.pageRefAdd q (-1)) := by
  refine h.pageRefAdd (h.used q ?_) (-1) ?_ fun q' hne => ?_
  · simp [references, also]
  · simp [also]
  · simp [also, Ne.symm hne]

/-- An entry is written: what the slot loses or gains is pending after or
before. -/
theorem Exact.setPte (h : Exact z n dirs pending s) (hd : d ∈ dirs)
    (hdir : (s.dir d (pdx la)).isSome)
    (hmove : ∀ q, (if pteTarget pte = some q then 1 else 0) + pending' q
      = (if pteTarget (s.entry d la) = some q then 1 else 0) + pending q) :
    Exact z n dirs pending' (s.setPte d la pte) := by
  have hpmm : (s.setPte d la pte).pmm = s.pmm :=
    congrArg Kmem.pmm (setPte_kmem s d la pte)
  have htables (q : Nat) :
      (s.setPte d la pte).IsTable dirs q ↔ s.IsTable dirs q := by
    simp only [IsTable, setPte_table]
  have hrefs (q : Nat) : (s.setPte d la pte).references dirs pending' q
      = s.references dirs pending q := by
    have hcount := count_setPte hd hdir pte q
    have hq := hmove q
    simp only [references]
    omega
  constructor
  case good => exact hpmm ▸ h.good
  case small => exact h.small
  case ref =>
    intro q hz hn htable
    rw [hpmm, hrefs]
    exact h.ref q hz hn fun hin => htable ((htables q).2 hin)
  case used =>
    intro q hpos
    rw [hrefs] at hpos
    rw [Data, hpmm, htables]
    exact h.used q hpos
  case table =>
    intro q htable
    rw [hpmm]
    exact h.table q ((htables q).1 htable)
  case single =>
    simp only [setPte_table]
    exact h.single

/-- `alloc_page`. -/
theorem Exact.alloc (h : Exact z n dirs pending s) :
    s.allocPages 1 = some (s, none) ∨
      ∃ p q, s.allocPages 1 = some (s.setPmm p, some q) ∧
        Exact z n dirs pending (s.setPmm p) ∧ q ∈ s.pmm.freeSet ∧
        p.freeSet = s.pmm.freeSet \ {q} ∧ Data z n dirs (s.setPmm p) q ∧
        s.references dirs pending q = 0 ∧
        ∀ q', (p.page q').ref = (s.pmm.page q').ref := by
  rcases allocPage_eq h.good with hnone | ⟨p, q, hrun, hg, hin, hfree, href⟩
  · exact .inl hnone
  refine .inr ⟨p, q, hrun, ?_, hin, hfree, ?_, ?_, href⟩
  · constructor
    case good => exact hg
    case small => exact h.small
    case ref => exact fun q' hz hn ht => (href q').trans (h.ref q' hz hn ht)
    case used =>
      intro q' hpos
      obtain ⟨hz, hout, ht⟩ := h.used q' hpos
      exact ⟨hz, fun hq' => hout (hfree ▸ hq').1, ht⟩
    case table =>
      intro q' ht
      obtain ⟨hout, hone⟩ := h.table q' ht
      exact ⟨fun hq' => hout (hfree ▸ hq').1, (href q').trans hone⟩
    case single => exact h.single
  · obtain ⟨i, hi, rfl⟩ := h.good.mem_freeSet.1 hin
    have hlt := h.good.cover_lt hi
    refine ⟨⟨by omega, by omega⟩, ?_, fun ht => (h.table _ ht).1 hin⟩
    show z + i ∉ p.freeSet
    rw [hfree]
    exact fun hq => hq.2 rfl
  · by_contra hpos
    exact (h.used q (Nat.pos_of_ne_zero hpos)).2.1 hin

/-- `free_page` of a data page without references. -/
theorem Exact.free (h : Exact z n dirs pending s) (hq : Data z n dirs s q)
    (hzero : s.references dirs pending q = 0) :
    ∃ p, s.freePages q 1 = some (s.setPmm p) ∧
      Exact z n dirs pending (s.setPmm p) ∧
      p.freeSet = insert q s.pmm.freeSet ∧
      ∀ q', q' ≠ q → (p.page q').ref = (s.pmm.page q').ref := by
  obtain ⟨p, hrun, hg, hfree, href⟩ := freePage_eq h.good hq.1.1 hq.1.2 hq.2.1
  have hother (q' : Nat) (hne : q' ≠ q) (hout : q' ∉ s.pmm.freeSet) :
      q' ∉ p.freeSet := by
    rw [hfree]
    exact fun hq' => hq'.elim hne hout
  refine ⟨p, hrun, ?_, hfree, href⟩
  constructor
  case good => exact hg
  case small => exact h.small
  case ref =>
    intro q' hz hn ht
    by_cases hne : q' = q
    · subst hne
      have hrefs : (s.setPmm p).references dirs pending q' = 0 := hzero
      rw [hrefs]
      exact ref_of_free (s := s.setPmm p) hg (hfree ▸ Set.mem_insert q' _)
    · exact (href q' hne).trans (h.ref q' hz hn ht)
  case used =>
    intro q' hpos
    obtain ⟨hz, hout, ht⟩ := h.used q' hpos
    refine ⟨hz, hother q' ?_ hout, ht⟩
    intro heq
    subst heq
    exact absurd hzero (Nat.ne_of_gt hpos)
  case table =>
    intro q' ht
    have hne : q' ≠ q := fun heq => hq.2.2 (heq ▸ ht)
    obtain ⟨hout, hone⟩ := h.table q' ht
    exact ⟨hother q' hne hout, (href q' hne).trans hone⟩
  case single => exact h.single

-- ===== calls

/-- A slot that pointed to `old` points to `new`, and `old` is given back
if that was its last slot. -/
structure Replaced (dirs : Finset Nat) (s u : Vm) (old new : Option Nat) :
    Prop where
  count : ∀ q, u.count dirs q + (if old = some q then 1 else 0)
    = s.count dirs q + if new = some q then 1 else 0
  tables : ∀ q, u.IsTable dirs q ↔ s.IsTable dirs q
  freed : ∀ q, q ∈ u.pmm.freeSet ↔
    q ∈ s.pmm.freeSet ∨ old = some q ∧ u.count dirs q = 0

@[simp] theorem setPte_pmm (s : Vm) (d la : Nat) (pte : Word) :
    (s.setPte d la pte).pmm = s.pmm :=
  congrArg Kmem.pmm (setPte_kmem s d la pte)

theorem setPte_setPmm (s : Vm) (p : Buddy) (d la : Nat) (pte : Word) :
    (s.setPmm p).setPte d la pte = (s.setPte d la pte).setPmm p := by
  have hdir : (s.setPmm p).dir = s.dir := rfl
  rw [setPte, setPte, hdir]
  cases s.dir d (pdx la) <;> rfl

/-- `page_remove_pte`, with the entry cleared first. -/
theorem pageRemovePte_eq (d la : Nat)
    (hpresent : ptepPresent pte = true) (hq : s.pte2page pte = some q) :
    s.pageRemovePte d la pte =
      if (((s.setPte d la 0).pageRefAdd q (-1)).pmm.page q).ref = 0 then
        ((s.setPte d la 0).pageRefAdd q (-1)).freePages q 1
      else some ((s.setPte d la 0).pageRefAdd q (-1)) := by
  have hdec : (s.pageRefAdd q (-1)).setPte d la 0
      = (s.setPte d la 0).pageRefAdd q (-1) := by
    rw [Vm.pageRefAdd, Vm.pageRefAdd, setPte_setPmm, setPte_pmm]
  have hpmm : ((s.setPte d la 0).pageRefAdd q (-1)).pmm
      = (s.pageRefAdd q (-1)).pmm := by
    rw [← hdec, setPte_pmm]
  rw [pageRemovePte, hq, Option.bind_some, hpmm]
  dsimp only
  split_ifs with hzero
  · rw [freePages, freePages, hpmm, Option.map_map, ← hdec]
    exact congrArg (Option.map · _) (funext fun p => setPte_setPmm _ p d la 0)
  · rw [Option.map_some, hdec]

theorem Exact.pte2page (h : Exact z n dirs pending s) (hd : d ∈ dirs)
    (hq : pteTarget (s.entry d la) = some q) :
    Data z n dirs s q ∧ ptepPresent (s.entry d la) = true ∧
      s.pte2page (s.entry d la) = some q := by
  have hdata : Data z n dirs s q :=
    h.used q (Nat.lt_of_lt_of_le (count_pos hd hq) (Nat.le_add_right _ _))
  have hlt : q < s.pmm.npage := Nat.lt_of_lt_of_le hdata.1.2 h.good.bound
  rw [pteTarget] at hq
  split_ifs at hq with hpresent
  cases hq
  exact ⟨hdata, hpresent, by rw [Vm.pte2page, if_pos hpresent, pa2page,
    if_pos hlt]⟩

/-- `page_remove_pte`. -/
theorem Exact.removePte (h : Exact z n dirs pending s) (hd : d ∈ dirs)
    (hdir : (s.dir d (pdx la)).isSome)
    (hpending : ∀ q, pteTarget (s.entry d la) = some q → pending q = 0) :
    ∃ u, s.pageRemovePte d la (s.entry d la) = some u ∧
      Exact z n dirs pending u ∧
      Replaced dirs s u (pteTarget (s.entry d la)) none ∧
      (u.dir d (pdx la)).isSome ∧ pteTarget (u.entry d la) = none := by
  cases hold : pteTarget (s.entry d la) with
  | none =>
    refine ⟨s, ?_, h, ⟨fun q => rfl, fun q => Iff.rfl, ?_⟩, hdir, hold⟩
    · rw [pteTarget] at hold
      split_ifs at hold with hpresent
      rw [pageRemovePte, if_neg hpresent]
    · simp
  | some q =>
    obtain ⟨hdata, hpresent, hpage⟩ := h.pte2page hd hold
    have hclear : Exact z n dirs (also q pending) (s.setPte d la 0) := by
      refine h.setPte hd hdir fun q' => ?_
      rw [pteTarget_zero, hold, also]
      simp [Nat.add_comm]
    have hdec := hclear.refDec
    have hdata' : Data z n dirs ((s.setPte d la 0).pageRefAdd q (-1)) q :=
      hclear.used q (by simp [references, also])
    have hgone : pteTarget ((s.setPte d la 0).entry d la) = none := by
      rw [entry_setPte hdir, if_pos ⟨rfl, rfl, rfl⟩, pteTarget_zero]
    have htable : ((s.setPte d la 0).dir d (pdx la)).isSome := by
      rw [← Option.isSome_map, setPte_table s d la 0 d (pdx la),
        Option.isSome_map]
      exact hdir
    have hcount (q' : Nat) : (s.setPte d la 0).count dirs q'
        + (if some q = some q' then 1 else 0)
          = s.count dirs q' + if none = some q' then 1 else 0 :=
      hold ▸ count_setPte hd hdir 0 q'
    have htables (q' : Nat) :
        (s.setPte d la 0).IsTable dirs q' ↔ s.IsTable dirs q' := by
      simp only [IsTable, setPte_table]
    have hset : ((s.setPte d la 0).pageRefAdd q (-1)).pmm.freeSet
        = s.pmm.freeSet := by
      show (s.setPte d la 0).pmm.freeSet = s.pmm.freeSet
      rw [setPte_pmm]
    have href : (((s.setPte d la 0).pageRefAdd q (-1)).pmm.page q).ref
        = (s.setPte d la 0).count dirs q := by
      rw [hdec.ref q hdata'.1.1 hdata'.1.2 hdata'.2.2, references,
        hpending q hold]
      rfl
    rw [pageRemovePte_eq d la hpresent hpage, href]
    by_cases hzero : (s.setPte d la 0).count dirs q = 0
    · -- the last slot: the page is given back
      obtain ⟨p, hfree, hexact, hset', -⟩ := hdec.free hdata' (by
        show (s.setPte d la 0).count dirs q + pending q = 0
        rw [hzero, hpending q hold])
      refine ⟨_, (if_pos (by rw [hzero]; rfl)).trans hfree, hexact,
        ⟨hcount, htables, fun q' => ?_⟩, htable, hgone⟩
      show q' ∈ p.freeSet ↔ q' ∈ s.pmm.freeSet ∨ some q = some q' ∧
        (s.setPte d la 0).count dirs q' = 0
      rw [hset', hset, Option.some_inj]
      constructor
      · rintro (rfl | hin)
        · exact .inr ⟨rfl, hzero⟩
        · exact .inl hin
      · rintro (hin | ⟨rfl, -⟩)
        · exact .inr hin
        · exact .inl rfl
    · refine ⟨_, if_neg (by omega), hdec, ⟨hcount, htables, fun q' => ?_⟩,
        htable, hgone⟩
      rw [hset, Option.some_inj]
      constructor
      · exact .inl
      · rintro (hin | ⟨rfl, hcount'⟩)
        · exact hin
        · exact absurd hcount' hzero

/-- What `page_insert` does once it has a table and has counted the
page. -/
theorem Exact.replace {page : Nat} (h : Exact z n dirs (also page 0) s)
    (hd : d ∈ dirs)
    (hdir : (s.dir d (pdx la)).isSome) (hpte : pteTarget pte = some page) :
    ∃ v, (s.releaseOld d page la (s.entry d la)).map (·.setPte d la pte)
        = some v ∧ Exact z n dirs 0 v ∧
      Replaced dirs s v (pteTarget (s.entry d la)) (some page) := by
  have hcount := hpte ▸ count_setPte hd hdir pte
  have htables (u : Vm) (q : Nat) :
      (u.setPte d la pte).IsTable dirs q ↔ u.IsTable dirs q := by
    simp only [IsTable, setPte_table]
  cases hold : pteTarget (s.entry d la) with
  | none =>
    have hrel : s.releaseOld d page la (s.entry d la) = some s := by
      rw [pteTarget] at hold
      split_ifs at hold with hpresent
      exact if_neg hpresent
    refine ⟨s.setPte d la pte, by rw [hrel, Option.map_some], ?_, ?_⟩
    · refine h.setPte hd hdir fun q => ?_
      rw [hpte, hold]
      simp [also]
    · exact ⟨hold ▸ hcount, htables s, by simp⟩
  | some p =>
    obtain ⟨-, hpresent, hpage⟩ := h.pte2page hd hold
    have hrel : s.releaseOld d page la (s.entry d la)
        = if p = page then some (s.pageRefAdd page (-1))
          else s.pageRemovePte d la (s.entry d la) := by
      rw [releaseOld, if_pos hpresent, hpage, Option.bind_some]
    by_cases hsame : p = page
    · -- the page is mapped there already
      subst hsame
      refine ⟨(s.pageRefAdd p (-1)).setPte d la pte, ?_, ?_, ?_⟩
      · rw [hrel, if_pos rfl, Option.map_some]
      · refine h.refDec.setPte hd hdir fun q => ?_
        have hentry : (s.pageRefAdd p (-1)).entry d la = s.entry d la := rfl
        rw [hpte, hentry, hold]
      · have hentry : (s.pageRefAdd p (-1)).entry d la = s.entry d la := rfl
        have hmove := count_setPte (s := s.pageRefAdd p (-1)) hd hdir pte
        rw [hpte, hentry, hold] at hmove
        refine ⟨hmove, htables _, fun q => ?_⟩
        have hpos : 0 < (s.pageRefAdd p (-1)).count dirs p := count_pos hd hold
        have hself := hmove p
        rw [setPte_pmm, Option.some_inj]
        constructor
        · exact .inl
        · rintro (hin | ⟨rfl, hzero⟩)
          · exact hin
          · omega
    · obtain ⟨u, hrun, hexact, hrep, hdir', hgone⟩ := h.removePte hd hdir
        fun q hq => by
          cases hold.symm.trans hq
          simp [also, Ne.symm hsame]
      rw [hold] at hrep
      have hmove := count_setPte hd hdir' pte
      rw [hpte, hgone] at hmove
      refine ⟨u.setPte d la pte, ?_, ?_, ?_⟩
      · rw [hrel, if_neg hsame, hrun, Option.map_some]
      · refine hexact.setPte hd hdir' fun q => ?_
        rw [hpte, hgone]
        simp [also]
      · refine ⟨fun q => ?_, fun q => (htables u q).trans (hrep.tables q),
          fun q => ?_⟩
        · have hq := hmove q
          have hq' := hrep.count q
          omega
        · rw [setPte_pmm, hrep.freed]
          refine or_congr_right (and_congr_right fun heq => ?_)
          cases heq
          have hq := hmove p
          rw [if_neg (by simp), if_neg (by simp [Ne.symm hsame])] at hq
          omega

theorem isTable_setPde (hd : d ∈ dirs)
    (hnone : s.dir d (pdx la) = none) (table : Nat → Word) (q' : Nat) :
    (s.setPde d la (some (q, table))).IsTable dirs q' ↔
      s.IsTable dirs q' ∨ q' = q := by
  constructor
  · rintro ⟨d', hd', i, hi⟩
    by_cases hdd : d' = d
    · subst hdd
      by_cases hii : i = pdx la
      · subst hii
        exact .inr (by simpa [setPde, eq_comm] using hi)
      · exact .inl ⟨d', hd', i, by simpa [setPde, hii] using hi⟩
    · exact .inl ⟨d', hd', i, by simpa [setPde, hdd] using hi⟩
  · rintro (⟨d', hd', i, hi⟩ | rfl)
    · refine ⟨d', hd', i, ?_⟩
      by_cases hdd : d' = d
      · subst hdd
        have hii : i ≠ pdx la := by
          intro heq
          rw [heq, hnone] at hi
          cases hi
        simpa [setPde, hii] using hi
      · simpa [setPde, hdd] using hi
    · exact ⟨d, hd, pdx la, by simp [setPde]⟩

/-- Free pages are taken for page tables, and no entry changes. -/
structure Tables (dirs : Finset Nat) (s t : Vm) : Prop where
  free : t.pmm.freeSet ⊆ s.pmm.freeSet
  entry : ∀ d la, t.entry d la = s.entry d la
  isTable : ∀ q, t.IsTable dirs q ↔
    s.IsTable dirs q ∨ q ∈ s.pmm.freeSet ∧ q ∉ t.pmm.freeSet

/-- `get_pte` with `create == 1`. -/
theorem Exact.create (h : Exact z n dirs pending s) (hd : d ∈ dirs)
    (la : Nat) : s.getPteCreate d la = some (s, none) ∨
      ∃ t, s.getPteCreate d la = some (t, some (s.entry d la)) ∧
        Exact z n dirs pending t ∧ (t.dir d (pdx la)).isSome ∧
        Tables dirs s t := by
  cases hdir : s.dir d (pdx la) with
  | some table =>
    have hentry : s.entry d la = table.2 (ptx la) :=
      entry_of_getPte (by rw [getPte, hdir]; rfl)
    refine .inr ⟨s, ?_, h, by rw [hdir]; rfl, subset_rfl, fun _ _ => rfl, ?_⟩
    · rw [getPteCreate, hdir, hentry]
      rfl
    · simp
  | none =>
    rcases h.alloc with hnone |
      ⟨p, q, hrun, hexact, hin, hfree, hdata, hzero, href⟩
    · left
      rw [getPteCreate, hdir, hnone]
      rfl
    have hentry : s.entry d la = 0 := by
      rw [entry, getPte, hdir]
      rfl
    have hnone : ((s.setPmm p).pageRefAdd q 1).dir d (pdx la) = none := hdir
    have htable := isTable_setPde (q := q) hd hnone fun _ => 0
    have hentries (d' la' : Nat) : (((s.setPmm p).pageRefAdd q 1).setPde d la
        (some (q, fun _ => 0))).entry d' la' = s.entry d' la' :=
      entry_setPde_zero hnone d' la'
    have hne (q' : Nat) (hq' : q' ≠ q) :
        ((s.setPmm p).pageRefAdd q 1).pmm.page q' = p.page q' :=
      update_of_ne hq' _ _
    refine .inr ⟨((s.setPmm p).pageRefAdd q 1).setPde d la
      (some (q, fun _ => 0)), ?_, ?_, ?_, ?_⟩
    · rw [getPteCreate, hdir, hrun, hentry]
      rfl
    · have hrefs (q' : Nat) : (((s.setPmm p).pageRefAdd q 1).setPde d la
          (some (q, fun _ => 0))).references dirs pending q'
          = s.references dirs pending q' := by
        rw [references, count_congr hentries]
        rfl
      constructor
      case good =>
        exact hexact.good.use hdata.2.1 ((p.page q).ref + 1) (p.page q).slab
      case small => exact h.small
      case ref =>
        intro q' hz hn ht
        rw [htable, not_or] at ht
        rw [hrefs]
        show (((s.setPmm p).pageRefAdd q 1).pmm.page q').ref = _
        rw [hne q' ht.2]
        exact hexact.ref q' hz hn ht.1
      case used =>
        intro q' hpos
        rw [hrefs] at hpos
        have hq' : q' ≠ q := by
          intro heq
          rw [heq, hzero] at hpos
          exact absurd hpos (Nat.lt_irrefl 0)
        obtain ⟨hz, hout, ht⟩ := hexact.used q' hpos
        exact ⟨hz, hout, fun hq => ((htable q').1 hq).elim ht hq'⟩
      case table =>
        intro q' ht
        by_cases hq' : q' = q
        · subst hq'
          refine ⟨hdata.2.1, ?_⟩
          show (((s.setPmm p).pageRefAdd q' 1).pmm.page q').ref = 1
          rw [pageRefAdd_ref]
          show (p.page q').ref + 1 = 1
          rw [href, ref_of_free h.good hin]
          rfl
        · have hold := ((htable q').1 ht).resolve_right hq'
          show q' ∉ p.freeSet ∧
            (((s.setPmm p).pageRefAdd q 1).pmm.page q').ref = 1
          rw [hne q' hq']
          exact hexact.table q' hold
      case single =>
        have hnew (d' i q' : Nat) (hd' : d' ∈ dirs)
            (hi : ((((s.setPmm p).pageRefAdd q 1).setPde d la
              (some (q, fun _ => 0))).dir d' i).map Prod.fst = some q') :
            q' = q ∧ d' = d ∧ i = pdx la ∨
              q' ≠ q ∧ (s.dir d' i).map Prod.fst = some q' := by
          by_cases hslot : d' = d ∧ i = pdx la
          · obtain ⟨rfl, rfl⟩ := hslot
            exact .inl ⟨by simpa [setPde, eq_comm] using hi, rfl, rfl⟩
          · have hold : (s.dir d' i).map Prod.fst = some q' := by
              rw [← hi]
              by_cases hdd : d' = d
              · subst hdd
                have hii : i ≠ pdx la := fun heq => hslot ⟨rfl, heq⟩
                simp [setPde, hii]
                rfl
              · simp [setPde, hdd]
                rfl
            refine .inr ⟨?_, hold⟩
            intro heq
            exact hdata.2.2 ⟨d', hd', i, heq ▸ hold⟩
        intro d₁ h₁ d₂ h₂ i₁ i₂ q' hq₁ hq₂
        rcases hnew d₁ i₁ q' h₁ hq₁ with ⟨heq, hd₁, hi₁⟩ | ⟨hne₁, hold₁⟩
        · rcases hnew d₂ i₂ q' h₂ hq₂ with ⟨-, hd₂, hi₂⟩ | ⟨hne₂, -⟩
          · exact ⟨hd₁.trans hd₂.symm, hi₁.trans hi₂.symm⟩
          · exact absurd heq hne₂
        · rcases hnew d₂ i₂ q' h₂ hq₂ with ⟨heq, -, -⟩ | ⟨-, hold₂⟩
          · exact absurd heq hne₁
          · exact h.single d₁ h₁ d₂ h₂ i₁ i₂ q' hold₁ hold₂
    · simp [setPde]
    · refine ⟨hfree.trans_subset Set.sdiff_subset, fun d' la' => ?_,
        fun q' => (htable q').trans (or_congr_right ?_)⟩
      · exact hentries d' la'
      · show q' = q ↔ q' ∈ s.pmm.freeSet ∧ q' ∉ p.freeSet
        rw [hfree]
        constructor
        · rintro rfl
          exact ⟨hin, fun hq => hq.2 rfl⟩
        · rintro ⟨hq, hout⟩
          by_contra hne'
          exact hout ⟨hq, hne'⟩

-- ===== one call

/-- A call that changes mappings. -/
inductive MapCall
  | insert (d page la : Nat) (perm : Word)
  | alloc (d la : Nat) (perm : Word)
  | remove (d la : Nat)

/-- What the call returns is whether it succeeded. -/
def MapCall.run (s : Vm) : MapCall → Option (Vm × Bool)
  | .insert d page la perm => s.pageInsert d page la perm
  | .alloc d la perm =>
    (s.pgdirAllocPage d la perm).map fun r => (r.1, r.2.isSome)
  | .remove d la => (s.pageRemove d la).map fun t => (t, true)

/-- The call names one of the directories, its permissions are flags, and
the page it maps is taken and no page table. -/
def MapCall.Allowed (z n : Nat) (dirs : Finset Nat) (s : Vm) :
    MapCall → Prop
  | .insert d page _ perm =>
    d ∈ dirs ∧ Data z n dirs s page ∧ perm &&& ~~~0xfff#32 = 0
  | .alloc d _ perm => d ∈ dirs ∧ perm &&& ~~~0xfff#32 = 0
  | .remove d _ => d ∈ dirs

/-- What a call does to the counts, from `s` to `u`. -/
structure Kept (z n : Nat) (dirs : Finset Nat) (s u : Vm) (ok : Bool) :
    Prop where
  exact : Exact z n dirs 0 u
  tables : ∀ q, s.IsTable dirs q → u.IsTable dirs q
  freed : ∀ q, q ∉ s.pmm.freeSet →
    (q ∈ u.pmm.freeSet ↔ 0 < s.count dirs q ∧ u.count dirs q = 0)
  taken : ∀ q, q ∈ s.pmm.freeSet → q ∉ u.pmm.freeSet →
    u.IsTable dirs q ∨ 0 < u.count dirs q
  failed : ok = false → (∀ d la, u.entry d la = s.entry d la) ∧
    (∀ q, (u.pmm.page q).ref = (s.pmm.page q).ref) ∧
    u.pmm.freeSet = s.pmm.freeSet

theorem Kept.refl (h : Exact z n dirs 0 s) (ok : Bool) :
    Kept z n dirs s s ok where
  exact := h
  tables _ hq := hq
  freed q hq := ⟨fun hin => absurd hin hq, fun hc => by omega⟩
  taken q hq hout := absurd hq hout
  failed _ := ⟨fun _ _ => rfl, fun _ => rfl, rfl⟩

/-- A slot is moved, after tables were made. -/
theorem Replaced.kept {new : Option Nat} (hd : d ∈ dirs)
    (htables : Tables dirs s t)
    (h : Replaced dirs t u (pteTarget (s.entry d la)) new)
    (hexact : Exact z n dirs 0 u) : Kept z n dirs s u true where
  exact := hexact
  tables q hq := (h.tables q).2 ((htables.isTable q).2 (.inl hq))
  freed q hq := by
    have hq' : q ∉ t.pmm.freeSet := fun hin => hq (htables.free hin)
    have hsame : t.count dirs q = s.count dirs q := count_congr htables.entry q
    have hmove := h.count q
    rw [h.freed, or_iff_right hq'] at *
    constructor
    · intro hlast
      exact ⟨count_pos hd hlast.1, hlast.2⟩
    · intro hlast
      refine ⟨?_, hlast.2⟩
      by_contra hne
      rw [if_neg hne] at hmove
      omega
  taken q hq hout := by
    refine .inl ((h.tables q).2 ((htables.isTable q).2 (.inr ⟨hq, ?_⟩)))
    exact fun hin => hout ((h.freed q).2 (.inl hin))
  failed := fun hf => by cases hf

/-- `page_insert`. -/
theorem Exact.insertPage {page : Nat} {perm : Word} (h : Exact z n dirs 0 s)
    (hd : d ∈ dirs) (hpage : Data z n dirs s page)
    (hperm : perm &&& ~~~0xfff#32 = 0) (la : Nat) :
    s.pageInsert d page la perm = some (s, false) ∨
      ∃ u, s.pageInsert d page la perm = some (u, true) ∧
        Kept z n dirs s u true ∧ 0 < u.count dirs page := by
  rcases h.create hd la with hnone | ⟨t, hcreate, hexact, hdir, htables⟩
  · left
    rw [pageInsert, hnone]
    rfl
  have hdata : Data z n dirs t page := by
    refine ⟨hpage.1, fun hin => hpage.2.1 (htables.free hin), fun hin => ?_⟩
    exact ((htables.isTable page).1 hin).elim hpage.2.2
      fun hnew => hpage.2.1 hnew.1
  have hpte : pteTarget (page2pa page ||| pteP ||| perm) = some page := by
    have hsmall := h.small
    have hlt := hpage.1.2
    rw [pteTarget, if_pos (mkPte_present page perm),
      mkPte_target (by omega) hperm]
  obtain ⟨u, hrun, hexact', hrep⟩ := (hexact.refInc hdata).replace hd hdir hpte
  have hentry : (t.pageRefAdd page 1).entry d la = s.entry d la :=
    htables.entry d la
  rw [hentry] at hrun hrep
  obtain ⟨v, hold, rfl⟩ := Option.map_eq_some_iff.1 hrun
  refine .inr ⟨v.setPte d la (page2pa page ||| pteP ||| perm), ?_, ?_, ?_⟩
  · rw [pageInsert, hcreate, Option.bind_some, Option.elim_some, hold]
    rfl
  · have hcounted : Tables dirs s (t.pageRefAdd page 1) :=
      ⟨htables.free, htables.entry, htables.isTable⟩
    exact hrep.kept hd hcounted hexact'
  · by_contra hzero
    have hmove := hrep.count page
    rw [if_pos rfl] at hmove
    by_cases hold' : pteTarget (s.entry d la) = some page
    · have hpos := count_pos hd hold'
      have hsame : (t.pageRefAdd page 1).count dirs page
          = s.count dirs page := count_congr htables.entry page
      rw [if_pos hold'] at hmove
      omega
    · rw [if_neg hold'] at hmove
      omega

/-- `page_remove`. -/
theorem Exact.remove (h : Exact z n dirs 0 s) (hd : d ∈ dirs) (la : Nat) :
    ∃ u, s.pageRemove d la = some u ∧ Kept z n dirs s u true := by
  cases hdir : s.dir d (pdx la) with
  | none =>
    refine ⟨s, ?_, .refl h true⟩
    rw [pageRemove, getPte, hdir]
    rfl
  | some table =>
    have hsome : (s.dir d (pdx la)).isSome := by
      rw [hdir]
      rfl
    obtain ⟨u, hrun, hexact, hrep, -, -⟩ := h.removePte hd hsome fun _ _ => rfl
    have hpte : s.getPte d la = some (s.entry d la) := by
      rw [entry, getPte, hdir]
      rfl
    have hnone : Tables dirs s s := ⟨subset_rfl, fun _ _ => rfl, by simp⟩
    refine ⟨u, ?_, hrep.kept hd hnone hexact⟩
    rw [pageRemove, hpte]
    exact hrun

/-- `pgdir_alloc_page`. -/
theorem Exact.allocPage {perm : Word} (h : Exact z n dirs 0 s)
    (hd : d ∈ dirs) (hperm : perm &&& ~~~0xfff#32 = 0) (la : Nat) :
    ∃ u r, s.pgdirAllocPage d la perm = some (u, r) ∧
      Kept z n dirs s u r.isSome := by
  rcases h.alloc with hnone |
    ⟨p, q, hrun, hexact, hin, hfree, hdata, hzero, href⟩
  · refine ⟨s, none, ?_, .refl h _⟩
    rw [pgdirAllocPage, hnone]
    rfl
  have hcall : s.pgdirAllocPage d la perm
      = ((s.setPmm p).pageInsert d q la perm).bind fun i =>
        if i.2 then some (i.1, some q)
        else (i.1.freePages q 1).map fun s => (s, none) := by
    rw [pgdirAllocPage, hrun]
    rfl
  rcases hexact.insertPage hd hdata hperm la with hno | ⟨u, hyes, hkept, hpos⟩
  · -- no page for a table: the page is given back
    obtain ⟨p', hback, hexact', hset, hrefs⟩ := hexact.free hdata hzero
    have hsame : p'.freeSet = s.pmm.freeSet := by
      rw [hset]
      show insert q p.freeSet = _
      rw [hfree, Set.insert_sdiff_self_of_mem hin]
    refine ⟨_, none, ?_, ⟨hexact', fun _ ht => ht, fun q' hq' => ?_,
      fun q' hq' hout => ?_, fun _ => ⟨fun _ _ => rfl, fun q' => ?_, hsame⟩⟩⟩
    · rw [hcall, hno, Option.bind_some, hback]
      rfl
    · show q' ∈ p'.freeSet ↔ 0 < s.count dirs q' ∧ s.count dirs q' = 0
      rw [hsame]
      exact ⟨fun hin' => absurd hin' hq', fun hc => by omega⟩
    · exact absurd (hsame ▸ hq') hout
    · by_cases hne : q' = q
      · subst hne
        rw [ref_of_free h.good hin]
        exact ref_of_free (s := s.setPmm p') hexact'.good (hsame ▸ hin)
      · exact (hrefs q' hne).trans (href q')
  · refine ⟨u, some q, ?_, ⟨hkept.exact, hkept.tables, fun q' hq' => ?_,
      fun q' hq' hout => ?_, fun hf => by cases hf⟩⟩
    · rw [hcall, hyes]
      rfl
    · refine hkept.freed q' fun hin' => hq' ?_
      exact (hfree.trans_subset Set.sdiff_subset) hin'
    · by_cases hne : q' = q
      · exact .inr (hne ▸ hpos)
      · refine hkept.taken q' ?_ hout
        show q' ∈ p.freeSet
        rw [hfree]
        exact ⟨hq', hne⟩

/-- Every call goes through, and keeps the counts. -/
theorem MapCall.kept {c : MapCall} (h : Exact z n dirs 0 s)
    (hc : c.Allowed z n dirs s) :
    ∃ u ok, c.run s = some (u, ok) ∧ Kept z n dirs s u ok := by
  cases c with
  | insert d page la perm =>
    rcases h.insertPage hc.1 hc.2.1 hc.2.2 la with hno | ⟨u, hyes, hkept, -⟩
    · exact ⟨s, false, hno, .refl h false⟩
    · exact ⟨u, true, hyes, hkept⟩
  | alloc d la perm =>
    obtain ⟨u, r, hrun, hkept⟩ := h.allocPage hc.1 hc.2 la
    exact ⟨u, r.isSome, by rw [run, hrun]; rfl, hkept⟩
  | remove d la =>
    obtain ⟨u, hrun, hkept⟩ := h.remove hc la
    exact ⟨u, true, by rw [run, hrun]; rfl, hkept⟩

-- ===== all sequences

/-- `t` is reached from `s` by calls. -/
inductive MapRun (z n : Nat) (dirs : Finset Nat) (s : Vm) : Vm → Prop
  | start : MapRun z n dirs s s
  | call {t u : Vm} {c : MapCall} {ok : Bool} (h : MapRun z n dirs s t)
      (hc : c.Allowed z n dirs t) (hrun : c.run t = some (u, ok)) :
      MapRun z n dirs s u

theorem MapRun.exact (h : MapRun z n dirs s t) (hs : Exact z n dirs 0 s) :
    Exact z n dirs 0 t := by
  induction h with
  | start => exact hs
  | call _ hc hrun ih =>
    obtain ⟨u, ok, hrun', hkept⟩ := MapCall.kept ih hc
    rw [hrun] at hrun'
    cases hrun'
    exact hkept.exact

/-- Directories without tables over an allocator whose taken pages have no
references. -/
theorem exact_of_empty (hgood : s.pmm.Good z n) (hsmall : z + n ≤ 2 ^ 19)
    (hempty : ∀ d ∈ dirs, ∀ i, s.dir d i = none)
    (hzero : ∀ q, z ≤ q → q < z + n → (s.pmm.page q).ref = 0) :
    Exact z n dirs 0 s := by
  have htable (q : Nat) : ¬s.IsTable dirs q := by
    rintro ⟨d, hd, i, hi⟩
    rw [hempty d hd] at hi
    cases hi
  have hcount (q : Nat) : s.references dirs 0 q = 0 := by
    have hslots : s.count dirs q = 0 ↔ _ := tally_eq_zero (f := s.slots dirs)
    refine hslots.2 fun x => if_neg fun hx => ?_
    have hentry : s.entry x.1 (x.2 * pgsize) = 0 := by
      rw [entry, getPte, hempty x.1 x.1.2]
      rfl
    rw [slots, hentry] at hx
    cases hx
  refine ⟨hgood, hsmall, fun q hz hn _ => ?_, fun q hpos => ?_,
    fun q hq => absurd hq (htable q), fun d hd _ _ i _ q hi => ?_⟩
  · rw [hcount]
    exact hzero q hz hn
  · rw [hcount] at hpos
    exact absurd hpos (Nat.lt_irrefl 0)
  · exact absurd ⟨d, hd, i, hi⟩ (htable q)

/-- From directories whose pages are counted exactly, after any calls: a
page of the zone has as many references as present entries map it and is
not free while it is mapped, a page table has one reference, belongs to
one directory entry and is not free. The next call goes through; it gives
back exactly the pages that lose their last entry, takes pages only for
tables and for a mapping, frees no table, and if it fails it changes no
mapping, no count and no free page. -/
theorem page_counts_exact (hs : Exact z n dirs 0 s)
    (hrun : MapRun z n dirs s t) :
    (∀ q, z ≤ q → q < z + n → ¬t.IsTable dirs q →
      (t.pmm.page q).ref = t.count dirs q) ∧
    (∀ q, 0 < t.count dirs q → q ∉ t.pmm.freeSet ∧ ¬t.IsTable dirs q) ∧
    (∀ q, t.IsTable dirs q → q ∉ t.pmm.freeSet ∧ (t.pmm.page q).ref = 1 ∧
      ∃ d i, ∀ d' ∈ dirs, ∀ i', (t.dir d' i').map Prod.fst = some q ↔
        d' = d ∧ i' = i) ∧
    ∀ c : MapCall, c.Allowed z n dirs t →
      ∃ u ok, c.run t = some (u, ok) ∧ Kept z n dirs t u ok := by
  have ht := hrun.exact hs
  refine ⟨fun q hz hn htable => ?_, fun q hpos => ?_, fun q htable => ?_,
    fun c hc => MapCall.kept ht hc⟩
  · exact ht.ref q hz hn htable
  · exact (ht.used q hpos).2
  · obtain ⟨hout, hone⟩ := ht.table q htable
    obtain ⟨d, hd, i, hi⟩ := htable
    refine ⟨hout, hone, d, i, fun d' hd' i' => ⟨fun hi' => ?_, ?_⟩⟩
    · exact ht.single d' hd' d hd i' i q hi' hi
    · rintro ⟨rfl, rfl⟩
      exact hi

/-- A page is mapped in an empty directory. -/
theorem page_counts_exact_one_page :
    ∃ u ok, (MapCall.alloc 4 0x10000000 pteUser).run sampleVm = some (u, ok) ∧
      ∀ q, 0 < u.count {4} q → q ∉ u.pmm.freeSet ∧ ¬u.IsTable {4} q := by
  have hstart : Exact 5 11 {4} 0 sampleVm := by
    refine exact_of_empty sampleVm_good (by decide) (fun d hd i => ?_)
      fun q hz hn => ?_
    · rw [Finset.mem_singleton] at hd
      subst hd
      rfl
    · interval_cases q <;> rfl
  have hallowed : (MapCall.alloc 4 0x10000000 pteUser).Allowed 5 11 {4}
      sampleVm := ⟨Finset.mem_singleton_self 4, by decide⟩
  obtain ⟨u, ok, hrun, -⟩ :=
    (page_counts_exact hstart .start).2.2.2 _ hallowed
  exact ⟨u, ok, hrun,
    (page_counts_exact hstart (.call .start hallowed hrun)).2.1⟩

end Vm

end MipsUcore.Kern
