/-
The pages of an address space, and how they are given back.

# Uses

A page of an address space is a page table or a page of data, and it is
used once (`Space.single`); the pages that are used are taken from the
allocator and nobody else has them (`Space.own`, `Space.apart`). Each step
on the way adds one use or removes one (`Space.add`, `Space.remove`), so the
allocator always holds exactly what is not used.

# Taking down

`unmap_range` removes the uses for data in its range and `exit_range` the
tables; an address space whose uses all lie in its areas is empty then
(`exitMmap_spec`).
-/
import MipsUcore.Kern.Vmm
import MipsUcore.Kern.Proofs.SlabCalls
import MipsUcore.Kern.Proofs.Vm
import Mathlib.Data.Set.Card

namespace MipsUcore.Kern

open Cpu Function

namespace Kmem

variable {z n : Nat} {base held : Set Nat} {s : Kmem}

/-- A change of the page allocator alone. -/
theorem Own.of_inv (h : Own z n base s held) {base' : Set Nat} {p : Buddy}
    (hinv : Inv z n base' { s with pmm := p } (held ∪ s.controls)) :
    Own z n base' { s with pmm := p } held :=
  ⟨hinv, h.apart, h.busy⟩

/-- Counting a reference to a page of others. -/
theorem Own.use (h : Own z n base s held) {q : Nat} (hq : q ∈ base) (i : Int) :
    Own z n base { s with
      pmm := s.pmm.setPage q fun p => { p with ref := p.ref + i } } held := by
  have hused := (h.inv.others hq).2
  refine h.of_inv (h.inv.of_pmm ?_ h.inv.others ?_ fun q h1 h2 => ⟨h1, h2⟩)
  · exact h.inv.good.use hused ((s.pmm.page q).ref + i) (s.pmm.page q).slab
  · intro p hp hbase
    have hne : p ≠ q := fun heq => hbase (heq ▸ hq)
    have hsame : (s.pmm.setPage q
        fun p => { p with ref := p.ref + i }).page p = s.pmm.page p :=
      update_of_ne hne _ _
    exact ⟨by rw [hsame], hp, hbase⟩

/-- Whom the pages belong to says which ones are free. -/
theorem Own.freeSet_eq {base' held' : Set Nat} {p : Buddy}
    (h : Own z n base s held) (h' : Own z n base' { s with pmm := p } held')
    (hsub : base' ⊆ base) : p.freeSet = s.pmm.freeSet ∪ base \ base' := by
  -- a slab is at the same pages in both
  have hsame : ∀ {c a page page'}, Placed z n base s c a page →
      Placed z n base' { s with pmm := p } c a page' → page = page' := by
    intro c a page page' hp hp'
    have hmem : (s.slab a).sMem = page2kva page' + (s.config c).offset :=
      hp'.sMem_eq
    rw [hp.sMem_eq] at hmem
    exact page2kva_inj (Nat.add_right_cancel hmem)
  ext x
  constructor
  · intro hx
    by_contra hno
    have hbase' : x ∉ base' := fun hin => (h'.inv.others hin).2 hx
    have hbase : x ∉ base := fun hin => hno (.inr ⟨hin, hbase'⟩)
    obtain ⟨hz, hn⟩ := h'.inv.good.freeSet_subset hx
    obtain ⟨c, a, page, hs, hp, hle, hlt⟩ :=
      h.inv.owned x hz hn (fun hin => hno (.inl hin)) hbase
    obtain ⟨page', hp'⟩ := h'.inv.placed c a hs
    obtain rfl := hsame hp hp'
    exact (hp'.pages x hle hlt).2.2.2.1 hx
  · intro hx
    by_contra hno
    have hin : x ∈ Set.Ico z (z + n) ∧ x ∉ base' := by
      rcases hx with hx | ⟨hx, hnot⟩
      · exact ⟨h.inv.good.freeSet_subset hx,
          fun hin => (h.inv.others (hsub hin)).2 hx⟩
      · exact ⟨(h.inv.others hx).1, hnot⟩
    obtain ⟨c, a, page', hs, hp', hle, hlt⟩ :=
      h'.inv.owned x hin.1.1 hin.1.2 hno hin.2
    obtain ⟨page, hp⟩ := h.inv.placed c a hs
    obtain rfl := hsame hp hp'
    obtain ⟨-, -, -, hfree, hbase⟩ := hp.pages x hle hlt
    rcases hx with hx | hx
    · exact hfree hx
    · exact hbase hx.1

end Kmem

namespace Vm

variable {z n d la : Nat} {base held : Set Nat} {s t u : Vm}
  {k q : Nat} {x : Usage}

-- ===== taking pages

theorem allocPages_none (h : s.pmm.allocPages k = some (s.pmm, none)) :
    s.allocPages k = some (s, none) := by
  rw [allocPages, h]
  rfl

theorem allocPages_some {p : Buddy}
    (h : s.pmm.allocPages k = some (p, some q)) :
    s.allocPages k = some (s.setPmm p, some q) := by
  rw [allocPages, h]
  rfl

/-- `alloc_pages`: what it returns is the caller's. -/
theorem allocPages_own (h : s.kmem.Own z n base held) (hk : 0 < k)
    (hle : k ≤ 1024) : s.pmm.allocPages k = some (s.pmm, none) ∨
      ∃ p q, s.pmm.allocPages k = some (p, some q) ∧
        q + k ≤ z + n ∧ Disjoint base (Set.Ico q (q + k)) ∧
        (s.setPmm p).kmem.Own z n (base ∪ Set.Ico q (q + k)) held ∧
        (∀ q', (p.page q').ref = (s.pmm.page q').ref) ∧
        ∀ q' ∈ Set.Ico q (q + k), (p.page q').ref = 0 := by
  rcases h.inv.takePages hk hle with hnone |
    ⟨p, q, hrun, -, hn, hdis, hinv, href, hzero⟩
  · exact .inl hnone
  · exact .inr ⟨p, q, hrun, hn, hdis, h.of_inv hinv, href, hzero⟩

/-- `free_pages` of the caller's pages. -/
theorem freePages_own (h : s.kmem.Own z n (base ∪ Set.Ico q (q + k)) held)
    (hdis : Disjoint base (Set.Ico q (q + k))) (hk : 0 < k) (hle : k ≤ 1024) :
    ∃ p, s.freePages q k = some (s.setPmm p) ∧
      (s.setPmm p).kmem.Own z n base held ∧
      ∀ q' ∈ base, (p.page q').ref = (s.pmm.page q').ref := by
  obtain ⟨p, hrun, hinv, href⟩ := h.inv.givePages hdis hk hle
  have hcall : s.pmm.freePages q k = some p := hrun
  refine ⟨p, ?_, h.of_inv hinv, href⟩
  rw [freePages, hcall]
  rfl

theorem Ico_one (q : Nat) : Set.Ico q (q + 1) = {q} := by
  ext x
  rw [Set.mem_Ico, Set.mem_singleton_iff]
  omega

-- ===== uses

/-- What a page of an address space is used for. -/
inductive Usage
  | table (i : Nat)
  | data (la : Nat)

/-- The page `q` is used in the address space of the directory `d`. -/
def Uses (s : Vm) (d q : Nat) : Usage → Prop
  | .table i => (s.dir d i).map Prod.fst = some q
  | .data la => la % pgsize = 0 ∧ la < 2 ^ 32 ∧ s.maps d la q

/-- The pages of the address space. -/
def pagesOf (s : Vm) (d : Nat) : Set Nat := {q | ∃ x, s.Uses d q x}

theorem Uses.page_unique {q' : Nat} (h : s.Uses d q x)
    (h' : s.Uses d q' x) : q = q' := by
  cases x with
  | table i => exact Option.some.inj (h.symm.trans h')
  | data la => exact h.2.2.2.symm.trans h'.2.2.2

/-- An address space whose pages are taken and used once. -/
structure Space (z n : Nat) (base held : Set Nat) (s : Vm) (d : Nat) :
    Prop where
  own : s.kmem.Own z n (base ∪ s.pagesOf d) held
  apart : Disjoint base (s.pagesOf d)
  single : ∀ q x x', s.Uses d q x → s.Uses d q x' → x = x'
  ref : ∀ q la, s.Uses d q (.data la) → (s.pmm.page q).ref = 1

/-- A page that was not used gets a use. -/
theorem Space.add (h : Space z n base held s d)
    (huses : ∀ q' x', t.Uses d q' x' ↔ s.Uses d q' x' ∨ q' = q ∧ x' = x)
    (hq : q ∉ base ∪ s.pagesOf d)
    (hown : t.kmem.Own z n (base ∪ s.pagesOf d ∪ {q}) held)
    (href : ∀ q' ∈ s.pagesOf d, (t.pmm.page q').ref = (s.pmm.page q').ref)
    (hone : (t.pmm.page q).ref = 1) : Space z n base held t d := by
  have hpages : t.pagesOf d = s.pagesOf d ∪ {q} := by
    ext q'
    constructor
    · rintro ⟨x', hx'⟩
      rcases (huses q' x').1 hx' with hold | ⟨rfl, -⟩
      · exact .inl ⟨x', hold⟩
      · exact .inr rfl
    · rintro (⟨x', hx'⟩ | rfl)
      · exact ⟨x', (huses q' x').2 (.inl hx')⟩
      · exact ⟨x, (huses q' x).2 (.inr ⟨rfl, rfl⟩)⟩
  constructor
  case own =>
    rw [hpages, ← Set.union_assoc]
    exact hown
  case apart =>
    rw [hpages, Set.disjoint_union_right, Set.disjoint_singleton_right]
    exact ⟨h.apart, fun hin => hq (.inl hin)⟩
  case single =>
    intro q' x₁ x₂ h₁ h₂
    rcases (huses q' x₁).1 h₁ with h₁ | ⟨rfl, rfl⟩
    · rcases (huses q' x₂).1 h₂ with h₂ | ⟨rfl, -⟩
      · exact h.single q' x₁ x₂ h₁ h₂
      · exact absurd (.inr ⟨x₁, h₁⟩) hq
    · rcases (huses q' x₂).1 h₂ with h₂ | ⟨-, rfl⟩
      · exact absurd (.inr ⟨x₂, h₂⟩) hq
      · rfl
  case ref =>
    intro q' la hu
    rcases (huses q' _).1 hu with hold | ⟨rfl, -⟩
    · exact (href q' ⟨_, hold⟩).trans (h.ref q' la hold)
    · exact hone

/-- Where a page is mapped in the address space. -/
def mappings (s : Vm) (d q : Nat) : Set Nat := {la | s.Uses d q (.data la)}

theorem mappings_pos (h : s.Uses d q (.data la)) :
    0 < (s.mappings d q).ncard :=
  (Set.ncard_pos ((Set.finite_Iio (2 ^ 32)).subset fun _ hu => hu.2.1)).2
    ⟨la, h⟩

/-- An address space whose pages are taken and whose pages of data are
mapped nowhere else: each counts its mappings here. -/
structure Shared (z n : Nat) (base held : Set Nat) (s : Vm) (d : Nat) :
    Prop where
  own : s.kmem.Own z n (base ∪ s.pagesOf d) held
  apart : Disjoint base (s.pagesOf d)
  table : ∀ q i x, s.Uses d q (.table i) → s.Uses d q x → x = .table i
  ref : ∀ q la, s.Uses d q (.data la) →
    (s.pmm.page q).ref = (s.mappings d q).ncard

theorem Space.shared (h : Space z n base held s d) :
    Shared z n base held s d where
  own := h.own
  apart := h.apart
  table q i x hi hx := h.single q x _ hx hi
  ref q la hu := by
    have hset : s.mappings d q = {la} := by
      ext la'
      constructor
      · intro hu'
        have heq : Usage.data la' = .data la := h.single q _ _ hu' hu
        injection heq
      · rintro rfl
        exact hu
    rw [h.ref q la hu, hset, Set.ncard_singleton]
    rfl

/-- The pages when a use of `q` is gone. -/
theorem pagesOf_remove (hx : s.Uses d q x)
    (huses : ∀ q' x', t.Uses d q' x' ↔ s.Uses d q' x' ∧ x' ≠ x) (q' : Nat) :
    q' ∈ t.pagesOf d ↔
      q' ∈ s.pagesOf d ∧ (q' = q → ∃ x', s.Uses d q x' ∧ x' ≠ x) := by
  constructor
  · rintro ⟨x', hx'⟩
    obtain ⟨hold, hne⟩ := (huses q' x').1 hx'
    refine ⟨⟨x', hold⟩, ?_⟩
    rintro rfl
    exact ⟨x', hold, hne⟩
  · rintro ⟨⟨x', hold⟩, hother⟩
    by_cases hq : q' = q
    · obtain ⟨y, hy, hne⟩ := hother hq
      rw [← hq] at hy
      exact ⟨y, (huses q' y).2 ⟨hy, hne⟩⟩
    · refine ⟨x', (huses q' x').2 ⟨hold, ?_⟩⟩
      rintro rfl
      exact hq (hold.page_unique hx)

variable (h : Shared z n base held s d)

section
include h

/-- A page loses a use. -/
theorem Shared.remove (hx : s.Uses d q x)
    (huses : ∀ q' x', t.Uses d q' x' ↔ s.Uses d q' x' ∧ x' ≠ x)
    (hown : t.kmem.Own z n (base ∪ t.pagesOf d) held)
    (href : ∀ q' ∈ t.pagesOf d,
      (t.pmm.page q').ref = (s.pmm.page q').ref - if q' = q then 1 else 0) :
    Shared z n base held t d where
  own := hown
  apart := h.apart.mono_right fun q' hq' =>
    ((pagesOf_remove hx huses q').1 hq').1
  table q' i x' hi hx' :=
    h.table q' i x' ((huses q' _).1 hi).1 ((huses q' x').1 hx').1
  ref q' la hu := by
    have hold := ((huses q' _).1 hu).1
    rw [href q' ⟨_, hu⟩, h.ref q' la hold]
    by_cases hq : q' = q
    · subst hq
      cases x with
      | table i => cases h.table q' i _ hx hold
      | data la₀ =>
        have hmem : la₀ ∈ s.mappings d q' := hx
        have hset : t.mappings d q' = s.mappings d q' \ {la₀} := by
          ext la'
          simp [mappings, huses]
        have hpos := mappings_pos hx
        rw [hset, Set.ncard_sdiff_singleton_of_mem hmem]
        omega
    · have hset : t.mappings d q' = s.mappings d q' := by
        ext la'
        show t.Uses d q' (.data la') ↔ s.Uses d q' (.data la')
        refine (huses q' _).trans ⟨And.left, fun hu' => ⟨hu', ?_⟩⟩
        rintro rfl
        exact hq (hu'.page_unique hx)
      rw [if_neg hq, hset, sub_zero]

/-- One page of the address space is given back. -/
theorem Shared.freeOne (hq : q ∈ s.pagesOf d)
    (hown : t.kmem.Own z n (base ∪ s.pagesOf d) held) :
    ∃ p, t.freePages q 1 = some (t.setPmm p) ∧
      (t.setPmm p).kmem.Own z n (base ∪ s.pagesOf d \ {q}) held ∧
      ∀ q' ∈ base ∪ s.pagesOf d \ {q},
        (p.page q').ref = (t.pmm.page q').ref := by
  have hsplit : base ∪ s.pagesOf d
      = (base ∪ s.pagesOf d \ {q}) ∪ Set.Ico q (q + 1) := by
    rw [Ico_one, Set.union_assoc, Set.sdiff_union_of_subset
      (Set.singleton_subset_iff.2 hq)]
  have hdis : Disjoint (base ∪ s.pagesOf d \ {q}) (Set.Ico q (q + 1)) := by
    rw [Ico_one, Set.disjoint_singleton_right]
    rintro (hb | ⟨-, hne⟩)
    · exact Set.disjoint_left.1 h.apart hb hq
    · exact hne rfl
  rw [hsplit] at hown
  exact freePages_own hown hdis Nat.one_pos (by decide)

theorem Shared.lt_npage (hq : q ∈ s.pagesOf d) : q < s.pmm.npage := by
  have hin := (h.own.inv.others (.inr hq)).1
  exact Nat.lt_of_lt_of_le hin.2 h.own.inv.good.bound

end

/-- What the steps leave alone: other directories, and the objects. -/
structure Apart (d : Nat) (s t : Vm) : Prop where
  dirs : ∀ d', d' ≠ d → t.dir d' = s.dir d'
  place : t.kmem.place = s.kmem.place
  controls : t.kmem.controls = s.kmem.controls

theorem Apart.refl (d : Nat) (s : Vm) : Apart d s s :=
  ⟨fun _ _ => rfl, rfl, rfl⟩

theorem Apart.trans (h : Apart d s t) (h' : Apart d t u) : Apart d s u :=
  ⟨fun d' hd => (h'.dirs d' hd).trans (h.dirs d' hd), h'.place.trans h.place,
    h'.controls.trans h.controls⟩

-- ===== uses after one write

theorem uses_congr (h : t.dir d = s.dir d) : t.Uses d q x ↔ s.Uses d q x := by
  cases x with
  | table i => rw [Uses, Uses, h]
  | data la => rw [Uses, Uses, maps, maps, present, present, entry_congr h]

/-- An entry is written. -/
theorem uses_setPte (hdir : (s.dir d (pdx la)).isSome)
    (hal : la % pgsize = 0) (hla : la < 2 ^ 32) (pte : Word) :
    (s.setPte d la pte).Uses d q x ↔
      x = .data la ∧ ptepPresent pte = true ∧ (ppn (pteAddr pte)).toNat = q ∨
      x ≠ .data la ∧ s.Uses d q x := by
  cases x with
  | table i =>
    have hne : Usage.table i ≠ .data la := by simp
    rw [Uses, setPte_table]
    exact ⟨fun h => .inr ⟨hne, h⟩, fun h => h.elim (absurd ·.1 hne) And.right⟩
  | data la' =>
    by_cases hthis : la' = la
    · subst hthis
      rw [Uses, maps, present, entry_setPte hdir, if_pos ⟨rfl, rfl, rfl⟩]
      constructor
      · rintro ⟨-, -, hp, hq⟩
        exact .inl ⟨rfl, hp, hq⟩
      · rintro (⟨-, hp, hq⟩ | ⟨hne, -⟩)
        · exact ⟨hal, hla, hp, hq⟩
        · exact absurd rfl hne
    · have hne : Usage.data la' ≠ .data la := fun h => hthis (by injection h)
      constructor
      · rintro ⟨hal', hla', hp, hq⟩
        have hent : (s.setPte d la pte).entry d la' = s.entry d la' := by
          rw [entry_setPte hdir, if_neg]
          rintro ⟨-, hpd, hpt⟩
          exact hthis (same_page hal' hal hla' hla hpd hpt)
        rw [present, hent] at hp
        rw [hent] at hq
        exact .inr ⟨hne, hal', hla', hp, hq⟩
      · rintro (⟨heq, -⟩ | ⟨-, hal', hla', hp, hq⟩)
        · exact absurd heq hne
        · have hent : (s.setPte d la pte).entry d la' = s.entry d la' := by
            rw [entry_setPte hdir, if_neg]
            rintro ⟨-, hpd, hpt⟩
            exact hthis (same_page hal' hal hla' hla hpd hpt)
          refine ⟨hal', hla', ?_, ?_⟩
          · rw [present, hent]
            exact hp
          · rw [hent]
            exact hq

/-- An empty table is put in. -/
theorem uses_setPde_zero (hnone : s.dir d (pdx la) = none) {page : Nat} :
    (s.setPde d la (some (page, fun _ => 0))).Uses d q x ↔
      s.Uses d q x ∨ q = page ∧ x = .table (pdx la) := by
  cases x with
  | table i =>
    by_cases hi : i = pdx la
    · subst hi
      simp [Uses, setPde, hnone, eq_comm]
    · simp [Uses, setPde, hi]
  | data la' =>
    rw [Uses, Uses, maps, maps, present, present, entry_setPde_zero hnone]
    simp

/-- A table without present entries is taken out. -/
theorem uses_setPde_none
    (hempty : ∀ la', la' % pgsize = 0 → la' < 2 ^ 32 → pdx la' = pdx la →
      ¬s.present d la') :
    (s.setPde d la none).Uses d q x ↔ s.Uses d q x ∧ x ≠ .table (pdx la) := by
  cases x with
  | table i =>
    by_cases hi : i = pdx la
    · subst hi
      simp [Uses, setPde]
    · simp [Uses, setPde, hi]
  | data la' =>
    have hent : pdx la' ≠ pdx la →
        (s.setPde d la none).entry d la' = s.entry d la' := by
      intro hi
      simp [entry, getPte, setPde, hi]
    have hgone : pdx la' = pdx la → ¬(s.setPde d la none).present d la' := by
      intro hi
      refine not_present_of_none ?_
      simp [getPte, setPde, hi]
    by_cases hi : pdx la' = pdx la
    · constructor
      · rintro ⟨-, -, hp, -⟩
        exact absurd hp (hgone hi)
      · rintro ⟨⟨hal, hla, hp, -⟩, -⟩
        exact absurd hp (hempty la' hal hla hi)
    · rw [Uses, Uses, maps, maps, present, present, hent hi]
      simp

-- ===== one step

/-- What is left when the uses `gone` are gone; the pages of others are as
they were. -/
structure Removed (z n : Nat) (base held : Set Nat) (d : Nat)
    (gone : Usage → Prop) (s t : Vm) : Prop where
  space : Shared z n base held t d
  dirs : ∀ d', d' ≠ d → t.dir d' = s.dir d'
  kmem : t.kmem = { s.kmem with pmm := t.pmm }
  frame : ∀ q ∉ s.pagesOf d, t.frame q = s.frame q
  ref : ∀ q ∈ base, (t.pmm.page q).ref = (s.pmm.page q).ref
  uses : ∀ q x, t.Uses d q x ↔ s.Uses d q x ∧ ¬gone x

theorem Removed.trans {g g' : Usage → Prop}
    (h : Removed z n base held d g s t) (h' : Removed z n base held d g' t u) :
    Removed z n base held d (fun x => g x ∨ g' x) s u where
  space := h'.space
  dirs d' hd := (h'.dirs d' hd).trans (h.dirs d' hd)
  kmem := by
    rw [h'.kmem, h.kmem]
  frame q hq := by
    refine (h'.frame q ?_).trans (h.frame q hq)
    rintro ⟨x, hx⟩
    exact hq ⟨x, ((h.uses q x).1 hx).1⟩
  ref q hq := (h'.ref q hq).trans (h.ref q hq)
  uses q x := by
    rw [h'.uses, h.uses, and_assoc, not_or]

theorem Removed.congr {g g' : Usage → Prop} (h : Removed z n base held d g s t)
    (heq : ∀ q x, s.Uses d q x → (g x ↔ g' x)) :
    Removed z n base held d g' s t :=
  { h with
    uses := fun q x => by
      rw [h.uses]
      exact and_congr_right fun hx => not_congr (heq q x hx) }

section
include h

theorem Removed.refl {g : Usage → Prop} (hnone : ∀ q x, s.Uses d q x → ¬g x) :
    Removed z n base held d g s s :=
  ⟨h, fun _ _ => rfl, rfl, fun _ _ => rfl, fun _ _ => rfl,
    fun q x => ⟨fun hx => ⟨hx, hnone q x hx⟩, And.left⟩⟩

/-- `page_ref_dec` of a page of data, which is given back when that was its
last mapping. -/
theorem Shared.refDec (hu : s.Uses d q (.data la)) {left : Set Nat}
    (hleft : ∀ q', q' ∈ left ↔ q' ∈ s.pagesOf d ∧
      (q' = q → ∃ x', s.Uses d q x' ∧ x' ≠ .data la)) :
    ∃ p, (if ((s.pageRefAdd q (-1)).pmm.page q).ref = 0 then
        (s.pageRefAdd q (-1)).freePages q 1
        else some (s.pageRefAdd q (-1))) = some (s.setPmm p) ∧
      (s.setPmm p).kmem.Own z n (base ∪ left) held ∧ ∀ q' ∈ base ∪ left,
        (p.page q').ref = (s.pmm.page q').ref - if q' = q then 1 else 0 := by
  have hin : q ∈ s.pagesOf d := ⟨_, hu⟩
  have hown : (s.pageRefAdd q (-1)).kmem.Own z n (base ∪ s.pagesOf d) held :=
    h.own.use (.inr hin) (-1)
  have hdec : ∀ q', ((s.pageRefAdd q (-1)).pmm.page q').ref
      = (s.pmm.page q').ref - if q' = q then 1 else 0 := by
    intro q'
    by_cases hq : q' = q
    · subst hq
      rw [pageRefAdd_ref, if_pos rfl]
      rfl
    · rw [if_neg hq, sub_zero]
      exact congrArg Page.ref (update_of_ne hq _ _)
  have hq := hdec q
  rw [h.ref q la hu] at hq
  have hpos := mappings_pos hu
  by_cases hone : (s.mappings d q).ncard = 1
  · -- the last mapping
    obtain ⟨la', hset⟩ := Set.ncard_eq_one.1 hone
    have honly : ¬∃ x', s.Uses d q x' ∧ x' ≠ .data la := by
      rintro ⟨x', hx', hne⟩
      cases x' with
      | table i => cases h.table q i _ hx' hu
      | data la₁ =>
        have h0 : la = la' := hset.subset hu
        have h1 : la₁ = la' := hset.subset hx'
        exact hne (by rw [h0, h1])
    obtain rfl : left = s.pagesOf d \ {q} := by
      ext q'
      rw [hleft]
      simp [honly]
    obtain ⟨p, hfree, hown', href⟩ := h.freeOne hin hown
    refine ⟨p, ?_, hown', fun q' hq' => ?_⟩
    · rw [if_pos (by omega)]
      exact hfree
    · rw [← hdec, ← href q' hq']
  · obtain ⟨la', hu', hne⟩ :=
      Set.exists_ne_of_one_lt_ncard (s := s.mappings d q) (by omega) la
    obtain rfl : left = s.pagesOf d := by
      ext q'
      refine (hleft q').trans ⟨And.left, fun hq' => ⟨hq', fun _ => ?_⟩⟩
      exact ⟨.data la', hu', fun heq => hne (by injection heq)⟩
    exact ⟨(s.pageRefAdd q (-1)).pmm, if_neg (by omega), hown,
      fun q' _ => hdec q'⟩

/-- The body of the loop of `unmap_range`. -/
theorem Shared.unmapStep (hal : la % pgsize = 0) (hla : la < 2 ^ 32) :
    ∃ t, s.unmapStep d la = some t ∧
      Removed z n base held d (· = .data la) s t := by
  -- nothing to do where the entry is not present
  have hskip : ¬s.present d la →
      Removed z n base held d (· = .data la) s s := by
    intro hnp
    refine .refl h ?_
    rintro q x hx rfl
    exact hnp hx.2.2.1
  rw [Vm.unmapStep]
  cases hpte : s.getPte d la with
  | none => exact ⟨s, rfl, hskip (not_present_of_none hpte)⟩
  | some pte =>
  have hent := entry_of_getPte hpte
  rw [Option.elim_some]
  by_cases hz : pte = 0
  · refine ⟨s, if_neg (not_not.2 hz), hskip ?_⟩
    rw [present, hent, hz]
    decide
  rw [if_pos hz, pageRemovePte]
  by_cases hp : ptepPresent pte
  swap
  · refine ⟨s, if_neg hp, hskip ?_⟩
    rw [present, hent]
    exact hp
  rw [if_pos hp]
  have huse : s.Uses d (ppn (pteAddr pte)).toNat (.data la) := by
    refine ⟨hal, hla, ?_, ?_⟩
    · rw [present, hent]
      exact hp
    · rw [hent]
  generalize hq : (ppn (pteAddr pte)).toNat = q at huse
  have hpage : s.pte2page pte = some q := by
    rw [pte2page, if_pos hp, pa2page, hq, if_pos (h.lt_npage ⟨_, huse⟩)]
  obtain ⟨p, hfree, hown, href⟩ := h.refDec huse fun _ => .rfl
  have hdir : (s.dir d (pdx la)).isSome := by
    rw [getPte] at hpte
    cases ht : s.dir d (pdx la) with
    | none =>
      rw [ht] at hpte
      cases hpte
    | some t => rfl
  refine ⟨(s.setPmm p).setPte d la 0, ?_, ?_⟩
  · rw [hpage, Option.bind_some]
    simp only [hfree, Option.map_some]
  have huses : ∀ q' x, ((s.setPmm p).setPte d la 0).Uses d q' x ↔
      s.Uses d q' x ∧ x ≠ .data la := by
    intro q' x
    rw [uses_setPte (s := s.setPmm p) hdir hal hla]
    constructor
    · rintro (⟨-, hp0, -⟩ | ⟨hne, hx⟩)
      · exact absurd hp0 (by decide)
      · exact ⟨hx, hne⟩
    · exact fun hx => .inr ⟨hx.2, hx.1⟩
  have hpages := pagesOf_remove huse huses
  have hkmem := (s.setPmm p).setPte_kmem d la 0
  have hpmm : ((s.setPmm p).setPte d la 0).pmm = p := congrArg Kmem.pmm hkmem
  constructor
  case space =>
    refine h.remove huse huses ?_ fun q' hq' => ?_
    · rw [hkmem]
      have hset : ((s.setPmm p).setPte d la 0).pagesOf d = _ := Set.ext hpages
      rw [hset]
      exact hown
    · rw [hpmm]
      exact href q' (.inr ((hpages q').1 hq'))
  case dirs => exact fun d' hd => setPte_dir_ne _ la 0 hd
  case kmem =>
    rw [hkmem, hpmm]
    rfl
  case frame => exact fun q' _ => congrFun (setPte_frame _ d la 0) q'
  case ref =>
    intro q' hq'
    have hne : q' ≠ q := by
      rintro rfl
      exact Set.disjoint_left.1 h.apart hq' ⟨_, huse⟩
    rw [hpmm, href q' (.inl hq'), if_neg hne, sub_zero]
  case uses => exact huses

end

-- ===== unmap_range

/-- The loop goes on, and jumps over no page that has a table. -/
theorem unmapNext_spec {start : Nat} (hal : start % pgsize = 0)
    (hlt : start < 2 ^ 31) : start + pgsize ≤ s.unmapNext d start ∧
      s.unmapNext d start % pgsize = 0 ∧ s.unmapNext d start < 2 ^ 32 ∧
      ∀ la, start < la → la < s.unmapNext d start → la % pgsize = 0 →
        s.dir d (pdx la) = none := by
  have hpt : ptsize = 4194304 := rfl
  unfold unmapNext
  by_cases htable : (s.getPte d start).isSome
  · rw [if_pos htable]
    unfold pgsize at *
    exact ⟨by omega, by omega, by omega, fun la h1 h2 h3 => by omega⟩
  · have hnext : roundDown ((start + ptsize) % 2 ^ 32) ptshift
        = (start / 4194304 + 1) * 4194304 := by
      rw [roundDown, ptshift]
      omega
    rw [if_neg htable]
    unfold pgsize at *
    refine ⟨by omega, by omega, by omega, fun la h1 h2 h3 => ?_⟩
    have hsame : pdx la = pdx start := by
      rw [pdx_eq, pdx_eq]
      omega
    rw [getPte, Option.isSome_map, Option.not_isSome_iff_eq_none] at htable
    rw [hsame]
    exact htable

theorem not_data_of_none (h : s.dir d (pdx la) = none) :
    ¬s.Uses d q (.data la) := by
  rintro ⟨-, -, hp, -⟩
  exact not_present_of_none (by rw [getPte, h]; rfl) hp

section
include h

/-- The loop over the pages, by induction on its rounds. -/
theorem Shared.unmapLoop {start stop : Nat}
    (fuel : Nat) (hstop : stop ≤ 2 ^ 31) (hal : start % pgsize = 0)
    (hlt : start < stop) (hfuel : stop ≤ start + fuel * pgsize) :
    ∃ t, unmapLoop d stop fuel s start = some t ∧ Removed z n base held d
        (fun x => ∃ la, x = .data la ∧ start ≤ la ∧ la < stop) s t := by
  induction fuel generalizing s start with
  | zero => omega
  | succ fuel ih =>
    obtain ⟨hnext, hal', hlt32, hjump⟩ :=
      unmapNext_spec (s := s) (d := d) hal (by omega)
    obtain ⟨t, hstep, hdrop⟩ := h.unmapStep hal (by omega)
    have hpg : 0 < pgsize := by decide
    rw [Vm.unmapLoop, hstep, Option.bind_some]
    -- the pages this round is about
    have hthis : ∀ q x, s.Uses d q x → (x = .data start ↔
        ∃ la, x = .data la ∧ start ≤ la ∧ la < s.unmapNext d start) := by
      intro q x hx
      constructor
      · rintro rfl
        exact ⟨start, rfl, Nat.le_refl _, by omega⟩
      · rintro ⟨la, rfl, hge, hla⟩
        by_cases heq : la = start
        · rw [heq]
        · have hnone := hjump la (by omega) hla hx.1
          exact absurd hx (not_data_of_none hnone)
    by_cases hmore : s.unmapNext d start < stop
    · rw [if_pos ⟨by omega, hmore⟩]
      have hrounds : stop ≤ s.unmapNext d start + fuel * pgsize := by
        rw [Nat.add_mul] at hfuel
        omega
      obtain ⟨u, hrun, hrest⟩ := ih hdrop.space hal' hmore hrounds
      refine ⟨u, hrun, ((hdrop.congr hthis).trans hrest).congr ?_⟩
      intro q x _
      constructor
      · rintro (⟨la, rfl, hge, hla⟩ | ⟨la, rfl, hge, hla⟩)
        · exact ⟨la, rfl, hge, by omega⟩
        · exact ⟨la, rfl, by omega, hla⟩
      · rintro ⟨la, rfl, hge, hla⟩
        by_cases hfirst : la < s.unmapNext d start
        · exact .inl ⟨la, rfl, hge, hfirst⟩
        · exact .inr ⟨la, rfl, by omega, hla⟩
    · rw [if_neg fun hall => hmore hall.2]
      refine ⟨t, rfl, hdrop.congr fun q x hx => ?_⟩
      rw [hthis q x hx]
      constructor
      · rintro ⟨la, rfl, hge, hla⟩
        by_cases heq : la = start
        · exact ⟨la, rfl, hge, by omega⟩
        · have hnone := hjump la (by omega) hla hx.1
          exact absurd hx (not_data_of_none hnone)
      · rintro ⟨la, rfl, hge, hla⟩
        exact ⟨la, rfl, hge, by omega⟩

/-- An area of an address space. -/
def Area (v : Vma) : Prop :=
  v.vmStart % pgsize = 0 ∧ v.vmEnd % pgsize = 0 ∧
    userAccess v.vmStart v.vmEnd

/-- The use lies in the area. -/
def Within (v : Vma) : Usage → Prop
  | .data la => v.vmStart ≤ la ∧ la < v.vmEnd
  | .table i => ∃ la, v.vmStart ≤ la ∧ la < v.vmEnd ∧ i = pdx la

theorem Shared.unmapRange {v : Vma} (hv : Area v) :
    ∃ t, s.unmapRange d v.vmStart v.vmEnd = some t ∧ Removed z n base held d
        (fun x => ∃ la, x = .data la ∧ v.vmStart ≤ la ∧ la < v.vmEnd) s t := by
  obtain ⟨hal, hal', huser, hlt, htop⟩ := hv
  obtain ⟨t, hrun, hdrop⟩ := h.unmapLoop ((v.vmEnd - v.vmStart) / pgsize)
    htop hal hlt (by
      unfold pgsize at *
      omega)
  exact ⟨t, (if_pos ⟨hal, hal', huser, hlt, htop⟩).trans hrun, hdrop⟩

theorem Shared.unmapAreas {vs : List Vma} (hvs : ∀ v ∈ vs, Area v) :
    ∃ t, unmapAreas d vs s = some t ∧
      Removed z n base held d (fun x => ∃ v ∈ vs, ∃ la, x = .data la ∧
        v.vmStart ≤ la ∧ la < v.vmEnd) s t := by
  induction vs generalizing s with
  | nil => exact ⟨s, rfl, .refl h fun _ _ _ => by simp⟩
  | cons v vs ih =>
    obtain ⟨t, hrun, hdrop⟩ := h.unmapRange (hvs v List.mem_cons_self)
    obtain ⟨u, hrest, hdrop'⟩ := ih hdrop.space
      fun w hw => hvs w (List.mem_cons_of_mem v hw)
    refine ⟨u, ?_, (hdrop.trans hdrop').congr fun q x _ => by simp⟩
    rw [Vm.unmapAreas, hrun]
    exact hrest

end

-- ===== exit_range

section
include h

/-- The body of the loop of `exit_range`, when no data is left. -/
theorem Shared.exitStep (hempty : ∀ q la, ¬s.Uses d q (.data la))
    (start : Nat) : ∃ t, s.exitStep d start = some t ∧
      Removed z n base held d (· = .table (pdx start)) s t := by
  rw [Vm.exitStep]
  cases hdir : s.dir d (pdx start) with
  | none =>
    refine ⟨s, rfl, .refl h ?_⟩
    rintro q x hx rfl
    rw [Uses, hdir] at hx
    cases hx
  | some table =>
  obtain ⟨q, words⟩ := table
  have huse : s.Uses d q (.table (pdx start)) := by
    rw [Uses, hdir]
    rfl
  have hin : q ∈ s.pagesOf d := ⟨_, huse⟩
  obtain ⟨p, hfree, hown, href⟩ :=
    h.freeOne (t := s.setFrame q (tableBytes words)) hin h.own
  have honly : ¬∃ x', s.Uses d q x' ∧ x' ≠ .table (pdx start) :=
    fun ⟨x', hx', hne⟩ => hne (h.table q _ x' huse hx')
  refine ⟨((s.setFrame q (tableBytes words)).setPmm p).setPde d start none,
    ?_, ?_⟩
  · rw [Option.elim_some, if_pos (h.lt_npage hin), hfree]
    rfl
  have huses : ∀ q' x, (((s.setFrame q (tableBytes words)).setPmm
      p).setPde d start none).Uses d q' x ↔
        s.Uses d q' x ∧ x ≠ .table (pdx start) := by
    intro q' x
    rw [uses_setPde_none]
    · rfl
    · intro la' hal hla _ hp
      exact hempty _ la' ⟨hal, hla, hp, rfl⟩
  have hpages : (((s.setFrame q (tableBytes words)).setPmm p).setPde d start
      none).pagesOf d = s.pagesOf d \ {q} := by
    ext q'
    rw [pagesOf_remove huse huses]
    simp [honly]
  constructor
  case space =>
    refine h.remove huse huses ?_ fun q' hq' => ?_
    · rw [hpages]
      exact hown
    · rw [hpages] at hq'
      have hne : q' ≠ q := hq'.2
      rw [if_neg hne, sub_zero]
      exact href q' (.inr hq')
  case dirs => exact fun d' hd => update_of_ne hd _ _
  case kmem => rfl
  case frame =>
    intro q' hq'
    have hne : q' ≠ q := fun heq => hq' (by rw [heq]; exact hin)
    exact update_of_ne hne _ _
  case ref => exact fun q' hq' => href q' (.inl hq')
  case uses => exact huses

theorem Shared.exitLoop (hempty : ∀ q la, ¬s.Uses d q (.data la)) {stop : Nat}
    (start fuel : Nat) (hstop : stop ≤ 2 ^ 31) (hal : start % 4194304 = 0)
    (hlt : start < stop) (hfuel : stop ≤ start + fuel * ptsize) :
    ∃ t, exitLoop d stop fuel s start = some t ∧ Removed z n base held d
        (fun x => ∃ la, start ≤ la ∧ la < stop ∧ x = .table (pdx la)) s t := by
  have hpt : ptsize = 4194304 := rfl
  induction fuel generalizing s start with
  | zero => omega
  | succ fuel ih =>
    obtain ⟨t, hstep, hdrop⟩ := h.exitStep hempty start
    have hnext : (start + ptsize) % 2 ^ 32 = start + ptsize := by omega
    -- one table for the addresses up to the next
    have hsame : ∀ la, start ≤ la → la < start + ptsize →
        pdx la = pdx start := by
      intro la h1 h2
      rw [pdx_eq, pdx_eq]
      omega
    rw [Vm.exitLoop, hstep, Option.bind_some, hnext]
    by_cases hmore : start + ptsize < stop
    · rw [if_pos ⟨by omega, hmore⟩]
      have hrounds : stop ≤ start + ptsize + fuel * ptsize := by
        rw [Nat.add_mul] at hfuel
        omega
      obtain ⟨u, hrun, hrest⟩ := ih hdrop.space
        (fun q la hx => hempty q la ((hdrop.uses q _).1 hx).1)
        (start + ptsize) (by omega) hmore hrounds
      refine ⟨u, hrun, (hdrop.trans hrest).congr fun q x _ => ?_⟩
      constructor
      · rintro (rfl | ⟨la, hge, hla, rfl⟩)
        · exact ⟨start, Nat.le_refl _, hlt, rfl⟩
        · exact ⟨la, by omega, hla, rfl⟩
      · rintro ⟨la, hge, hla, rfl⟩
        by_cases hfirst : la < start + ptsize
        · exact .inl (by rw [hsame la hge hfirst])
        · exact .inr ⟨la, by omega, hla, rfl⟩
    · rw [if_neg fun hall => hmore hall.2]
      refine ⟨t, rfl, hdrop.congr fun q x _ => ?_⟩
      constructor
      · rintro rfl
        exact ⟨start, Nat.le_refl _, hlt, rfl⟩
      · rintro ⟨la, hge, hla, rfl⟩
        rw [hsame la hge (by omega)]

theorem Shared.exitRange (hempty : ∀ q la, ¬s.Uses d q (.data la)) {v : Vma}
    (hv : Area v) : ∃ t, s.exitRange d v.vmStart v.vmEnd = some t ∧
      ∃ g, (∀ la, v.vmStart ≤ la → la < v.vmEnd → g (.table (pdx la))) ∧
        Removed z n base held d g s t := by
  obtain ⟨hal, hal', huser, hlt, htop⟩ := hv
  have hround : roundDown v.vmStart ptshift
      = v.vmStart / 4194304 * 4194304 := by
    rw [roundDown, Nat.shiftRight_eq_div_pow, Nat.shiftLeft_eq, ptshift]
  have hpt : ptsize = 4194304 := rfl
  obtain ⟨t, hrun, hdrop⟩ := h.exitLoop hempty
    (roundDown v.vmStart ptshift) 1024 htop (by omega) (by omega) (by omega)
  refine ⟨t, (if_pos ⟨hal, hal', huser, hlt, htop⟩).trans hrun, _, ?_, hdrop⟩
  intro la hge hla
  exact ⟨la, by omega, hla, rfl⟩

theorem Shared.exitAreas (hempty : ∀ q la, ¬s.Uses d q (.data la))
    {vs : List Vma} (hvs : ∀ v ∈ vs, Area v) : ∃ t, exitAreas d vs s = some t ∧
      ∃ g, (∀ v ∈ vs, ∀ la, v.vmStart ≤ la → la < v.vmEnd →
          g (.table (pdx la))) ∧
        Removed z n base held d g s t := by
  induction vs generalizing s with
  | nil => exact ⟨s, rfl, fun _ => False, by simp, .refl h fun _ _ _ => id⟩
  | cons v vs ih =>
    obtain ⟨t, hrun, g, hg, hdrop⟩ :=
      h.exitRange hempty (hvs v List.mem_cons_self)
    obtain ⟨u, hrest, g', hg', hdrop'⟩ := ih hdrop.space
      (fun q la hx => hempty q la ((hdrop.uses q _).1 hx).1)
      fun w hw => hvs w (List.mem_cons_of_mem v hw)
    refine ⟨u, ?_, fun x => g x ∨ g' x, ?_, hdrop.trans hdrop'⟩
    · rw [Vm.exitAreas, hrun]
      exact hrest
    · intro w hw la hge hla
      rcases List.mem_cons.1 hw with rfl | hw
      · exact .inl (hg la hge hla)
      · exact .inr (hg' w hw la hge hla)

end

/-- `exit_mmap` gives back every page of an address space whose uses lie
in its areas. -/
theorem Shared.exitMmap {mm : Mm} (h : Shared z n base held s mm.pgdir)
    (hcount : mm.mmCount = 0) (hvs : ∀ v ∈ mm.mmapList, Area v)
    (hwithin : ∀ q x, s.Uses mm.pgdir q x → ∃ v ∈ mm.mmapList, Within v x) :
    ∃ t, s.exitMmap mm = some t ∧ t.kmem.Own z n base held ∧
      Removed z n base held mm.pgdir (fun _ => True) s t := by
  obtain ⟨t, hrun, hdrop⟩ := h.unmapAreas hvs
  have hempty : ∀ q la, ¬t.Uses mm.pgdir q (.data la) := by
    intro q la hx
    obtain ⟨hold, hnot⟩ := (hdrop.uses q _).1 hx
    obtain ⟨v, hv, hge, hla⟩ := hwithin q _ hold
    exact hnot ⟨v, hv, la, rfl, hge, hla⟩
  obtain ⟨u, hrest, g, hg, hdrop'⟩ := hdrop.space.exitAreas hempty hvs
  have hall : Removed z n base held mm.pgdir (fun _ => True) s u := by
    refine (hdrop.trans hdrop').congr fun q x hx => iff_true_intro ?_
    obtain ⟨v, hv, hin⟩ := hwithin q x hx
    cases x with
    | data la => exact .inl ⟨v, hv, la, rfl, hin⟩
    | table i =>
      obtain ⟨la, hge, hla, rfl⟩ := hin
      exact .inr (hg v hv la hge hla)
  refine ⟨u, ?_, ?_, hall⟩
  · rw [Vm.exitMmap, if_pos hcount, hrun]
    exact hrest
  have hnone : u.pagesOf mm.pgdir = ∅ := by
    rw [Set.eq_empty_iff_forall_notMem]
    rintro q ⟨x, hx⟩
    exact ((hall.uses q x).1 hx).2 trivial
  have hown := hall.space.own
  rw [hnone, Set.union_empty] at hown
  exact hown

end Vm

end MipsUcore.Kern
