/-
What the page table functions do.

# Entries

An entry is read through its directory's table, and is 0 where there is no
table: an empty table made on the way is not seen. `page_insert` writes an
entry from which the page and the user bits can be read back.

# Steps that only take pages

`Grows` is what such a step keeps: pages in use keep their contents and
reference counts, and the free pages get fewer. A page that a step takes is
free before and not after, so no other entry has it, then or later.
-/
import MipsUcore.Kern.Vm
import MipsUcore.Kern.Proofs.PageAllocation
import MipsUcore.Lib.Bits

namespace MipsUcore.Kern

open Cpu Function

namespace Vm

-- ===== addresses

theorem pdx_eq (la : Nat) : pdx la = la / 2 ^ 22 % 1024 := by
  rw [pdx, Nat.shiftRight_eq_div_pow]

theorem ptx_eq (la : Nat) : ptx la = la / 2 ^ 12 % 1024 := by
  rw [ptx, Nat.shiftRight_eq_div_pow]

/-- Two pages with one entry are one. -/
theorem same_page {la la' : Nat} (h : la % pgsize = 0) (h' : la' % pgsize = 0)
    (hlt : la < 2 ^ 32) (hlt' : la' < 2 ^ 32) (hd : pdx la = pdx la')
    (ht : ptx la = ptx la') : la = la' := by
  rw [pdx_eq, pdx_eq] at hd
  rw [ptx_eq, ptx_eq] at ht
  unfold pgsize at h h'
  omega

-- ===== the entry of a page

theorem page2pa_toNat {q : Nat} (hq : q < 2 ^ 19) :
    (page2pa q).toNat = 2 ^ 31 + q * 2 ^ 12 := by
  have hk : kernbase.toNat = 2 ^ 31 := by decide
  rw [page2pa, BitVec.toNat_add, BitVec.toNat_shiftLeft, BitVec.toNat_ofNat,
    hk, Nat.shiftLeft_eq]
  omega

theorem page2pa_append {q : Nat} (hq : q < 2 ^ 19) :
    page2pa q = BitVec.ofNat 20 (2 ^ 19 + q) ++ 0#12 := by
  apply BitVec.eq_of_toNat_eq
  rw [page2pa_toNat hq, BitVec.toNat_append, BitVec.toNat_ofNat,
    BitVec.toNat_zero, Nat.or_zero, Nat.shiftLeft_eq]
  omega

theorem ppn_page2pa {q : Nat} (hq : q < 2 ^ 19) :
    (ppn (page2pa q)).toNat = q := by
  have hk : kernbase.toNat = 2 ^ 31 := by decide
  rw [ppn, BitVec.toNat_ushiftRight, BitVec.toNat_sub, page2pa_toNat hq, hk,
    Nat.shiftRight_eq_div_pow]
  omega

/-- The flags of an entry do not reach its address. -/
theorem pteAddr_or {a b : Word} (h : b &&& ~~~0xfff#32 = 0) :
    pteAddr (a ||| b) = pteAddr a := by
  rw [pteAddr, pteAddr, BitVec.and_or_distrib_right, h]
  simp

theorem pteAddr_page2pa {q : Nat} (hq : q < 2 ^ 19) :
    pteAddr (page2pa q) = page2pa q := by
  have hmask : ~~~0xfff#32 = BitVec.allOnes 20 ++ 0#12 := by decide
  rw [pteAddr, page2pa_append hq, hmask, BitVec.and_append,
    BitVec.and_allOnes, BitVec.and_zero]

theorem page2pa_and {q : Nat} (hq : q < 2 ^ 19) {m : Word} {m' : BitVec 12}
    (hm : m = 0#20 ++ m') : page2pa q &&& m = 0#32 := by
  rw [page2pa_append hq, hm, BitVec.and_append]
  simp

/-- The page an entry was written for. -/
theorem mkPte_target {q : Nat} (hq : q < 2 ^ 19) {perm : Word}
    (hperm : perm &&& ~~~0xfff#32 = 0) :
    (ppn (pteAddr (page2pa q ||| pteP ||| perm))).toNat = q := by
  have hlow : pteP &&& ~~~0xfff#32 = 0 := by decide
  rw [pteAddr_or hperm, pteAddr_or hlow, pteAddr_page2pa hq, ppn_page2pa hq]

theorem ptepPresent_eq (x : Word) : ptepPresent x = x.getLsbD 0 := by
  have hpow : pteP = BitVec.twoPow 32 0 := by decide
  rw [ptepPresent, hpow]
  exact Bits.and_twoPow_ne_zero x (by decide)

theorem mkPte_present (q : Nat) (perm : Word) :
    ptepPresent (page2pa q ||| pteP ||| perm) = true := by
  have hone : pteP.getLsbD 0 = true := by decide
  rw [ptepPresent_eq, BitVec.getLsbD_or, BitVec.getLsbD_or, hone,
    Bool.or_true, Bool.true_or]

/-- The entry `page_insert` writes for a page, with the user bits of
another entry. -/
theorem mkPte_spec {q : Nat} (hq : q < 2 ^ 19) {pte : Word}
    (hp : ptepPresent pte = true) :
    ptepPresent (page2pa q ||| pteP ||| pte &&& pteUser) = true ∧
    (ppn (pteAddr (page2pa q ||| pteP ||| pte &&& pteUser))).toNat = q ∧
    (page2pa q ||| pteP ||| pte &&& pteUser) &&& pteUser = pte &&& pteUser :=
    by
  have hlow : pte &&& pteUser &&& ~~~0xfff#32 = 0 := by
    have hz : pteUser &&& ~~~0xfff#32 = 0 := by decide
    rw [BitVec.and_assoc, hz]
    simp
  refine ⟨mkPte_present q _, mkPte_target hq hlow, ?_⟩
  have huser : pteUser = 0#20 ++ 7#12 := by decide
  rw [BitVec.and_or_distrib_right, BitVec.and_or_distrib_right,
    page2pa_and hq huser, BitVec.and_assoc, BitVec.and_self]
  rw [ptepPresent_eq] at hp
  -- the present bit is among the user bits already
  have hin : pteP &&& pteUser = BitVec.twoPow 32 0 := by decide
  rw [hin, BitVec.zero_or]
  apply BitVec.eq_of_getLsbD_eq
  intro i hi
  by_cases h0 : i = 0
  · subst h0
    have huser0 : pteUser.getLsbD 0 = true := by decide
    rw [BitVec.getLsbD_or, BitVec.getLsbD_and, hp, huser0]
    rfl
  · rw [BitVec.getLsbD_or, BitVec.getLsbD_twoPow]
    simp [Ne.symm h0]

-- ===== entries

variable {z n : Nat} {s t u : Vm}
  {d la q : Nat}

/-- The entry for `la`, 0 where there is no table. -/
def entry (s : Vm) (d la : Nat) : Word := (s.getPte d la).getD 0

/-- The entry for `la` is present. -/
def present (s : Vm) (d la : Nat) : Prop := ptepPresent (s.entry d la) = true

/-- The entry for `la` maps the page `q`. -/
def maps (s : Vm) (d la q : Nat) : Prop :=
  s.present d la ∧ (ppn (pteAddr (s.entry d la))).toNat = q

theorem entry_of_getPte {pte : Word}
    (h : s.getPte d la = some pte) : s.entry d la = pte := by
  rw [entry, h, Option.getD_some]

theorem not_present_of_none (h : s.getPte d la = none) : ¬s.present d la := by
  rw [present, entry, h]
  decide

/-- A present entry lies in a table. -/
theorem getPte_of_present (h : s.present d la) :
    s.getPte d la = some (s.entry d la) := by
  cases hp : s.getPte d la with
  | none => exact absurd h (not_present_of_none hp)
  | some pte => rw [entry_of_getPte hp]

theorem entry_congr (h : t.dir d = s.dir d) : t.entry d la = s.entry d la := by
  rw [entry, entry, getPte, getPte, h]

/-- A new empty table changes no entry. -/
theorem entry_setPde_zero {page : Nat} (h : s.dir d (pdx la) = none)
    (d' la' : Nat) : (s.setPde d la (some (page, fun _ => 0))).entry d' la'
      = s.entry d' la' := by
  by_cases hd : d' = d
  · subst hd
    by_cases hi : pdx la' = pdx la
    · simp [entry, getPte, setPde, hi, h]
    · simp [entry, getPte, setPde, hi]
  · refine entry_congr ?_
    exact update_of_ne hd _ _

/-- Writing an entry changes that entry. -/
theorem entry_setPte (h : (s.dir d (pdx la)).isSome)
    (pte : Word) (d' la' : Nat) : (s.setPte d la pte).entry d' la' =
      if d' = d ∧ pdx la' = pdx la ∧ ptx la' = ptx la then pte
      else s.entry d' la' := by
  obtain ⟨table, htable⟩ := Option.isSome_iff_exists.1 h
  rw [setPte, htable, Option.elim_some]
  by_cases hd : d' = d
  · subst hd
    by_cases hi : pdx la' = pdx la
    · by_cases hj : ptx la' = ptx la
      · simp [entry, getPte, setPde, hi, hj]
      · simp [entry, getPte, setPde, hi, hj, htable]
    · simp [entry, getPte, setPde, hi]
  · rw [if_neg fun hall => hd hall.1]
    refine entry_congr ?_
    exact update_of_ne hd _ _

-- ===== what every step keeps

/-- Pages in use stay as they are; the free pages get fewer. -/
structure Grows (z n : Nat) (s t : Vm) : Prop where
  good : t.pmm.Good z n
  free : t.pmm.freeSet ⊆ s.pmm.freeSet
  frame : ∀ q, q ∉ s.pmm.freeSet → t.frame q = s.frame q
  ref : ∀ q, q ∉ s.pmm.freeSet → (t.pmm.page q).ref = (s.pmm.page q).ref

theorem Grows.refl (h : s.pmm.Good z n) : Grows z n s s :=
  ⟨h, subset_rfl, fun _ _ => rfl, fun _ _ => rfl⟩

theorem Grows.trans (h : Grows z n s t) (h' : Grows z n t u) :
    Grows z n s u where
  good := h'.good
  free := h'.free.trans h.free
  frame q hq := (h'.frame q fun hin => hq (h.free hin)).trans (h.frame q hq)
  ref q hq := (h'.ref q fun hin => hq (h.free hin)).trans (h.ref q hq)

/-- `alloc_page` takes one free page, or there is none. -/
theorem allocPage_eq (h : s.pmm.Good z n) : s.allocPages 1 = some (s, none) ∨
      ∃ p q, s.allocPages 1 = some (s.setPmm p, some q) ∧ p.Good z n ∧
        q ∈ s.pmm.freeSet ∧ p.freeSet = s.pmm.freeSet \ {q} ∧
        ∀ q', (p.page q').ref = (s.pmm.page q').ref := by
  obtain ⟨_, -, ⟨hnone, -⟩ | ⟨p, i, hrun, hg, hsub, hcover, hus⟩⟩ :=
    Buddy.allocPages_spec h (Nat.one_pos) (by decide)
  · left
    rw [allocPages, hnone]
    rfl
  · right
    refine ⟨p, z + i, ?_, hg, ?_, ?_, ?_⟩
    · rw [allocPages, hrun]
      rfl
    · exact h.mem_freeSet.2 ⟨i, hsub ⟨by omega, by omega⟩, rfl⟩
    · refine Buddy.freeSet_congr h hg ?_ hcover
      ext x
      rw [Set.mem_singleton_iff, Set.mem_Ico]
      omega
    · exact fun q => congrArg Prod.fst (congrFun hus q)

/-- A free page has reference count 0. -/
theorem ref_of_free (h : s.pmm.Good z n) (hq : q ∈ s.pmm.freeSet) :
    (s.pmm.page q).ref = 0 := by
  obtain ⟨i, hi, rfl⟩ := h.mem_freeSet.1 hq
  exact congrArg Prod.fst (h.clean i hi)

/-- `free_page` of a page of the zone that is not free. -/
theorem freePage_eq (h : s.pmm.Good z n) (hz : z ≤ q)
    (hn : q < z + n) (hq : q ∉ s.pmm.freeSet) :
    ∃ p, s.freePages q 1 = some (s.setPmm p) ∧ p.Good z n ∧
      p.freeSet = insert q s.pmm.freeSet ∧
      ∀ q', q' ≠ q → (p.page q').ref = (s.pmm.page q').ref := by
  obtain ⟨i, rfl⟩ := Nat.exists_eq_add_of_le hz
  have hone : Set.Ico i (i + 1) = {i} := by
    ext x
    rw [Set.mem_Ico, Set.mem_singleton_iff]
    omega
  obtain ⟨p, hrun, hfreed⟩ := Buddy.freePages_spec h Nat.one_pos (by decide)
    (b := i) (by omega) (by
      rw [hone, Set.disjoint_singleton_left]
      exact fun hi => hq (h.mem_freeSet.2 ⟨i, hi, rfl⟩))
  refine ⟨p, ?_, hfreed.good, ?_, ?_⟩
  · rw [freePages, hrun]
    rfl
  · ext x
    rw [hfreed.good.mem_freeSet, hfreed.cover_eq, hone, Set.mem_insert_iff,
      h.mem_freeSet]
    simp [or_and_right, exists_or]
  · intro q' hne
    have husage := hfreed.usage_eq q'
    rw [if_neg (by omega)] at husage
    exact congrArg Prod.fst husage

/-- `alloc_page`: nothing, or a free page with reference count 0. -/
theorem allocPages_one (h : s.pmm.Good z n) : s.allocPages 1 = some (s, none) ∨
      ∃ t q, s.allocPages 1 = some (t, some q) ∧ Grows z n s t ∧
        q ∈ s.pmm.freeSet ∧ q ∉ t.pmm.freeSet ∧
        (t.pmm.page q).ref = 0 ∧ t.dir = s.dir ∧ t.frame = s.frame := by
  rcases allocPage_eq h with hnone | ⟨p, q, hrun, hg, hin, hfree, href⟩
  · exact .inl hnone
  · refine .inr ⟨s.setPmm p, q, hrun, ⟨hg, ?_, fun _ _ => rfl,
      fun q _ => href q⟩, hin, ?_, (href q).trans (ref_of_free h hin), rfl,
      rfl⟩
    · exact hfree.trans_subset Set.sdiff_subset
    · show q ∉ p.freeSet
      rw [hfree]
      exact fun hq => hq.2 rfl

/-- Counting a reference to a page in use. -/
theorem Grows.pageRefAdd (h : Grows z n s t) {p : Nat}
    (hp : p ∈ s.pmm.freeSet) (hp' : p ∉ t.pmm.freeSet) (i : Int) :
    Grows z n s (t.pageRefAdd p i) where
  good := h.good.use hp' ((t.pmm.page p).ref + i) (t.pmm.page p).slab
  free := h.free
  frame := h.frame
  ref q hq := by
    have hne : q ≠ p := fun heq => hq (heq ▸ hp)
    have hpage : (t.pageRefAdd p i).pmm.page q = t.pmm.page q :=
      update_of_ne hne _ _
    rw [hpage]
    exact h.ref q hq

theorem pageRefAdd_ref (s : Vm) (p : Nat) (i : Int) :
    ((s.pageRefAdd p i).pmm.page p).ref = (s.pmm.page p).ref + i := by
  show (update s.pmm.page p
    { s.pmm.page p with ref := (s.pmm.page p).ref + i } p).ref = _
  rw [update_self]

@[simp] theorem setPte_kmem (s : Vm) (d la : Nat) (pte : Word) :
    (s.setPte d la pte).kmem = s.kmem := by
  rw [setPte]
  cases s.dir d (pdx la) <;> rfl

@[simp] theorem setPte_frame (s : Vm) (d la : Nat) (pte : Word) :
    (s.setPte d la pte).frame = s.frame := by
  rw [setPte]
  cases s.dir d (pdx la) <;> rfl

theorem setPte_dir_ne (s : Vm) {d' : Nat} (la : Nat) (pte : Word)
    (h : d' ≠ d) : (s.setPte d la pte).dir d' = s.dir d' := by
  rw [setPte]
  cases s.dir d (pdx la) with
  | none => rfl
  | some table => exact update_of_ne h _ _

/-- Tables stay where they are when an entry is written. -/
theorem setPte_table (s : Vm) (d la : Nat) (pte : Word) (d' i : Nat) :
    ((s.setPte d la pte).dir d' i).map Prod.fst
      = (s.dir d' i).map Prod.fst := by
  rw [setPte]
  cases htable : s.dir d (pdx la) with
  | none => rfl
  | some table =>
    rw [Option.elim_some]
    by_cases hd : d' = d
    · subst hd
      by_cases hi : i = pdx la
      · subst hi
        simp [setPde, htable]
      · simp [setPde, hi]
    · simp [setPde, hd]

/-- A change of directories alone. -/
theorem Grows.of_dir (h : Grows z n s t) (hkmem : u.kmem = t.kmem)
    (hframe : u.frame = t.frame) : Grows z n s u := by
  have hpmm : u.pmm = t.pmm := congrArg Kmem.pmm hkmem
  constructor
  case good =>
    rw [hpmm]
    exact h.good
  case free =>
    rw [hpmm]
    exact h.free
  case frame =>
    rw [hframe]
    exact h.frame
  case ref =>
    rw [hpmm]
    exact h.ref

/-- `get_pte` with `create == 1`: no entry changes. -/
theorem getPteCreate_spec (h : s.pmm.Good z n) (d la : Nat) :
    s.getPteCreate d la = some (s, none) ∨
      ∃ t, s.getPteCreate d la = some (t, some (s.entry d la)) ∧
        Grows z n s t ∧ (t.dir d (pdx la)).isSome ∧ t.frame = s.frame ∧
        (∀ d' la', t.entry d' la' = s.entry d' la') ∧
        ∀ d', d' ≠ d → t.dir d' = s.dir d' := by
  cases hdir : s.dir d (pdx la) with
  | some table =>
    right
    have hentry : s.entry d la = table.2 (ptx la) :=
      entry_of_getPte (by rw [getPte, hdir]; rfl)
    refine ⟨s, ?_, .refl h, by rw [hdir]; rfl, rfl, fun _ _ => rfl,
      fun _ _ => rfl⟩
    rw [getPteCreate, hdir, hentry]
    rfl
  | none =>
    rcases allocPages_one h with hnone |
      ⟨t, q, hrun, hgrows, hin, hout, -, hdirs, hframe⟩
    · left
      rw [getPteCreate, hdir, Option.elim_none, hnone]
      rfl
    · right
      have hzero : s.entry d la = 0 := by
        rw [entry, getPte, hdir]
        rfl
      have hdir' : (t.pageRefAdd q 1).dir d (pdx la) = none := by
        show t.dir d (pdx la) = none
        rw [hdirs]
        exact hdir
      refine ⟨(t.pageRefAdd q 1).setPde d la (some (q, fun _ => 0)), ?_,
        (hgrows.pageRefAdd hin hout 1).of_dir rfl rfl, ?_, hframe, ?_, ?_⟩
      · rw [getPteCreate, hdir, Option.elim_none, hrun, hzero]
        rfl
      · simp [setPde]
      · intro d' la'
        rw [entry_setPde_zero hdir']
        exact entry_congr (congrFun hdirs d')
      · intro d' hd
        have hsame : ((t.pageRefAdd q 1).setPde d la
            (some (q, fun _ => 0))).dir d' = t.dir d' :=
          update_of_ne hd _ _
        rw [hsame, hdirs]

/-- `page_insert` into an entry that is not present, once there is a
table. -/
theorem pageInsert_of_create
    (hcreate : s.getPteCreate d la = some (t, some (s.entry d la)))
    (hnp : ¬s.present d la) (q : Nat) (perm : Word) :
    s.pageInsert d q la perm =
      some ((t.pageRefAdd q 1).setPte d la (page2pa q ||| pteP ||| perm),
        true) := by
  have hold : (t.pageRefAdd q 1).releaseOld d q la (s.entry d la)
      = some (t.pageRefAdd q 1) := if_neg hnp
  rw [pageInsert, hcreate, Option.bind_some, Option.elim_some, hold]
  rfl

/-- `page_insert` through a table that is there. -/
theorem pageInsert_eq (hdir : (s.dir d (pdx la)).isSome)
    (hnp : ¬s.present d la) (q : Nat) (perm : Word) :
    s.pageInsert d q la perm =
      some ((s.pageRefAdd q 1).setPte d la (page2pa q ||| pteP ||| perm),
        true) := by
  obtain ⟨table, htable⟩ := Option.isSome_iff_exists.1 hdir
  have hentry : s.entry d la = table.2 (ptx la) :=
    entry_of_getPte (by rw [getPte, htable]; rfl)
  refine pageInsert_of_create ?_ hnp q perm
  rw [getPteCreate, htable, hentry]
  rfl

/-- The entries after `page_insert`. -/
theorem entry_insert (hdir : (s.dir d (pdx la)).isSome) (q : Nat)
    (pte : Word) (d' la' : Nat) :
    ((s.pageRefAdd q 1).setPte d la pte).entry d' la' =
      if d' = d ∧ pdx la' = pdx la ∧ ptx la' = ptx la then pte
      else s.entry d' la' :=
  entry_setPte (s := s.pageRefAdd q 1) hdir pte d' la'

/-- A page that was free is mapped at `la` with the permissions `perm`, and
nothing is written to it. -/
structure MappedNew (z n d la : Nat) (perm : Word) (s t : Vm) (q : Nat) :
    Prop where
  grows : Grows z n s t
  free : q ∈ s.pmm.freeSet
  taken : q ∉ t.pmm.freeSet
  frame : t.frame = s.frame
  ref : (t.pmm.page q).ref = 1
  entry : ∀ d' la', t.entry d' la' =
    if d' = d ∧ pdx la' = pdx la ∧ ptx la' = ptx la then
      page2pa q ||| pteP ||| perm
    else s.entry d' la'

/-- `pgdir_alloc_page` for an entry that is not present. -/
theorem pgdirAllocPage_spec (h : s.pmm.Good z n) {perm : Word}
    (hnp : ¬s.present d la)
    (hrun : s.pgdirAllocPage d la perm = some (t, some q)) :
    MappedNew z n d la perm s t q := by
  rcases allocPages_one h with hnone |
    ⟨u, p, halloc, hgrows, hin, hout, href, hdirs, hframe⟩
  · rw [pgdirAllocPage, hnone] at hrun
    simp at hrun
  · have hsame : ∀ d' la', u.entry d' la' = s.entry d' la' :=
      fun d' la' => entry_congr (congrFun hdirs d')
    have hnp' : ¬u.present d la := by
      rw [present, hsame]
      exact hnp
    rw [pgdirAllocPage, halloc, Option.bind_some, Option.elim_some] at hrun
    rcases getPteCreate_spec hgrows.good d la with hnone |
      ⟨v, hcreate, hgrows', htable, hframe', hentry, -⟩
    · -- no page for the table: the page is given back
      have hinsert : u.pageInsert d p la perm = some (u, false) := by
        rw [pageInsert, hnone]
        rfl
      rw [hinsert, Option.bind_some, if_neg Bool.false_ne_true] at hrun
      cases hback : u.freePages p 1 with
      | none =>
        rw [hback] at hrun
        cases hrun
      | some w =>
        rw [hback, Option.map_some] at hrun
        cases hrun
    · rw [pageInsert_of_create hcreate hnp', Option.bind_some,
        if_pos rfl] at hrun
      obtain ⟨rfl, hq⟩ := Prod.mk.inj (Option.some.inj hrun)
      obtain rfl := Option.some.inj hq
      have hout' : p ∉ v.pmm.freeSet := fun hp => hout (hgrows'.free hp)
      constructor
      case grows =>
        exact ((hgrows.trans hgrows').pageRefAdd hin hout' 1).of_dir
          (setPte_kmem _ _ _ _) (setPte_frame _ _ _ _)
      case free => exact hin
      case taken =>
        rw [pmm, setPte_kmem]
        exact hout'
      case frame =>
        rw [setPte_frame]
        exact hframe'.trans hframe
      case ref =>
        rw [pmm, setPte_kmem]
        have hcount := pageRefAdd_ref v p 1
        rw [hgrows'.ref p hout, href] at hcount
        exact hcount
      case entry =>
        intro d' la'
        rw [entry_insert htable, hentry, hsame]

end Vm

end MipsUcore.Kern
