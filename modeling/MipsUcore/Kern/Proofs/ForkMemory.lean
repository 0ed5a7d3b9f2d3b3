/-
Copying an address space, whether or not the memory lasts.

# Requests decide

A copy asks for memory in an order that the source's tables fix
(`copyRequests`, `dupRequests`), and nothing else it does can fail. So what
it does is decided by serving those requests from the allocators as they
are before (`serveAll`): all served, it succeeds; a table or an object
refused, it returns with the part it has built; a page of data refused, the
assertion in `copy_range` fails (`Outcome`).

# What is built

At every point the pages taken are those the new tables use, and they lie
in the areas made so far (`Building`), which is what taking it all down
needs.
-/
import MipsUcore.Kern.Fork
import MipsUcore.Kern.Proofs.AddressSpace
import MipsUcore.Kern.Proofs.CopyRange

namespace MipsUcore.Kern

open Cpu Function

-- ===== objects stay in place

namespace Kmem

variable {z n : Nat} {base held : Set Nat} {s t u : Kmem}

/-- The objects that were in use are where they were. -/
structure Kept (held : Set Nat) (s t : Kmem) : Prop where
  controls : s.controls ⊆ t.controls
  place : ∀ y ∈ held ∪ s.controls, t.place y = s.place y

theorem Kept.refl (held : Set Nat) (s : Kmem) : Kept held s s :=
  ⟨subset_rfl, fun _ _ => rfl⟩

theorem Kept.trans {held' : Set Nat} (h : Kept held s t)
    (h' : Kept held' t u) (hsub : held ⊆ held') : Kept held s u where
  controls := h.controls.trans h'.controls
  place y hy := (h'.place y (hy.imp (fun h => hsub h) fun hc =>
    h.controls hc)).trans (h.place y hy)

theorem Given.kept {c : Nat} {r : Option Nat}
    (h : Given z n base s held c t r) : Kept held s t :=
  ⟨h.controls, h.frame⟩

theorem serveAll_append (a b : List Request) (s : Kmem) :
    serveAll (a ++ b) s = (serveAll a s).bind fun r =>
      r.2.elim (serveAll b r.1) fun q => some (r.1, some q) := by
  induction a generalizing s with
  | nil => rfl
  | cons r rs ih =>
    rw [List.cons_append, serveAll, serveAll]
    cases s.serve r with
    | none => rfl
    | some a =>
      rw [Option.bind_some, Option.bind_some]
      cases a.2 with
      | false => rfl
      | true => exact ih a.1

end Kmem

-- ===== the outcome

section Outcome

variable {α β : Type} {run : Option α} {ok : α → Bool} {mem : α → Kmem}
  {served : Option (Kmem × Option Request)} {done part : α → Prop}

/-- What serving the requests of a run says about the run: `done` or `part`
holds of what it returns. -/
def Outcome (run : Option α) (ok : α → Bool) (mem : α → Kmem)
    (served : Option (Kmem × Option Request)) (done part : α → Prop) : Prop :=
  (∃ x, run = some x ∧ ok x = true ∧ served = some (mem x, none) ∧ done x) ∨
    (∃ x k r, run = some x ∧ ok x = false ∧ served = some (k, some r) ∧
      r ≠ .data ∧ part x) ∨
    (run = none ∧ ∃ k, served = some (k, some .data))

/-- Two runs in a row. -/
theorem Outcome.bind {a b : List Request} {k : Kmem} {f : α → Option β}
    {ok' : β → Bool} {mem' : β → Kmem} {done' part' : β → Prop}
    (h : Outcome run ok mem (k.serveAll a) done part)
    (hdone : ∀ x, ok x = true → done x →
      Outcome (f x) ok' mem' ((mem x).serveAll b) done' part')
    (hpart : ∀ x, ok x = false → part x →
      ∃ y, f x = some y ∧ ok' y = false ∧ part' y) :
    Outcome (run.bind f) ok' mem' (k.serveAll (a ++ b)) done' part' := by
  rw [Kmem.serveAll_append]
  rcases h with ⟨x, rfl, hok, hserved, hx⟩ |
    ⟨x, k', r, rfl, hok, hserved, hr, hx⟩ |
    ⟨rfl, k', hserved⟩
  · rw [hserved]
    exact hdone x hok hx
  · obtain ⟨y, hy, hok', hpart'⟩ := hpart x hok hx
    rw [hserved]
    exact .inr (.inl ⟨y, k', r, hy, hok', rfl, hr, hpart'⟩)
  · rw [hserved]
    exact .inr (.inr ⟨rfl, k', rfl⟩)

theorem Outcome.mono {done' part' : α → Prop}
    (h : Outcome run ok mem served done part)
    (hdone : ∀ x, done x → done' x) (hpart : ∀ x, part x → part' x) :
    Outcome run ok mem served done' part' := by
  rcases h with ⟨x, hrun, hok, hserved, hx⟩ |
    ⟨x, k, r, hrun, hok, hserved, hr, hx⟩ | h
  · exact .inl ⟨x, hrun, hok, hserved, hdone x hx⟩
  · exact .inr (.inl ⟨x, k, r, hrun, hok, hserved, hr, hpart x hx⟩)
  · exact .inr (.inr h)

end Outcome

namespace Vm

variable {z n d la : Nat} {base held : Set Nat} {s t u : Vm}
  {mm : Mm} {v : Vma} {pte : Word}

theorem Apart.kept (h : Apart d s t) (held : Set Nat) :
    Kmem.Kept held s.kmem t.kmem :=
  ⟨h.controls.symm.subset, fun y _ => congrFun h.place y⟩

-- ===== objects

/-- `kmalloc`: what it returns is the caller's. -/
theorem kmalloc_own (h : s.kmem.Own z n base held) {size : Nat}
    (hpos : 1 ≤ size) (hle : size ≤ 131072) :
    ∃ k r, s.kmalloc size = some (s.setKmem k, r) ∧
      s.kmem.serve (.object size) = some (k, r.isSome) ∧
      Kmem.Kept held s.kmem k ∧
      (∀ q ∈ base, (k.pmm.page q).ref = (s.pmm.page q).ref) ∧
      (r = none → k.Own z n base held) ∧
      ∀ x, r = some x → x ∉ held ∪ s.kmem.controls ∧
        k.Own z n base (insert x held) := by
  obtain ⟨c, k, r, hrun, hgiven, -⟩ := h.kmalloc_given hpos hle
  refine ⟨k, r, ?_, ?_, hgiven.kept, hgiven.ref, hgiven.failed, ?_⟩
  · rw [kmalloc, hrun]
    rfl
  · rw [Kmem.serve, hrun]
    rfl
  · intro x hr
    obtain ⟨hown, hx, -⟩ := hgiven.taken x hr
    refine ⟨?_, hown⟩
    rintro (hin | hctl)
    · exact hx hin
    · exact Set.disjoint_left.1 hown.apart (Set.mem_insert x held)
        (hgiven.controls hctl)

/-- `kfree` of an object that was taken. -/
theorem kfree_own {x : Nat} (h : s.kmem.Own z n base (insert x held))
    (hx : x ∉ held) :
    ∃ k, s.kfree x = some (s.setKmem k) ∧ k.Own z n base held ∧
      k.place = s.kmem.place := by
  obtain ⟨k, hrun, hown, hplace⟩ := h.kfree_spec (Set.mem_insert x held)
  rw [Set.insert_sdiff_self_of_notMem hx] at hown
  refine ⟨k, ?_, hown, hplace⟩
  rw [kfree, hrun]
  rfl

/-- `kfree` of each area. -/
theorem freeAreas_own {vs : List Vma}
    (h : s.kmem.Own z n base (held ∪ {x | ∃ v ∈ vs, v.addr = x}))
    (hnodup : (vs.map Vma.addr).Nodup) (hfresh : ∀ v ∈ vs, v.addr ∉ held) :
    ∃ k, freeAreas vs s = some (s.setKmem k) ∧ k.Own z n base held ∧
      k.place = s.kmem.place := by
  induction vs generalizing s with
  | nil =>
    refine ⟨s.kmem, rfl, ?_, rfl⟩
    simpa using h
  | cons v vs ih =>
    rw [List.map_cons, List.nodup_cons] at hnodup
    have hset : held ∪ {x | ∃ w ∈ v :: vs, w.addr = x}
        = insert v.addr (held ∪ {x | ∃ w ∈ vs, w.addr = x}) := by
      ext x
      simp [or_left_comm, eq_comm]
    rw [hset] at h
    obtain ⟨k, hrun, hown, hplace⟩ := kfree_own h (by
      rintro (hin | hin)
      · exact hfresh v List.mem_cons_self hin
      · exact hnodup.1 (List.mem_map.2 hin))
    obtain ⟨k', hrun', hown', hplace'⟩ := ih (s := s.setKmem k) hown hnodup.2
      fun w hw => hfresh w (.tail v hw)
    refine ⟨k', ?_, hown', hplace'.trans hplace⟩
    rw [freeAreas, hrun]
    exact hrun'

/-- `mm_destroy`. -/
theorem mmDestroy_own (h : s.kmem.Own z n base
      (insert mm.addr held ∪ {x | ∃ v ∈ mm.mmapList, v.addr = x}))
    (hcount : mm.mmCount = 0) (hnodup : (mm.mmapList.map Vma.addr).Nodup)
    (hfresh : ∀ v ∈ mm.mmapList, v.addr ∉ insert mm.addr held)
    (haddr : mm.addr ∉ held) :
    ∃ k, s.mmDestroy mm = some (s.setKmem k) ∧ k.Own z n base held ∧
      k.place = s.kmem.place := by
  obtain ⟨k, hrun, hown, hplace⟩ := freeAreas_own h hnodup hfresh
  obtain ⟨k', hrun', hown', hplace'⟩ := kfree_own (s := s.setKmem k) hown haddr
  refine ⟨k', ?_, hown', hplace'.trans hplace⟩
  rw [mmDestroy, if_pos hcount, hrun]
  exact hrun'

-- ===== a page is used

/-- A page for a table or for data. -/
theorem Space.newPage (h : Space z n base held s d) :
    (s.allocPages 1 = some (s, none) ∧
        s.kmem.serveMapped = some (s.kmem, false)) ∨
      ∃ p q, s.allocPages 1 = some (s.setPmm p, some q) ∧
        s.kmem.serveMapped
          = some (((s.setPmm p).pageRefAdd q 1).kmem, true) ∧
        q < z + n ∧ q ∉ base ∪ s.pagesOf d ∧
        ((s.setPmm p).pageRefAdd q 1).kmem.Own z n
          (base ∪ s.pagesOf d ∪ {q}) held ∧
        (((s.setPmm p).pageRefAdd q 1).pmm.page q).ref = 1 ∧
        ∀ q' ∈ s.pagesOf d, (((s.setPmm p).pageRefAdd q 1).pmm.page q').ref
          = (s.pmm.page q').ref := by
  rcases allocPages_own h.own Nat.one_pos (by decide) with hnone |
    ⟨p, q, hrun, hlt, hdis, hown, href, hzero⟩
  · left
    refine ⟨allocPages_none hnone, ?_⟩
    have hcall : s.kmem.pmm.allocPages 1 = some (s.kmem.pmm, none) := hnone
    rw [Kmem.serveMapped, hcall]
    rfl
  · right
    rw [Ico_one] at hown hdis
    have hq : q ∉ base ∪ s.pagesOf d := Set.disjoint_singleton_right.1 hdis
    have hcall : s.kmem.pmm.allocPages 1 = some (p, some q) := hrun
    refine ⟨p, q, allocPages_some hrun, ?_, by omega, hq,
      hown.use (.inr rfl) 1, ?_, ?_⟩
    · rw [Kmem.serveMapped, hcall]
      rfl
    · rw [pageRefAdd_ref]
      have h0 : (p.page q).ref = 0 := hzero q ⟨Nat.le_refl _, by omega⟩
      show (p.page q).ref + 1 = 1
      omega
    · intro q' hq'
      have hne : q' ≠ q := fun heq => hq (.inr (heq ▸ hq'))
      have hsame : ((s.setPmm p).pageRefAdd q 1).pmm.page q' = p.page q' :=
        update_of_ne hne _ _
      rw [hsame, href]

-- ===== one page

/-- The address space in the directory `d` so far: its uses lie in the
areas made so far. -/
structure Building (z n : Nat) (base held : Set Nat) (d : Nat)
    (vs : List Vma) (s : Vm) : Prop where
  space : Space z n base held s d
  within : ∀ q x, s.Uses d q x → ∃ v ∈ vs, Within v x

variable {src : Nat} {vs : List Vma}

/-- What a step of the copy at `la` leaves. -/
structure Copying (z n : Nat) (base held : Set Nat) (d la : Nat)
    (vs : List Vma) (s t : Vm) : Prop where
  building : Building z n base held d vs t
  apart : Apart d s t
  uses : ∀ q x, t.Uses d q x → s.Uses d q x ∨ x = .data la ∨
    x = .table (pdx la)

/-- `get_pte` with `create == 1` where there is no table. -/
theorem Building.newTable (h : Building z n base held d vs s) (hv : v ∈ vs)
    (hge : v.vmStart ≤ la) (hlt : la < v.vmEnd)
    (hnone : s.dir d (pdx la) = none) : (s.getPteCreate d la = some (s, none) ∧
        s.kmem.serveMapped = some (s.kmem, false)) ∨
      ∃ t, s.getPteCreate d la = some (t, some 0) ∧
        s.kmem.serveMapped = some (t.kmem, true) ∧
        Copying z n base held d la vs s t ∧ ¬t.present d la ∧
        (fun i => (t.dir d i).isSome)
          = update (fun i => (s.dir d i).isSome) (pdx la) true := by
  rw [getPteCreate, hnone]
  rcases h.space.newPage with ⟨hrun, hserve⟩ |
    ⟨p, q, hrun, hserve, -, hq, hown, hone, href⟩
  · left
    rw [hrun]
    exact ⟨rfl, hserve⟩
  · right
    have huses : ∀ q' x', (((s.setPmm p).pageRefAdd q 1).setPde d la
        (some (q, fun _ => 0))).Uses d q' x' ↔
          s.Uses d q' x' ∨ q' = q ∧ x' = .table (pdx la) := fun q' x' =>
      uses_setPde_zero (s := (s.setPmm p).pageRefAdd q 1) hnone
    refine ⟨((s.setPmm p).pageRefAdd q 1).setPde d la (some (q, fun _ => 0)),
      ?_, hserve, ⟨⟨?_, ?_⟩, ⟨fun d' hd => ?_, rfl, rfl⟩, ?_⟩, ?_, ?_⟩
    · rw [hrun]
      rfl
    · exact h.space.add huses hq hown href hone
    · intro q' x' hx'
      rcases (huses q' x').1 hx' with hold | ⟨-, rfl⟩
      · exact h.within q' x' hold
      · exact ⟨v, hv, la, hge, hlt, rfl⟩
    · exact update_of_ne hd _ _
    · intro q' x' hx'
      rcases (huses q' x').1 hx' with hold | ⟨-, rfl⟩
      · exact .inl hold
      · exact .inr (.inr rfl)
    · rw [present, entry_setPde_zero (s := (s.setPmm p).pageRefAdd q 1) hnone]
      exact not_present_of_none (by rw [getPte]; exact congrArg _ hnone)
    · funext i
      by_cases hi : i = pdx la
      · subst hi
        simp [setPde]
      · simp [setPde, hi]
        rfl

variable (h : Building z n base held d vs s) (hmem : z + n ≤ 2 ^ 19)
  (hv : v ∈ vs) (hge : v.vmStart ≤ la) (hlt : la < v.vmEnd)
  (hal : la % pgsize = 0)

section
include h hmem hv hge hlt hal

/-- The page of data, once there is a table. -/
theorem Building.newData (hla : la < 2 ^ 32)
    (htable : (s.dir d (pdx la)).isSome) (hnp : ¬s.present d la)
    (hpte : ptepPresent pte = true) (f : Frame) :
    (s.allocPages 1 = some (s, none) ∧
        s.kmem.serveMapped = some (s.kmem, false)) ∨
      ∃ p q t, s.allocPages 1 = some (s.setPmm p, some q) ∧
        ((s.setPmm p).setFrame q f).pageInsert d q la (pte &&& pteUser)
          = some (t, true) ∧
        s.kmem.serveMapped = some (t.kmem, true) ∧
        Copying z n base held d la vs s t ∧
        (fun i => (t.dir d i).isSome) = fun i => (s.dir d i).isSome := by
  rcases h.space.newPage with ⟨hrun, hserve⟩ |
    ⟨p, q, hrun, hserve, hlt', hq, hown, hone, href⟩
  · exact .inl ⟨hrun, hserve⟩
  · right
    obtain ⟨hpres, htarget, -⟩ := mkPte_spec (q := q) (by omega) hpte
    have hinsert := pageInsert_eq (s := (s.setPmm p).setFrame q f) htable hnp q
      (pte &&& pteUser)
    have huses : ∀ q' x', ((((s.setPmm p).setFrame q f).pageRefAdd q 1).setPte
        d la (page2pa q ||| pteP ||| pte &&& pteUser)).Uses d q' x' ↔
          s.Uses d q' x' ∨ q' = q ∧ x' = .data la := by
      intro q' x'
      rw [uses_setPte (s := ((s.setPmm p).setFrame q f).pageRefAdd q 1)
        htable hal hla, htarget]
      constructor
      · rintro (⟨rfl, -, rfl⟩ | ⟨-, hx⟩)
        · exact .inr ⟨rfl, rfl⟩
        · exact .inl hx
      · rintro (hx | ⟨rfl, rfl⟩)
        · refine .inr ⟨?_, hx⟩
          rintro rfl
          exact hnp hx.2.2.1
        · exact .inl ⟨rfl, hpres, rfl⟩
    refine ⟨p, q, _, hrun, hinsert, ?_,
      ⟨⟨?_, ?_⟩, ⟨fun d' hd => ?_, ?_, ?_⟩, ?_⟩, ?_⟩
    · rw [setPte_kmem]
      exact hserve
    · refine h.space.add huses hq ?_ ?_ ?_
      · rw [setPte_kmem]
        exact hown
      · intro q' hq'
        rw [pmm, setPte_kmem]
        exact href q' hq'
      · rw [pmm, setPte_kmem]
        exact hone
    · intro q' x' hx'
      rcases (huses q' x').1 hx' with hold | ⟨-, rfl⟩
      · exact h.within q' x' hold
      · exact ⟨v, hv, hge, hlt⟩
    · exact setPte_dir_ne _ la _ hd
    · rw [setPte_kmem]
      rfl
    · rw [setPte_kmem]
      rfl
    · intro q' x' hx'
      rcases (huses q' x').1 hx' with hold | ⟨-, rfl⟩
      · exact .inl hold
      · exact .inr (.inl rfl)
    · funext i
      have hsame := setPte_table (((s.setPmm p).setFrame q f).pageRefAdd q 1)
        d la (page2pa q ||| pteP ||| pte &&& pteUser) d i
      rw [← Option.isSome_map (f := Prod.fst), hsame, Option.isSome_map]
      rfl

end

theorem Copying.refl (h : Building z n base held d vs s) :
    Copying z n base held d la vs s s :=
  ⟨h, .refl d s, fun _ _ hx => .inl hx⟩

theorem Copying.trans (h : Copying z n base held d la vs s t)
    (h' : Copying z n base held d la vs t u) :
    Copying z n base held d la vs s u where
  building := h'.building
  apart := h.apart.trans h'.apart
  uses q x hx := by
    rcases h'.uses q x hx with hx | hx
    · exact h.uses q x hx
    · exact .inr hx

/-- The tables of a directory. -/
def tablesOf (s : Vm) (d : Nat) : Nat → Bool := fun i => (s.dir d i).isSome

/-- The requests for one page. -/
def pageRequests (table : Bool) : List Request :=
  if table then [.data] else [.table, .data]

section
include h hmem hv hge hlt hal

/-- Copying a page whose table is there. -/
theorem Building.copyInto (hla : la < 2 ^ 32)
    (htable : (s.dir d (pdx la)).isSome) (hnp : ¬s.present d la)
    (hpte : ptepPresent pte = true)
    (hpage : (ppn (pteAddr pte)).toNat < z + n) :
    Outcome ((s.pte2page pte).bind fun page => (s.allocPages 1).bind fun a =>
          a.2.bind fun npage =>
            ((a.1.setFrame npage (a.1.frame page)).pageInsert d npage la
              (pte &&& pteUser)).map fun i => (i.1, true))
      Prod.snd (fun r => r.1.kmem) (s.kmem.serveAll [.data])
      (fun r => Copying z n base held d la vs s r.1 ∧
        r.1.tablesOf d = s.tablesOf d)
      fun _ => False := by
  have hbound : z + n ≤ s.pmm.npage := h.space.own.inv.good.bound
  have hto : s.pte2page pte = some (ppn (pteAddr pte)).toNat := by
    rw [pte2page, if_pos hpte, pa2page, if_pos (by omega)]
  rw [hto]
  rcases h.newData hmem hv hge hlt hal hla htable hnp hpte
    (s.frame (ppn (pteAddr pte)).toNat) with ⟨hrun, hserve⟩ |
    ⟨p, q, t, hrun, hinsert, hserve, hcopy, htables⟩
  · -- the assertion
    refine .inr (.inr ⟨by rw [hrun]; rfl, s.kmem, ?_⟩)
    rw [Kmem.serveAll, Kmem.serve, hserve]
    rfl
  · refine .inl ⟨(t, true), ?_, rfl, ?_, hcopy, htables⟩
    · rw [hrun]
      exact congrArg (Option.map fun i => (i.1, true)) hinsert
    · rw [Kmem.serveAll, Kmem.serve, hserve]
      rfl

/-- `copy_range` at a present entry. -/
theorem Building.copyPage (hla : la < 2 ^ 32)
    (hnp : ¬s.present d la) (hpte : ptepPresent pte = true)
    (hpage : (ppn (pteAddr pte)).toNat < z + n) :
    Outcome (s.copyPage d la pte) Prod.snd (fun r => r.1.kmem)
      (s.kmem.serveAll (pageRequests (s.tablesOf d (pdx la))))
      (fun r => Copying z n base held d la vs s r.1 ∧
        r.1.tablesOf d = update (s.tablesOf d) (pdx la) true)
      fun r => Copying z n base held d la vs s r.1 := by
  cases hdir : s.dir d (pdx la) with
  | some table =>
    have htable : s.tablesOf d (pdx la) = true := by rw [tablesOf, hdir]; rfl
    have hget : s.getPteCreate d la = some (s, some (table.2 (ptx la))) := by
      rw [getPteCreate, hdir]
      rfl
    rw [Vm.copyPage, hget, htable]
    refine (h.copyInto hmem hv hge hlt hal hla htable hnp hpte hpage).mono ?_
      fun _ => False.elim
    rintro r ⟨hcopy, htables⟩
    refine ⟨hcopy, ?_⟩
    rw [htables, ← htable, update_eq_self]
  | none =>
    have htable : s.tablesOf d (pdx la) = false := by rw [tablesOf, hdir]; rfl
    rw [htable]
    rcases h.newTable hv hge hlt hdir with ⟨hrun, hserve⟩ |
      ⟨t, hrun, hserve, hcopy, hnp', htables⟩
    · refine .inr (.inl ⟨(s, false), s.kmem, .table, ?_, rfl, ?_, by decide,
        .refl h⟩)
      · rw [Vm.copyPage, hrun]
        rfl
      · show (s.kmem.serveMapped.bind fun _ => _) = _
        rw [hserve]
        rfl
    · have htable' : (t.dir d (pdx la)).isSome := by
        have := congrFun htables (pdx la)
        rwa [update_self] at this
      have hserve' : s.kmem.serveAll (pageRequests false)
          = t.kmem.serveAll [.data] := by
        show (s.kmem.serveMapped.bind fun _ => _) = _
        rw [hserve]
        rfl
      rw [Vm.copyPage, hrun, hserve']
      refine (hcopy.building.copyInto hmem hv hge hlt hal hla htable' hnp' hpte
        hpage).mono ?_ fun _ => False.elim
      rintro r ⟨hcopy', htables'⟩
      exact ⟨hcopy.trans hcopy', htables'.trans htables⟩

end

-- ===== the loop

variable {start stop : Nat}

/-- What `copy_range` has done from `start` on. -/
structure Built (z n : Nat) (base held : Set Nat) (d : Nat)
    (vs : List Vma) (s t : Vm) : Prop where
  building : Building z n base held d vs t
  apart : Apart d s t

theorem Copying.built (h : Copying z n base held d la vs s t) :
    Built z n base held d vs s t := ⟨h.building, h.apart⟩

/-- The requests for one page of the source. -/
def stepRequests (src : Dir) (start : Nat) (tables : Nat → Bool) :
    List Request × (Nat → Bool) :=
  (src (pdx start)).elim ([], tables) fun t =>
    if ptepPresent (t.2 (ptx start)) then
      (pageRequests (tables (pdx start)),
        update tables (pdx start) true)
    else ([], tables)

theorem copyRequests_succ (s : Vm) (src stop fuel start : Nat)
    (tables : Nat → Bool) :
    copyRequests (s.dir src) stop (fuel + 1) start tables =
      if s.copyNext src start ≠ 0 ∧ s.copyNext src start < stop then
        ((stepRequests (s.dir src) start tables).1 ++
          (copyRequests (s.dir src) stop fuel (s.copyNext src start)
            (stepRequests (s.dir src) start tables).2).1,
          (copyRequests (s.dir src) stop fuel (s.copyNext src start)
            (stepRequests (s.dir src) start tables).2).2)
      else stepRequests (s.dir src) start tables := by
  have hnext : s.copyNext src start
      = if (s.dir src (pdx start)).isSome then (start + pgsize) % 2 ^ 32
        else roundDown ((start + ptsize) % 2 ^ 32) pgshift := by
    rw [copyNext, getPte, Option.isSome_map]
  rw [hnext]
  rfl

section
include h hmem hv hge hlt hal

theorem Building.copyStep (hla : la < 2 ^ 32) (hnp : ¬s.present d la)
    (hpage : s.present src la →
      (ppn (pteAddr (s.entry src la))).toNat < z + n) :
    Outcome (s.copyStep d src la) Prod.snd (fun r => r.1.kmem)
      (s.kmem.serveAll (stepRequests (s.dir src) la (s.tablesOf d)).1)
      (fun r => Copying z n base held d la vs s r.1 ∧
        r.1.tablesOf d = (stepRequests (s.dir src) la (s.tablesOf d)).2)
      fun r => Copying z n base held d la vs s r.1 := by
  rw [Vm.copyStep, stepRequests]
  have hskip : Outcome (some (s, true)) Prod.snd (fun r : Vm × Bool => r.1.kmem)
      (s.kmem.serveAll []) (fun r => Copying z n base held d la vs s r.1 ∧
        r.1.tablesOf d = s.tablesOf d)
      fun r => Copying z n base held d la vs s r.1 :=
    .inl ⟨(s, true), rfl, rfl, rfl, .refl h, rfl⟩
  cases hdir : s.dir src (pdx la) with
  | none =>
    have hget : s.getPte src la = none := by rw [getPte, hdir]; rfl
    rw [hget]
    exact hskip
  | some table =>
    have hget : s.getPte src la = some (table.2 (ptx la)) := by
      rw [getPte, hdir]
      rfl
    have hentry : s.entry src la = table.2 (ptx la) := entry_of_getPte hget
    rw [hget, Option.elim_some, Option.elim_some]
    by_cases hp : ptepPresent (table.2 (ptx la)) = true
    · rw [if_pos hp, if_pos hp]
      rw [present, hentry] at hpage
      exact h.copyPage hmem hv hge hlt hal hla hnp hp (hpage hp)
    · rw [if_neg hp, if_neg hp]
      exact hskip

end

/-- Nothing new is present past the page of a step. -/
theorem Copying.not_present (h : Copying z n base held d start vs s t)
    (hal : la % pgsize = 0) (hla : la < 2 ^ 32) (hne : la ≠ start)
    (hnp : ¬s.present d la) : ¬t.present d la := by
  intro hp
  rcases h.uses (ppn (pteAddr (t.entry d la))).toNat (.data la)
    ⟨hal, hla, hp, rfl⟩ with ⟨-, -, hold, -⟩ | heq | heq
  · exact hnp hold
  · exact hne (Usage.data.inj heq)
  · cases heq

/-- The loop of `copy_range`. -/
theorem Building.copyLoop (h : Building z n base held d vs s)
    (hmem : z + n ≤ 2 ^ 19) (hne : src ≠ d) (hv : v ∈ vs)
    (htop : v.vmEnd ≤ 2 ^ 31) (fuel : Nat) (hal : start % pgsize = 0)
    (hge : v.vmStart ≤ start) (hlt : start < v.vmEnd)
    (hfuel : v.vmEnd ≤ start + fuel * pgsize)
    (hfree : ∀ la, start ≤ la → la < v.vmEnd → la % pgsize = 0 →
      ¬s.present d la)
    (hpage : ∀ la, s.present src la →
      (ppn (pteAddr (s.entry src la))).toNat < z + n) :
    Outcome (copyLoop d src v.vmEnd fuel s start) Prod.snd (fun r => r.1.kmem)
      (s.kmem.serveAll
        (copyRequests (s.dir src) v.vmEnd fuel start (s.tablesOf d)).1)
      (fun r => Built z n base held d vs s r.1 ∧ r.1.tablesOf d =
        (copyRequests (s.dir src) v.vmEnd fuel start (s.tablesOf d)).2)
      fun r => Built z n base held d vs s r.1 := by
  induction fuel generalizing s start with
  | zero => omega
  | succ fuel ih =>
    obtain ⟨hnext, hal'⟩ := copyNext_bounds s src hal (by omega)
    have hpos : 0 < pgsize := by decide
    have hstep := h.copyStep hmem hv hge hlt hal (by omega)
      (hfree start (Nat.le_refl _) hlt hal) (hpage start)
    rw [copyRequests_succ]
    by_cases hmore : s.copyNext src start ≠ 0 ∧ s.copyNext src start < v.vmEnd
    · rw [if_pos hmore]
      refine hstep.bind ?_ ?_
      · rintro r hok ⟨hcopy, htables⟩
        have hdir : r.1.dir src = s.dir src := hcopy.apart.dirs src hne
        have hrest := ih hcopy.building hal'
          (by omega) hmore.2 (by rw [Nat.succ_mul] at hfuel; omega) ?_ ?_
        · rw [hdir, htables] at hrest
          rw [if_pos hok, if_pos hmore]
          refine hrest.mono ?_ ?_
          · rintro r' ⟨hr', htables'⟩
            exact ⟨⟨hr'.building, hcopy.apart.trans hr'.apart⟩, htables'⟩
          · intro r' hr'
            exact ⟨hr'.building, hcopy.apart.trans hr'.apart⟩
        · intro la hla hend hmod
          exact hcopy.not_present hmod (by omega) (by omega)
            (hfree la (by omega) hend hmod)
        · intro la hp
          rw [present, entry_congr hdir] at hp
          rw [entry_congr hdir]
          exact hpage la hp
      · rintro r hok hcopy
        refine ⟨(r.1, false), ?_, rfl, hcopy.built⟩
        rw [hok]
        rfl
    · rw [if_neg hmore, ← List.append_nil (stepRequests _ _ _).1]
      refine hstep.bind ?_ ?_
      · rintro r hok ⟨hcopy, htables⟩
        rw [if_pos hok, if_neg hmore]
        exact .inl ⟨(r.1, true), rfl, rfl, rfl, hcopy.built, htables⟩
      · rintro r hok hcopy
        refine ⟨(r.1, false), ?_, rfl, hcopy.built⟩
        rw [hok]
        rfl

/-- `copy_range` of an area. -/
theorem Building.copyRange (h : Building z n base held d vs s)
    (hmem : z + n ≤ 2 ^ 19) (hne : src ≠ d) (hv : v ∈ vs) (harea : Area v)
    (hfree : ∀ la, v.vmStart ≤ la → la < v.vmEnd → la % pgsize = 0 →
      ¬s.present d la)
    (hpage : ∀ la, s.present src la →
      (ppn (pteAddr (s.entry src la))).toNat < z + n) :
    Outcome (s.copyRange d src v.vmStart v.vmEnd false) Prod.snd
      (fun r => r.1.kmem) (s.kmem.serveAll (copyRequests (s.dir src) v.vmEnd
        ((v.vmEnd - v.vmStart) / pgsize) v.vmStart (s.tablesOf d)).1)
      (fun r => Built z n base held d vs s r.1 ∧ r.1.tablesOf d =
        (copyRequests (s.dir src) v.vmEnd
          ((v.vmEnd - v.vmStart) / pgsize) v.vmStart (s.tablesOf d)).2)
      fun r => Built z n base held d vs s r.1 := by
  obtain ⟨hal, hal', huser⟩ := harea
  rw [Vm.copyRange, if_pos ⟨hal, hal', huser⟩]
  obtain ⟨-, hlt, htop⟩ := huser
  refine h.copyLoop hmem hne hv htop _ hal (Nat.le_refl _) hlt ?_ hfree hpage
  unfold pgsize at *
  omega

-- ===== the areas

/-- `kmalloc` while an address space is built. -/
theorem Building.kmalloc (h : Building z n base held d vs s) {size : Nat}
    (hpos : 1 ≤ size) (hle : size ≤ 131072) :
    ∃ k r, s.kmalloc size = some (s.setKmem k, r) ∧
      s.kmem.serve (.object size) = some (k, r.isSome) ∧
      Kmem.Kept held s.kmem k ∧
      (r = none → Building z n base held d vs (s.setKmem k)) ∧
      ∀ x, r = some x → x ∉ held ∧
        Building z n base (insert x held) d vs (s.setKmem k) := by
  obtain ⟨k, r, hrun, hserve, hkept, href, hfail, htake⟩ :=
    kmalloc_own h.space.own hpos hle
  have hspace : ∀ held', k.Own z n (base ∪ s.pagesOf d) held' →
      Building z n base held' d vs (s.setKmem k) := by
    intro held' hown
    refine ⟨⟨hown, h.space.apart, h.space.single, ?_⟩, h.within⟩
    intro q la hx
    have hold : s.Uses d q (.data la) := (uses_congr rfl).1 hx
    exact (href q (.inr ⟨_, hold⟩)).trans (h.space.ref q la hold)
  refine ⟨k, r, hrun, hserve, hkept, fun hr => hspace _ (hfail hr), ?_⟩
  intro x hr
  obtain ⟨hx, hown⟩ := htake x hr
  exact ⟨fun hin => hx (.inl hin), hspace _ hown⟩

/-- An area before all the others. -/
theorem insertVmaStruct_front (hv : Area v)
    (hareas : ∀ w ∈ mm.mmapList, Area w ∧ v.vmEnd ≤ w.vmStart) :
    mm.insertVmaStruct v = some { mm with
      mmapList := v :: mm.mmapList
      mapCount := mm.mapCount + 1 } := by
  have hlt : v.vmStart < v.vmEnd := hv.2.2.2.1
  have hnone : ∀ w ∈ mm.mmapList, ¬w.vmStart ≤ v.vmStart := by
    intro w hw
    have := (hareas w hw).2
    omega
  have hbefore : mm.mmapList.takeWhile (fun w => w.vmStart ≤ v.vmStart)
      = [] := by
    cases hlist : mm.mmapList with
    | nil => rfl
    | cons w ws =>
      have := hnone w (hlist ▸ List.mem_cons_self)
      rw [List.takeWhile_cons_of_neg (by simpa using this)]
  have hafter : mm.mmapList.dropWhile (fun w => w.vmStart ≤ v.vmStart)
      = mm.mmapList := by
    have := List.takeWhile_append_dropWhile
      (p := fun w : Vma => decide (w.vmStart ≤ v.vmStart)) (l := mm.mmapList)
    rwa [hbefore] at this
  simp only [Mm.insertVmaStruct, hbefore, hafter]
  refine if_pos ⟨hlt, by simp, ?_⟩
  intro w hw
  obtain ⟨harea, hle⟩ := hareas w (List.mem_of_head? hw)
  exact ⟨hlt, hle, harea.2.2.2.1⟩

/-- The copy `mm` so far; `held` are the objects of others. -/
structure Dup (z n : Nat) (base held : Set Nat) (mm : Mm) (s : Vm) :
    Prop where
  building : Building z n base (held ∪ {x | ∃ v ∈ mm.mmapList, v.addr = x})
    mm.pgdir mm.mmapList s
  nodup : (mm.mmapList.map Vma.addr).Nodup
  fresh : ∀ v ∈ mm.mmapList, v.addr ∉ held
  areas : ∀ v ∈ mm.mmapList, Area v
  count : mm.mmCount = 0

/-- What `dup_mmap` leaves alone. -/
structure DupFrom (held : Set Nat) (mm : Mm) (s : Vm) (mm' : Mm) (t : Vm) :
    Prop where
  addr : mm'.addr = mm.addr
  pgdir : mm'.pgdir = mm.pgdir
  dirs : ∀ d, d ≠ mm.pgdir → t.dir d = s.dir d
  kept : Kmem.Kept held s.kmem t.kmem

theorem DupFrom.trans {mm' mm'' : Mm} (h : DupFrom held mm s mm' t)
    (h' : DupFrom held mm' t mm'' u) : DupFrom held mm s mm'' u where
  addr := h'.addr.trans h.addr
  pgdir := h'.pgdir.trans h.pgdir
  dirs d hd := (h'.dirs d (h.pgdir ▸ hd)).trans (h.dirs d hd)
  kept := h.kept.trans h'.kept subset_rfl

/-- A new area is linked in front. -/
theorem Dup.link (h : Dup z n base held mm s) {k : Kmem} (hv : Area v)
    (hx : v.addr ∉ held ∪ {x | ∃ v ∈ mm.mmapList, v.addr = x})
    (hk : Building z n base
      (insert v.addr (held ∪ {x | ∃ v ∈ mm.mmapList, v.addr = x})) mm.pgdir
      mm.mmapList (s.setKmem k)) :
    Dup z n base held { mm with
      mmapList := v :: mm.mmapList
      mapCount := mm.mapCount + 1 } (s.setKmem k) where
  building := by
    have hset : held ∪ {x | ∃ w ∈ v :: mm.mmapList, w.addr = x}
        = insert v.addr (held ∪ {x | ∃ v ∈ mm.mmapList, v.addr = x}) := by
      ext x
      simp [or_left_comm, eq_comm]
    have hspace := hk.space
    rw [← hset] at hspace
    refine ⟨hspace, fun q x hx => ?_⟩
    obtain ⟨w, hw, hin⟩ := hk.within q x hx
    exact ⟨w, List.mem_cons_of_mem v hw, hin⟩
  nodup := by
    rw [List.map_cons, List.nodup_cons]
    refine ⟨fun hmem => hx (.inr ?_), h.nodup⟩
    exact List.mem_map.1 hmem
  fresh w hw := by
    rcases List.mem_cons.1 hw with rfl | hw
    · exact fun hin => hx (.inl hin)
    · exact h.fresh w hw
  areas w hw := by
    rcases List.mem_cons.1 hw with rfl | hw
    · exact hv
    · exact h.areas w hw
  count := h.count

theorem Dup.of_building (h : Dup z n base held mm s)
    (hb : Building z n base (held ∪ {x | ∃ v ∈ mm.mmapList, v.addr = x})
      mm.pgdir mm.mmapList t) : Dup z n base held mm t :=
  ⟨hb, h.nodup, h.fresh, h.areas, h.count⟩

/-- Nothing is mapped in front of the areas. -/
theorem Building.not_present (h : Building z n base held d vs s)
    (hla : la < 2 ^ 32) (hal : la % pgsize = 0)
    (hfront : ∀ w ∈ vs, la < w.vmStart) : ¬s.present d la := by
  intro hp
  obtain ⟨w, hw, hge, -⟩ := h.within _ (.data la) ⟨hal, hla, hp, rfl⟩
  have := hfront w hw
  omega

/-- `copy_range` of an area that has just been linked. -/
theorem Dup.copyArea {ws : List Vma}
    (h : Dup z n base held mm s) (hmem : z + n ≤ 2 ^ 19)
    (hne : src ≠ mm.pgdir) (hlist : mm.mmapList = v :: ws)
    (hfront : ∀ la, v.vmStart ≤ la → la < v.vmEnd → la % pgsize = 0 →
      ¬s.present mm.pgdir la)
    (hpage : ∀ la, s.present src la →
      (ppn (pteAddr (s.entry src la))).toNat < z + n) :
    Outcome (s.copyRange mm.pgdir src v.vmStart v.vmEnd false) Prod.snd
      (fun r => r.1.kmem) (s.kmem.serveAll (copyRequests (s.dir src) v.vmEnd
        ((v.vmEnd - v.vmStart) / pgsize) v.vmStart (s.tablesOf mm.pgdir)).1)
      (fun r => (Dup z n base held mm r.1 ∧ DupFrom held mm s mm r.1) ∧
        r.1.tablesOf mm.pgdir = (copyRequests (s.dir src) v.vmEnd
          ((v.vmEnd - v.vmStart) / pgsize) v.vmStart (s.tablesOf mm.pgdir)).2)
      fun r => Dup z n base held mm r.1 ∧ DupFrom held mm s mm r.1 := by
  have hv : v ∈ mm.mmapList := hlist ▸ List.mem_cons_self
  have hbuilt : ∀ t, Built z n base
      (held ∪ {x | ∃ v ∈ mm.mmapList, v.addr = x}) mm.pgdir mm.mmapList s t →
      Dup z n base held mm t ∧ DupFrom held mm s mm t := fun t ht =>
    ⟨h.of_building ht.building, rfl, rfl, ht.apart.dirs, ht.apart.kept held⟩
  refine (h.building.copyRange hmem hne hv (h.areas v hv) hfront hpage).mono
    ?_ fun r hr => hbuilt r.1 hr
  rintro r ⟨hr, htables⟩
  exact ⟨hbuilt r.1 hr, htables⟩

/-- The loop of `dup_mmap`. -/
theorem Dup.dupAreas {areas : List Vma}
    (h : Dup z n base held mm s) (hmem : z + n ≤ 2 ^ 19)
    (hne : src ≠ mm.pgdir) (hareas : ∀ v ∈ areas, Area v)
    (hsorted : areas.Pairwise fun v w => w.vmEnd ≤ v.vmStart)
    (hahead : ∀ v ∈ areas, ∀ w ∈ mm.mmapList, v.vmEnd ≤ w.vmStart)
    (hpage : ∀ la, s.present src la →
      (ppn (pteAddr (s.entry src la))).toNat < z + n) :
    Outcome (dupAreas src areas s mm) (fun r => r.2.2) (fun r => r.1.kmem)
      (s.kmem.serveAll (dupRequests (s.dir src) areas (s.tablesOf mm.pgdir)))
      (fun r => Dup z n base held r.2.1 r.1 ∧ DupFrom held mm s r.2.1 r.1)
      fun r => Dup z n base held r.2.1 r.1 ∧ DupFrom held mm s r.2.1 r.1 := by
  induction areas generalizing s mm with
  | nil =>
    exact .inl ⟨(s, mm, true), rfl, rfl, rfl, h, rfl, rfl, fun _ _ => rfl,
      .refl _ _⟩
  | cons v areas ih =>
    obtain ⟨hbelow, hsorted'⟩ := List.pairwise_cons.1 hsorted
    have hv := hareas v List.mem_cons_self
    obtain ⟨k, r, hrun, hserve, hkept, hfail, htake⟩ :=
      h.building.kmalloc (by decide : 1 ≤ sizeofVma) (by decide)
    have hkept' : Kmem.Kept held s.kmem k :=
      ⟨hkept.controls, fun y hy => hkept.place y (hy.imp .inl id)⟩
    rw [dupRequests, Kmem.serveAll, hserve, Vm.dupAreas, vmaCreate, hrun]
    cases r with
    | none =>
      exact .inr (.inl ⟨(s.setKmem k, mm, false), k, .object sizeofVma, rfl,
        rfl, rfl, by decide, h.of_building (hfail rfl), rfl, rfl,
        fun _ _ => rfl, hkept'⟩)
    | some x =>
      obtain ⟨hx, hk⟩ := htake x rfl
      have hdup := h.link (v := ⟨x, v.vmStart, v.vmEnd, v.vmFlags⟩) hv hx hk
      have hlink : DupFrom held mm s { mm with
          mmapList := ⟨x, v.vmStart, v.vmEnd, v.vmFlags⟩ :: mm.mmapList
          mapCount := mm.mapCount + 1 } (s.setKmem k) :=
        ⟨rfl, rfl, fun _ _ => rfl, hkept'⟩
      have hinsert := insertVmaStruct_front
        (v := ⟨x, v.vmStart, v.vmEnd, v.vmFlags⟩) hv fun w hw =>
          ⟨h.areas w hw, hahead v List.mem_cons_self w hw⟩
      have hfront : ∀ la, v.vmStart ≤ la → la < v.vmEnd →
          la % pgsize = 0 → ¬s.present mm.pgdir la := by
        intro la hge hlt hal
        have htop : v.vmEnd ≤ 2 ^ 31 := hv.2.2.2.2
        refine h.building.not_present (by omega) hal fun w hw => ?_
        exact Nat.lt_of_lt_of_le hlt (hahead v List.mem_cons_self w hw)
      have hcopy := hdup.copyArea hmem hne rfl hfront hpage
      show Outcome ((mm.insertVmaStruct _).bind _) _ _
        (k.serveAll (_ ++ _)) _ _
      rw [hinsert]
      refine hcopy.bind ?_ ?_
      · rintro r hok ⟨⟨hr, hfrom⟩, htables⟩
        have hdir : r.1.dir src = s.dir src := hfrom.dirs src hne
        have hrest := ih hr hne (fun w hw => hareas w (.tail v hw)) hsorted' ?_
          ?_
        · rw [if_pos hok]
          rw [hdir, htables] at hrest
          exact hrest.mono
            (fun r' hr' => ⟨hr'.1, (hlink.trans hfrom).trans hr'.2⟩)
            fun r' hr' => ⟨hr'.1, (hlink.trans hfrom).trans hr'.2⟩
        · intro w hw u hu
          rcases List.mem_cons.1 hu with rfl | hu
          · exact hbelow w hw
          · exact hahead w (.tail v hw) u hu
        · intro la hp
          rw [present, entry_congr hdir] at hp
          rw [entry_congr hdir]
          exact hpage la hp
      · rintro r hok ⟨hr, hfrom⟩
        have hok' : r.2 = false := hok
        exact ⟨(r.1, _, false), by rw [hok']; rfl, rfl, hr, hlink.trans hfrom⟩

end Vm

end MipsUcore.Kern
