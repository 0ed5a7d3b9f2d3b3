/-
An address space is given up: `exit_mmap`, `put_pgdir`, `mm_destroy`.

# What is given back

The free pages grow by the pages of data, the page tables and the
directory, none of which was free before, and the count of the free pages
by their number: a page that is mapped at several addresses is given back
when its last mapping goes (`teardown_frees_once`). The pages of others keep
their counts, and all other pages what they hold.

`exit_range` goes through the areas, so a table that serves no address of
an area stays (`teardown_leaves_table`). The kernel makes no such table:
`get_pte` creates tables for pages of an area only.
-/
import MipsUcore.Kern.Proofs.Fork

namespace MipsUcore.Kern

namespace Sys

variable {z n : Nat} {base held : Set Nat} {s : Sys} {mm : Mm}

/-- An address space nobody uses any more, with its objects; `base` are the
pages of others and `held` their objects. -/
structure Abandoned (z n : Nat) (base held : Set Nat) (mm : Mm) (s : Sys) :
    Prop where
  shared : Vm.Shared z n (base ∪ {mm.pgdir}) (objects mm held) s.vm mm.pgdir
  count : mm.mmCount = 0
  areas : ∀ v ∈ mm.mmapList, Vm.Area v
  nodup : (mm.mmapList.map Vma.addr).Nodup
  fresh : ∀ v ∈ mm.mmapList, v.addr ∉ insert mm.addr held
  dir : mm.pgdir ∉ base
  addr : mm.addr ∉ held
  inside : ∀ q la, s.vm.Uses mm.pgdir q (.data la) →
    ∃ v ∈ mm.mmapList, Vm.Within v (.data la)

/-- The pages of an address space and its directory. -/
def ownPages (s : Sys) (mm : Mm) : Set Nat :=
  s.vm.pagesOf mm.pgdir ∪ {mm.pgdir}

theorem Abandoned.not_free (h : Abandoned z n base held mm s) :
    Disjoint s.vm.pmm.freeSet (s.ownPages mm) := by
  refine Set.disjoint_right.2 fun q hq => ?_
  rcases hq with hq | hq
  · exact (h.shared.own.inv.others (.inr hq)).2
  · exact (h.shared.own.inv.others (.inl (.inr hq))).2

/-- Giving up an address space whose tables serve its areas gives back each
of its pages and objects once, and touches no other page. -/
theorem Abandoned.teardown_frees_once (h : Abandoned z n base held mm s)
    (htables : ∀ q i, s.vm.Uses mm.pgdir q (.table i) →
      ∃ v ∈ mm.mmapList, Vm.Within v (.table i)) :
    ∃ t u k, s.vm.exitMmap mm = some t ∧
      (s.setVm t).putPgdir mm = some (s.setVm u) ∧
      u.mmDestroy mm = some (u.setKmem k) ∧
      Disjoint s.vm.pmm.freeSet (s.ownPages mm) ∧
      u.pmm.freeSet = s.vm.pmm.freeSet ∪ s.ownPages mm ∧
      u.pmm.nrFreePages = s.vm.pmm.nrFreePages + (s.ownPages mm).ncard ∧
      u.kmem.Own z n base (objects mm held) ∧ k.Own z n base held ∧
      (∀ q ∈ base, (u.pmm.page q).ref = (s.vm.pmm.page q).ref) ∧
      (∀ q ∉ s.vm.pagesOf mm.pgdir, u.frame q = s.vm.frame q) ∧
      ∀ d, d ≠ mm.pgdir → u.dir d = s.vm.dir d := by
  have hwithin : ∀ q x, s.vm.Uses mm.pgdir q x →
      ∃ v ∈ mm.mmapList, Vm.Within v x := by
    intro q x hx
    cases x with
    | data la => exact h.inside q la hx
    | table i => exact htables q i hx
  obtain ⟨t, p, k, hexit, hput, hfree, hgone, hown, href, hdone, -⟩ :=
    takeDown_own h.shared h.count h.areas hwithin h.nodup h.fresh h.dir h.addr
  have hpages : (base ∪ {mm.pgdir} ∪ s.vm.pagesOf mm.pgdir) \ base
      = s.ownPages mm := by
    have hout : Disjoint base (s.ownPages mm) := Set.disjoint_union_right.2
      ⟨h.shared.apart.mono_left Set.subset_union_left,
        Set.disjoint_singleton_right.2 h.dir⟩
    rw [Set.union_assoc, Set.union_sdiff_left, ownPages, Set.union_comm]
    exact hout.symm.sdiff_eq_left
  have hkmem : (t.setPmm p).kmem = { s.vm.kmem with pmm := p } := by
    show { t.kmem with pmm := p } = _
    rw [hgone.kmem]
  have hown' := hown
  rw [hkmem] at hown'
  have hset : p.freeSet = s.vm.pmm.freeSet ∪ s.ownPages mm := by
    rw [← hpages]
    refine h.shared.own.freeSet_eq hown' ?_
    rw [Set.union_assoc]
    exact Set.subset_union_left
  refine ⟨t, t.setPmm p, k, hexit, hput, hfree, h.not_free, hset, ?_, hown,
    hdone, fun q hq => ?_, hgone.frame, hgone.dirs⟩
  · -- the free pages are in the zone, so they can be counted
    have hfin : p.freeSet.Finite := (Set.finite_Ico z (z + n)).subset
      hown.inv.good.freeSet_subset
    rw [hset] at hfin
    have hcount : p.nrFreePages = p.freeSet.ncard :=
      hown.inv.good.nrFreePages_eq
    have hcount' : s.vm.pmm.nrFreePages = s.vm.pmm.freeSet.ncard :=
      h.shared.own.inv.good.nrFreePages_eq
    show p.nrFreePages = _
    rw [hcount, hset, hcount', Set.ncard_union_eq h.not_free
      (hfin.subset Set.subset_union_left)
      (hfin.subset Set.subset_union_right)]
  · exact (href q hq).trans (hgone.ref q (.inl hq))

-- ===== a page at several addresses, and a table for none

/-- A directory at `q` with a table at `q + 1` that maps the page `q + 2` at
`k` addresses. -/
def sampleShared (vm : Vm) (q k : Nat) : Vm :=
  { vm.setPmm (vm.pmm.setPage (q + 2)
      fun p => { p with ref := p.ref + k }) with
    dir := fun d i => if d = q ∧ i = 64 then
      some (q + 1, fun j => if j < k then sampleEntry q else 0) else none }

variable {vm : Vm} {p f q r k i la : Nat}

theorem sampleShared_table :
    (sampleShared vm q k).Uses q r (.table i) ↔ i = 64 ∧ r = q + 1 := by
  by_cases hi : i = 64
  · simp [Vm.Uses, sampleShared, hi, eq_comm]
  · simp [Vm.Uses, sampleShared, hi]

theorem sampleShared_data (hq : q + 2 < 2 ^ 19) (hk : k ≤ 1024) :
    (sampleShared vm q k).Uses q r (.data la) ↔
      r = q + 2 ∧ ∃ j < k, 0x10000000 + j * pgsize = la := by
  obtain ⟨hpresent, hto, -⟩ := Vm.mkPte_spec hq
    (show ptepPresent pteP = true by decide)
  have hentry : (sampleShared vm q k).entry q la
      = if Vm.pdx la = 64 ∧ Vm.ptx la < k then sampleEntry q else 0 := by
    by_cases h64 : Vm.pdx la = 64
    · simp [Vm.entry, Vm.getPte, sampleShared, h64]
    · simp [Vm.entry, Vm.getPte, sampleShared, h64]
  have hat : (la % pgsize = 0 ∧ la < 2 ^ 32) ∧ Vm.pdx la = 64 ∧ Vm.ptx la < k ↔
        ∃ j < k, 0x10000000 + j * pgsize = la := by
    rw [Vm.pdx, Vm.ptx, Nat.shiftRight_eq_div_pow, Nat.shiftRight_eq_div_pow]
    unfold pgsize
    constructor
    · rintro ⟨h1, h2, h3⟩
      exact ⟨la / 4096 % 1024, by omega, by omega⟩
    · rintro ⟨j, hj, rfl⟩
      omega
  rw [← hat, Vm.Uses, Vm.maps, Vm.present, hentry, ← and_assoc]
  by_cases hhere : Vm.pdx la = 64 ∧ Vm.ptx la < k
  · rw [if_pos hhere, sampleEntry, hto, and_iff_right hpresent,
      and_iff_left hhere, and_comm, eq_comm]
  · have hzero : ¬ptepPresent 0 = true := by decide
    rw [if_neg hhere]
    exact iff_of_false (fun h => hzero h.2.1) fun h => hhere h.2.2

/-- The page counts its `k` mappings. -/
theorem sampleShared_shared {base : Set Nat} (hq : q + 2 < 2 ^ 19)
    (hk : k ≤ 1024) (href : (vm.pmm.page (q + 2)).ref = 0)
    (hown : vm.kmem.Own 5 n (base ∪ (sampleShared vm q k).pagesOf q) held)
    (hin : q + 2 ∈ base ∪ (sampleShared vm q k).pagesOf q)
    (hapart : Disjoint base ((sampleShared vm q k).pagesOf q)) :
    Vm.Shared 5 n base held (sampleShared vm q k) q := by
  refine ⟨hown.use hin k, hapart, ?_, ?_⟩
  · intro r i x hi hx
    obtain ⟨rfl, rfl⟩ := sampleShared_table.1 hi
    cases x with
    | table j => rw [(sampleShared_table.1 hx).1]
    | data la => exact absurd ((sampleShared_data hq hk).1 hx).1 (by omega)
  · intro r la hu
    obtain ⟨rfl, -⟩ := (sampleShared_data hq hk).1 hu
    have hset : (sampleShared vm q k).mappings q (q + 2)
        = (fun j => 0x10000000 + j * pgsize) '' Set.Iio k := by
      ext la
      exact (sampleShared_data hq hk).trans (and_iff_right rfl)
    have hinj : Function.Injective fun j => 0x10000000 + j * pgsize := by
      intro i j h
      unfold pgsize at h
      dsimp only at h
      omega
    rw [hset, Set.ncard_image_of_injective _ hinj, Set.ncard_eq_toFinset_card',
      Set.toFinset_Iio, Nat.card_Iio]
    show (Function.update vm.pmm.page (q + 2) _ (q + 2)).ref = _
    rw [Function.update_self]
    rw [href, Int.zero_add]

theorem sampleShared_pages (hq : q + 2 < 2 ^ 19) (hk : k ≤ 1024) :
    (sampleShared vm q k).pagesOf q = {r | r = q + 1 ∨ r = q + 2 ∧ 0 < k} := by
  ext r
  constructor
  · rintro ⟨x, hx⟩
    cases x with
    | table i => exact .inl (sampleShared_table.1 hx).2
    | data la =>
      obtain ⟨hr, j, hj, -⟩ := (sampleShared_data hq hk).1 hx
      exact .inr ⟨hr, by omega⟩
  · rintro (hr | ⟨hr, hpos⟩)
    · exact ⟨.table 64, sampleShared_table.2 ⟨rfl, hr⟩⟩
    · exact ⟨.data 0x10000000, (sampleShared_data hq hk).2 ⟨hr, 0, hpos, rfl⟩⟩

/-- The object at `p` with these areas. -/
def sampleMm (p q : Nat) (areas : List Vma) : Mm := ⟨p, areas, none, q, 1, 0⟩

/-- The page of data is another's if it is not mapped. -/
theorem sampleTaken_abandoned (areas : List Vma) (held : Set Nat)
    (hpos : 0 < n) (hmem : 5 + n ≤ 2 ^ 19)
    (h : sampleTaken n = some (vm, p, f, q)) (hk : k ≤ 1024)
    (href : (vm.pmm.page (q + 2)).ref = 0)
    (hobjects : objects (sampleMm p q areas) held = insert f (insert p ∅))
    (hareas : ∀ v ∈ areas, Vm.Area v) (hnodup : (areas.map Vma.addr).Nodup)
    (hfresh : ∀ v ∈ areas, v.addr ∉ insert p held) (haddr : p ∉ held)
    (hinside : ∀ j < k, ∃ v ∈ areas, v.vmStart ≤ 0x10000000 + j * pgsize ∧
      0x10000000 + j * pgsize < v.vmEnd) :
    Abandoned 5 n {r | r = q + 2 ∧ k = 0} held (sampleMm p q areas)
      { sampleProcess vm p f q with vm := sampleShared vm q k } := by
  have hown := sampleTaken_own hpos h
  have hq : q + 2 < 2 ^ 19 := by
    have hin : 5 ≤ q + 2 ∧ q + 2 < 5 + n := (hown.inv.others
      (.inr ⟨by omega, by omega⟩ : q + 2 ∈ ∅ ∪ Set.Ico q (q + 3))).1
    omega
  have hset : (∅ ∪ Set.Ico q (q + 3) : Set Nat)
      = {r | r = q + 2 ∧ k = 0} ∪ {q} ∪ (sampleShared vm q k).pagesOf q := by
    rw [sampleShared_pages hq hk]
    ext r
    simp only [Set.empty_union, Set.mem_Ico, Set.mem_union,
      Set.mem_ofPred_eq, Set.mem_singleton_iff]
    omega
  rw [hset] at hown
  refine ⟨?_, rfl, hareas, hnodup, hfresh, fun hdir => ?_, haddr, ?_⟩
  · rw [hobjects]
    refine sampleShared_shared hq hk href hown ?_ (Set.disjoint_left.2 ?_)
    · exact hset ▸ .inr ⟨by omega, by omega⟩
    · rw [sampleShared_pages hq hk]
      rintro r (⟨rfl, hzero⟩ | hr) hr'
      · exact absurd hr' (by simp [hzero])
      · obtain rfl : r = q := hr
        exact absurd hr' (by simp)
  · exact absurd hdir.1 (Nat.ne_of_lt (Nat.lt_add_of_pos_right (by decide)))
  · intro r la hu
    obtain ⟨-, j, hj, rfl⟩ := (sampleShared_data hq hk).1 hu
    exact hinside j hj

/-- A page at two addresses is given back once. -/
theorem teardown_frees_shared_page :
    ∃ s mm base t u k, Abandoned 5 11 base ∅ mm s ∧
      (∃ q, s.vm.Uses mm.pgdir q (.data 0x10000000) ∧
        s.vm.Uses mm.pgdir q (.data 0x10001000)) ∧
      s.vm.exitMmap mm = some t ∧
      (s.setVm t).putPgdir mm = some (s.setVm u) ∧
      u.mmDestroy mm = some (u.setKmem k) ∧
      u.pmm.freeSet = s.vm.pmm.freeSet ∪ s.ownPages mm := by
  obtain ⟨vm, p, f, q, htaken, href, hne, hq⟩ : ∃ vm p f q,
      sampleTaken 11 = some (vm, p, f, q) ∧ (vm.pmm.page (q + 2)).ref = 0 ∧
      p ≠ f ∧ q + 2 < 2 ^ 19 :=
    ⟨_, _, _, _, rfl, rfl, by decide, by decide⟩
  have ha := sampleTaken_abandoned (k := 2)
    [⟨f, 0x10000000, 0x10002000, vmRead⟩] ∅ (by decide) (by decide) htaken
    (by decide) href (by ext x; simp [objects, sampleMm, or_comm, eq_comm])
    (List.forall_mem_singleton.2 (by dsimp only [Vm.Area]; decide))
    (List.nodup_singleton _)
    (List.forall_mem_singleton.2 fun h => hne (h.resolve_right id).symm) id
    (fun j hj => ⟨_, List.mem_singleton_self _, by
      unfold pgsize; dsimp only; omega⟩)
  have hdata : ∀ j < 2, (sampleShared vm q 2).Uses q (q + 2)
      (.data (0x10000000 + j * pgsize)) := fun j hj =>
    (sampleShared_data hq (by decide)).2 ⟨rfl, j, hj, rfl⟩
  obtain ⟨t, u, k, hexit, hput, hfree, -, hset, -⟩ :=
    ha.teardown_frees_once fun r i hi => by
      obtain ⟨rfl, -⟩ := sampleShared_table.1 hi
      exact ⟨_, List.mem_singleton_self _, 0x10000000, by dsimp only; decide⟩
  exact ⟨_, _, _, t, u, k, ha, ⟨q + 2, hdata 0 (by decide),
    hdata 1 (by decide)⟩, hexit, hput, hfree, hset⟩

/-- A table that serves no area stays. -/
theorem teardown_leaves_table :
    ∃ s mm base held t u k q, Abandoned 5 11 base held mm s ∧
      s.vm.exitMmap mm = some t ∧
      (s.setVm t).putPgdir mm = some (s.setVm u) ∧
      u.mmDestroy mm = some (u.setKmem k) ∧
      s.vm.Uses mm.pgdir q (.table 64) ∧ q ∉ u.pmm.freeSet := by
  obtain ⟨vm, p, f, q, htaken, href, hne⟩ : ∃ vm p f q,
      sampleTaken 11 = some (vm, p, f, q) ∧ (vm.pmm.page (q + 2)).ref = 0 ∧
      p ≠ f := ⟨_, _, _, _, rfl, rfl, by decide⟩
  have ha := sampleTaken_abandoned (k := 0) [] {f} (by decide) (by decide)
    htaken (by decide) href
    (by ext x; simp [objects, sampleMm, or_comm])
    (List.forall_mem_nil _) List.nodup_nil (List.forall_mem_nil _) hne
    (fun j hj => absurd hj (Nat.not_lt_zero j))
  have hown := ha.shared.own
  rw [Set.union_right_comm] at hown
  obtain ⟨b, hput, hown', -⟩ := putPgdir_own hown fun hdir => hdir.elim ha.dir
    fun hdir => Set.disjoint_left.1 ha.shared.apart (.inr rfl) hdir
  obtain ⟨k, hfree, -, -⟩ :=
    Vm.mmDestroy_own hown' rfl List.nodup_nil (List.forall_mem_nil _) ha.addr
  have htable : (sampleShared vm q 0).Uses q (q + 1) (.table 64) :=
    sampleShared_table.2 ⟨rfl, rfl⟩
  exact ⟨_, _, _, _, _, _, k, q + 1, ha, rfl, hput, hfree, htable,
    (hown'.inv.others (.inr ⟨_, htable⟩)).2⟩

end Sys

end MipsUcore.Kern
