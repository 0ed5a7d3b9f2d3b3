/-
The areas of an address space.

# The list

`Tidy` is what `mm_map`, `find_vma` and `dup_mmap` keep: the list is sorted,
its areas are pages of the user range and do not overlap, and the cached
area is one of them. In a sorted list an area that contains an address is
the first one that ends behind it, so the cache changes no answer
(`Ordered.findVma`).

# One test

`mm_map` looks at one area, the first that ends behind the new start. What
comes before it ends before the new area, and what comes after it begins
behind; so this one test decides (`Tidy.apart`), and the insertion finds
its place between neighbours that do not overlap (`Tidy.insert`).

# Wrapping around

`addr + len` is calculated in 32 bits. If it wraps around it is less than
`addr`, but it may still end in the page where `addr` is, and then an area
of one page is made for a length of nearly 4 GB (`mm_map_covers_iff`).
-/
import MipsUcore.Kern.Proofs.AddressSpace
import MipsUcore.Kern.Proofs.NewPage

namespace MipsUcore.Kern

open Cpu

/-- The contents of an area, wherever it is kept. -/
def Vma.contents (v : Vma) : Nat × Nat × Word :=
  (v.vmStart, v.vmEnd, v.vmFlags)

namespace Mm

open Vm

variable {mm mm' : Mm} {v w : Vma} {addr : Nat}

-- ===== the list

/-- The areas are sorted and do not overlap; the cached one is one of
them. -/
structure Ordered (mm : Mm) : Prop where
  nonempty : ∀ v ∈ mm.mmapList, v.vmStart < v.vmEnd
  sorted : mm.mmapList.Pairwise fun v w => v.vmEnd ≤ w.vmStart
  cache : ∀ v ∈ mm.mmapCache, v ∈ mm.mmapList

/-- The areas of an address space: in order, and pages of the user range. -/
structure Tidy (mm : Mm) : Prop where
  areas : ∀ v ∈ mm.mmapList, Area v
  sorted : mm.mmapList.Pairwise fun v w => v.vmEnd ≤ w.vmStart
  count : mm.mapCount = mm.mmapList.length
  cache : ∀ v ∈ mm.mmapCache, v ∈ mm.mmapList

theorem Tidy.nonempty (h : mm.Tidy) (hv : v ∈ mm.mmapList) :
    v.vmStart < v.vmEnd :=
  (h.areas v hv).2.2.2.1

theorem Tidy.ordered (h : mm.Tidy) : mm.Ordered :=
  ⟨fun _ hv => h.nonempty hv, h.sorted, h.cache⟩

/-- The first area that ends behind the address. -/
def firstBehind (mm : Mm) (addr : Nat) : Option Vma :=
  mm.mmapList.find? fun v => addr < v.vmEnd

/-- An area with the address in it is the first behind it. -/
theorem Ordered.firstBehind_of_mem (h : mm.Ordered) (hv : v ∈ mm.mmapList)
    (hlow : v.vmStart ≤ addr) (hhigh : addr < v.vmEnd) :
    mm.firstBehind addr = some v := by
  obtain ⟨before, after, hlist⟩ := List.append_of_mem hv
  refine List.find?_eq_some_iff_append.mpr
    ⟨by simpa using hhigh, before, after, hlist, ?_⟩
  intro w hw
  have hsorted := h.sorted
  rw [hlist, List.pairwise_append] at hsorted
  have hle : w.vmEnd ≤ v.vmStart := hsorted.2.2 w hw v List.mem_cons_self
  simp only [Bool.not_eq_true', decide_eq_false_iff_not]
  omega

/-- `find_vma` gives the first area behind the address, cached or not. -/
theorem Ordered.findVma (h : mm.Ordered) (addr : Nat) :
    (mm.findVma addr).1 = mm.firstBehind addr := by
  simp only [Mm.findVma]
  cases hhit : mm.mmapCache.filter
      fun v => v.vmStart ≤ addr ∧ addr < v.vmEnd with
  | none => rfl
  | some v =>
    obtain ⟨hcache, hin⟩ := Option.filter_eq_some_iff.mp hhit
    have hin' : v.vmStart ≤ addr ∧ addr < v.vmEnd := of_decide_eq_true hin
    exact (h.firstBehind_of_mem (h.cache v hcache) hin'.1 hin'.2).symm

theorem findVma_snd (mm : Mm) (addr : Nat) : (mm.findVma addr).2 = { mm with
      mmapCache := (mm.findVma addr).1.or mm.mmapCache } := by
  simp only [Mm.findVma]
  cases (mm.mmapCache.filter fun v => v.vmStart ≤ addr ∧ addr < v.vmEnd).orElse
      fun _ => mm.mmapList.find? fun v => addr < v.vmEnd <;> rfl

theorem Ordered.find (h : mm.Ordered) (addr : Nat) :
    (mm.findVma addr).2.Ordered := by
  rw [findVma_snd]
  refine ⟨h.nonempty, h.sorted, ?_⟩
  intro v hv
  rw [h.findVma addr] at hv
  rcases Option.or_eq_some_iff.mp hv with hfound | ⟨-, hcache⟩
  · exact List.mem_of_find?_eq_some hfound
  · exact h.cache v hcache

theorem Tidy.find (h : mm.Tidy) (addr : Nat) : (mm.findVma addr).2.Tidy := by
  have hcache := (h.ordered.find addr).cache
  rw [findVma_snd] at hcache ⊢
  exact ⟨h.areas, h.sorted, h.count, hcache⟩

-- ===== insertion

/-- The two areas have no address in common. -/
def Apart (v w : Vma) : Prop := v.vmEnd ≤ w.vmStart ∨ w.vmEnd ≤ v.vmStart

/-- `mm_map`'s test decides for all areas. -/
theorem Tidy.apart (h : mm.Tidy) {start stop : Nat}
    (htest : ∀ v ∈ mm.firstBehind start, stop ≤ v.vmStart)
    (hw : w ∈ mm.mmapList) : stop ≤ w.vmStart ∨ w.vmEnd ≤ start := by
  by_cases hle : w.vmEnd ≤ start
  · exact .inr hle
  left
  cases hfound : mm.firstBehind start with
  | none =>
    have hnone := List.find?_eq_none.mp hfound w hw
    simp only [decide_eq_true_eq] at hnone
    omega
  | some v =>
    have hv := htest v hfound
    obtain ⟨-, before, after, hlist, hbefore⟩ :=
      List.find?_eq_some_iff_append.mp hfound
    have hsorted := h.sorted
    rw [hlist, List.pairwise_append, List.pairwise_cons] at hsorted
    rw [hlist] at hw
    rcases List.mem_append.mp hw with hin | hin
    · have hnot := hbefore w hin
      simp only [Bool.not_eq_true', decide_eq_false_iff_not] at hnot
      omega
    · rcases List.mem_cons.mp hin with rfl | hin
      · exact hv
      · have hnext : v.vmEnd ≤ w.vmStart := hsorted.2.1.1 w hin
        have hvlt := h.nonempty (List.mem_of_find?_eq_some hfound)
        omega

/-- The areas before the place of a new one end before it. -/
theorem Tidy.before (hapart : ∀ w ∈ mm.mmapList, Apart v w)
    (hv : v.vmStart < v.vmEnd)
    (hw : w ∈ mm.mmapList.takeWhile fun u => u.vmStart ≤ v.vmStart) :
    w.vmEnd ≤ v.vmStart := by
  have hle : w.vmStart ≤ v.vmStart := by
    simpa using List.all_eq_true.mp List.all_takeWhile w hw
  rcases hapart w (List.takeWhile_subset _ hw) with hcase | hcase
  · omega
  · exact hcase

/-- The areas behind the place of a new one begin behind it. -/
theorem Tidy.after (h : mm.Tidy) (hapart : ∀ w ∈ mm.mmapList, Apart v w)
    (hw : w ∈ mm.mmapList.dropWhile fun u => u.vmStart ≤ v.vmStart) :
    v.vmEnd ≤ w.vmStart := by
  have hsub : mm.mmapList.dropWhile (fun u => u.vmStart ≤ v.vmStart)
      <:+ mm.mmapList := List.dropWhile_suffix _
  have hsorted := h.sorted.sublist hsub.sublist
  have hmem := hsub.subset hw
  have hlt : v.vmStart < w.vmStart := by
    cases hdrop : mm.mmapList.dropWhile fun u => u.vmStart ≤ v.vmStart with
    | nil =>
      rw [hdrop] at hw
      cases hw
    | cons u us =>
      have hhead := List.head?_dropWhile_not
        (fun u : Vma => decide (u.vmStart ≤ v.vmStart)) mm.mmapList
      rw [hdrop] at hhead hw hsorted
      simp only [List.head?_cons, decide_eq_false_iff_not] at hhead
      rcases List.mem_cons.mp hw with rfl | hin
      · omega
      · have hnext : u.vmEnd ≤ w.vmStart :=
          (List.pairwise_cons.mp hsorted).1 w hin
        have hu : u ∈ mm.mmapList := hsub.subset (hdrop ▸ List.mem_cons_self)
        have hult := h.nonempty hu
        omega
  have hwlt := h.nonempty hmem
  rcases hapart w hmem with hcase | hcase
  · exact hcase
  · omega

/-- `insert_vma_struct` of an area that overlaps no other. -/
theorem Tidy.insert (h : mm.Tidy) (hv : Area v)
    (hapart : ∀ w ∈ mm.mmapList, Apart v w) :
    ∃ before after, mm.mmapList = before ++ after ∧
      (∀ w ∈ before, w.vmStart ≤ v.vmStart) ∧
      mm.insertVmaStruct v = some { mm with
        mmapList := before ++ v :: after
        mapCount := mm.mapCount + 1 } ∧
      Tidy { mm with
        mmapList := before ++ v :: after
        mapCount := mm.mapCount + 1 } := by
  have hvlt : v.vmStart < v.vmEnd := hv.2.2.2.1
  have hlist := List.takeWhile_append_dropWhile
    (p := fun u : Vma => decide (u.vmStart ≤ v.vmStart)) (l := mm.mmapList)
  have hbefore {w : Vma} := Tidy.before (w := w) hapart hvlt
  have hafter {w : Vma} := h.after (w := w) hapart
  generalize hb : mm.mmapList.takeWhile
    (fun u => decide (u.vmStart ≤ v.vmStart)) = before at *
  generalize ha : mm.mmapList.dropWhile
    (fun u => decide (u.vmStart ≤ v.vmStart)) = after at *
  have hmem {w : Vma} : w ∈ before ++ v :: after ↔
      w = v ∨ w ∈ mm.mmapList := by
    rw [← hlist, List.mem_append, List.mem_cons, List.mem_append]
    tauto
  refine ⟨before, after, hlist.symm, ?_, ?_, ?_⟩
  · intro w hw
    have hle := hbefore hw
    have hin : w ∈ mm.mmapList := hlist ▸ List.mem_append_left _ hw
    have hwlt := h.nonempty hin
    omega
  · simp only [insertVmaStruct, hb, ha]
    refine if_pos ⟨hvlt, ?_, ?_⟩
    · intro w hw
      have hin := List.mem_of_getLast? hw
      have hwin : w ∈ mm.mmapList := hlist ▸ List.mem_append_left _ hin
      exact ⟨h.nonempty hwin, hbefore hin, hvlt⟩
    · intro w hw
      have hin := List.mem_of_head? hw
      have hwin : w ∈ mm.mmapList := hlist ▸ List.mem_append_right _ hin
      exact ⟨hvlt, hafter hin, h.nonempty hwin⟩
  · constructor
    case areas =>
      intro w hw
      rcases hmem.mp hw with rfl | hin
      · exact hv
      · exact h.areas w hin
    case sorted =>
      have hsorted := h.sorted
      rw [← hlist, List.pairwise_append] at hsorted
      refine List.pairwise_append.mpr ⟨hsorted.1,
        List.pairwise_cons.mpr ⟨fun w hw => hafter hw, hsorted.2.1⟩, ?_⟩
      intro u hu w hw
      rcases List.mem_cons.mp hw with rfl | hin
      · exact hbefore hu
      · exact hsorted.2.2 u hu w hin
    case count =>
      have hcount := h.count
      rw [← hlist, List.length_append] at hcount
      simp only [List.length_append, List.length_cons]
      omega
    case cache =>
      intro w hw
      exact hmem.mpr (.inr (h.cache w hw))

-- ===== mm_map

theorem roundUp_page (a : Nat) :
    roundUp a pgshift = (a + 4095) % 2 ^ 32 / pgsize * pgsize := by
  rw [roundUp, roundDown, Nat.shiftRight_eq_div_pow, Nat.shiftLeft_eq]
  rfl

/-- The area `[start, stop)` is new; nothing else has changed. -/
structure Mapped (mm mm' : Mm) (start stop : Nat) (vmFlags : Word) : Prop where
  tidy : mm'.Tidy
  area : ∃ addr before after, mm.mmapList = before ++ after ∧
    mm'.mmapList = before ++ ⟨addr, start, stop, vmFlags⟩ :: after
  apart : ∀ w ∈ mm.mmapList, stop ≤ w.vmStart ∨ w.vmEnd ≤ start
  range : userAccess start stop
  mapCount : mm'.mapCount = mm.mapCount + 1
  pgdir : mm'.pgdir = mm.pgdir
  mmCount : mm'.mmCount = mm.mmCount
  addr : mm'.addr = mm.addr

/-- What `mm_map` does: an error, a panic of `kmalloc`, or a new area. -/
theorem Tidy.mmMap (h : mm.Tidy) (s : Vm) (addr len : Nat) (vmFlags : Word) :
    (∃ t mm', s.mmMap mm addr len vmFlags = some (t, mm', false) ∧
        (mm' = mm ∨ mm' = (mm.findVma (roundDown addr pgshift)).2)) ∨
      (s.kmalloc sizeofVma = none ∧ s.mmMap mm addr len vmFlags = none) ∨
      ∃ t mm', s.mmMap mm addr len vmFlags = some (t, mm', true) ∧
        Mapped mm mm' (roundDown addr pgshift)
          (roundUp ((addr + len) % 2 ^ 32) pgshift) vmFlags := by
  simp only [Vm.mmMap]
  have hstart := roundDown_page addr
  have hstop := roundUp_page ((addr + len) % 2 ^ 32)
  generalize roundDown addr pgshift = start at *
  generalize roundUp ((addr + len) % 2 ^ 32) pgshift = stop at *
  by_cases haccess : userAccess start stop
  swap
  · rw [if_pos haccess]
    exact .inl ⟨s, mm, rfl, .inl rfl⟩
  rw [if_neg (not_not.mpr haccess), h.ordered.findVma]
  by_cases hover : ∃ v ∈ mm.firstBehind start, v.vmStart < stop
  · rw [if_pos hover]
    exact .inl ⟨s, _, rfl, .inr rfl⟩
  rw [if_neg hover]
  have htest : ∀ v ∈ mm.firstBehind start, stop ≤ v.vmStart := by
    intro v hv
    have hnot : ¬v.vmStart < stop := fun hlt => hover ⟨v, hv, hlt⟩
    omega
  have hapart {w : Vma} (hw : w ∈ mm.mmapList) := h.apart htest hw
  cases hk : s.kmalloc sizeofVma with
  | none =>
    refine .inr (.inl ⟨rfl, ?_⟩)
    rw [vmaCreate, hk]
    rfl
  | some r =>
    obtain ⟨t, object⟩ := r
    cases object with
    | none =>
      refine .inl ⟨t, _, ?_, .inr rfl⟩
      rw [vmaCreate, hk]
      rfl
    | some a =>
      refine .inr (.inr ?_)
      have harea : Area ⟨a, start, stop, vmFlags⟩ := by
        refine ⟨?_, ?_, haccess⟩
        · rw [hstart]
          exact Nat.mul_mod_left ..
        · rw [hstop]
          exact Nat.mul_mod_left ..
      have hlist : (mm.findVma start).2.mmapList = mm.mmapList := by
        rw [findVma_snd]
      obtain ⟨before, after, hsplit, -, hins, htidy⟩ :=
        (h.find start).insert harea (by
          intro w hw
          rw [hlist] at hw
          exact hapart hw)
      refine ⟨t, { (mm.findVma start).2 with
        mmapList := before ++ ⟨a, start, stop, vmFlags⟩ :: after
        mapCount := (mm.findVma start).2.mapCount + 1 }, ?_, ?_⟩
      · rw [vmaCreate, hk]
        exact congrArg (Option.map fun m => (t, m, true)) hins
      · rw [hlist] at hsplit
        exact
          { tidy := htidy
            area := ⟨a, before, after, hsplit, rfl⟩
            apart := fun w hw => hapart hw
            range := haccess
            mapCount := by rw [findVma_snd]
            pgdir := by rw [findVma_snd]
            mmCount := by rw [findVma_snd]
            addr := by rw [findVma_snd] }

/-- Whatever `mm_map` returns, the areas stay in order. -/
theorem Tidy.map (h : mm.Tidy) {s t : Vm} {len : Nat} {vmFlags : Word}
    {ok : Bool} (hrun : s.mmMap mm addr len vmFlags = some (t, mm', ok)) :
    mm'.Tidy := by
  rcases h.mmMap s addr len vmFlags with ⟨u, mm₁, heq, hcase⟩ |
    ⟨-, heq⟩ | ⟨u, mm₁, heq, hmapped⟩
  · rw [hrun] at heq
    cases heq
    rcases hcase with rfl | rfl
    · exact h
    · exact h.find _
  · rw [hrun] at heq
    cases heq
  · rw [hrun] at heq
    cases heq
    exact hmapped.tidy

/-- `mm_map` when it returns 0. -/
theorem Tidy.mapped (h : mm.Tidy) {s t : Vm} {len : Nat} {vmFlags : Word}
    (hrun : s.mmMap mm addr len vmFlags = some (t, mm', true)) :
    Mapped mm mm' (roundDown addr pgshift)
      (roundUp ((addr + len) % 2 ^ 32) pgshift) vmFlags := by
  rcases h.mmMap s addr len vmFlags with ⟨u, mm₁, heq, -⟩ |
    ⟨-, heq⟩ | ⟨u, mm₁, heq, hmapped⟩
  · rw [hrun] at heq
    cases heq
  · rw [hrun] at heq
    cases heq
  · rw [hrun] at heq
    cases heq
    exact hmapped

/-- The new area is what was asked for, with `addr + len` as a sum of
numbers. -/
def Covers (mm mm' : Mm) (addr len : Nat) (vmFlags : Word) : Prop :=
  addr + len ≤ 0x80000000 ∧ ∃ v before after,
    mm.mmapList = before ++ after ∧ mm'.mmapList = before ++ v :: after ∧
    v.vmStart = addr / pgsize * pgsize ∧
    v.vmEnd = (addr + len + (pgsize - 1)) / pgsize * pgsize ∧
    v.vmFlags = vmFlags ∧
    (∀ x, addr ≤ x → x < addr + len → v.vmStart ≤ x ∧ x < v.vmEnd) ∧
    ∀ w ∈ mm.mmapList, Apart v w

/-- `mm_map` with an error leaves the areas alone; only the cached area may
be another one. When it returns 0 it has mapped what was asked for exactly
if the sum of address and length does not wrap around. -/
theorem mm_map_covers_iff (h : mm.Tidy) {s t : Vm} {addr len : Nat}
    {vmFlags : Word} {ok : Bool} (haddr : addr < 2 ^ 32)
    (hlen : len < 2 ^ 32)
    (hrun : s.mmMap mm addr len vmFlags = some (t, mm', ok)) :
    (ok = false → { mm' with mmapCache := mm.mmapCache } = mm) ∧
      (ok = true → (Covers mm mm' addr len vmFlags ↔ addr + len < 2 ^ 32)) := by
  constructor
  · rintro rfl
    rcases h.mmMap s addr len vmFlags with ⟨u, mm₁, heq, hcase⟩ |
      ⟨-, heq⟩ | ⟨u, mm₁, heq, -⟩
    · rw [hrun] at heq
      cases heq
      rcases hcase with rfl | rfl
      · rfl
      · rw [findVma_snd]
    · rw [hrun] at heq
      cases heq
    · rw [hrun] at heq
      cases heq
  · rintro rfl
    have hmapped := h.mapped hrun
    obtain ⟨hlow, hlt, htop⟩ := hmapped.range
    obtain ⟨a, before, after, hlist, hlist'⟩ := hmapped.area
    have hapart := hmapped.apart
    rw [roundDown_page] at hlow hlt hlist' hapart
    rw [roundUp_page] at hlt htop hlist' hapart
    constructor
    · intro hcovers
      have hle := hcovers.1
      omega
    · intro hsum
      -- rounding up cannot wrap around either, the range would be empty
      have hstop : ((addr + len) % 2 ^ 32 + 4095) % 2 ^ 32 / pgsize * pgsize
          = (addr + len + (pgsize - 1)) / pgsize * pgsize := by
        unfold pgsize at *
        omega
      rw [hstop] at hlt htop hlist' hapart
      refine ⟨by unfold pgsize at *; omega, _, before, after, hlist, hlist',
        rfl, rfl, rfl, ?_, ?_⟩
      · intro x hge hx
        dsimp only
        unfold pgsize at *
        omega
      · intro w hw
        exact hapart w hw

/-- A directory in page 3, and no areas. -/
def sampleSpace : Mm := ⟨0, [], none, 3, 0, 1⟩

theorem sampleSpace_tidy : sampleSpace.Tidy := by
  refine ⟨?_, ?_, rfl, ?_⟩
  · intro v hv
    cases hv
  · exact List.Pairwise.nil
  · intro v hv
    cases hv

/-- What `mm_map` answers in a sample kernel, with the areas after it. -/
def sampleMap (addr len : Nat) : Option (Bool × List (Nat × Nat × Word)) :=
  ((Mapping.sampleKernel 1).mmMap sampleSpace addr len vmRead).map fun r =>
    (r.2.2, r.2.1.mmapList.map Vma.contents)

theorem sampleMap_run {addr len : Nat} {areas : List (Nat × Nat × Word)}
    (h : sampleMap addr len = some (true, areas)) :
    ∃ t mm', (Mapping.sampleKernel 1).mmMap sampleSpace addr len vmRead
        = some (t, mm', true) ∧ mm'.mmapList.map Vma.contents = areas := by
  obtain ⟨⟨t, mm', ok⟩, hrun, heq⟩ := Option.map_eq_some_iff.mp h
  obtain ⟨rfl, hareas⟩ := Prod.mk.inj heq
  exact ⟨t, mm', hrun, hareas⟩

/-- Two pages for a range across their border. -/
theorem mm_map_covers_two_pages :
    ∃ t mm', (Mapping.sampleKernel 1).mmMap sampleSpace 0x10000800 0x1000
        vmRead = some (t, mm', true) ∧
      Covers sampleSpace mm' 0x10000800 0x1000 vmRead := by
  have hmap : sampleMap 0x10000800 0x1000
      = some (true, [(0x10000000, 0x10002000, vmRead)]) := by
    decide +kernel
  obtain ⟨t, mm', hrun, -⟩ := sampleMap_run hmap
  refine ⟨t, mm', hrun, ?_⟩
  exact ((mm_map_covers_iff sampleSpace_tidy (by decide) (by decide)
    hrun).2 rfl).2 (by decide)

/-- `0x10000800 + 0xffffff00` is `0x10000700` in 32 bits: an area of one
page is made for a range of nearly 4 GB. -/
theorem mm_map_wraps_around :
    ∃ t mm', (Mapping.sampleKernel 1).mmMap sampleSpace 0x10000800 0xffffff00
        vmRead = some (t, mm', true) ∧
      mm'.mmapList.map Vma.contents = [(0x10000000, 0x10001000, vmRead)] ∧
      ¬Covers sampleSpace mm' 0x10000800 0xffffff00 vmRead := by
  have hmap : sampleMap 0x10000800 0xffffff00
      = some (true, [(0x10000000, 0x10001000, vmRead)]) := by
    decide +kernel
  obtain ⟨t, mm', hrun, hareas⟩ := sampleMap_run hmap
  refine ⟨t, mm', hrun, hareas, ?_⟩
  intro hcovers
  exact absurd hcovers.1 (by decide)

-- ===== runs

/-- An address space without areas. -/
structure Fresh (mm : Mm) : Prop where
  list : mm.mmapList = []
  cache : mm.mmapCache = none
  count : mm.mapCount = 0

theorem Fresh.tidy (h : mm.Fresh) : mm.Tidy := by
  refine ⟨?_, ?_, ?_, ?_⟩
  · simp [h.list]
  · simp [h.list]
  · simp [h.list, h.count]
  · simp [h.cache]

theorem fresh_mmCreate {s t : Vm} (h : s.mmCreate = some (t, some mm))
    (d : Nat) : Fresh { mm with pgdir := d } := by
  obtain ⟨r, -, heq⟩ := Option.map_eq_some_iff.mp h
  obtain ⟨a, -, rfl⟩ := Option.map_eq_some_iff.mp (Prod.mk.inj heq).2
  exact ⟨rfl, rfl, rfl⟩

/-- The loop of `dup_mmap` from `s` copies the areas `done` and stops at the
next one, in the allocation of its record or, with the record there, in
`copy_range`. -/
def DupStops (src : Nat) (areas : List Vma) (s : Vm) (mm : Mm) : Prop :=
  ∃ done v rest u dst, areas = done ++ v :: rest ∧
    Vm.dupAreas src done s mm = some (u, dst, true) ∧
    (u.kmalloc sizeofVma = none ∨
      ∃ t a, u.kmalloc sizeofVma = some (t, some a) ∧
        t.copyRange dst.pgdir src v.vmStart v.vmEnd false = none)

/-- The loop of `dup_mmap` links each copy in front of the ones before. -/
theorem Tidy.dupAreas (h : mm.Tidy) (src : Nat) (s : Vm) {areas : List Vma}
    (hareas : ∀ v ∈ areas, Area v)
    (hsorted : areas.Pairwise fun v w => w.vmEnd ≤ v.vmStart)
    (hahead : ∀ v ∈ areas, ∀ w ∈ mm.mmapList, v.vmEnd ≤ w.vmStart) :
    (∀ t mm' ok, Vm.dupAreas src areas s mm = some (t, mm', ok) →
      mm'.Tidy ∧ (ok = true → mm'.mmapList.map Vma.contents
        = areas.reverse.map Vma.contents ++ mm.mmapList.map Vma.contents)) ∧
    (Vm.dupAreas src areas s mm = none → DupStops src areas s mm) := by
  induction areas generalizing s mm with
  | nil =>
    refine ⟨?_, ?_⟩
    · intro t mm' ok hrun
      cases hrun
      exact ⟨h, fun _ => rfl⟩
    · intro hrun
      cases hrun
  | cons v areas ih =>
    have hv := hareas v List.mem_cons_self
    rw [List.pairwise_cons] at hsorted
    cases hk : s.kmalloc sizeofVma with
    | none =>
      have hnone : Vm.dupAreas src (v :: areas) s mm = none := by
        rw [Vm.dupAreas, vmaCreate, hk]
        rfl
      refine ⟨?_, fun _ => ⟨[], v, areas, s, mm, rfl, rfl, .inl hk⟩⟩
      intro t mm' ok hrun
      rw [hnone] at hrun
      cases hrun
    | some r =>
      obtain ⟨t, object⟩ := r
      cases object with
      | none =>
        have hfail : Vm.dupAreas src (v :: areas) s mm
            = some (t, mm, false) := by
          rw [Vm.dupAreas, vmaCreate, hk]
          rfl
        rw [hfail]
        refine ⟨?_, fun hcon => by cases hcon⟩
        intro t' mm' ok hrun
        cases hrun
        exact ⟨h, fun hcon => by cases hcon⟩
      | some a =>
        -- the copy goes in front: all areas there begin behind it
        obtain ⟨before, after, hlist, hbefore, hins, htidy⟩ :=
          h.insert (v := ⟨a, v.vmStart, v.vmEnd, v.vmFlags⟩) hv (by
            intro w hw
            exact .inl (hahead v List.mem_cons_self w hw))
        have hnil : before = [] := by
          refine List.eq_nil_iff_forall_not_mem.mpr fun w hw => ?_
          have hle := hbefore w hw
          have hge := hahead v List.mem_cons_self w
            (hlist ▸ List.mem_append_left _ hw)
          have hlt : v.vmStart < v.vmEnd := hv.2.2.2.1
          dsimp only at hle
          omega
        rw [hnil, List.nil_append] at hlist hins htidy
        rw [← hlist] at hins htidy
        have hstep : ∀ rest, Vm.dupAreas src (v :: rest) s mm =
            (t.copyRange mm.pgdir src v.vmStart v.vmEnd false).bind fun c =>
              if c.2 then Vm.dupAreas src rest c.1 { mm with
                mmapList := ⟨a, v.vmStart, v.vmEnd, v.vmFlags⟩ :: mm.mmapList
                mapCount := mm.mapCount + 1 }
              else some (c.1, { mm with
                mmapList := ⟨a, v.vmStart, v.vmEnd, v.vmFlags⟩ :: mm.mmapList
                mapCount := mm.mapCount + 1 }, false) := by
          intro rest
          rw [Vm.dupAreas, vmaCreate, hk]
          simp only [Option.map_some, Option.bind_some, Option.elim_some, hins]
        rw [hstep]
        cases hcopy : t.copyRange mm.pgdir src v.vmStart v.vmEnd false with
        | none =>
          refine ⟨?_, fun _ => ⟨[], v, areas, s, mm, rfl, rfl,
            .inr ⟨t, a, hk, hcopy⟩⟩⟩
          intro t' mm' ok hrun
          cases hrun
        | some c =>
          obtain ⟨u, ok'⟩ := c
          cases ok' with
          | false =>
            refine ⟨?_, fun hcon => by cases hcon⟩
            intro t' mm' ok hrun
            cases hrun
            exact ⟨htidy, fun hcon => by cases hcon⟩
          | true =>
            obtain ⟨hdone, hnone⟩ := ih htidy u
              (fun w hw => hareas w (List.mem_cons_of_mem _ hw)) hsorted.2
              (by
                intro w hw x hx
                rcases List.mem_cons.mp hx with rfl | hx
                · exact hsorted.1 w hw
                · exact hahead w (List.mem_cons_of_mem _ hw) x hx)
            refine ⟨?_, ?_⟩
            · intro t' mm' ok hrun
              obtain ⟨htidy', hcontents⟩ := hdone t' mm' ok hrun
              refine ⟨htidy', fun hok => ?_⟩
              rw [hcontents hok]
              simp [Vma.contents]
            · intro hrun
              obtain ⟨done, x, rest, w, dst, rfl, hdone, hcase⟩ := hnone hrun
              refine ⟨v :: done, x, rest, w, dst, rfl, ?_, hcase⟩
              rw [hstep, hcopy]
              exact hdone

/-- `dup_mmap` into an address space without areas. -/
theorem Tidy.dupMmap (h : mm.Tidy) {new : Mm} (hnew : new.Fresh) (s : Vm) :
    (∀ t mm' ok, s.dupMmap new mm = some (t, mm', ok) → mm'.Tidy ∧ (ok = true →
        mm'.mmapList.map Vma.contents = mm.mmapList.map Vma.contents)) ∧
    (s.dupMmap new mm = none →
      DupStops mm.pgdir mm.mmapList.reverse s new) := by
  obtain ⟨hdone, hnone⟩ := hnew.tidy.dupAreas mm.pgdir s
    (fun v hv => h.areas v (List.mem_reverse.mp hv))
    (List.pairwise_reverse.mpr h.sorted)
    (by
      intro v _ w hw
      rw [hnew.list] at hw
      cases hw)
  refine ⟨?_, hnone⟩
  intro t mm' ok hrun
  obtain ⟨htidy, hcontents⟩ := hdone t mm' ok hrun
  refine ⟨htidy, fun hok => ?_⟩
  rw [hcontents hok, hnew.list]
  simp

/-- An address space as the calls of the kernel leave it. Between two calls
the allocators may be in any state. -/
inductive Built : Mm → Prop
  | create {s t : Vm} {mm : Mm} (hrun : s.mmCreate = some (t, some mm))
      (pgdir : Nat) : Built { mm with pgdir := pgdir }
  | map {s t : Vm} {mm mm' : Mm} {addr len : Nat} {vmFlags : Word}
      {ok : Bool} (h : Built mm)
      (hrun : s.mmMap mm addr len vmFlags = some (t, mm', ok)) : Built mm'
  | find {mm : Mm} (h : Built mm) (addr : Nat) : Built (mm.findVma addr).2
  | dup {s t s' t' : Vm} {mm new mm' : Mm} {pgdir : Nat} {ok : Bool}
      (h : Built mm) (hnew : s.mmCreate = some (t, some new))
      (hrun : s'.dupMmap { new with pgdir := pgdir } mm
        = some (t', mm', ok)) : Built mm'

theorem Built.tidy (h : Built mm) : mm.Tidy := by
  induction h with
  | create hrun pgdir => exact (fresh_mmCreate hrun pgdir).tidy
  | map _ hrun ih => exact ih.map hrun
  | find _ addr ih => exact ih.find addr
  | dup _ hnew hrun ih =>
    exact ((ih.dupMmap (fresh_mmCreate hnew _) _).1 _ _ _ hrun).1

/-- In every address space the areas are in order, whatever calls have made
it. `find_vma` gives the first area behind an address whichever area is
cached; no assertion about areas fails, so `mm_map` and `dup_mmap` stop
only if an allocator or `copy_range` does, `dup_mmap` after copying the areas
from the last one down; and the areas of a copy are those of the source. -/
theorem vma_list_sound (h : Built mm) :
    mm.Tidy ∧
    (∀ addr cache, (∀ v ∈ cache, v ∈ mm.mmapList) →
      ({ mm with mmapCache := cache }.findVma addr).1
        = mm.firstBehind addr) ∧
    (∀ (s : Vm) addr len vmFlags, s.mmMap mm addr len vmFlags = none →
      s.kmalloc sizeofVma = none) ∧
    ∀ (s : Vm) new, Fresh new →
      (∀ t mm' ok, s.dupMmap new mm = some (t, mm', ok) →
        mm'.Tidy ∧ (ok = true →
          mm'.mmapList.map Vma.contents = mm.mmapList.map Vma.contents)) ∧
      (s.dupMmap new mm = none →
        DupStops mm.pgdir mm.mmapList.reverse s new) := by
  have htidy := h.tidy
  refine ⟨htidy, ?_, ?_, fun s new hnew => htidy.dupMmap hnew s⟩
  · intro addr cache hcache
    have hsame : Ordered { mm with mmapCache := cache } :=
      ⟨htidy.ordered.nonempty, htidy.sorted, hcache⟩
    exact hsame.findVma addr
  · intro s addr len vmFlags hnone
    rcases htidy.mmMap s addr len vmFlags with ⟨t, mm', heq, -⟩ |
      ⟨hk, -⟩ | ⟨t, mm', heq, -⟩
    · rw [hnone] at heq
      cases heq
    · exact hk
    · rw [hnone] at heq
      cases heq

/-- Two areas, the second below the first. -/
theorem vma_list_sound_two_areas :
    ∃ mm, Built mm ∧ mm.mmapList.map Vma.contents
        = [(0x10000000, 0x10001000, vmRead),
          (0x10400000, 0x10402000, vmWrite)] ∧ mm.Tidy := by
  have hrun : ((Mapping.sampleKernel 1).mmCreate.bind fun c =>
      c.2.bind fun mm =>
        (c.1.mmMap { mm with pgdir := 3 } 0x10400000 0x2000 vmWrite).bind
          fun r => (r.1.mmMap r.2.1 0x10000000 0x1000 vmRead).map
            fun r => r.2.1.mmapList.map Vma.contents)
      = some [(0x10000000, 0x10001000, vmRead),
        (0x10400000, 0x10402000, vmWrite)] := by
    decide +kernel
  obtain ⟨⟨t, new⟩, hcreate, hrun⟩ := Option.bind_eq_some_iff.mp hrun
  obtain ⟨mm, rfl, hrun⟩ := Option.bind_eq_some_iff.mp hrun
  obtain ⟨⟨t, mm₁, ok⟩, hfirst, hrun⟩ := Option.bind_eq_some_iff.mp hrun
  obtain ⟨⟨u, mm₂, ok'⟩, hsecond, hareas⟩ := Option.map_eq_some_iff.mp hrun
  have hbuilt : Built mm₂ :=
    .map (.map (.create hcreate 3) hfirst) hsecond
  exact ⟨mm₂, hbuilt, hareas, (vma_list_sound hbuilt).1⟩

end Mm

end MipsUcore.Kern
