/-
What a new user page reveals of its previous owner.

# Two runs

Two kernels that differ in page contents alone (`reframe`) go through the
same steps, for no function on the way to a new page reads a page; they end
with the same tables. So they show a process the same bytes in a new page
exactly if those bytes were written after the page was taken.

# What is written

`do_pgfault` writes nothing. The loader writes the bytes of the segment,
which cover a page unless `p_va` or the end of the segment lies inside it.
-/
import MipsUcore.Kern.Proofs.SlabCalls
import MipsUcore.Kern.Proofs.LoadPages

namespace MipsUcore.Kern

open Cpu Function

namespace Mm

theorem findVma_pgdir (mm : Mm) (addr : Nat) :
    (mm.findVma addr).2.pgdir = mm.pgdir := by
  simp only [findVma]
  cases (mm.mmapCache.filter _).orElse _ <;> rfl

theorem insertVmaStruct_pgdir {mm mm' : Mm} {vma : Vma}
    (h : mm.insertVmaStruct vma = some mm') : mm'.pgdir = mm.pgdir := by
  simp only [insertVmaStruct] at h
  split at h
  · rw [← Option.some.inj h]
  · cases h

end Mm

namespace Vm

variable {z n pgdir d la k page : Nat} {perm pte : Word} {s t : Vm}
  {f : Nat → Frame} {mm mm' : Mm}

-- ===== contents are not read

/-- The same kernel with other page contents. -/
def reframe (s : Vm) (f : Nat → Frame) : Vm := { s with frame := f }

theorem allocPages_reframe : (s.reframe f).allocPages k =
    (s.allocPages k).map fun r => (r.1.reframe f, r.2) := by
  rw [allocPages, allocPages, Option.map_map]
  rfl

theorem freePages_reframe : (s.reframe f).freePages page k =
    (s.freePages page k).map (reframe · f) := by
  rw [freePages, freePages, Option.map_map]
  rfl

theorem setPte_reframe :
    (s.reframe f).setPte d la pte = (s.setPte d la pte).reframe f := by
  have hdir : (s.reframe f).dir = s.dir := rfl
  rw [setPte, setPte, hdir]
  cases s.dir d (pdx la) <;> rfl

theorem getPteCreate_reframe : (s.reframe f).getPteCreate d la =
    (s.getPteCreate d la).map fun r => (r.1.reframe f, r.2) := by
  have hdir : (s.reframe f).dir = s.dir := rfl
  rw [getPteCreate, getPteCreate, hdir, allocPages_reframe]
  cases s.dir d (pdx la) with
  | some table => rfl
  | none =>
    rw [Option.elim_none, Option.elim_none, Option.map_map, Option.map_map]
    congr 1
    ext1 ⟨u, r⟩
    cases r <;> rfl

theorem pageRemovePte_reframe : (s.reframe f).pageRemovePte d la pte =
    (s.pageRemovePte d la pte).map (reframe · f) := by
  have hpage : (s.reframe f).pte2page pte = s.pte2page pte := rfl
  rw [pageRemovePte, pageRemovePte, hpage]
  by_cases hp : ptepPresent pte
  · rw [if_pos hp, if_pos hp]
    cases s.pte2page pte with
    | none => rfl
    | some q =>
      have hstep : (s.reframe f).pageRefAdd q (-1)
          = (s.pageRefAdd q (-1)).reframe f := rfl
      have href : ((s.pageRefAdd q (-1)).reframe f).pmm
          = (s.pageRefAdd q (-1)).pmm := rfl
      simp only [Option.bind_some, hstep, href, freePages_reframe]
      by_cases hz : ((s.pageRefAdd q (-1)).pmm.page q).ref = 0
      · rw [if_pos hz, if_pos hz, Option.map_map, Option.map_map]
        congr 1
        ext1 u
        exact setPte_reframe
      · rw [if_neg hz, if_neg hz]
        exact congrArg some setPte_reframe
  · rw [if_neg hp, if_neg hp]
    rfl

theorem releaseOld_reframe : (s.reframe f).releaseOld d page la pte =
    (s.releaseOld d page la pte).map (reframe · f) := by
  have hpage : (s.reframe f).pte2page pte = s.pte2page pte := rfl
  rw [releaseOld, releaseOld, hpage]
  by_cases hp : ptepPresent pte
  · rw [if_pos hp, if_pos hp]
    cases s.pte2page pte with
    | none => rfl
    | some q =>
      rw [Option.bind_some, Option.bind_some, pageRemovePte_reframe]
      split <;> rfl
  · rw [if_neg hp, if_neg hp]
    rfl

theorem pageInsert_reframe : (s.reframe f).pageInsert d page la perm =
    (s.pageInsert d page la perm).map fun r => (r.1.reframe f, r.2) := by
  rw [pageInsert, pageInsert, getPteCreate_reframe]
  cases s.getPteCreate d la with
  | none => rfl
  | some r =>
    obtain ⟨u, pte⟩ := r
    cases pte with
    | none => rfl
    | some pte =>
      have hstep : (u.reframe f).pageRefAdd page 1
          = (u.pageRefAdd page 1).reframe f := rfl
      simp only [Option.map_some, Option.bind_some, Option.elim_some, hstep,
        releaseOld_reframe, Option.map_map]
      congr 1
      ext1 v
      exact congrArg (·, true) setPte_reframe

theorem pgdirAllocPage_reframe : (s.reframe f).pgdirAllocPage d la perm =
    (s.pgdirAllocPage d la perm).map fun r => (r.1.reframe f, r.2) := by
  rw [pgdirAllocPage, pgdirAllocPage, allocPages_reframe]
  cases s.allocPages 1 with
  | none => rfl
  | some r =>
    obtain ⟨u, q⟩ := r
    cases q with
    | none => rfl
    | some q =>
      simp only [Option.map_some, Option.bind_some, Option.elim_some,
        pageInsert_reframe]
      cases u.pageInsert d q la perm with
      | none => rfl
      | some i =>
        obtain ⟨v, ok⟩ := i
        cases ok with
        | true => rfl
        | false =>
          simp only [Option.map_some, Option.bind_some, Bool.false_eq_true,
            if_false, freePages_reframe, Option.map_map]
          rfl

theorem doPgfault_reframe {errorCode addr : Nat} :
    (s.reframe f).doPgfault mm errorCode addr =
      (s.doPgfault mm errorCode addr).map fun r => (r.1.reframe f, r.2) := by
  unfold doPgfault
  simp only []
  cases (mm.findVma addr).1 with
  | none => rfl
  | some vma =>
    rw [Option.elim_some, Option.elim_some]
    split
    case isTrue => rfl
    case isFalse =>
    rw [getPteCreate_reframe]
    cases s.getPteCreate mm.pgdir (roundDown addr pgshift) with
    | none => rfl
    | some r =>
      simp only [Option.map_some, Option.bind_some, pgdirAllocPage_reframe]
      split
      · rw [Option.map_map, Option.map_map]
        rfl
      · rfl

theorem mmMap_reframe {addr len : Nat} {vmFlags : Word} :
    (s.reframe f).mmMap mm addr len vmFlags =
      (s.mmMap mm addr len vmFlags).map fun r => (r.1.reframe f, r.2) := by
  have hcreate : ∀ start stop, (s.reframe f).vmaCreate start stop vmFlags =
      (s.vmaCreate start stop vmFlags).map fun r => (r.1.reframe f, r.2) := by
    intro start stop
    rw [vmaCreate, vmaCreate, kmalloc, kmalloc, Option.map_map,
      Option.map_map, Option.map_map]
    rfl
  unfold mmMap
  simp only [hcreate]
  split
  case isTrue => rfl
  case isFalse =>
  split
  case isTrue => rfl
  case isFalse =>
  cases s.vmaCreate (roundDown addr pgshift)
      (roundUp ((addr + len) % 2 ^ 32) pgshift) vmFlags with
  | none => rfl
  | some r =>
    obtain ⟨u, vma⟩ := r
    cases vma with
    | none => rfl
    | some vma =>
      simp only [Option.map_some, Option.bind_some, Option.elim_some,
        Option.map_map]
      rfl

end Vm

namespace Loading

open Vm

variable {pgdir stop : Nat} {perm : Word} {l r : Loading} {ok : Bool}
  {fill : Nat → Nat → Option (Nat → BitVec 8)}

/-- The same with other page contents. -/
def reframe (l : Loading) (f : Nat → Frame) : Loading :=
  { l with vm := l.vm.reframe f }

theorem mapRound_reframe
    (hrun : mapRound pgdir perm stop fill l = some (r, ok)) (f : Nat → Frame) :
    ∃ g, mapRound pgdir perm stop fill (l.reframe f)
      = some (r.reframe g, ok) := by
  have hvm : (l.reframe f).vm = l.vm.reframe f := rfl
  have hla : (l.reframe f).la = l.la := rfl
  obtain ⟨⟨u, q⟩, halloc, hrun⟩ := Option.map_eq_some_iff.1 hrun
  rw [mapRound, hvm, hla, pgdirAllocPage_reframe, halloc]
  cases q with
  | none =>
    cases hrun
    exact ⟨f, rfl⟩
  | some q =>
    simp only [] at hrun ⊢
    have hoff : (l.reframe f).offset = l.offset := rfl
    have hstart : (l.reframe f).start = l.start := rfl
    rw [hoff, hstart]
    generalize (if stop < (l.la + pgsize) % 2 ^ 32 then
      pgsize - (l.start - l.la) - ((l.la + pgsize) % 2 ^ 32 - stop)
      else pgsize - (l.start - l.la)) = size at hrun ⊢
    cases hfill : fill l.offset size with
    | none =>
      rw [hfill] at hrun
      cases hrun
      exact ⟨f, rfl⟩
    | some bytes =>
      rw [hfill] at hrun
      cases hrun
      exact ⟨_, rfl⟩

/-- The rounds go the same way whatever the frames held before. -/
theorem rounds_reframe {fuel : Nat}
    (hrun : rounds (mapRound pgdir perm stop fill) stop fuel l
      = some (r, ok)) (f : Nat → Frame) :
    ∃ g, rounds (mapRound pgdir perm stop fill) stop fuel (l.reframe f)
      = some (r.reframe g, ok) := by
  have hstart : (l.reframe f).start = l.start := rfl
  induction fuel generalizing l f with
  | zero =>
    rw [rounds] at hrun ⊢
    split at hrun
    · cases hrun
    case isFalse hge =>
      cases hrun
      exact ⟨f, if_neg hge⟩
  | succ fuel ih =>
    rw [rounds] at hrun ⊢
    rw [hstart]
    by_cases hlt : l.start < stop
    · rw [if_pos hlt] at hrun ⊢
      obtain ⟨⟨m, ok'⟩, hround, hrun⟩ := Option.bind_eq_some_iff.1 hrun
      obtain ⟨g, hg⟩ := mapRound_reframe hround f
      rw [hg]
      cases ok' with
      | true => exact ih hrun g rfl
      | false =>
        cases hrun
        exact ⟨g, rfl⟩
    · rw [if_neg hlt] at hrun ⊢
      cases hrun
      exact ⟨f, rfl⟩

theorem clearRest_reframe (hrun : l.clearRest stop = some r)
    (f : Nat → Frame) :
    ∃ g, (l.reframe f).clearRest stop = some (r.reframe g) := by
  have hla : (l.reframe f).la = l.la := rfl
  have hstart : (l.reframe f).start = l.start := rfl
  have hpage : (l.reframe f).page = l.page := rfl
  unfold clearRest at hrun ⊢
  rw [hla, hstart, hpage]
  by_cases hin : l.start < l.la ∧ l.start < stop
  · rw [if_pos hin] at hrun ⊢
    obtain ⟨q, hp, hrun⟩ := Option.bind_eq_some_iff.1 hrun
    rw [hp] at hrun ⊢
    simp only [Option.bind_some] at hrun ⊢
    generalize (if stop < l.la then
      pgsize - (l.start + pgsize - l.la) - (l.la - stop)
      else pgsize - (l.start + pgsize - l.la)) = size at hrun ⊢
    split at hrun
    case isFalse => cases hrun
    case isTrue hok =>
      cases hrun
      exact ⟨_, if_pos hok⟩
  · rw [if_neg hin] at hrun ⊢
    cases hrun
    exact ⟨f, rfl⟩

end Loading

namespace Vm

open Loading

variable {z n pgdir : Nat} {base held : Set Nat} {perm : Word} {s t : Vm}
  {image : Image} {ph : ProgHdr} {mm mm' : Mm}

theorem loadPages_reframe
    (hrun : s.loadPages pgdir perm image ph = some (t, true))
    (f : Nat → Frame) : ∃ g, (s.reframe f).loadPages pgdir perm image ph
      = some (t.reframe g, true) := by
  obtain ⟨u, l, r, hfile, hclear, hzero, rfl⟩ := loadPages_inv hrun
  obtain ⟨f₁, h₁⟩ := rounds_reframe hfile f
  obtain ⟨f₂, h₂⟩ := clearRest_reframe hclear f₁
  obtain ⟨f₃, h₃⟩ := rounds_reframe hzero f₂
  refine ⟨f₃, ?_⟩
  have hla : (l.reframe f₂).la = l.la := rfl
  unfold loadPages fileRound zeroRound
  show (rounds _ _ _ ((s.loadStart ph).reframe f)).bind _ = _
  rw [h₁, Option.bind_some, h₂, Option.bind_some, hla, h₃]
  rfl

/-- A segment that is loaded: its area is mapped, then its pages. -/
theorem loadSegment_inv
    (hrun : s.loadSegment mm perm image ph = some (t, mm', true)) :
    ph.pFilesz ≤ ph.pMemsz ∧
      ∃ u, s.mmMap mm ph.pVa ph.pMemsz ph.vmFlags = some (u, mm', true) ∧
        u.loadPages mm'.pgdir (ph.nextPerm perm) image ph
          = some (t, true) := by
  unfold loadSegment at hrun
  split at hrun
  case isTrue => cases hrun
  case isFalse hsize =>
  obtain ⟨⟨u, m, ok⟩, hmap, hrun⟩ := Option.bind_eq_some_iff.1 hrun
  cases ok with
  | false => cases hrun
  | true =>
    obtain ⟨⟨v, ok⟩, hload, heq⟩ := Option.map_eq_some_iff.1 hrun
    cases heq
    exact ⟨by omega, u, hmap, hload⟩

theorem loadSegment_reframe
    (hrun : s.loadSegment mm perm image ph = some (t, mm', true))
    (f : Nat → Frame) : ∃ g, (s.reframe f).loadSegment mm perm image ph
      = some (t.reframe g, mm', true) := by
  obtain ⟨hsize, u, hmap, hload⟩ := loadSegment_inv hrun
  obtain ⟨g, hg⟩ := loadPages_reframe hload f
  refine ⟨g, ?_⟩
  rw [loadSegment, if_neg (Nat.not_lt.2 hsize), mmMap_reframe, hmap,
    Option.map_some, Option.bind_some, hg]
  rfl

/-- `mm_map` when it succeeds: the area is put into memory of its own. -/
theorem mmMap_spec (hown : s.kmem.Own z n base held) {addr len : Nat}
    {vmFlags : Word}
    (hrun : s.mmMap mm addr len vmFlags = some (t, mm', true)) :
    t.pmm.Good z n ∧ t.pmm.freeSet ⊆ s.pmm.freeSet ∧ t.frame = s.frame ∧
      t.dir = s.dir ∧ mm'.pgdir = mm.pgdir := by
  unfold mmMap at hrun
  simp only [] at hrun
  split at hrun
  case isTrue => cases hrun
  case isFalse =>
  split at hrun
  case isTrue => cases hrun
  case isFalse =>
  obtain ⟨c, u, r, hcall, hgiven, -⟩ := hown.kmalloc_given
    (show 1 ≤ sizeofVma by decide) (by decide)
  rw [vmaCreate, kmalloc, hcall] at hrun
  cases r with
  | none => cases hrun
  | some x =>
    obtain ⟨m, hins, heq⟩ := Option.map_eq_some_iff.1 hrun
    cases heq
    refine ⟨(hgiven.taken x rfl).1.inv.good, hgiven.freeSet_subset hown,
      rfl, rfl, ?_⟩
    rw [Mm.insertVmaStruct_pgdir hins, Mm.findVma_pgdir]

end Vm

-- ===== new user pages

/-- What gives a process new pages: a fault it is allowed, or a segment of
a program, after the segments `before`. -/
inductive Mapping
  | fault (errorCode addr : Nat)
  | segment (before : List ProgHdr) (image : Image) (ph : ProgHdr)

namespace Mapping

open Vm Loading

variable {z n : Nat} {base held : Set Nat} {s t : Vm} {mm mm' : Mm}
  {m : Mapping} {la : Nat}

/-- `do_pgfault`, or the part of `load_icode` for a segment. -/
def run (m : Mapping) (s : Vm) (mm : Mm) : Option (Vm × Mm × Bool) :=
  match m with
  | fault errorCode addr => s.doPgfault mm errorCode addr
  | segment before image ph =>
    s.loadSegment mm (before.foldl (fun perm h => h.nextPerm perm) 0) image ph

/-- Where the new pages are. -/
def pages : Mapping → Set Nat
  | fault _ addr => {roundDown addr pgshift}
  | segment _ _ ph => ph.pages

/-- The address in a program header is a word. -/
def InRange : Mapping → Prop
  | fault _ _ => True
  | segment _ _ ph => ph.pVa < 2 ^ 32

/-- What is written to the new pages. -/
def written : Mapping → Nat → Option (BitVec 8)
  | fault _ _, _ => none
  | segment _ image ph, x => ph.segByte image x

/-- The page at `la` is written in full: it belongs to a segment that
begins at or before it and does not end inside it. -/
def Covers : Mapping → Nat → Prop
  | fault _ _, _ => False
  | segment _ _ ph, la =>
    ph.pVa ≤ la ∧ la + pgsize ≤ max ph.fileEnd ph.memEnd

theorem covers_iff (m : Mapping) (la : Nat) :
    m.Covers la ↔ ∀ o < pgsize, (m.written (la + o)).isSome := by
  have hpg : pgsize = 4096 := rfl
  cases m with
  | fault =>
    refine iff_of_false id fun h => ?_
    exact Bool.false_ne_true (h 0 (by decide))
  | segment before image ph =>
    have hsome : ∀ x, (ph.segByte image x).isSome ↔
        ph.pVa ≤ x ∧ x < max ph.fileEnd ph.memEnd := by
      intro x
      rw [ProgHdr.segByte]
      by_cases h1 : ph.pVa ≤ x ∧ x < ph.fileEnd
      · rw [if_pos h1]
        exact iff_of_true rfl ⟨h1.1, by omega⟩
      · rw [if_neg h1]
        by_cases h2 : ph.pVa ≤ x ∧ x < ph.memEnd
        · rw [if_pos h2]
          exact iff_of_true rfl ⟨h2.1, by omega⟩
        · rw [if_neg h2]
          exact iff_of_false Bool.false_ne_true fun h => by omega
    constructor
    · rintro ⟨hlo, hhi⟩ o ho
      exact (hsome _).2 ⟨by omega, by omega⟩
    · intro h
      have hlo := (hsome _).1 (h 0 (by decide))
      have hhi := (hsome _).1 (h 4095 (by decide))
      exact ⟨by omega, by omega⟩

-- ===== what they hold

/-- The loader's permissions are flag bits. -/
theorem perm_flags (before : List ProgHdr) (ph : ProgHdr) {perm : Word}
    (hperm : perm &&& ~~~0xfff#32 = 0) :
    ph.nextPerm (before.foldl (fun perm h => h.nextPerm perm) perm) &&&
      ~~~0xfff#32 = 0 := by
  have hnext : ∀ (h : ProgHdr) (p : Word), p &&& ~~~0xfff#32 = 0 →
      h.nextPerm p &&& ~~~0xfff#32 = 0 := by
    intro h p hp
    have hu : (p ||| pteU) &&& ~~~0xfff#32 = 0 := by
      rw [BitVec.and_or_distrib_right, hp]
      decide
    simp only [ProgHdr.nextPerm]
    split
    · rw [BitVec.and_or_distrib_right, hu]
      decide
    · exact hu
  induction before generalizing perm with
  | nil => exact hnext ph perm hperm
  | cons h before ih => exact ih (hnext h perm hperm)

/-- A fault that is allowed maps a page and writes nothing to it. -/
theorem fault_holds (hgood : s.pmm.Good z n) (hmem : z + n ≤ 2 ^ 19)
    {errorCode addr : Nat}
    (hrun : s.doPgfault mm errorCode addr = some (t, mm', true)) :
    PageHolds s t mm.pgdir (roundDown addr pgshift) fun _ => none := by
  unfold doPgfault at hrun
  simp only [] at hrun
  cases hvma : (mm.findVma addr).1 with
  | none =>
    rw [hvma] at hrun
    cases hrun
  | some vma =>
  rw [hvma, Option.elim_some] at hrun
  split at hrun
  case isTrue => cases hrun
  case isFalse =>
  rcases getPteCreate_spec hgood mm.pgdir (roundDown addr pgshift) with hnone |
    ⟨u, hcreate, hgrows, -, hframe, hentry, -⟩
  · rw [hnone, Option.bind_some] at hrun
    cases hrun
  rw [hcreate, Option.bind_some] at hrun
  split at hrun
  case isFalse => cases hrun
  case isTrue hzero =>
  have hnp : ¬u.present mm.pgdir (roundDown addr pgshift) := by
    rw [present, hentry, Option.some.inj hzero]
    decide
  generalize hp : (if vma.vmFlags &&& vmWrite != 0 then pteU ||| pteW
    else pteU) = perm at hrun
  have hperm : perm &&& ~~~0xfff#32 = 0 := by
    rw [← hp]
    split <;> decide
  obtain ⟨⟨v, r⟩, halloc, heq⟩ := Option.map_eq_some_iff.1 hrun
  obtain ⟨rfl, hrest⟩ := Prod.mk.inj heq
  obtain ⟨q, rfl⟩ := Option.isSome_iff_exists.1 (Prod.mk.inj hrest).2
  have hnew := pgdirAllocPage_spec hgrows.good hnp halloc
  have hq : q < 2 ^ 19 :=
    Nat.lt_of_lt_of_le (hgrows.good.freeSet_subset hnew.free).2 hmem
  refine ⟨q, hgrows.free hnew.free, hnew.taken, ?_, fun o _ => ?_⟩
  · rw [Vm.maps, present, hnew.entry, if_pos ⟨rfl, rfl, rfl⟩]
    exact ⟨mkPte_present q perm, mkPte_target hq hperm⟩
  · rw [hnew.frame, hframe]
    rfl

/-- A new page holds what is written to it, and otherwise what it held when
it was free. -/
theorem run_holds (hown : s.kmem.Own z n base held) (hmem : z + n ≤ 2 ^ 19)
    (hrange : m.InRange) (hnew : ∀ la ∈ m.pages, ¬s.present mm.pgdir la)
    (hrun : m.run s mm = some (t, mm', true)) (hla : la ∈ m.pages) :
    PageHolds s t mm.pgdir la m.written := by
  cases m with
  | fault errorCode addr =>
    rw [Set.mem_singleton_iff.1 hla]
    exact fault_holds hown.inv.good hmem hrun
  | segment before image ph =>
    obtain ⟨-, u, hmap, hload⟩ := loadSegment_inv hrun
    obtain ⟨hgood, hfree, hframe, hdir, hpgdir⟩ := mmMap_spec hown hmap
    rw [hpgdir] at hload
    have hfresh : ∀ la ∈ ph.pages, ¬u.present mm.pgdir la := by
      intro la hla
      rw [present, entry_congr (congrFun hdir mm.pgdir)]
      exact hnew la hla
    refine (loadPages_spec hgood hmem (perm_flags before ph (by decide))
      hrange hfresh hload hla).earlier hfree fun p _ => ?_
    rw [hframe]

theorem run_reframe (hrun : m.run s mm = some (t, mm', true))
    (f : Nat → Frame) :
    ∃ g, m.run (s.reframe f) mm = some (t.reframe g, mm', true) := by
  cases m with
  | fault errorCode addr =>
    have hcall : s.doPgfault mm errorCode addr = some (t, mm', true) := hrun
    refine ⟨f, ?_⟩
    show (s.reframe f).doPgfault mm errorCode addr = _
    rw [doPgfault_reframe, hcall]
    rfl
  | segment before image ph => exact loadSegment_reframe hrun f

-- ===== what they show

/-- The kernels differ in the contents of free pages alone. -/
structure SameButFree (s s' : Vm) : Prop where
  kmem : s'.kmem = s.kmem
  dir : s'.dir = s.dir
  frame : ∀ q, q ∉ s.pmm.freeSet → s'.frame q = s.frame q

theorem SameButFree.eq_reframe {s' : Vm} (h : SameButFree s s') :
    s' = s.reframe s'.frame := by
  obtain ⟨hkmem, hdir, -⟩ := h
  cases s'
  cases s
  cases hkmem
  cases hdir
  rfl

/-- The byte a process reads in its page at `la`. -/
def userByte (s : Vm) (pgdir la o : Nat) : Option (BitVec 8) :=
  if ptepPresent (s.entry pgdir la) then
    some (s.frame (ppn (pteAddr (s.entry pgdir la))).toNat o)
  else none

theorem userByte_of_maps {pgdir q : Nat} (h : t.maps pgdir la q) (o : Nat) :
    userByte t pgdir la o = some (t.frame q o) := by
  have hp : ptepPresent (t.entry pgdir la) = true := h.1
  rw [userByte, if_pos hp, h.2]

/-- What the process can read in the page at `la` afterwards is the same
whatever the free pages held before. -/
def RevealsNothing (m : Mapping) (s t : Vm) (mm mm' : Mm) (la : Nat) : Prop :=
  ∀ s', SameButFree s s' → ∃ t', m.run s' mm = some (t', mm', true) ∧
    ∀ o < pgsize, userByte t' mm.pgdir la o = userByte t mm.pgdir la o

/-- A new page reveals nothing of its previous owner exactly if the loader
writes all of it. Memory is at most 2 GB, as the kernel segment is. -/
theorem new_page_reveals_nothing_iff (hown : s.kmem.Own z n base held)
    (hmem : z + n ≤ 2 ^ 19) (hrange : m.InRange)
    (hnew : ∀ la ∈ m.pages, ¬s.present mm.pgdir la)
    (hrun : m.run s mm = some (t, mm', true)) (hla : la ∈ m.pages) :
    m.RevealsNothing s t mm mm' la ↔ m.Covers la := by
  obtain ⟨q, hfree, -, hmaps, hframe⟩ :=
    run_holds hown hmem hrange hnew hrun hla
  -- the other run ends with the same tables
  have hother : ∀ f, ∃ t', m.run (s.reframe f) mm = some (t', mm', true) ∧
      ∀ o < pgsize, userByte t' mm.pgdir la o
        = some ((m.written (la + o)).getD (f q o)) := by
    intro f
    obtain ⟨g, hg⟩ := run_reframe hrun f
    obtain ⟨q', -, -, hmaps', hframe'⟩ :=
      run_holds (s := s.reframe f) hown hmem hrange hnew hg hla
    have hq : q' = q := hmaps'.2.symm.trans hmaps.2
    rw [hq] at hmaps' hframe'
    refine ⟨_, hg, fun o ho => ?_⟩
    rw [userByte_of_maps hmaps', hframe' o ho]
    rfl
  rw [covers_iff]
  constructor
  · intro h o ho
    by_contra hnone
    -- change the byte that is not written
    rw [Bool.not_eq_true, Option.isSome_eq_false_iff, Option.isNone_iff_eq_none]
      at hnone
    let f := update s.frame q fun o => s.frame q o + 1
    have hsame : SameButFree s (s.reframe f) :=
      ⟨rfl, rfl, fun p hp => update_of_ne
        (show p ≠ q from fun heq => hp (heq ▸ hfree)) _ _⟩
    obtain ⟨t', hrun', heq⟩ := h _ hsame
    obtain ⟨t'', hrun'', hbyte⟩ := hother f
    obtain rfl : t' = t'' :=
      (Prod.mk.inj (Option.some.inj (hrun'.symm.trans hrun''))).1
    have hdiff := (hbyte o ho).symm.trans (heq o ho)
    rw [userByte_of_maps hmaps, hframe o ho, hnone] at hdiff
    have hone : s.frame q o + 1 = s.frame q o := by
      have hval : f q o = s.frame q o + 1 := by
        show update s.frame q (fun o => s.frame q o + 1) q o = _
        rw [update_self]
      rw [← hval]
      exact Option.some.inj hdiff
    bv_omega
  · intro hall s' hsame
    rw [hsame.eq_reframe]
    obtain ⟨t', hrun', hbyte⟩ := hother s'.frame
    refine ⟨t', hrun', fun o ho => ?_⟩
    obtain ⟨b, hb⟩ := Option.isSome_iff_exists.1 (hall o ho)
    rw [hbyte o ho, userByte_of_maps hmaps, hframe o ho, hb]
    rfl

-- ===== an example

/-- Eleven free pages from page 5 on, full of `b`, and no page tables. -/
def sampleKernel (b : BitVec 8) : Vm where
  kmem := ((Kmem.sampleKmem ((Buddy.samplePages.boot.initMemmap 5 11).getD
    Buddy.samplePages)).slabInit).getD (Kmem.sampleKmem Buddy.samplePages)
  frame q _ := if 5 ≤ q ∧ q < 16 then b else 0
  dir _ _ := none

/-- A stack of one page. -/
def sampleMm : Mm :=
  ⟨0, [⟨0, 0x10000000, 0x10001000, vmRead ||| vmWrite⟩], none, 3, 1, 1⟩

/-- A segment that fills one page. -/
def sampleSegment (pMemsz : Nat) : Mapping :=
  segment [] ⟨fun _ => 7, fun _ _ => true⟩ ⟨0, 0x10002000, 100, pMemsz, 4⟩

theorem sampleKernel_own (b : BitVec 8) :
    (sampleKernel b).kmem.Own 5 11 ∅ ∅ := by
  obtain ⟨p, hp, -⟩ := Buddy.initMemmap_spec (z := 5) (n := 11)
    Buddy.samplePages rfl (by decide) (by decide)
  have hkmem : (Kmem.sampleKmem p).slabInit = some (sampleKernel b).kmem := by
    rw [sampleKernel, hp, Option.getD_some, Kmem.slabInit_eq, Option.getD_some]
  exact Kmem.own_start (s := Kmem.sampleKmem p)
    (Buddy.accounted_start rfl (by decide) (by decide) hp) hkmem

theorem sampleKernel_same (b b' : BitVec 8) :
    SameButFree (sampleKernel b) (sampleKernel b') := by
  refine ⟨rfl, rfl, fun q hq => ?_⟩
  have hout : ¬(5 ≤ q ∧ q < 16) := by
    rintro ⟨hlo, hhi⟩
    obtain ⟨c, a, page, hs, -⟩ := (sampleKernel_own b).inv.owned q hlo hhi hq
      (Set.notMem_empty q)
    exact (sampleKernel_own b).no_slab c a hs
  show (fun _ => if 5 ≤ q ∧ q < 16 then b' else 0)
    = fun _ => if 5 ≤ q ∧ q < 16 then b else 0
  rw [if_neg hout, if_neg hout]

theorem sampleKernel_absent (b : BitVec 8) (d la : Nat) :
    ¬(sampleKernel b).present d la := by
  have hnone : (sampleKernel b).entry d la = 0 := rfl
  rw [present, hnone]
  decide

/-- A page the loader fills. -/
theorem new_page_reveals_nothing_full :
    ∃ t mm', (sampleSegment 4096).run (sampleKernel 1) sampleMm
        = some (t, mm', true) ∧
      (sampleSegment 4096).RevealsNothing (sampleKernel 1) t sampleMm mm'
        0x10002000 := by
  refine ⟨_, _, rfl, ?_⟩
  refine (new_page_reveals_nothing_iff (m := sampleSegment 4096)
    (sampleKernel_own 1) (by decide) (show 0x10002000 < 2 ^ 32 by decide)
    (fun la _ => sampleKernel_absent 1 _ la) rfl ?_).2 ?_
  · exact ⟨by decide, by decide, by decide, by decide⟩
  · exact ⟨by decide, by decide⟩

/-- A page fault, and a segment of 200 bytes: the process reads what the
free pages held. -/
theorem new_page_reveals_free_page :
    (sampleKernel 1).kmem.Own 5 11 ∅ ∅ ∧
      (sampleKernel 2).kmem.Own 5 11 ∅ ∅ ∧
      SameButFree (sampleKernel 1) (sampleKernel 2) ∧
      ((fault 0 0x10000abc).run (sampleKernel 1) sampleMm).map
        (fun r => (r.2.2, userByte r.1 3 0x10000000 0)) = some (true, some 1) ∧
      ((fault 0 0x10000abc).run (sampleKernel 2) sampleMm).map
        (fun r => (r.2.2, userByte r.1 3 0x10000000 0)) = some (true, some 2) ∧
      ((sampleSegment 200).run (sampleKernel 1) sampleMm).map
        (fun r => (r.2.2, userByte r.1 3 0x10002000 200))
          = some (true, some 1) ∧
      ((sampleSegment 200).run (sampleKernel 2) sampleMm).map
        (fun r => (r.2.2, userByte r.1 3 0x10002000 200))
          = some (true, some 2) := by
  refine ⟨sampleKernel_own 1, sampleKernel_own 2, sampleKernel_same 1 2, ?_, ?_,
    ?_, ?_⟩
  · decide +kernel
  · decide +kernel
  · decide +kernel
  · decide +kernel

end Mapping

end MipsUcore.Kern
