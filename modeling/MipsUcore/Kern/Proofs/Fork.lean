/-
A fork that runs out of memory.

# Undoing a fork

Each function that `do_fork` calls either gets what it asks for or leaves
the memory as it was (`Back`), and each cleanup gives back what the function
before it took. When an allocation is refused the objects that were in use
are in use again, where they were, and from that the rest follows: the
slabs, the pages and their number (`Kmem.Own.restored`).

# The exception

The one refusal that is not handled is that of a page of data: `copy_range`
asserts that it got one. So a fork is undone exactly when the request that
is refused is another one (`fork_fails_cleanly_iff`).
-/
import MipsUcore.Kern.Proofs.FileCounts
import MipsUcore.Kern.Proofs.ForkMemory

namespace MipsUcore.Kern

open Cpu Function

/-- The page of the kernel address of a page. -/
theorem Kmem.kva2page_page2kva {npage q : Nat} (h : q < npage) :
    kva2page npage (page2kva q) = some q := by
  unfold kva2page page2kva pgsize
  rw [if_pos (by omega)]
  congr 1
  omega

namespace Vm

variable {z n : Nat} {base held : Set Nat} {s t : Vm}

/-- The memory is as it was: the same objects are in use, where they
were. -/
structure Back (z n : Nat) (base held : Set Nat) (s t : Vm) : Prop where
  own : t.kmem.Own z n base held
  place : ∀ y ∈ held ∪ s.kmem.controls, t.kmem.place y = s.kmem.place y

theorem not_uses_of_empty {d q : Nat} {x : Usage}
    (h : s.dir d = fun _ => none) : ¬s.Uses d q x := by
  cases x with
  | table i =>
    rw [Uses, h]
    exact Option.some_ne_none q ∘ Eq.symm
  | data la => exact not_data_of_none (by rw [h])

/-- The copy before its first area. -/
theorem Dup.start {mm : Mm} (h : s.kmem.Own z n base held)
    (hdir : s.dir mm.pgdir = fun _ => none) (hlist : mm.mmapList = [])
    (hcount : mm.mmCount = 0) : Dup z n base held mm s := by
  have hpages : s.pagesOf mm.pgdir = ∅ := by
    ext q
    refine ⟨?_, False.elim⟩
    rintro ⟨x, hx⟩
    exact not_uses_of_empty hdir hx
  refine ⟨⟨⟨?_, ?_, ?_, ?_⟩, ?_⟩, ?_, ?_, ?_, hcount⟩
  · rw [hpages, hlist]
    simpa using h
  · rw [hpages]
    exact Set.disjoint_empty base
  · exact fun q x x' hx => absurd hx (not_uses_of_empty hdir)
  · exact fun q la hx => absurd hx (not_uses_of_empty hdir)
  · exact fun q x hx => absurd hx (not_uses_of_empty hdir)
  · rw [hlist]
    exact List.nodup_nil
  · rw [hlist]
    exact List.forall_mem_nil _
  · rw [hlist]
    exact List.forall_mem_nil _

end Vm

namespace Sys

variable {z n : Nat} {base held : Set Nat} {s t : Sys} {p : Nat}
  {mm old : Mm} {a q : Nat} {held' live : Set Nat} {v : Vops} {files : Files}
  {vm : Vm}

-- ===== the address space

/-- `put_pgdir`. -/
theorem putPgdir_own (h : s.vm.kmem.Own z n (base ∪ {mm.pgdir}) held)
    (hbase : mm.pgdir ∉ base) :
    ∃ p, s.putPgdir mm = some (s.setVm (s.vm.setPmm p)) ∧
      (s.vm.setPmm p).kmem.Own z n base held ∧
      ∀ q ∈ base, (p.page q).ref = (s.vm.pmm.page q).ref := by
  have hin := (h.inv.others (.inr rfl : mm.pgdir ∈ base ∪ {mm.pgdir})).1
  have hlt : mm.pgdir < s.vm.pmm.npage :=
    Nat.lt_of_lt_of_le hin.2 h.inv.good.bound
  rw [← Vm.Ico_one] at h
  obtain ⟨p, hrun, hown, href⟩ := Vm.freePages_own h
    (by rw [Vm.Ico_one]; exact Set.disjoint_singleton_right.2 hbase)
    Nat.one_pos (by decide)
  refine ⟨p, ?_, hown, href⟩
  rw [putPgdir, Kmem.kva2page_page2kva hlt, Option.bind_some, hrun]
  rfl

/-- The objects of an address space, and those of others. -/
def objects (mm : Mm) (held : Set Nat) : Set Nat :=
  insert mm.addr held ∪ {x | ∃ v ∈ mm.mmapList, v.addr = x}

/-- `exit_mmap`, `put_pgdir` and `mm_destroy`. -/
theorem takeDown_own
    (h : Vm.Shared z n (base ∪ {mm.pgdir}) (objects mm held) s.vm mm.pgdir)
    (hcount : mm.mmCount = 0) (hareas : ∀ v ∈ mm.mmapList, Vm.Area v)
    (hwithin : ∀ q x, s.vm.Uses mm.pgdir q x →
      ∃ v ∈ mm.mmapList, Vm.Within v x)
    (hnodup : (mm.mmapList.map Vma.addr).Nodup)
    (hfresh : ∀ v ∈ mm.mmapList, v.addr ∉ insert mm.addr held)
    (hbase : mm.pgdir ∉ base) (haddr : mm.addr ∉ held) :
    ∃ t p k, s.vm.exitMmap mm = some t ∧
      (s.setVm t).putPgdir mm = some (s.setVm (t.setPmm p)) ∧
      (t.setPmm p).mmDestroy mm = some ((t.setPmm p).setKmem k) ∧
      Vm.Removed z n (base ∪ {mm.pgdir}) (objects mm held) mm.pgdir
        (fun _ => True) s.vm t ∧
      (t.setPmm p).kmem.Own z n base (objects mm held) ∧
      (∀ q ∈ base, (p.page q).ref = (t.pmm.page q).ref) ∧
      k.Own z n base held ∧ k.place = s.vm.kmem.place := by
  obtain ⟨t, hexit, hown, hgone⟩ := h.exitMmap hcount hareas hwithin
  obtain ⟨p, hput, hown', href⟩ := putPgdir_own (s := s.setVm t) hown hbase
  have hdone : (t.setPmm p).kmem.Own z n base _ := hown'
  obtain ⟨k, hfree, hown'', hplace⟩ :=
    Vm.mmDestroy_own hdone hcount hnodup hfresh haddr
  refine ⟨t, p, k, hexit, hput, hfree, hgone, hown', href, hown'', ?_⟩
  rw [hplace]
  show t.kmem.place = _
  rw [hgone.kmem]
  rfl

/-- `bad_dup_cleanup_mmap`. -/
def cleanupMmap (s : Sys) (mm : Mm) : Option (Sys × Bool) :=
  (s.vm.exitMmap mm).bind fun vm =>
    ((s.setVm vm).putPgdir mm).bind fun s =>
      (s.vm.mmDestroy mm).map fun vm => (s.setVm vm, false)

theorem dupMm_cleanup
    (h : Vm.Dup z n (base ∪ {mm.pgdir}) (insert mm.addr held) mm s.vm)
    (hbase : mm.pgdir ∉ base) (haddr : mm.addr ∉ held) :
    ∃ vm, s.cleanupMmap mm = some (s.setVm vm, false) ∧
      vm.kmem.Own z n base held ∧ vm.kmem.place = s.vm.kmem.place := by
  obtain ⟨t, p, k, hexit, hput, hfree, -, -, -, hown, hplace⟩ :=
    takeDown_own h.building.space.shared h.count h.areas h.building.within
      h.nodup h.fresh hbase haddr
  refine ⟨(t.setPmm p).setKmem k, ?_, hown, hplace⟩
  rw [cleanupMmap, hexit, Option.bind_some, hput]
  show ((t.setPmm p).mmDestroy mm).map _ = _
  rw [hfree]
  rfl

/-- The areas of an address space are in order, and its pages exist. -/
structure Copyable (z n : Nat) (base : Set Nat) (mm : Mm) (vm : Vm) :
    Prop where
  areas : ∀ v ∈ mm.mmapList, Vm.Area v
  sorted : mm.mmapList.Pairwise fun v w => v.vmEnd ≤ w.vmStart
  dir : mm.pgdir ∈ base
  pages : ∀ la, vm.present mm.pgdir la →
    (ppn (pteAddr (vm.entry mm.pgdir la))).toNat < z + n

/-- `copy_mm` from `dup_mmap` on. -/
def finishDup (s : Sys) (mm old : Mm) (p : Nat) : Option (Sys × Bool) :=
  (s.vm.dupMmap mm old).bind fun c =>
    let s := s.setVm c.1
    let mm := c.2.1
    if c.2.2 then
      let mm := { mm with mmCount := mm.mmCount + 1 }
      some ({ s with mm := update s.mm mm.addr mm }.setProc p
        fun x => { x with mm := some mm.addr }, true)
    else s.cleanupMmap mm

/-- `dup_mmap` of an address space into an empty one, and its cleanup. -/
theorem dupMm_finish (mm : Mm) (hmem : z + n ≤ 2 ^ 19)
    (hdup : Vm.Dup z n (base ∪ {mm.pgdir}) (insert mm.addr held) mm s.vm)
    (hlist : mm.mmapList = []) (hbase : mm.pgdir ∉ base)
    (haddr : mm.addr ∉ held) (hold : Copyable z n base old s.vm) (p : Nat) :
    Outcome (s.finishDup mm old p) Prod.snd (fun r => r.1.vm.kmem)
      (s.vm.kmem.serveAll (dupRequests (s.vm.dir old.pgdir)
        old.mmapList.reverse (s.vm.tablesOf mm.pgdir)))
      (fun _ => True) fun r => ∃ vm, r.1 = s.setVm vm ∧
        vm.kmem.Own z n base held ∧
        ∀ y ∈ insert mm.addr held ∪ s.vm.kmem.controls,
          vm.kmem.place y = s.vm.kmem.place y := by
  have hne : old.pgdir ≠ mm.pgdir := fun heq => hbase (heq ▸ hold.dir)
  have hrun := hdup.dupAreas hmem hne
    (fun v hv => hold.areas v (List.mem_reverse.1 hv))
    (List.pairwise_reverse.2 hold.sorted)
    (by rw [hlist]; exact fun _ _ => List.forall_mem_nil _) hold.pages
  rw [← List.append_nil (dupRequests _ _ _)]
  refine hrun.bind ?_ ?_
  · rintro c hok -
    have hok' : c.2.2 = true := hok
    simp only [hok']
    exact .inl ⟨_, rfl, rfl, rfl, trivial⟩
  · rintro c hok ⟨hdup', hfrom⟩
    have hok' : c.2.2 = false := hok
    rw [← hfrom.pgdir, ← hfrom.addr] at hdup'
    obtain ⟨vm, hundo, hown, hplace⟩ := dupMm_cleanup (s := s.setVm c.1) hdup'
      (by rw [hfrom.pgdir]; exact hbase) (by rw [hfrom.addr]; exact haddr)
    refine ⟨(s.setVm vm, false), ?_, rfl, vm, rfl, hown, fun y hy => ?_⟩
    · simp only [hok']
      exact hundo
    · rw [hplace]
      exact hfrom.kept.place y hy

/-- The requests of `copy_mm`. -/
def mmRequests (s : Sys) (old : Mm) : List Request :=
  .object sizeofMm :: .pages 1 ::
    dupRequests (s.vm.dir old.pgdir) old.mmapList.reverse
      (s.vm.tablesOf s.bootPgdir)

/-- `setup_pgdir` and what follows, once there is an `mm_struct`. -/
theorem dupMm_pgdir (hmem : z + n ≤ 2 ^ 19)
    (h : s.vm.kmem.Own z n base (insert a held)) (haddr : a ∉ held)
    (hboot : s.vm.dir s.bootPgdir = fun _ => none)
    (hold : Copyable z n base old s.vm) (p : Nat) :
    Outcome ((s.setupPgdir ⟨a, [], none, 0, 0, 0⟩).bind fun d =>
        let s := d.1
        d.2.elim ((s.vm.mmDestroy ⟨a, [], none, 0, 0, 0⟩).map fun vm =>
            (s.setVm vm, false))
          fun mm => s.finishDup mm old p)
      Prod.snd (fun r => r.1.vm.kmem)
      (s.vm.kmem.serveAll (.pages 1 :: dupRequests (s.vm.dir old.pgdir)
        old.mmapList.reverse (s.vm.tablesOf s.bootPgdir)))
      (fun _ => True)
      fun r => ∃ vm, r.1 = s.setVm vm ∧ vm.kmem.Own z n base held ∧
        ∀ y ∈ insert a held ∪ s.vm.kmem.controls,
          vm.kmem.place y = s.vm.kmem.place y := by
  rw [Kmem.serveAll, Kmem.serve, setupPgdir]
  rcases Vm.allocPages_own h Nat.one_pos (by decide) with hnone |
    ⟨b, q, hsome, -, hdis, hown, -, -⟩
  · obtain ⟨k, hfree, hown, hplace⟩ := Vm.kfree_own h haddr
    have hserve : s.vm.kmem.pmm.allocPages 1 = some (s.vm.kmem.pmm, none) :=
      hnone
    rw [Vm.allocPages_none hnone, hserve]
    refine .inr (.inl ⟨(s.setVm (s.vm.setKmem k), false), s.vm.kmem, .pages 1,
      ?_, rfl, rfl, by decide, s.vm.setKmem k, rfl, hown,
      fun y _ => congrFun hplace y⟩)
    show (s.vm.kfree a).map _ = _
    rw [hfree]
    rfl
  · have hserve : s.vm.kmem.pmm.allocPages 1 = some (b, some q) := hsome
    rw [Vm.allocPages_some hsome, hserve]
    rw [Vm.Ico_one] at hown hdis
    have hq : q ∉ base := Set.disjoint_singleton_right.1 hdis
    generalize hvm : { s.vm.setPmm b with
      dir := update s.vm.dir q (s.vm.dir s.bootPgdir) } = vm
    have hkmem : vm.kmem = { s.vm.kmem with pmm := b } := by
      rw [← hvm]
      rfl
    have hnew : vm.dir q = s.vm.dir s.bootPgdir := by
      rw [← hvm]
      exact update_self ..
    have hdir : vm.dir old.pgdir = s.vm.dir old.pgdir := by
      rw [← hvm]
      have hne : old.pgdir ≠ q := fun heq => hq (heq ▸ hold.dir)
      exact update_of_ne hne _ _
    have hold' : Copyable z n base old (s.setVm vm).vm := by
      refine ⟨hold.areas, hold.sorted, hold.dir, fun la hp => ?_⟩
      have hentry : vm.entry old.pgdir la = s.vm.entry old.pgdir la :=
        Vm.entry_congr hdir
      rw [Vm.present] at hp
      rw [show (s.setVm vm).vm = vm from rfl, hentry] at hp ⊢
      exact hold.pages la hp
    have hdup : Vm.Dup z n (base ∪ {q}) (insert a held) ⟨a, [], none, q, 0, 0⟩
        (s.setVm vm).vm := by
      refine .start ?_ ?_ rfl rfl
      · show vm.kmem.Own z n _ _
        rw [hkmem]
        exact hown
      · exact hnew.trans hboot
    have htables : vm.tablesOf q = s.vm.tablesOf s.bootPgdir := by
      funext i
      rw [Vm.tablesOf, Vm.tablesOf, hnew]
    have hfinish := dupMm_finish ⟨a, [], none, q, 0, 0⟩ hmem hdup rfl hq haddr
      hold' p
    simp only [show (s.setVm vm).vm = vm from rfl, hdir, htables] at hfinish
    have hplace : vm.kmem.place = s.vm.kmem.place ∧
        vm.kmem.controls = s.vm.kmem.controls := by
      rw [hkmem]
      exact ⟨rfl, rfl⟩
    subst hvm
    exact hfinish

/-- `copy_mm` of an address space. -/
theorem dupMm_outcome (hmem : z + n ≤ 2 ^ 19) (h : s.vm.kmem.Own z n base held)
    (hboot : s.vm.dir s.bootPgdir = fun _ => none)
    (hold : Copyable z n base old s.vm) (p : Nat) :
    Outcome (s.dupMm old p) Prod.snd (fun r => r.1.vm.kmem)
      (s.vm.kmem.serveAll (s.mmRequests old)) (fun _ => True)
      fun r => ∃ vm, r.1 = s.setVm vm ∧ Vm.Back z n base held s.vm vm := by
  obtain ⟨k, r, hrun, hserve, hkept, -, hfail, htake⟩ :=
    Vm.kmalloc_own h (by decide : 1 ≤ sizeofMm) (by decide)
  rw [mmRequests, Kmem.serveAll, hserve, dupMm, Vm.mmCreate, hrun]
  cases r with
  | none =>
    exact .inr (.inl ⟨(s.setVm (s.vm.setKmem k), false), k, .object sizeofMm,
      rfl, rfl, rfl, by decide, s.vm.setKmem k, rfl, hfail rfl, hkept.place⟩)
  | some a =>
    obtain ⟨ha, hown⟩ := htake a rfl
    have hrest := dupMm_pgdir (s := s.setVm (s.vm.setKmem k)) hmem hown
      (fun hin => ha (.inl hin)) hboot ⟨hold.areas, hold.sorted, hold.dir,
        hold.pages⟩ p
    refine Outcome.mono hrest (fun _ => id) ?_
    rintro r ⟨vm, hr, hown', hplace⟩
    refine ⟨vm, hr, hown', fun y hy => ?_⟩
    have hy' : y ∈ insert a held ∪ k.controls :=
      hy.imp (.inr ·) (hkept.controls ·)
    exact (hplace y hy').trans (hkept.place y hy)

-- ===== cleanups

/-- `bad_fork_cleanup_proc`. -/
theorem cleanupProc_own (h : s.vm.kmem.Own z n base (insert p held))
    (hp : p ∉ held) : ∃ vm, s.cleanupProc p = some (s.setVm vm, -eNoMem) ∧
      vm.kmem.Own z n base held ∧ vm.kmem.place = s.vm.kmem.place := by
  obtain ⟨k, hrun, hown, hplace⟩ := Vm.kfree_own h hp
  refine ⟨s.vm.setKmem k, ?_, hown, hplace⟩
  rw [cleanupProc, hrun]
  rfl

/-- `bad_fork_cleanup_kstack`. -/
theorem cleanupKstack_own
    (h : s.vm.kmem.Own z n (base ∪ Set.Ico q (q + kstackpage)) (insert p held))
    (hdis : Disjoint base (Set.Ico q (q + kstackpage))) (hp : p ∉ held)
    (hstack : (s.procs.proc p).kstack = Kmem.page2kva q) :
    ∃ vm, s.cleanupKstack p = some (s.setVm vm, -eNoMem) ∧
      vm.kmem.Own z n base held ∧ vm.kmem.place = s.vm.kmem.place := by
  have hmem : q ∈ Set.Ico q (q + kstackpage) :=
    ⟨Nat.le_refl _, Nat.lt_add_of_pos_right (by decide)⟩
  have hlt : q < s.vm.pmm.npage :=
    Nat.lt_of_lt_of_le (h.inv.others (.inr hmem)).1.2 h.inv.good.bound
  obtain ⟨b, hrun, hown, -⟩ := Vm.freePages_own h hdis (by decide) (by decide)
  obtain ⟨vm, hrun', hown', hplace⟩ :=
    cleanupProc_own (s := s.setVm (s.vm.setPmm b)) hown hp
  refine ⟨vm, ?_, hown', hplace⟩
  rw [cleanupKstack, putKstack, hstack, Kmem.kva2page_page2kva hlt,
    Option.bind_some, hrun]
  exact hrun'

/-- The counts of the files are those of `files`, and so are the tables at
the addresses in `live`. -/
structure SameFiles (live : Set Nat) (files files' : Files) : Prop where
  refCount : files'.refCount = files.refCount
  openCount : files'.openCount = files.openCount
  fs : ∀ a ∈ live, files'.fs a = files.fs a

/-- The child's table of files can be dropped, whatever has happened to the
pages meanwhile. -/
def Droppable (z n : Nat) (held held' live : Set Nat) (v : Vops)
    (files : Files) (s : Sys) (p : Nat) : Prop :=
  ∀ base vm, vm.kmem.Own z n base held' →
    ∃ vm' files', (s.setVm vm).putFs v p
        = some ((s.setVm vm').setFiles files') ∧
      vm'.kmem.Own z n base held ∧ vm'.kmem.place = vm.kmem.place ∧
      SameFiles live files files'

/-- `bad_fork_cleanup_fs`. -/
theorem cleanupFs_own
    (hdrop : Droppable z n (insert p held) held' live v files s p)
    (h : vm.kmem.Own z n (base ∪ Set.Ico q (q + kstackpage)) held')
    (hdis : Disjoint base (Set.Ico q (q + kstackpage))) (hp : p ∉ held)
    (hstack : (s.procs.proc p).kstack = Kmem.page2kva q) :
    ∃ vm' files', (s.setVm vm).cleanupFs v p
        = some ((s.setVm vm').setFiles files', -eNoMem) ∧
      vm'.kmem.Own z n base held ∧ vm'.kmem.place = vm.kmem.place ∧
      SameFiles live files files' := by
  obtain ⟨vm', files', hput, hown, hplace, hfiles⟩ := hdrop _ vm h
  obtain ⟨vm'', hrun, hown', hplace'⟩ :=
    cleanupKstack_own (s := (s.setVm vm').setFiles files') hown hdis hp hstack
  refine ⟨vm'', files', ?_, hown', hplace'.trans hplace, hfiles⟩
  rw [cleanupFs, hput]
  exact hrun

/-- A table that is shared. -/
theorem droppable_shared (hfs : (s.procs.proc p).fs = some a)
    (hfiles : s.files = files.fsCountAdd a 1)
    (hcount : 0 < (files.fs a).fsCount) :
    Droppable z n held' held' live v files s p := by
  intro base vm h
  refine ⟨vm, files, ?_, h, rfl, rfl, rfl, fun _ _ => rfl⟩
  have hback : (s.setVm vm).files.fsCountAdd a (-1) = files := by
    rw [show (s.setVm vm).files = s.files from rfl, hfiles,
      Files.fsCountAdd_cancel]
  have hfs' : ((s.setVm vm).procs.proc p).fs = some a := hfs
  rw [putFs, hfs', Option.elim_some, hback]
  exact if_neg (by show ¬(files.fs a).fsCount = 0; omega)

/-- A table of the child's own. -/
theorem droppable_own {t w : Files} (hfs : (s.procs.proc p).fs = some a)
    (hfiles : s.files = t.fsCountAdd a 1)
    (hcount : (t.fs a).fsCount = 0) (hdestroy : t.fsDestroy v a = some w)
    (hsame : SameFiles live files w) (ha : a ∉ held) :
    Droppable z n held (insert a held) live v files s p := by
  intro base vm h
  obtain ⟨k, hfree, hown, hplace⟩ := Vm.kfree_own h ha
  refine ⟨vm.setKmem k, w, ?_, hown, hplace, hsame⟩
  have hback : (s.setVm vm).files.fsCountAdd a (-1) = t := by
    rw [show (s.setVm vm).files = s.files from rfl, hfiles,
      Files.fsCountAdd_cancel]
  have hfs' : ((s.setVm vm).procs.proc p).fs = some a := hfs
  rw [putFs, hfs', Option.elim_some, hback]
  refine (if_pos hcount).trans ?_
  show (t.fsDestroy v a).bind (fun files => (vm.kfree a).map _) = _
  rw [hdestroy, hfree]
  rfl

-- ===== the theorem

/-- Before a fork: `held` are the objects in use and `base` the pages in
use that are no slabs. -/
structure Forkable (z n : Nat) (base held : Set Nat) (s : Sys) : Prop where
  own : s.vm.kmem.Own z n base held
  mem : z + n ≤ 2 ^ 19
  current : s.procs.current ∈ held
  boot : s.vm.dir s.bootPgdir = fun _ => none
  fs : ∃ a ∈ s.cur.fs, a ∈ held ∧ s.files.Sound a
  mm : ∀ a ∈ s.cur.mm, Copyable z n base (s.mm a) s.vm

/-- What a fork that fails leaves: the process table, every object that was
in use and the counts are what they were. -/
structure Restored (s t : Sys) : Prop where
  procs : { t.procs with proc := s.procs.proc } = s.procs
  proc : ∀ x, s.vm.kmem.Live x → t.procs.proc x = s.procs.proc x
  mm : t.mm = s.mm
  pages : t.vm.pmm.nrFreePages = s.vm.pmm.nrFreePages
  live : ∀ x, t.vm.kmem.Live x ↔ s.vm.kmem.Live x
  refCount : t.files.refCount = s.files.refCount
  openCount : t.files.openCount = s.files.openCount
  fs : ∀ x, s.vm.kmem.Live x → t.files.fs x = s.files.fs x

/-- `do_fork` returns an error and nothing has changed. -/
def FailsCleanly (v : Vops) (cloneVm cloneFs : Bool) (s : Sys) : Prop :=
  ∃ t ret, s.doFork v cloneVm cloneFs = some (t, ret) ∧ ret < 0 ∧
    s.Restored t

/-- The system `t` while `s` forks the child `p`: only the child and the
files may have changed. -/
structure Forking (held : Set Nat) (s t : Sys) (p : Nat) : Prop where
  procs : ∃ f, t.procs = s.procs.setProc p f
  mm : t.mm = s.mm
  boot : t.bootPgdir = s.bootPgdir
  dir : t.vm.dir = s.vm.dir
  kept : Kmem.Kept held s.vm.kmem t.vm.kmem
  fresh : p ∉ held ∪ s.vm.kmem.controls

theorem Forking.cur (h : Forking held s t p)
    (hcur : s.procs.current ∈ held) : t.cur = s.cur := by
  obtain ⟨f, hprocs⟩ := h.procs
  have hne : s.procs.current ≠ p := fun heq => h.fresh (.inl (heq ▸ hcur))
  rw [Sys.cur, hprocs]
  exact update_of_ne hne _ _

theorem setProc_self (t : Sys) (p : Nat) (g : Proc → Proc) :
    (t.setProc p g).procs.proc p = g (t.procs.proc p) :=
  update_self ..

/-- The next change to the child. -/
theorem Forking.next (h : Forking held s t p) (vm : Vm) (files : Files)
    (g : Proc → Proc) (hdir : vm.dir = t.vm.dir)
    (hkept : Kmem.Kept held t.vm.kmem vm.kmem) :
    Forking held s (((t.setVm vm).setFiles files).setProc p g) p := by
  obtain ⟨f, hprocs⟩ := h.procs
  refine ⟨⟨g ∘ f, ?_⟩, h.mm, h.boot, hdir.trans h.dir,
    h.kept.trans hkept subset_rfl, h.fresh⟩
  show t.procs.setProc p g = _
  rw [hprocs]
  simp [Procs.setProc]

/-- Once the same objects are in use again, everything is restored. -/
theorem restored_of_back (hown : s.vm.kmem.Own z n base held)
    (hback : Vm.Back z n base held s.vm vm)
    (hfiles : SameFiles (held ∪ s.vm.kmem.controls) s.files files)
    (hprocs : { t.procs with proc := s.procs.proc } = s.procs)
    (hproc : ∀ x ∈ held ∪ s.vm.kmem.controls,
      t.procs.proc x = s.procs.proc x) (hmm : t.mm = s.mm) :
    s.Restored ((t.setVm vm).setFiles files) := by
  obtain ⟨hcontrols, -, hpages⟩ := hown.restored hback.own hback.place
  refine ⟨hprocs, fun x hx => hproc x (hown.live_iff.1 hx), hmm, hpages, ?_,
    hfiles.refCount, hfiles.openCount,
    fun x hx => hfiles.fs x (hown.live_iff.1 hx)⟩
  intro x
  show vm.kmem.Live x ↔ _
  rw [hback.own.live_iff, hown.live_iff, hcontrols]

theorem Forking.restored (h : Forking held s t p)
    (hown : s.vm.kmem.Own z n base held)
    (hback : Vm.Back z n base held s.vm vm)
    (hfiles : SameFiles (held ∪ s.vm.kmem.controls) s.files files) :
    s.Restored ((t.setVm vm).setFiles files) := by
  obtain ⟨f, hprocs⟩ := h.procs
  refine restored_of_back hown hback hfiles ?_ (fun x hx => ?_) h.mm
  · rw [hprocs]
    rfl
  · have hne : x ≠ p := fun heq => h.fresh (heq ▸ hx)
    rw [hprocs]
    exact update_of_ne hne _ _

theorem Forking.restored_vm (h : Forking held s t p)
    (hown : s.vm.kmem.Own z n base held)
    (hback : Vm.Back z n base held s.vm vm)
    (hfiles : t.files = s.files) : s.Restored (t.setVm vm) :=
  h.restored hown hback ⟨by rw [hfiles], by rw [hfiles],
    fun _ _ => by rw [hfiles]⟩

/-- A refused request ends the run: it is undone, or the assertion fails. -/
def Refusal (s : Sys) (run : Option (Sys × Int))
    (served : Option (Kmem × Option Request)) : Prop :=
  ∀ k r, served = some (k, some r) →
    (r ≠ .data ∧ ∃ t ret, run = some (t, ret) ∧ ret < 0 ∧ s.Restored t) ∨
      r = .data ∧ run = none

theorem Refusal.undone {run : Option (Sys × Int)} {k : Kmem} {r : Request}
    {ret : Int} (hr : r ≠ .data) (hrun : run = some (t, ret)) (hret : ret < 0)
    (hback : s.Restored t) : Refusal s run (some (k, some r)) := by
  intro k' r' hserved
  cases hserved
  exact .inl ⟨hr, t, ret, hrun, hret, hback⟩

/-- `do_fork` from `copy_mm` on. -/
def fromCopyMm (v : Vops) (cloneVm : Bool) (p : Nat) (s : Sys) :
    Option (Sys × Int) :=
  (s.copyMm cloneVm p).bind fun m =>
    if m.2 then
      (m.1.procs.addProc p).map fun r => ({ m.1 with procs := r.1 }, r.2)
    else m.1.cleanupFs v p

/-- `do_fork` from `copy_fs` on. -/
def fromCopyFs (v : Vops) (cloneVm cloneFs : Bool) (p : Nat) (s : Sys) :
    Option (Sys × Int) :=
  (s.copyFs cloneFs p).bind fun f =>
    if f.2 then f.1.fromCopyMm v cloneVm p else f.1.cleanupKstack p

/-- `do_fork` from `setup_kstack` on. -/
def fromSetupKstack (v : Vops) (cloneVm cloneFs : Bool) (p : Nat) (s : Sys) :
    Option (Sys × Int) :=
  (s.setupKstack p).bind fun k =>
    if k.2 then k.1.fromCopyFs v cloneVm cloneFs p else k.1.cleanupProc p

/-- `do_fork` from `alloc_proc` on. -/
def fromAllocProc (v : Vops) (cloneVm cloneFs : Bool) (s : Sys) :
    Option (Sys × Int) :=
  s.allocProc.bind fun a =>
    a.2.elim (some (a.1, -eNoMem)) fun p =>
      a.1.fromSetupKstack v cloneVm cloneFs p

theorem doFork_eq (v : Vops) (cloneVm cloneFs : Bool) (s : Sys) :
    s.doFork v cloneVm cloneFs =
      if maxProcess ≤ s.procs.nrProcess then some (s, -eNoFreeProc)
      else s.fromAllocProc v cloneVm cloneFs := rfl

/-- The requests of `copy_mm`. -/
def copyMmRequests (s : Sys) (cloneVm : Bool) : List Request :=
  s.cur.mm.elim [] fun a => if cloneVm then [] else s.mmRequests (s.mm a)

/-- From `copy_mm` on. -/
theorem Forking.copyMm_refusal (h : Forking held s t p)
    (hs : Forkable z n base held s)
    (hown : t.vm.kmem.Own z n (base ∪ Set.Ico q (q + kstackpage)) held')
    (hdis : Disjoint base (Set.Ico q (q + kstackpage)))
    (hstack : (t.procs.proc p).kstack = Kmem.page2kva q) (hsub : held ⊆ held')
    (hdrop : Droppable z n (insert p held) held'
      (held ∪ s.vm.kmem.controls) v s.files t p) (cloneVm : Bool) :
    Refusal s (t.fromCopyMm v cloneVm p)
      (t.vm.kmem.serveAll (s.copyMmRequests cloneVm)) := by
  intro k r hserved
  have hcur := h.cur hs.current
  rw [fromCopyMm, copyMm, hcur]
  rw [copyMmRequests] at hserved
  cases hmm : s.cur.mm with
  | none =>
    rw [hmm] at hserved
    cases hserved
  | some a =>
    rw [hmm, Option.elim_some] at hserved
    rw [Option.elim_some]
    cases cloneVm with
    | true => cases hserved
    | false =>
      have hcopy := hs.mm a hmm
      have hcopy' : Copyable z n (base ∪ Set.Ico q (q + kstackpage)) (s.mm a)
          t.vm := by
        refine ⟨hcopy.areas, hcopy.sorted, .inl hcopy.dir, fun la hp => ?_⟩
        have hentry : t.vm.entry (s.mm a).pgdir la
            = s.vm.entry (s.mm a).pgdir la := Vm.entry_congr (by rw [h.dir])
        rw [Vm.present, hentry] at hp
        rw [hentry]
        exact hcopy.pages la hp
      have hrun := dupMm_outcome hs.mem hown (by rw [h.boot, h.dir, hs.boot])
        hcopy' p
      have htables : t.vm.tablesOf s.bootPgdir = s.vm.tablesOf s.bootPgdir := by
        funext i
        rw [Vm.tablesOf, Vm.tablesOf, h.dir]
      have hreq : t.mmRequests (s.mm a) = s.mmRequests (s.mm a) := by
        rw [mmRequests, mmRequests, h.boot, h.dir, htables]
      rw [hreq, ← h.mm] at hrun
      rw [← h.mm] at hserved
      rw [if_neg Bool.false_ne_true] at hserved ⊢
      rcases hrun with ⟨x, -, -, hall, -⟩ |
        ⟨x, k', r', hx, hok, hall, hr, vm, hvm, hback⟩ | ⟨hx, k', hall⟩
      · rw [hall] at hserved
        cases hserved
      · rw [hall] at hserved
        cases hserved
        obtain ⟨vm', files', hclean, hown', hplace, hfiles⟩ :=
          cleanupFs_own hdrop hback.own hdis
            (fun hin => h.fresh (.inl hin)) hstack
        left
        refine ⟨hr, _, -eNoMem, ?_, by decide,
          h.restored hs.own ⟨hown', fun y hy => ?_⟩ hfiles⟩
        · rw [hx, Option.bind_some, hok, hvm]
          exact hclean
        · rw [hplace, hback.place y (hy.imp (hsub ·) (h.kept.controls ·))]
          exact h.kept.place y hy
      · rw [hall] at hserved
        obtain ⟨-, hr⟩ := Prod.mk.inj (Option.some.inj hserved)
        exact .inr ⟨(Option.some.inj hr).symm, by rw [hx]; rfl⟩

/-- The requests of `copy_fs`. -/
def copyFsRequests (cloneFs : Bool) : List Request :=
  if cloneFs then [] else [.object (sizeofFs + fsStructBufsize)]

/-- From `copy_fs` on. -/
theorem Forking.copyFs_refusal (v : Vops)
    (h : Forking held s t p) (hs : Forkable z n base held s)
    (hown : t.vm.kmem.Own z n (base ∪ Set.Ico q (q + kstackpage))
      (insert p held))
    (hdis : Disjoint base (Set.Ico q (q + kstackpage)))
    (hstack : (t.procs.proc p).kstack = Kmem.page2kva q)
    (hfiles : t.files = s.files) (cloneVm cloneFs : Bool) :
    Refusal s (t.fromCopyFs v cloneVm cloneFs p) (t.vm.kmem.serveAll
        (copyFsRequests cloneFs ++ s.copyMmRequests cloneVm)) := by
  obtain ⟨old, hold, hheld, hsound⟩ := hs.fs
  have hp : p ∉ held := fun hin => h.fresh (.inl hin)
  have hfs : t.cur.fs = some old := by rw [h.cur hs.current]; exact hold
  rw [fromCopyFs, copyFs, hfs, Option.bind_some]
  cases cloneFs with
  | true =>
    have hnext := h.next t.vm (s.files.fsCountAdd old 1)
      (fun x => { x with fs := some old }) rfl (.refl _ _)
    have hrest := hnext.copyMm_refusal (v := v) hs hown hdis
      (by rw [setProc_self]; exact hstack) (Set.subset_insert p held)
      (droppable_shared (by rw [setProc_self]) rfl hsound.count) cloneVm
    rw [hfiles]
    exact hrest
  | false =>
    obtain ⟨k, r, hrun, hserve, hkept, -, hfail, htake⟩ := Vm.kmalloc_own hown
      (by decide : 1 ≤ sizeofFs + fsStructBufsize) (by decide)
    have hkept' : Kmem.Kept held t.vm.kmem k :=
      ⟨hkept.controls, fun y hy => hkept.place y (hy.imp .inr id)⟩
    rw [hrun]
    have hreq : copyFsRequests false ++ s.copyMmRequests cloneVm
        = .object (sizeofFs + fsStructBufsize) :: s.copyMmRequests cloneVm :=
      rfl
    rw [hreq, Kmem.serveAll, hserve, Option.bind_some]
    cases r with
    | none =>
      obtain ⟨vm, hclean, hown', hplace⟩ := cleanupKstack_own
        (s := t.setVm (t.vm.setKmem k)) (hfail rfl) hdis hp hstack
      refine .undone (by decide) hclean (by decide)
        (h.restored_vm hs.own ⟨hown', fun y hy => ?_⟩ hfiles)
      rw [hplace]
      exact (hkept'.place y (hy.imp id (h.kept.controls ·))).trans
        (h.kept.place y hy)
    | some a =>
      obtain ⟨ha, hown'⟩ := htake a rfl
      have hlive : ∀ y ∈ held ∪ s.vm.kmem.controls, y ≠ a := by
        rintro y hy rfl
        exact ha (hy.imp .inr (h.kept.controls ·))
      obtain ⟨f, w, hdup, hcount, hdestroy, href, hopen, hother⟩ :=
        Files.dupFs_undo (a := a) v hsound (hlive old (.inl hheld))
      have hsame : SameFiles (held ∪ s.vm.kmem.controls) s.files w :=
        ⟨href, hopen, fun y hy => hother y (hlive y hy)⟩
      have hnext := h.next (t.vm.setKmem k) (f.fsCountAdd a 1)
        (fun x => { x with fs := some a }) rfl hkept'
      have hrest := hnext.copyMm_refusal hs hown' hdis
        (by rw [setProc_self]; exact hstack)
        ((Set.subset_insert p held).trans (Set.subset_insert a _))
        (droppable_own (by rw [setProc_self]) rfl hcount hdestroy hsame
          fun hin => ha (.inl hin)) cloneVm
      rw [Option.elim_some, hfiles, hdup]
      exact hrest

/-- From `setup_kstack` on. -/
theorem Forking.setupKstack_refusal (v : Vops) (h : Forking held s t p)
    (hs : Forkable z n base held s)
    (hown : t.vm.kmem.Own z n base (insert p held))
    (hfiles : t.files = s.files) (cloneVm cloneFs : Bool) :
    Refusal s (t.fromSetupKstack v cloneVm cloneFs p)
      (t.vm.kmem.serveAll (.pages kstackpage ::
        (copyFsRequests cloneFs ++ s.copyMmRequests cloneVm))) := by
  have hp : p ∉ held := fun hin => h.fresh (.inl hin)
  rw [Kmem.serveAll, Kmem.serve, fromSetupKstack, setupKstack]
  rcases Vm.allocPages_own hown (k := kstackpage) (by decide) (by decide) with
    hnone | ⟨b, q, hsome, -, hdis, hown', -, -⟩
  · have hserve : t.vm.kmem.pmm.allocPages kstackpage
        = some (t.vm.kmem.pmm, none) := hnone
    rw [Vm.allocPages_none hnone, hserve]
    obtain ⟨vm, hclean, hown', hplace⟩ :=
      cleanupProc_own (s := t.setVm t.vm) hown hp
    refine .undone (by decide) hclean (by decide)
      (h.restored_vm hs.own ⟨hown', fun y hy => ?_⟩ hfiles)
    rw [hplace]
    exact h.kept.place y hy
  · have hserve : t.vm.kmem.pmm.allocPages kstackpage = some (b, some q) :=
      hsome
    rw [Vm.allocPages_some hsome, hserve]
    have hnext := h.next (t.vm.setPmm b) t.files
      (fun x => { x with kstack := Kmem.page2kva q }) rfl
      ⟨subset_rfl, fun _ _ => rfl⟩
    exact hnext.copyFs_refusal v hs hown' hdis (by rw [setProc_self]) hfiles
      cloneVm cloneFs

/-- From `alloc_proc` on. -/
theorem Forkable.allocProc_refusal (v : Vops)
    (hs : Forkable z n base held s) (cloneVm cloneFs : Bool) :
    Refusal s (s.fromAllocProc v cloneVm cloneFs)
      (s.vm.kmem.serveAll (s.forkRequests cloneVm cloneFs)) := by
  have hreq : s.forkRequests cloneVm cloneFs = .object sizeofProc ::
      .pages kstackpage ::
        (copyFsRequests cloneFs ++ s.copyMmRequests cloneVm) := by
    rfl
  obtain ⟨k, r, hrun, hserve, hkept, -, hfail, htake⟩ :=
    Vm.kmalloc_own hs.own (by decide : 1 ≤ sizeofProc) (by decide)
  rw [hreq, Kmem.serveAll, hserve, fromAllocProc, allocProc, hrun]
  cases r with
  | none =>
    have hback : Vm.Back z n base held s.vm (s.vm.setKmem k) :=
      ⟨hfail rfl, hkept.place⟩
    exact .undone (by decide) rfl (by decide) (restored_of_back (t := s) hs.own
      hback ⟨rfl, rfl, fun _ _ => rfl⟩ rfl (fun _ _ => rfl) rfl)
  | some p =>
    obtain ⟨hp, hown⟩ := htake p rfl
    have hstart : Forking held s ((s.setVm (s.vm.setKmem k)).setProc p fun _ =>
        { Proc.alloc with parent := some s.procs.current }) p :=
      ⟨⟨fun _ => { Proc.alloc with parent := some s.procs.current }, rfl⟩,
        rfl, rfl, rfl, hkept, hp⟩
    exact hstart.setupKstack_refusal v hs hown rfl cloneVm cloneFs

/-- When an allocation of a fork is refused, the fork fails and nothing has
changed, exactly when the table is full or it is no page of data. -/
theorem Forkable.fork_fails_cleanly_iff (hs : Forkable z n base held s)
    (v : Vops) (cloneVm cloneFs : Bool) {k : Kmem} {r : Request}
    (hrefused : s.vm.kmem.serveAll (s.forkRequests cloneVm cloneFs)
      = some (k, some r)) :
    FailsCleanly v cloneVm cloneFs s ↔
      maxProcess ≤ s.procs.nrProcess ∨ r ≠ .data := by
  rw [FailsCleanly, doFork_eq]
  by_cases hfull : maxProcess ≤ s.procs.nrProcess
  · rw [if_pos hfull]
    refine ⟨fun _ => .inl hfull, fun _ => ⟨s, _, rfl, by decide, ?_⟩⟩
    exact ⟨rfl, fun _ _ => rfl, rfl, rfl, fun _ => Iff.rfl, rfl, rfl,
      fun _ _ => rfl⟩
  rw [if_neg hfull]
  rcases hs.allocProc_refusal v cloneVm cloneFs k r hrefused with
    ⟨hr, t, ret, hrun, hneg, hback⟩ | ⟨hr, hrun⟩
  · exact ⟨fun _ => .inr hr, fun _ => ⟨t, ret, hrun, hneg, hback⟩⟩
  · constructor
    · rintro ⟨t, ret, hsome, -⟩
      rw [hrun] at hsome
      cases hsome
    · rintro (hfull' | hdata)
      · exact absurd hfull' hfull
      · exact absurd hr hdata

-- ===== samples

/-- Free pages from page 5 on, after `slab_init`. -/
def sampleFree (n : Nat) : Vm where
  kmem := ((Kmem.sampleKmem (((Buddy.boot
    { Buddy.samplePages with npage := 5 + n }).initMemmap 5 n).getD
      Buddy.samplePages)).slabInit).getD (Kmem.sampleKmem Buddy.samplePages)
  frame _ _ := 0
  dir _ _ := none

theorem sampleFree_own (hpos : 0 < n) : (sampleFree n).kmem.Own 5 n ∅ ∅ := by
  obtain ⟨b, hb, -⟩ := Buddy.initMemmap_spec (z := 5) (n := n)
    { Buddy.samplePages with npage := 5 + n } rfl hpos (Nat.le_refl _)
  have hkmem : (Kmem.sampleKmem b).slabInit = some (sampleFree n).kmem := by
    rw [sampleFree, hb, Option.getD_some, Kmem.slabInit_eq, Option.getD_some]
  exact Kmem.own_start (s := Kmem.sampleKmem b)
    (Buddy.accounted_start rfl hpos (Nat.le_refl _) hb) hkmem

/-- The `proc_struct` of a process, its `fs_struct` and three pages: its
directory, a table and a page of data. -/
def sampleTaken (n : Nat) : Option (Vm × Nat × Nat × Nat) :=
  ((sampleFree n).kmalloc sizeofProc).bind fun a =>
    a.2.bind fun p =>
      (a.1.kmalloc (sizeofFs + fsStructBufsize)).bind fun b =>
        b.2.bind fun f =>
          (b.1.allocPages 3).bind fun c => c.2.map fun q => (c.1, p, f, q)

/-- The entry of the page of data. -/
def sampleEntry (q : Nat) : Word :=
  Vm.page2pa (q + 2) ||| pteP ||| pteP &&& Vm.pteUser

/-- The process at `p` with one page of memory and one open file. -/
def sampleProcess (vm : Vm) (p f q : Nat) : Sys where
  vm := { vm with
    dir := fun d i => if d = q ∧ i = 64 then
      some (q + 1, fun j => if j = 0 then sampleEntry q else 0) else none }
  mm _ := ⟨1, [⟨2, 0x10000000, 0x10001000, vmRead ||| vmWrite⟩], none, q, 1, 1⟩
  files :=
    { refCount := fun _ => 1
      openCount := fun _ => 1
      fs := fun _ => ⟨some 3, [⟨.opened, true, false, 0, 0, some 4, 1⟩], 1⟩ }
  procs :=
    { proc := fun _ => { Proc.alloc with mm := some 1, fs := some f }
      procList := [p]
      hashList := fun _ => []
      nrProcess := 2
      nextSafe := 8192
      lastPid := 1
      idleproc := 0
      initproc := p
      current := p
      runList := []
      timerList := [] }
  bootPgdir := 0

theorem sampleTaken_own (hpos : 0 < n) {p f : Nat}
    (h : sampleTaken n = some (vm, p, f, q)) :
    vm.kmem.Own 5 n (∅ ∪ Set.Ico q (q + 3)) (insert f (insert p ∅)) := by
  obtain ⟨k, r, hrun, -, -, -, -, htake⟩ := Vm.kmalloc_own
    (sampleFree_own hpos) (by decide : 1 ≤ sizeofProc) (by decide)
  rw [sampleTaken, hrun] at h
  cases r with
  | none => cases h
  | some p' =>
    obtain ⟨-, hown⟩ := htake p' rfl
    obtain ⟨k', r', hrun', -, -, -, -, htake'⟩ := Vm.kmalloc_own
      (s := (sampleFree n).setKmem k) hown
      (by decide : 1 ≤ sizeofFs + fsStructBufsize) (by decide)
    simp only [Option.bind_some, hrun'] at h
    cases r' with
    | none => cases h
    | some f' =>
      obtain ⟨-, hown'⟩ := htake' f' rfl
      rcases Vm.allocPages_own (s := ((sampleFree n).setKmem k).setKmem k')
        (k := 3) hown' (by decide) (by decide) with
        hnone | ⟨b, q', hsome, -, -, hown'', -, -⟩
      · simp only [Option.bind_some, Vm.allocPages_none hnone] at h
        cases h
      · simp only [Option.bind_some, Vm.allocPages_some hsome] at h
        cases h
        exact hown''

/-- The process may fork. -/
theorem sampleProcess_forkable (hpos : 0 < n) (hmem : 5 + n ≤ 2 ^ 19)
    {p f : Nat} (h : sampleTaken n = some (vm, p, f, q)) :
    Forkable 5 n (∅ ∪ Set.Ico q (q + 3)) (insert f (insert p ∅))
      (sampleProcess vm p f q) := by
  have hown := sampleTaken_own hpos h
  have hin : ∀ i < 3, 5 ≤ q + i ∧ q + i < 5 + n := fun i hi =>
    (hown.inv.others (.inr ⟨by omega, by omega⟩)).1
  have hhi := hin 2 (by omega)
  refine ⟨hown, hmem, .inr (.inl rfl), ?_, ⟨f, rfl, .inl rfl, ?_⟩, ?_⟩
  · funext i
    have hne : ¬(0 = q ∧ i = 64) := by omega
    exact if_neg hne
  · refine ⟨Int.one_pos, fun _ _ => Int.one_pos, ?_⟩
    intro file hfile _
    obtain rfl := List.mem_singleton.1 hfile
    exact ⟨4, rfl, Int.one_pos, Int.one_pos⟩
  · intro a _
    refine ⟨?_, List.pairwise_singleton _ _, ?_, ?_⟩
    · intro v hv
      obtain rfl := List.mem_singleton.1 hv
      exact ⟨by decide, by decide, by decide⟩
    · exact .inr ⟨Nat.le_refl q, Nat.lt_add_of_pos_right (by decide)⟩
    · intro la hp
      obtain ⟨-, hto, -⟩ := Vm.mkPte_spec (q := q + 2) (by omega)
        (show ptepPresent pteP = true by decide)
      have hentry : (sampleProcess vm p f q).vm.entry q la
          = if Vm.pdx la = 64 ∧ Vm.ptx la = 0 then sampleEntry q else 0 := by
        by_cases h64 : Vm.pdx la = 64
        · simp [Vm.entry, Vm.getPte, sampleProcess, h64]
        · simp [Vm.entry, Vm.getPte, sampleProcess, h64]
      change ptepPresent ((sampleProcess vm p f q).vm.entry q la) = true at hp
      show (ppn (pteAddr ((sampleProcess vm p f q).vm.entry q la))).toNat < _
      rw [hentry] at hp ⊢
      by_cases hhere : Vm.pdx la = 64 ∧ Vm.ptx la = 0
      · rw [if_pos hhere, sampleEntry]
        omega
      · rw [if_neg hhere] at hp
        exact absurd hp (by decide)

/-- What the file system does is of no account. -/
def sampleVops : Vops := ⟨fun _ f => f, fun _ f => f⟩

/-- With eleven pages there is none left for the table. -/
theorem fork_fails_cleanly_table :
    ∃ vm p f q, sampleTaken 11 = some (vm, p, f, q) ∧
      FailsCleanly sampleVops false false (sampleProcess vm p f q) := by
  refine ⟨_, _, _, _, rfl, ?_⟩
  have hs := sampleProcess_forkable (n := 11) (by decide) (by decide) rfl
  exact (hs.fork_fails_cleanly_iff sampleVops false false (r := .table) rfl).2
    (.inr (by decide))

/-- With twelve, a table is made and there is none left for the data. -/
theorem fork_stops_at_data :
    ∃ vm p f q base held, sampleTaken 12 = some (vm, p, f, q) ∧
      Forkable 5 12 base held (sampleProcess vm p f q) ∧
      (sampleProcess vm p f q).procs.nrProcess < maxProcess ∧
      (∃ k, (sampleProcess vm p f q).vm.kmem.serveAll
        ((sampleProcess vm p f q).forkRequests false false)
          = some (k, some .data)) ∧
      (sampleProcess vm p f q).doFork sampleVops false false = none := by
  exact ⟨_, _, _, _, _, _, rfl,
    sampleProcess_forkable (n := 12) (by decide) (by decide) rfl, by decide,
    ⟨_, rfl⟩, rfl⟩

end Sys

end MipsUcore.Kern
