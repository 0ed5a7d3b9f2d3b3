/-
`do_fork`: `proc.c` over memory, files and the process table.

A system (`Sys`) is all of these together. The `mm_struct`s are kept by
their address; the one a fork is building is passed along until it belongs
to the new process. `boot_pgdir` is named by its page. Of `copy_thread`
nothing is kept: it writes to the new kernel stack only. Locks are left out:
nobody is suspended while a fork runs.

`none` is a panic or a failed assertion.
-/
import MipsUcore.Kern.Proc
import MipsUcore.Kern.Files
import MipsUcore.Kern.Vmm

namespace MipsUcore.Kern

open Function

structure Sys where
  vm : Vm
  mm : Nat → Mm
  files : Files
  procs : Procs
  bootPgdir : Nat

/-- `sizeof(struct proc_struct)`. -/
def sizeofProc : Nat := 176

def kstackpage : Nat := 2

namespace Sys

variable (s : Sys)

def setVm (vm : Vm) : Sys := { s with vm := vm }

def setFiles (files : Files) : Sys := { s with files := files }

def setProc (p : Nat) (f : Proc → Proc) : Sys :=
  { s with procs := s.procs.setProc p f }

/-- `current`. -/
def cur : Proc := s.procs.proc s.procs.current

-- ===== the parts

/-- `alloc_proc`, and the child's parent. -/
def allocProc : Option (Sys × Option Nat) :=
  (s.vm.kmalloc sizeofProc).map fun r =>
    r.2.elim (s.setVm r.1, none) fun p =>
      ((s.setVm r.1).setProc p fun _ =>
        { Proc.alloc with parent := some s.procs.current }, some p)

/-- `setup_kstack`; `false` is `-E_NO_MEM`. -/
def setupKstack (p : Nat) : Option (Sys × Bool) :=
  (s.vm.allocPages kstackpage).map fun r =>
    r.2.elim (s.setVm r.1, false) fun page =>
      ((s.setVm r.1).setProc p fun x => { x with kstack := Kmem.page2kva page },
        true)

def putKstack (p : Nat) : Option Sys :=
  (Kmem.kva2page s.vm.pmm.npage (s.procs.proc p).kstack).bind fun page =>
    (s.vm.freePages page kstackpage).map s.setVm

/-- `copy_fs`; `false` is an error. -/
def copyFs (cloneFs : Bool) (p : Nat) : Option (Sys × Bool) :=
  s.cur.fs.bind fun old =>
    if cloneFs then
      some ((s.setFiles (s.files.fsCountAdd old 1)).setProc p fun x =>
        { x with fs := some old }, true)
    else
      (s.vm.kmalloc (sizeofFs + fsStructBufsize)).bind fun r =>
        r.2.elim (some (s.setVm r.1, false)) fun a =>
          ((s.files.fsCreate a).dupFs a old).map fun files =>
            (((s.setVm r.1).setFiles (files.fsCountAdd a 1)).setProc p
              fun x => { x with fs := some a }, true)

def putFs (v : Vops) (p : Nat) : Option Sys :=
  (s.procs.proc p).fs.elim (some s) fun a =>
    let s := s.setFiles (s.files.fsCountAdd a (-1))
    if (s.files.fs a).fsCount = 0 then
      (s.files.fsDestroy v a).bind fun files =>
        (s.vm.kfree a).map fun vm => (s.setFiles files).setVm vm
    else some s

/-- `setup_pgdir`: a copy of `boot_pgdir`, or `-E_NO_MEM`. -/
def setupPgdir (mm : Mm) : Option (Sys × Option Mm) :=
  (s.vm.allocPages 1).map fun r =>
    r.2.elim (s.setVm r.1, none) fun page =>
      (s.setVm { r.1 with
        dir := update r.1.dir page (r.1.dir s.bootPgdir) },
        some { mm with pgdir := page })

def putPgdir (mm : Mm) : Option Sys :=
  (Kmem.kva2page s.vm.pmm.npage (Kmem.page2kva mm.pgdir)).bind fun page =>
    (s.vm.freePages page 1).map s.setVm

/-- `copy_mm` when the address space is copied; `false` is an error. -/
def dupMm (old : Mm) (p : Nat) : Option (Sys × Bool) :=
  s.vm.mmCreate.bind fun r =>
    let s := s.setVm r.1
    r.2.elim (some (s, false)) fun mm =>
      (s.setupPgdir mm).bind fun d =>
        let s := d.1
        d.2.elim ((s.vm.mmDestroy mm).map fun vm => (s.setVm vm, false))
          fun mm =>
            (s.vm.dupMmap mm old).bind fun c =>
              let s := s.setVm c.1
              let mm := c.2.1
              if c.2.2 then
                let mm := { mm with mmCount := mm.mmCount + 1 }
                some ({ s with
                  mm := update s.mm mm.addr mm }.setProc p
                    fun x => { x with mm := some mm.addr }, true)
              else
                (s.vm.exitMmap mm).bind fun vm =>
                  ((s.setVm vm).putPgdir mm).bind fun s =>
                    (s.vm.mmDestroy mm).map fun vm => (s.setVm vm, false)

/-- `copy_mm`; `false` is an error. -/
def copyMm (cloneVm : Bool) (p : Nat) : Option (Sys × Bool) :=
  s.cur.mm.elim (some (s, true)) fun a =>
    if cloneVm then
      let mm := { s.mm a with mmCount := (s.mm a).mmCount + 1 }
      some ({ s with mm := update s.mm a mm }.setProc p fun x =>
        { x with mm := some a }, true)
    else s.dupMm (s.mm a) p

-- ===== do_fork

/-- `bad_fork_cleanup_proc`. -/
def cleanupProc (p : Nat) : Option (Sys × Int) :=
  (s.vm.kfree p).map fun vm => (s.setVm vm, -eNoMem)

/-- `bad_fork_cleanup_kstack`. -/
def cleanupKstack (p : Nat) : Option (Sys × Int) :=
  (s.putKstack p).bind fun s => s.cleanupProc p

/-- `bad_fork_cleanup_fs`. -/
def cleanupFs (v : Vops) (p : Nat) : Option (Sys × Int) :=
  (s.putFs v p).bind fun s => s.cleanupKstack p

/-- `do_fork`; the flags are `CLONE_VM` and `CLONE_FS`. -/
def doFork (v : Vops) (cloneVm cloneFs : Bool) : Option (Sys × Int) :=
  if maxProcess ≤ s.procs.nrProcess then some (s, -eNoFreeProc)
  else
    s.allocProc.bind fun a =>
      a.2.elim (some (a.1, -eNoMem)) fun p =>
        (a.1.setupKstack p).bind fun k =>
          if k.2 then
            (k.1.copyFs cloneFs p).bind fun f =>
              if f.2 then
                (f.1.copyMm cloneVm p).bind fun m =>
                  if m.2 then
                    (m.1.procs.addProc p).map fun r =>
                      ({ m.1 with procs := r.1 }, r.2)
                  else m.1.cleanupFs v p
              else f.1.cleanupKstack p
          else k.1.cleanupProc p

end Sys

-- ===== allocations

/-- What a fork asks the allocators for. -/
inductive Request
  | object (size : Nat)
  | pages (k : Nat)
  | table
  | data
  deriving DecidableEq

namespace Kmem

/-- A page for a table or for data, which is counted as used once. -/
def serveMapped (s : Kmem) : Option (Kmem × Bool) :=
  (s.pmm.allocPages 1).map fun r =>
    r.2.elim ({ s with pmm := r.1 }, false) fun page =>
      ({ s with
        pmm := r.1.setPage page fun p => { p with ref := p.ref + 1 } }, true)

/-- A request is served, or refused. -/
def serve (s : Kmem) : Request → Option (Kmem × Bool)
  | .object size => (s.kmalloc size).map fun r => (r.1, r.2.isSome)
  | .pages k =>
    (s.pmm.allocPages k).map fun r => ({ s with pmm := r.1 }, r.2.isSome)
  | .table => s.serveMapped
  | .data => s.serveMapped

/-- Requests served in order, up to the first that is refused. -/
def serveAll : List Request → Kmem → Option (Kmem × Option Request)
  | [], s => some (s, none)
  | r :: rs, s =>
    (s.serve r).bind fun a =>
      if a.2 then serveAll rs a.1 else some (a.1, some r)

end Kmem

/-- The requests of `copy_range` from `start` on, over the source's
directory; `tables` are the tables the destination has, then and
afterwards. -/
def copyRequests (src : Dir) (stop : Nat) :
    Nat → Nat → (Nat → Bool) → List Request × (Nat → Bool)
  | 0, _, tables => ([], tables)
  | fuel + 1, start, tables =>
    let table := src (Vm.pdx start)
    let next := if table.isSome then (start + pgsize) % 2 ^ 32
      else Vm.roundDown ((start + Vm.ptsize) % 2 ^ 32) Vm.pgshift
    let here := table.elim ([], tables) fun t =>
      if ptepPresent (t.2 (Vm.ptx start)) then
        (if tables (Vm.pdx start) then [.data] else [.table, .data],
          update tables (Vm.pdx start) true)
      else ([], tables)
    if next ≠ 0 ∧ next < stop then
      let rest := copyRequests src stop fuel next here.2
      (here.1 ++ rest.1, rest.2)
    else here

/-- The requests of `dup_mmap`. -/
def dupRequests (src : Dir) : List Vma → (Nat → Bool) → List Request
  | [], _ => []
  | vma :: rest, tables =>
    let c := copyRequests src vma.vmEnd
      ((vma.vmEnd - vma.vmStart) / pgsize) vma.vmStart tables
    .object sizeofVma :: (c.1 ++ dupRequests src rest c.2)

/-- The requests of `do_fork`. -/
def Sys.forkRequests (s : Sys) (cloneVm cloneFs : Bool) : List Request :=
  [.object sizeofProc, .pages kstackpage] ++
    (if cloneFs then [] else [.object (sizeofFs + fsStructBufsize)]) ++
    s.cur.mm.elim [] fun a =>
      if cloneVm then []
      else [.object sizeofMm, .pages 1] ++
        dupRequests (s.vm.dir (s.mm a).pgdir) (s.mm a).mmapList.reverse
          fun i => (s.vm.dir s.bootPgdir i).isSome

end MipsUcore.Kern
