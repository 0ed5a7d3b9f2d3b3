/-
Address spaces: `vmm.c`.

An address space (`mm_struct`) is a page directory and a list of areas
(`vma_struct`), sorted by start address. The areas and the structure itself
come from `kmalloc`; their addresses are kept, since they are what `kfree`
gets back. An area is never changed after it has been linked, so the cached
area is kept as a value.

`mm_sem`, `locked_by` and `sm_priv`, which nothing here reads, and the
counter `pgfault_num` and the messages of `do_pgfault` are left out;
`swap_init_ok` is 0.
-/
import MipsUcore.Kern.Vm

namespace MipsUcore.Kern

open Cpu

-- ===== vmm.h

def vmRead : Word := 1#32
def vmWrite : Word := 2#32
def vmExec : Word := 4#32
def vmStack : Word := 8#32

/-- `vma_struct`, at the address `kmalloc` gave. -/
structure Vma where
  addr : Nat
  vmStart : Nat
  vmEnd : Nat
  vmFlags : Word
  deriving DecidableEq

/-- `mm_struct`; `pgdir` is the page of the directory. -/
structure Mm where
  addr : Nat
  mmapList : List Vma
  mmapCache : Option Vma
  pgdir : Nat
  mapCount : Nat
  mmCount : Nat

/-- `sizeof(struct vma_struct)`. -/
def sizeofVma : Nat := 24

/-- `sizeof(struct mm_struct)`. -/
def sizeofMm : Nat := 44

namespace Mm

-- ===== areas

def findVma (mm : Mm) (addr : Nat) : Option Vma × Mm :=
  let hit := mm.mmapCache.filter fun v => v.vmStart ≤ addr ∧ addr < v.vmEnd
  let vma := hit.orElse fun _ => mm.mmapList.find? fun v => addr < v.vmEnd
  (vma, vma.elim mm fun v => { mm with mmapCache := some v })

def checkVmaOverlap (prev next : Vma) : Prop :=
  prev.vmStart < prev.vmEnd ∧ prev.vmEnd ≤ next.vmStart ∧
    next.vmStart < next.vmEnd

instance (prev next : Vma) : Decidable (checkVmaOverlap prev next) :=
  inferInstanceAs (Decidable (_ ∧ _ ∧ _))

/-- `insert_vma_struct`: behind the areas that do not start later. -/
def insertVmaStruct (mm : Mm) (vma : Vma) : Option Mm :=
  let before := mm.mmapList.takeWhile fun v => v.vmStart ≤ vma.vmStart
  let after := mm.mmapList.dropWhile fun v => v.vmStart ≤ vma.vmStart
  if vma.vmStart < vma.vmEnd ∧
      (∀ prev ∈ before.getLast?, checkVmaOverlap prev vma) ∧
      ∀ next ∈ after.head?, checkVmaOverlap vma next then
    some { mm with
      mmapList := before ++ vma :: after
      mapCount := mm.mapCount + 1 }
  else none

end Mm

namespace Vm

variable (s : Vm)

/-- `ROUNDUP_2N`. -/
def roundUp (a n : Nat) : Nat := roundDown ((a + 1 <<< n - 1) % 2 ^ 32) n

-- ===== allocation

def setKmem (kmem : Kmem) : Vm := { s with kmem := kmem }

def kmalloc (size : Nat) : Option (Vm × Option Nat) :=
  (s.kmem.kmalloc size).map fun r => (s.setKmem r.1, r.2)

def kfree (objp : Nat) : Option Vm := (s.kmem.kfree objp).map s.setKmem

def vmaCreate (vmStart vmEnd : Nat) (vmFlags : Word) :
    Option (Vm × Option Vma) :=
  (s.kmalloc sizeofVma).map fun r =>
    (r.1, r.2.map fun addr => ⟨addr, vmStart, vmEnd, vmFlags⟩)

/-- `mm_map`; `false` is an error. -/
def mmMap (mm : Mm) (addr len : Nat) (vmFlags : Word) :
    Option (Vm × Mm × Bool) :=
  let start := roundDown addr pgshift
  let stop := roundUp ((addr + len) % 2 ^ 32) pgshift
  if ¬userAccess start stop then some (s, mm, false)
  else
    let found := mm.findVma start
    if ∃ v ∈ found.1, v.vmStart < stop then some (s, found.2, false)
    else
      (s.vmaCreate start stop vmFlags).bind fun r =>
        r.2.elim (some (r.1, found.2, false)) fun vma =>
          (found.2.insertVmaStruct vma).map fun mm => (r.1, mm, true)

-- ===== copying and dropping

/-- `mm_create`; the directory is not set yet. -/
def mmCreate : Option (Vm × Option Mm) :=
  (s.kmalloc sizeofMm).map fun r =>
    (r.1, r.2.map fun addr => ⟨addr, [], none, 0, 0, 0⟩)

/-- The loop of `dup_mmap`, from the last area to the first; `false` is
`-E_NO_MEM`. -/
def dupAreas (src : Nat) : List Vma → Vm → Mm → Option (Vm × Mm × Bool)
  | [], s, dst => some (s, dst, true)
  | vma :: rest, s, dst =>
    (s.vmaCreate vma.vmStart vma.vmEnd vma.vmFlags).bind fun r =>
      r.2.elim (some (r.1, dst, false)) fun nvma =>
        (dst.insertVmaStruct nvma).bind fun dst =>
          (r.1.copyRange dst.pgdir src vma.vmStart vma.vmEnd false).bind
            fun c =>
              if c.2 then dupAreas src rest c.1 dst else some (c.1, dst, false)

def dupMmap (dst src : Mm) : Option (Vm × Mm × Bool) :=
  dupAreas src.pgdir src.mmapList.reverse s dst

/-- `unmap_range` of each area. -/
def unmapAreas (d : Nat) : List Vma → Vm → Option Vm
  | [], s => some s
  | vma :: rest, s =>
    (s.unmapRange d vma.vmStart vma.vmEnd).bind (unmapAreas d rest)

/-- `exit_range` of each area. -/
def exitAreas (d : Nat) : List Vma → Vm → Option Vm
  | [], s => some s
  | vma :: rest, s =>
    (s.exitRange d vma.vmStart vma.vmEnd).bind (exitAreas d rest)

def exitMmap (mm : Mm) : Option Vm :=
  if mm.mmCount = 0 then
    (unmapAreas mm.pgdir mm.mmapList s).bind
      (exitAreas mm.pgdir mm.mmapList)
  else none

/-- `kfree` of each area. -/
def freeAreas : List Vma → Vm → Option Vm
  | [], s => some s
  | vma :: rest, s => (s.kfree vma.addr).bind (freeAreas rest)

def mmDestroy (mm : Mm) : Option Vm :=
  if mm.mmCount = 0 then
    (freeAreas mm.mmapList s).bind fun s => s.kfree mm.addr
  else none

-- ===== page faults

/-- The switch of `do_pgfault` on `error_code & 3`. -/
def faultAllowed (vmFlags : Word) (errorCode : Nat) : Bool :=
  if errorCode % 4 = 0 then vmFlags &&& (vmRead ||| vmExec) != 0
  else if errorCode % 4 = 1 then false
  else vmFlags &&& vmWrite != 0

/-- `do_pgfault`; `true` is 0. -/
def doPgfault (mm : Mm) (errorCode addr : Nat) : Option (Vm × Mm × Bool) :=
  let found := mm.findVma addr
  found.1.elim (some (s, found.2, false)) fun vma =>
    if addr < vma.vmStart ∨ faultAllowed vma.vmFlags errorCode = false then
      some (s, found.2, false)
    else
      let perm := if vma.vmFlags &&& vmWrite != 0 then pteU ||| pteW else pteU
      let la := roundDown addr pgshift
      (s.getPteCreate mm.pgdir la).bind fun r =>
        if r.2 = some 0 then
          (r.1.pgdirAllocPage mm.pgdir la perm).map fun a =>
            (a.1, found.2, a.2.isSome)
        else some (r.1, found.2, false)

end Vm

end MipsUcore.Kern
