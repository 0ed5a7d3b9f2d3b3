/-
Page mappings and the operations that change them: `pmm.c`, and their
callers in `vmm.c`, `trap.c` and `proc.c`.

# What is inside and what is asked

The state is every page directory, the reference counts, the pages
handed back to the allocator, the directory in use, the TLB and the slot
counter of `tlb_refill`. Two things an operation asks the rest of the
kernel for are arguments here, with any answer allowed: the page each
call of `alloc_page` returns, and the area `find_vma` finds. `panic` and
`assert` stop the kernel: an operation that reaches one returns `none`.

Counters that nothing reads (`pgfault_num`, `entercnt`), the messages,
and the swap branch, which `swap_init_ok == 0` disables, are left out.
-/
import MipsUcore.Kern.Mmu
import Mathlib.Logic.Function.Basic

namespace MipsUcore.Kern

open Cpu Function

variable {ι : Type} [DecidableEq ι]

-- ===== state

/-- The state; `ι` names the page directories. -/
structure Kernel (ι : Type) where
  npage : Word
  pgdir : ι → PageDir
  ref : Word → Int            -- by page number
  freed : List Word           -- pages given back, last first
  currentPgdir : ι
  tlb : Tlb
  refillIndex : Word

/-- The zeroed page behind a new table. -/
def PageTable.zero : PageTable := fun _ => 0

/-- The entry for `la`, 0 where there is no table. -/
def PageDir.pteAt (d : PageDir) (la : Word) : Word :=
  match d (pdx la) with
  | some t => t (ptx la)
  | none => 0

namespace Kernel

variable (k : Kernel ι)

def tlbInvalidateAll : Kernel ι :=
  { k with tlb := Kern.tlbInvalidateAll k.tlb }

def lcr3 (cr3 : ι) : Kernel ι := { k with currentPgdir := cr3 }

-- ===== pmm.h

def page2pa (page : Word) : Word := kernbase + page <<< 12

/-- `pa2page`; panics past the last page. -/
def pa2page (pa : Word) : Option Word :=
  if k.npage ≤ ppn pa then none else some (ppn pa)

/-- `pte2page`; panics on an absent entry. -/
def pte2page (pte : Word) : Option Word :=
  if !ptepPresent pte then none else k.pa2page (pteAddr pte)

/-- `page_ref_inc` and `page_ref_dec`. -/
def pageRefAdd (page : Word) (n : Int) : Kernel ι :=
  { k with ref := update k.ref page (k.ref page + n) }

def freePage (page : Word) : Kernel ι := { k with freed := page :: k.freed }

-- ===== pmm.c

/-- `*pdep = …`, with a whole table. -/
def setPde (d : ι) (la : Word) (t : PageTable) : Kernel ι :=
  { k with
    pgdir := update k.pgdir d
      (update (k.pgdir d) (pdx la) (some t)) }

/-- `*ptep = pte` through the table of `la`. -/
def setPte (d : ι) (la pte : Word) : Kernel ι :=
  match k.pgdir d (pdx la) with
  | some t => k.setPde d la (update t (ptx la) pte)
  | none => k

/-- `get_pte` with `create == 0`. -/
def getPte (d : ι) (la : Word) : Option PtePtr :=
  (k.pgdir d (pdx la)).map fun t => ⟨t, ptx la⟩

/-- `get_pte` with `create == 1`; `table` is what `alloc_page` returns if
a table page is needed. -/
def getPteCreate (d : ι) (la : Word) (table : Option Word) :
    Kernel ι × Option PtePtr :=
  match k.pgdir d (pdx la) with
  | some t => (k, some ⟨t, ptx la⟩)
  | none =>
    match table with
    | none => (k, none)
    | some p =>
      ((k.pageRefAdd p 1).setPde d la .zero, some ⟨.zero, ptx la⟩)

/-- `page_remove_pte`, for a pointer into the table of `la`. -/
def pageRemovePte (d : ι) (la : Word) (ptep : PtePtr) : Option (Kernel ι) :=
  if ptepPresent ptep.read then do
    let page ← k.pte2page ptep.read
    let k := k.pageRefAdd page (-1)
    let k := if k.ref page = 0 then k.freePage page else k
    return (k.setPte d la 0).tlbInvalidateAll
  else some k.tlbInvalidateAll

def pageRemove (d : ι) (la : Word) : Option (Kernel ι) :=
  match k.getPte d la with
  | some ptep => k.pageRemovePte d la ptep
  | none => some k

/-- The release of the old mapping in `page_insert`. -/
def releaseOld (d : ι) (page la : Word) (ptep : PtePtr) :
    Option (Kernel ι) :=
  if ptepPresent ptep.read then do
    let p ← k.pte2page ptep.read
    if p = page then return k.pageRefAdd page (-1)
    else k.pageRemovePte d la ptep
  else some k

/-- `page_insert`; the result says whether it succeeded. -/
def pageInsert (d : ι) (page la perm : Word) (table : Option Word) :
    Option (Kernel ι × Bool) :=
  match k.getPteCreate d la table with
  | (k, none) => some (k, false)                       -- -E_NO_MEM
  | (k, some ptep) => do
    let k ← (k.pageRefAdd page 1).releaseOld d page la ptep
    return ((k.setPte d la (page2pa page ||| pteP ||| perm)).tlbInvalidateAll,
      true)

/-- `pgdir_alloc_page`; the result is the page, if any. -/
def pgdirAllocPage (d : ι) (la perm : Word) (page table : Option Word) :
    Option (Kernel ι × Option Word) :=
  match page with
  | none => some (k, none)
  | some p => do
    let (k, ok) ← k.pageInsert d p la perm table
    if ok then return (k, some p) else return (k.freePage p, none)

/-- Where the loop of `unmap_range` goes from page `p`: to the next page,
or past a directory entry without a table. -/
def nextPage (p : BitVec 20) (hasTable : Bool) : BitVec 20 :=
  if hasTable then p + 1 else (p.extractLsb' 10 10 + 1) ++ 0#10

/-- The loop makes progress until it wraps around. -/
theorem nextPage_gt {p : BitVec 20} {b : Bool} (h : nextPage p b ≠ 0) :
    p.toNat < (nextPage p b).toNat := by
  cases b with
  | true =>
    have hne : p + 1 ≠ 0 := h
    show p.toNat < (p + 1).toNat
    bv_omega
  | false =>
    have hq : (p.extractLsb' 10 10).toNat = p.toNat / 1024 := by
      rw [BitVec.extractLsb'_toNat, Nat.shiftRight_eq_div_pow,
        Nat.mod_eq_of_lt (by omega)]
    have hval (q : BitVec 10) : (q ++ 0#10).toNat = q.toNat * 1024 := by
      rw [BitVec.toNat_append, BitVec.toNat_zero, Nat.or_zero,
        Nat.shiftLeft_eq]
    show p.toNat < ((p.extractLsb' 10 10 + 1) ++ 0#10).toNat
    have hne : p.extractLsb' 10 10 + 1 ≠ 0 := by
      intro hz
      apply h
      show (p.extractLsb' 10 10 + 1) ++ 0#10 = 0#20
      rw [hz]
      decide
    rw [hval]
    have hsucc : (p.extractLsb' 10 10 + 1).toNat
        = (p.extractLsb' 10 10).toNat + 1 := by bv_omega
    omega

/-- The `do … while` loop of `unmap_range`, on page numbers: `start` is
`p ++ 0#12`. -/
def unmapLoop (k : Kernel ι) (d : ι) (p : BitVec 20) (stop : Word) :
    Option (Kernel ι) :=
  let la : Word := p ++ 0#12
  let removed : Option (Kernel ι) :=
    match k.getPte d la with
    | none => some k
    | some ptep =>
      if ptep.read ≠ 0 then k.pageRemovePte d la ptep else some k
  let next := nextPage p (k.getPte d la).isSome
  match removed with
  | none => none
  | some k =>
    if _h : next ≠ 0 ∧ (next ++ 0#12 : Word) < stop then
      unmapLoop k d next stop
    else some k
termination_by 2 ^ 20 - p.toNat
decreasing_by
  have hgt : p.toNat < next.toNat := nextPage_gt _h.1
  exact Nat.sub_lt_sub_left p.isLt hgt

def userbase : Word := 0x10000000#32
def usertop : Word := 0x80000000#32

def unmapRange (d : ι) (start stop : Word) : Option (Kernel ι) :=
  if start.extractLsb' 0 12 = 0 ∧ stop.extractLsb' 0 12 = 0 ∧
      userbase ≤ start ∧ start < stop ∧ stop ≤ usertop then
    k.unmapLoop d (start.extractLsb' 12 20) stop
  else none

-- ===== vmm.c

/-- A virtual memory area, as far as a fault looks at it. -/
structure Vma where
  vmStart : Word
  vmRead : Bool
  vmWrite : Bool
  vmExec : Bool

/-- The permission switch of `do_pgfault` on `error_code & 3`. -/
def Vma.allows (v : Vma) (present write : Bool) : Bool :=
  if write then v.vmWrite
  else if present then false
  else v.vmRead || v.vmExec

/-- `do_pgfault` in the address space with directory `d`. The result says
whether it returned 0. -/
def doPgfault (d : ι) (present write : Bool) (addr : Word)
    (vma : Option Vma) (table page : Option Word) :
    Option (Kernel ι × Bool) :=
  match vma with
  | none => some (k, false)
  | some v =>
    if v.vmStart > addr then some (k, false)
    else if !v.allows present write then some (k, false)
    else
      let perm := if v.vmWrite then pteU ||| pteW else pteU
      let addr := addr &&& ~~~0xfff#32
      match k.getPteCreate d addr table with
      | (k, none) => some (k, false)
      | (k, some ptep) =>
        if ptep.read = 0 then do
          let (k, p) ← k.pgdirAllocPage d addr perm page none
          return (k, p.isSome)
        else some (k, false)

-- ===== trap.c

/-- What a TLB miss trap brings along: the faulting address, the mode,
the kind of access, the address space of the process, and the answers of
`find_vma` and `alloc_page`. -/
structure Miss (ι : Type) where
  badaddr : Word
  inKernel : Bool
  write : Bool
  mm : ι
  vma : Option Vma
  table : Option Word
  page : Option Word

/-- `handle_tlbmiss`. A refused access ends in `panic` from kernel mode
and in `do_exit` from user mode; the result says whether the handler
returned instead. -/
def handleTlbmiss (m : Miss ι) : Option (Kernel ι × Bool) :=
  match k.getPte k.currentPgdir m.badaddr with
  | none => fault m false
  | some ptep =>
    if ptepInvalid ptep.read then fault m (ptepPresent ptep.read)
    else if !m.inKernel && !ptepURead ptep.read then some (k, false)
    else if !m.inKernel && m.write && !ptepUWrite ptep.read then
      some (k, false)
    else
      let (t, i) := tlbRefill k.tlb k.refillIndex m.badaddr (some ptep)
      some ({ k with tlb := t, refillIndex := i }, true)
where
  /-- The page fault branch. -/
  fault (m : Miss ι) (present : Bool) : Option (Kernel ι × Bool) := do
    let (k, ok) ← k.doPgfault m.mm present m.write m.badaddr m.vma m.table
      m.page
    if !ok && m.inKernel then none else return (k, ok)

-- ===== proc.c

/-- `proc_run`; `same` says that the process is the running one. -/
def procRun (same : Bool) (cr3 : ι) : Kernel ι :=
  if same then k else (k.lcr3 cr3).tlbInvalidateAll

end Kernel

-- ===== runs

/-- One operation of the kernel on its page tables or the TLB. -/
inductive Op (ι : Type) where
  | pageInsert (d : ι) (page la perm : Word) (table : Option Word)
  | pageRemove (d : ι) (la : Word)
  | unmapRange (d : ι) (start stop : Word)
  | pageFault (d : ι) (present write : Bool) (addr : Word)
      (vma : Option Kernel.Vma) (table page : Option Word)
  | tlbMiss (m : Kernel.Miss ι)
  | procRun (same : Bool) (cr3 : ι)

/-- The state after an operation; `none` after a panic. -/
def Kernel.perform (k : Kernel ι) : Op ι → Option (Kernel ι)
  | .pageInsert d page la perm table =>
    (k.pageInsert d page la perm table).map Prod.fst
  | .pageRemove d la => k.pageRemove d la
  | .unmapRange d start stop => k.unmapRange d start stop
  | .pageFault d present write addr vma table page =>
    (k.doPgfault d present write addr vma table page).map Prod.fst
  | .tlbMiss m => (k.handleTlbmiss m).map Prod.fst
  | .procRun same cr3 => some (k.procRun same cr3)

/-- The state after a list of operations. -/
def Kernel.performAll (k : Kernel ι) : List (Op ι) → Option (Kernel ι)
  | [] => some k
  | op :: ops => (k.perform op).bind fun k => k.performAll ops

end MipsUcore.Kern
