/-
Page tables over the page allocator: `pmm.c` with memory underneath.

`Kern.Pmm` follows what the page tables and the TLB say to each other, and
takes the answers of `alloc_page` as arguments. Here the allocator answers
itself, pages have contents, and a directory entry knows which page its
table is in; the TLB, which none of these functions reads, is left out.

# How the source's data is kept

A page directory is named by its page. A directory entry is absent or a
table page together with the table; the kernel reaches the table through
the address in the entry, and a table page comes zeroed from the allocator
and belongs to one entry. Contents (`frame`) are bytes. A table's words
are in its entry while it is a table, and go to `frame` when its page is
given back.

Linear addresses are numbers below `2^32`. `none` is a panic or a failed
assertion.
-/
import MipsUcore.Kern.Kmalloc
import MipsUcore.Kern.Mmu

namespace MipsUcore.Kern

open Cpu Function

/-- The bytes of a page. -/
abbrev Frame := Nat → BitVec 8

/-- A page directory: for each entry the page of a table and the table. -/
abbrev Dir := Nat → Option (Nat × (Nat → Word))

/-- Memory: the allocators, the contents of pages, and the page
directories by their page. -/
structure Vm where
  kmem : Kmem
  frame : Nat → Frame
  dir : Nat → Dir

namespace Vm

-- ===== mmu.h

def pgshift : Nat := 12

def ptshift : Nat := 22

def ptsize : Nat := pgsize * 1024

def pdx (la : Nat) : Nat := la >>> 22 % 1024

def ptx (la : Nat) : Nat := la >>> 12 % 1024

/-- `ROUNDDOWN_2N`. -/
def roundDown (a n : Nat) : Nat := a >>> n <<< n

def pteUser : Word := pteU ||| pteW ||| pteP

def userAccess (start stop : Nat) : Prop :=
  0x10000000 ≤ start ∧ start < stop ∧ stop ≤ 0x80000000

instance (start stop : Nat) : Decidable (userAccess start stop) :=
  inferInstanceAs (Decidable (_ ∧ _ ∧ _))

def page2pa (page : Nat) : Word := kernbase + BitVec.ofNat 32 page <<< 12

-- ===== pages

variable (s : Vm)

/-- The page allocator. -/
def pmm : Buddy := s.kmem.pmm

def setPmm (pmm : Buddy) : Vm := { s with kmem := { s.kmem with pmm := pmm } }

def allocPages (k : Nat) : Option (Vm × Option Nat) :=
  (s.pmm.allocPages k).map fun r => (s.setPmm r.1, r.2)

def freePages (page k : Nat) : Option Vm :=
  (s.pmm.freePages page k).map s.setPmm

/-- `page_ref_inc` and `page_ref_dec`. -/
def pageRefAdd (page : Nat) (i : Int) : Vm :=
  s.setPmm (s.pmm.setPage page fun p => { p with ref := p.ref + i })

def setFrame (page : Nat) (f : Frame) : Vm :=
  { s with frame := update s.frame page f }

def pa2page (pa : Word) : Option Nat :=
  if (ppn pa).toNat < s.pmm.npage then some (ppn pa).toNat else none

def pte2page (pte : Word) : Option Nat :=
  if ptepPresent pte then s.pa2page (pteAddr pte) else none

-- ===== page tables

def setPde (d la : Nat) (e : Option (Nat × (Nat → Word))) : Vm :=
  { s with
    dir := update s.dir d (update (s.dir d) (pdx la) e) }

/-- `*ptep = pte` through the table of `la`. -/
def setPte (d la : Nat) (pte : Word) : Vm :=
  (s.dir d (pdx la)).elim s fun t =>
    s.setPde d la (some (t.1, update t.2 (ptx la) pte))

/-- What `get_pte` with `create == 0` points at. -/
def getPte (d la : Nat) : Option Word :=
  (s.dir d (pdx la)).map fun t => t.2 (ptx la)

/-- `get_pte` with `create == 1`: what it points at, unless no page is left
for a table. -/
def getPteCreate (d la : Nat) : Option (Vm × Option Word) :=
  (s.dir d (pdx la)).elim
    ((s.allocPages 1).map fun r =>
      r.2.elim (r.1, none) fun p =>
        ((r.1.pageRefAdd p 1).setPde d la (some (p, fun _ => 0)), some 0))
    fun t => some (s, some (t.2 (ptx la)))

/-- `page_remove_pte`; `pte` is `*ptep`. -/
def pageRemovePte (d la : Nat) (pte : Word) : Option Vm :=
  if ptepPresent pte then
    (s.pte2page pte).bind fun page =>
      let s := s.pageRefAdd page (-1)
      (if (s.pmm.page page).ref = 0 then s.freePages page 1
        else some s).map fun s => s.setPte d la 0
  else some s

def pageRemove (d la : Nat) : Option Vm :=
  (s.getPte d la).elim (some s) fun pte => s.pageRemovePte d la pte

/-- The release of an old mapping in `page_insert`. -/
def releaseOld (d page la : Nat) (pte : Word) : Option Vm :=
  if ptepPresent pte then
    (s.pte2page pte).bind fun p =>
      if p = page then some (s.pageRefAdd page (-1))
      else s.pageRemovePte d la pte
  else some s

/-- `page_insert`; `false` is `-E_NO_MEM`. -/
def pageInsert (d page la : Nat) (perm : Word) : Option (Vm × Bool) :=
  (s.getPteCreate d la).bind fun r =>
    r.2.elim (some (r.1, false)) fun pte =>
      ((r.1.pageRefAdd page 1).releaseOld d page la pte).map fun s =>
        (s.setPte d la (page2pa page ||| pteP ||| perm), true)

def pgdirAllocPage (d la : Nat) (perm : Word) : Option (Vm × Option Nat) :=
  (s.allocPages 1).bind fun r =>
    r.2.elim (some (r.1, none)) fun page =>
      (r.1.pageInsert d page la perm).bind fun i =>
        if i.2 then some (i.1, some page)
        else (i.1.freePages page 1).map fun s => (s, none)

-- ===== copy_range

/-- A present entry of the source in `copy_range`. -/
def copyPage (dst la : Nat) (pte : Word) : Option (Vm × Bool) :=
  (s.getPteCreate dst la).bind fun r =>
    r.2.elim (some (r.1, false)) fun _ =>
      (r.1.pte2page pte).bind fun page =>
        (r.1.allocPages 1).bind fun a =>
          a.2.bind fun npage =>
            ((a.1.setFrame npage (a.1.frame page)).pageInsert dst npage la
              (pte &&& pteUser)).map fun i => (i.1, true)

/-- The body of the loop of `copy_range`; `false` is `-E_NO_MEM`. -/
def copyStep (dst src start : Nat) : Option (Vm × Bool) :=
  (s.getPte src start).elim (some (s, true)) fun pte =>
    if ptepPresent pte then s.copyPage dst start pte else some (s, true)

/-- Where the loop of `copy_range` goes: to the next page, or, where there
is no table, as far ahead as a table is large. -/
def copyNext (src start : Nat) : Nat :=
  if (s.getPte src start).isSome then (start + pgsize) % 2 ^ 32
  else roundDown ((start + ptsize) % 2 ^ 32) pgshift

/-- The loop of `copy_range`; `fuel` bounds the rounds. -/
def copyLoop (dst src stop : Nat) : Nat → Vm → Nat → Option (Vm × Bool)
  | 0, _, _ => none
  | fuel + 1, s, start =>
    (s.copyStep dst src start).bind fun r =>
      if r.2 then
        if s.copyNext src start ≠ 0 ∧ s.copyNext src start < stop then
          copyLoop dst src stop fuel r.1 (s.copyNext src start)
        else some (r.1, true)
      else some (r.1, false)

/-- `copy_range`; `false` is `-E_NO_MEM`. The loop never reads `share`. -/
def copyRange (dst src start stop : Nat) (_share : Bool) :
    Option (Vm × Bool) :=
  if start % pgsize = 0 ∧ stop % pgsize = 0 ∧ userAccess start stop then
    copyLoop dst src stop ((stop - start) / pgsize) s start
  else none

-- ===== unmap and exit

/-- The body of the loop of `unmap_range`. -/
def unmapStep (d start : Nat) : Option Vm :=
  (s.getPte d start).elim (some s) fun pte =>
    if pte ≠ 0 then s.pageRemovePte d start pte else some s

/-- Where the loop of `unmap_range` goes: to the next page, or, where there
is no table, to the next table. -/
def unmapNext (d start : Nat) : Nat :=
  if (s.getPte d start).isSome then (start + pgsize) % 2 ^ 32
  else roundDown ((start + ptsize) % 2 ^ 32) ptshift

/-- The loop of `unmap_range`; `fuel` bounds the rounds. -/
def unmapLoop (d stop : Nat) : Nat → Vm → Nat → Option Vm
  | 0, _, _ => none
  | fuel + 1, s, start =>
    (s.unmapStep d start).bind fun t =>
      if s.unmapNext d start ≠ 0 ∧ s.unmapNext d start < stop then
        unmapLoop d stop fuel t (s.unmapNext d start)
      else some t

def unmapRange (d start stop : Nat) : Option Vm :=
  if start % pgsize = 0 ∧ stop % pgsize = 0 ∧ userAccess start stop then
    unmapLoop d stop ((stop - start) / pgsize) s start
  else none

/-- The words of a table as the bytes of its page. -/
def tableBytes (table : Nat → Word) : Frame :=
  fun o => (table (o / 4)).extractLsb' (8 * (o % 4)) 8

/-- The body of the loop of `exit_range`. -/
def exitStep (d start : Nat) : Option Vm :=
  (s.dir d (pdx start)).elim (some s) fun t =>
    if t.1 < s.pmm.npage then
      ((s.setFrame t.1 (tableBytes t.2)).freePages t.1 1).map fun s =>
        s.setPde d start none
    else none

/-- The loop of `exit_range`; `fuel` bounds the rounds. -/
def exitLoop (d stop : Nat) : Nat → Vm → Nat → Option Vm
  | 0, _, _ => none
  | fuel + 1, s, start =>
    (s.exitStep d start).bind fun t =>
      if (start + ptsize) % 2 ^ 32 ≠ 0 ∧ (start + ptsize) % 2 ^ 32 < stop then
        exitLoop d stop fuel t ((start + ptsize) % 2 ^ 32)
      else some t

def exitRange (d start stop : Nat) : Option Vm :=
  if start % pgsize = 0 ∧ stop % pgsize = 0 ∧ userAccess start stop then
    exitLoop d stop 1024 s (roundDown start ptshift)
  else none

end Vm

end MipsUcore.Kern
