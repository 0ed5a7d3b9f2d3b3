/-
Page tables and the TLB as the kernel sees them: `mmu.h`,
`glue_pgmap.h`, `thumips_tlb.h` and `thumips_tlb.c`.

# Page directories

A page directory has 1024 entries, each absent or pointing at a table of
1024 page table entries. The kernel reaches a table through the address
in the directory entry; here the entry is the table itself. Two facts of
the kernel stand behind that: a table page comes zeroed from the
allocator and belongs to one directory entry, and no other use of the
page overlaps. A pointer to a page table entry is a table and an index
into it (`PtePtr`).

# The hardware

`write_one_tlb` ends in `tlbwi`; what that stores is the hardware's own
definition, `Cpu.Tlb.next`, with the four CP0 registers it has just been
given.
-/
import MipsUcore.Cpu.Tlb

namespace MipsUcore.Kern

open Cpu

-- ===== mmu.h

def kernbase : Word := 0x80000000#32
def pteP : Word := 0x001#32
def pteW : Word := 0x002#32
def pteU : Word := 0x004#32

/-- `PDX`: the page directory index. -/
def pdx (la : Word) : BitVec 10 := la.extractLsb' 22 10

/-- `PTX`: the page table index. -/
def ptx (la : Word) : BitVec 10 := la.extractLsb' 12 10

/-- `PPN`: the page number of a kernel address. -/
def ppn (la : Word) : Word := (la - kernbase) >>> 12

/-- `PTE_ADDR`: the address in a page table entry. -/
def pteAddr (pte : Word) : Word := pte &&& ~~~0xfff#32

/-- A page table. -/
abbrev PageTable := BitVec 10 → Word

/-- A page directory. -/
abbrev PageDir := BitVec 10 → Option PageTable

/-- A pointer to a page table entry. -/
structure PtePtr where
  table : PageTable
  index : BitVec 10

/-- `*ptep`. -/
def PtePtr.read (p : PtePtr) : Word := p.table p.index

-- ===== glue_pgmap.h

def ptepInvalid (pte : Word) : Bool := pte == 0
def ptepPresent (pte : Word) : Bool := pte &&& pteP != 0
def ptepSWrite (pte : Word) : Bool := pte &&& pteW != 0
def ptepURead (pte : Word) : Bool := pte &&& pteU != 0
def ptepUWrite (pte : Word) : Bool := pte &&& pteU != 0 && pte &&& pteW != 0

-- ===== thumips_tlb.h

def thumipsTlbEntrylV : Word := 1#32 <<< 1
def thumipsTlbEntrylD : Word := 1#32 <<< 2
def thumipsTlbEntrylG : Word := 1#32 <<< 0
def thumipsTlbEntryhVpn2Mask : Word := ~~~0x1fff#32

/-- `write_one_tlb`: load the four CP0 registers and execute `tlbwi`. -/
def writeOneTlb (t : Tlb) (index hi low0 low1 : Word) : Tlb :=
  t.next true index low0 low1 hi

/-- `pte2tlblow`: the `entrylo` image of a page table entry. -/
def pte2tlblow (pte : Word) : Word :=
  if !ptepPresent pte then 0
  else
    let t := ((pte - kernbase) >>> 12) <<< 6 ||| thumipsTlbEntrylV
      ||| thumipsTlbEntrylG ||| 2#32 <<< 3
    if ptepSWrite pte then t ||| thumipsTlbEntrylD else t

/-- `tlb_refill`: the pair of entries around `pte` into the next slot.
The static slot counter is passed and returned. -/
def tlbRefill (t : Tlb) (index badaddr : Word) (pte : Option PtePtr) :
    Tlb × Word :=
  match pte with
  | none => (t, index)
  | some p =>
    let i := if badaddr &&& 1#32 <<< 12 != 0 then p.index - 1 else p.index
    (writeOneTlb t (index &&& 0xf#32) (badaddr &&& thumipsTlbEntryhVpn2Mask)
      (pte2tlblow (p.table i)) (pte2tlblow (p.table (i + 1))), index + 1)

/-- One round of the loop of `tlb_invalidate_all`. -/
def invalidateOne (t : Tlb) (i : Nat) : Tlb :=
  writeOneTlb t (BitVec.ofNat 32 i)
    (0x80000000#32 + BitVec.ofNat 32 i <<< 20) 0 0

/-- `tlb_invalidate_all`: 128 writes, on the sixteen slots eight times
over. -/
def tlbInvalidateAll (t : Tlb) : Tlb := (List.range 128).foldl invalidateOne t

end MipsUcore.Kern
