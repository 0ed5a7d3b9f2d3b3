/-
A user instruction that misses in the TLB: `control.v` raises the exception,
`trap.c` handles it, and the instruction is tried again.

# What is tried

An exception in a delay slot returns to the branch, so what is tried is the
instruction alone or the branch and the instruction (`Restart`). Each is
looked up for its fetch and, unless its address is misaligned, for its
access. The flags that `ex_mem` would latch for these answers decide, as in
the priority chain, which miss is taken (`ExMem.tlbMiss`).

# What answers

Pages come from the allocator, one for a table and one for the page at each
miss, if they are needed. The areas of the process answer `find_vma` for
whole pages (`Areas`).
-/
import MipsUcore.Cpu.Sequential
import MipsUcore.Kern.Pmm

namespace MipsUcore

namespace Cpu

-- ===== hardware

/-- The TLB miss the priority chain takes, if no interrupt is due. -/
def ExMem.tlbMiss (m : ExMem) : Option Trap :=
  if m.tlbMissRead then some (.tlbMissLoad m.memBadAddress)
  else if m.tlbMissWrite then some (.tlbMissStore m.memBadAddress)
  else none

namespace Inst

variable (x : Inst)

/-- The image of the instruction in `ex_mem` where `t` answers its fetch and
its access. -/
def seen (t : Tlb) : ExMem :=
  exMem { x with pcTLBMiss := !(t.lookup x.pc false).validAddress }
    (t.lookup x.ram.ramAddress x.ram.ramWriteEnable)

/-- The addresses it looks up, each with whether it writes there. -/
def accesses : List (Word × Bool) :=
  (x.pc, false) :: if x.ram.active && !misaligned x.ram then
    [(x.ram.ramAddress, x.ram.ramWriteEnable)] else []

end Inst

/-- An instruction with the branch in front of it, if it stands in a delay
slot. -/
structure Restart where
  branch : Option Inst
  inst : Inst
  isInDelaySlot : inst.isInDelaySlot = branch.isSome
  pc : ∀ b ∈ branch, inst.pc = b.pc + 4
  first : ∀ b ∈ branch, b.isInDelaySlot = false
  quiet : ∀ b ∈ branch, b.ram.active = false

namespace Restart

variable (c : Restart)

/-- The instructions from the return address on. -/
def insts : List Inst := c.branch.toList ++ [c.inst]

/-- The return address. -/
def epc : Word := (c.branch.getD c.inst).pc

def accesses : List (Word × Bool) := c.insts.flatMap Inst.accesses

/-- The first miss. -/
def tlbMiss (t : Tlb) : Option Trap :=
  c.insts.findSome? fun x => (x.seen t).tlbMiss

end Restart

end Cpu

namespace Kern

open Cpu

variable {ι : Type} [DecidableEq ι]

-- ===== trap.c

/-- What `find_vma` answers: an area contains whole pages. -/
structure Areas where
  find : Word → Option Kernel.Vma
  page : ∀ a b : Word, a.extractLsb' 12 20 = b.extractLsb' 12 20 →
    find a = find b

/-- `EX_TLBS`, as opposed to `EX_TLBL`. -/
def isTlbs : Trap → Bool
  | .tlbMissStore _ => true
  | _ => false

namespace Kernel

/-- The arguments of `handle_tlbmiss` for a miss of the process. -/
def missOf (k : Kernel ι) (areas : Areas) (pages : Word × Word) (t : Trap) :
    Miss ι where
  badaddr := t.badaddr.getD 0
  inKernel := false
  write := isTlbs t
  mm := k.currentPgdir
  vma := areas.find (t.badaddr.getD 0)
  table := some pages.1
  page := some pages.2

/-- The instruction is tried once: it misses and the handler runs, or it
gets all its translations. `none` if the process is killed. -/
def attempt (c : Restart) (areas : Areas) (pages : Word × Word)
    (k : Kernel ι) : Option (Kernel ι) :=
  match c.tlbMiss k.tlb with
  | none => some k
  | some t =>
    (k.handleTlbmiss (k.missOf areas pages t)).bind fun r =>
      if r.2 then some r.1 else none

/-- It is tried a number of times; `pages` are the answers of the
allocator. -/
def attempts (c : Restart) (areas : Areas) :
    (Nat → Word × Word) → Nat → Kernel ι → Option (Kernel ι)
  | _, 0, k => some k
  | pages, n + 1, k => (k.attempt c areas (pages 0)).bind fun k =>
    k.attempts c areas (fun i => pages (i + 1)) n

end Kernel

end Kern

end MipsUcore
