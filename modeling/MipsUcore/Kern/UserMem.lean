/-
The gate between user pointers and the kernel: `user_mem_check` and
`copy_string` in `vmm.c`.

User memory is a function from addresses to bytes; that a byte is there
when the kernel reads it is the page fault handler's work. `copy_string`
returns, besides what the source returns, the destination and which user
bytes it has read. Addresses are numbers below `2^32`, and sums wrap
around as in the source.
-/
import MipsUcore.Kern.Vmm

namespace MipsUcore.Kern

open Vm

/-- `KERN_ACCESS`; `KMEMSIZE` is 4 MB on the board (`MACH_FPGA`). -/
def kernAccess (start stop : Nat) : Prop :=
  0x80000000 ≤ start ∧ start < stop ∧ stop ≤ 0x80000000 + 1 <<< 22

instance (start stop : Nat) : Decidable (kernAccess start stop) :=
  inferInstanceAs (Decidable (_ ∧ _ ∧ _))

namespace Vma

/-- The tests of `user_mem_check` on the area of `start`. -/
def refuses (vma : Vma) (start : Nat) (write : Bool) : Bool :=
  decide (start < vma.vmStart) ||
    vma.vmFlags &&& (if write then vmWrite else vmRead) == 0 ||
    write && vma.vmFlags &&& vmStack != 0 &&
      decide (start < (vma.vmStart + pgsize) % 2 ^ 32)

end Vma

namespace Mm

/-- `while (start < end)` of `user_mem_check`; `fuel` bounds the rounds. -/
def userMemCheckFrom (stop : Nat) (write : Bool) :
    Nat → Nat → Mm → Option (Bool × Mm)
  | 0, start, mm => if start < stop then none else some (true, mm)
  | fuel + 1, start, mm =>
    if start < stop then
      let found := mm.findVma start
      found.1.elim (some (false, found.2)) fun vma =>
        if vma.refuses start write then some (false, found.2)
        else userMemCheckFrom stop write fuel vma.vmEnd found.2
    else some (true, mm)

/-- `user_mem_check` for an address space. -/
def userMemCheck (mm : Mm) (addr len : Nat) (write : Bool) :
    Option (Bool × Mm) :=
  let stop := (addr + len) % 2 ^ 32
  if userAccess addr stop then
    userMemCheckFrom stop write (stop - addr) addr mm
  else some (false, mm)

end Mm

/-- `user_mem_check`; without an address space the caller is the kernel. -/
def userMemCheck (mm : Option Mm) (addr len : Nat) (write : Bool) :
    Option (Bool × Option Mm) :=
  mm.elim (some (decide (kernAccess addr ((addr + len) % 2 ^ 32)), none))
    fun mm => (mm.userMemCheck addr len write).map fun r => (r.1, some r.2)

def strnlen (mem : Nat → BitVec 8) (src : Nat) : Nat → Nat
  | 0 => 0
  | len + 1 => if mem src = 0 then 0 else strnlen mem (src + 1) len + 1

/-- The end of `copy_string`; `reads` are ranges of user bytes. -/
structure CopyString where
  ret : Bool
  mm : Mm
  dst : Nat → BitVec 8
  reads : List (Nat × Nat)

namespace CopyString

variable (mem : Nat → BitVec 8)

/-- `memcpy(dst + off, src, len)`. -/
def memcpy (dst : Nat → BitVec 8) (off src len : Nat) : Nat → BitVec 8 :=
  fun j => if off ≤ j ∧ j < off + len then mem (src + (j - off)) else dst j

/-- The loop of `copy_string`, with `off` bytes behind it; `fuel` bounds the
rounds. -/
def loop (dst : Nat → BitVec 8) (reads : List (Nat × Nat)) :
    Nat → Nat → Nat → Nat → Nat → Mm → Option CopyString
  | 0, _, _, _, _, _ => none
  | fuel + 1, off, src, maxn, part, mm =>
    let part := if maxn < part then maxn else part
    (mm.userMemCheck src part false).bind fun r =>
      if r.1 then
        let alen := strnlen mem src part
        if alen < part then
          some ⟨true, r.2, memcpy mem dst off src (alen + 1),
            reads ++ [(src, alen + 1)]⟩
        else if part = maxn then
          some ⟨false, r.2, dst, reads ++ [(src, part)]⟩
        else
          loop (memcpy mem dst off src part) (reads ++ [(src, part)]) fuel
            (off + part) ((src + part) % 2 ^ 32) (maxn - part) pgsize r.2
      else some ⟨false, r.2, dst, reads⟩

end CopyString

def copyString (mem : Nat → BitVec 8) (mm : Mm) (dst : Nat → BitVec 8)
    (src maxn : Nat) : Option CopyString :=
  let part :=
    (roundDown ((src + pgsize) % 2 ^ 32) pgshift + 2 ^ 32 - src) % 2 ^ 32
  CopyString.loop mem dst [] maxn 0 src maxn part mm

end MipsUcore.Kern
