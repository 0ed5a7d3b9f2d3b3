/-
The loader: the parts of `load_icode` in `proc.c` that map a segment and
that pass the arguments.

`load_icode_read` seeks and reads; what it answers is a property of the
file, kept in `Image`: whether a read of `len` bytes at an offset succeeds,
and the bytes. Addresses wrap around at `2^32` as in the source. Each of the
two loops maps one page a round, and is given as many rounds as there are
pages up to its end; it cannot end with more, for an address that wrapped
around would be mapped anew from 0 on.

The arguments are stored through user addresses. A store goes through where
the page is there or `do_pgfault` maps it (`accepts`), and is a panic
elsewhere; the kernel's copies of the strings are lists without the NUL.
-/
import MipsUcore.Kern.Vmm

namespace MipsUcore.Kern

open Cpu

/-- The fields of `proghdr` that are used. -/
structure ProgHdr where
  pOffset : Nat
  pVa : Nat
  pFilesz : Nat
  pMemsz : Nat
  pFlags : Word

/-- A file: its bytes, and which reads succeed. -/
structure Image where
  byte : Nat → BitVec 8
  readable : Nat → Nat → Bool

def elfPfX : Word := 1#32
def elfPfW : Word := 2#32
def elfPfR : Word := 4#32

namespace ProgHdr

/-- `vm_flags` of a segment. -/
def vmFlags (ph : ProgHdr) : Word :=
  (if ph.pFlags &&& elfPfX != 0 then vmExec else 0) |||
    (if ph.pFlags &&& elfPfW != 0 then vmWrite else 0) |||
    (if ph.pFlags &&& elfPfR != 0 then vmRead else 0)

/-- `perm` after a segment; it is not reset between segments. -/
def nextPerm (ph : ProgHdr) (perm : Word) : Word :=
  let perm := perm ||| pteU
  if ph.vmFlags &&& vmWrite != 0 then perm ||| pteW else perm

/-- Where the file part of a segment ends. -/
def fileEnd (ph : ProgHdr) : Nat := (ph.pVa + ph.pFilesz) % 2 ^ 32

/-- Where a segment ends. -/
def memEnd (ph : ProgHdr) : Nat := (ph.pVa + ph.pMemsz) % 2 ^ 32

end ProgHdr

/-- The variables of the loops: `page` is not set before the first round. -/
structure Loading where
  vm : Vm
  page : Option Nat
  start : Nat
  la : Nat
  offset : Nat

namespace Vm

/-- `size` bytes from `off` on are written. -/
def writeFrame (s : Vm) (page off size : Nat) (bytes : Nat → BitVec 8) : Vm :=
  s.setFrame page fun o =>
    if off ≤ o ∧ o < off + size then bytes (o - off) else s.frame page o

end Vm

namespace Loading

/-- One round of either loop: a page is mapped at `la` and the part of it
from `start` to `stop` filled. `fill` gives the bytes, or fails. -/
def mapRound (pgdir : Nat) (perm : Word) (stop : Nat)
    (fill : Nat → Nat → Option (Nat → BitVec 8)) (l : Loading) :
    Option (Loading × Bool) :=
  (l.vm.pgdirAllocPage pgdir l.la perm).map fun r =>
    r.2.elim ({ l with vm := r.1 }, false) fun page =>
      let off := l.start - l.la
      let la := (l.la + pgsize) % 2 ^ 32
      let size := if stop < la then pgsize - off - (la - stop)
        else pgsize - off
      (fill l.offset size).elim
        ({ l with vm := r.1, page := some page, la := la }, false)
        fun bytes =>
          ({ vm := r.1.writeFrame page off size bytes
             page := some page
             start := (l.start + size) % 2 ^ 32
             la := la
             offset := l.offset + size }, true)

/-- The loop over `p_filesz` reads from the file. -/
def fileRound (pgdir : Nat) (perm : Word) (image : Image) (stop : Nat) :
    Loading → Option (Loading × Bool) :=
  mapRound pgdir perm stop fun offset size =>
    if image.readable offset size then
      some fun i => image.byte (offset + i)
    else none

/-- The loop over the rest of `p_memsz` clears; it leaves `offset` alone,
which nothing reads any more. -/
def zeroRound (pgdir : Nat) (perm : Word) (stop : Nat) :
    Loading → Option (Loading × Bool) :=
  mapRound pgdir perm stop fun _ _ => some fun _ => 0

/-- `while (start < end)`. -/
def rounds (round : Loading → Option (Loading × Bool)) (stop : Nat) :
    Nat → Loading → Option (Loading × Bool)
  | 0, l => if l.start < stop then none else some (l, true)
  | fuel + 1, l =>
    if l.start < stop then
      (round l).bind fun r =>
        if r.2 then rounds round stop fuel r.1 else some r
    else some (l, true)

/-- The pages from `la` up to `stop`. -/
def pagesTo (la stop : Nat) : Nat := (stop - la + pgsize - 1) / pgsize

/-- The rest of the page in which the file part ends is cleared. -/
def clearRest (stop : Nat) (l : Loading) : Option Loading :=
  if l.start < l.la ∧ l.start < stop then
    l.page.bind fun page =>
      let off := l.start + pgsize - l.la
      let size := if stop < l.la then pgsize - off - (l.la - stop)
        else pgsize - off
      let start := l.start + size
      if (stop < l.la ∧ start = stop) ∨ (l.la ≤ stop ∧ start = l.la) then
        some { l with
          vm := l.vm.writeFrame page off size fun _ => 0
          start := start }
      else none
  else some l

end Loading

namespace Vm

/-- The pages of a segment, once its area is mapped; `false` is an error. -/
def loadPages (s : Vm) (pgdir : Nat) (perm : Word) (image : Image)
    (ph : ProgHdr) : Option (Vm × Bool) :=
  let la := roundDown ph.pVa pgshift
  (Loading.rounds (Loading.fileRound pgdir perm image ph.fileEnd) ph.fileEnd
      (Loading.pagesTo la ph.fileEnd) ⟨s, none, ph.pVa, la, ph.pOffset⟩).bind
    fun f =>
      if f.2 then
        (f.1.clearRest ph.memEnd).bind fun l =>
          (Loading.rounds (Loading.zeroRound pgdir perm ph.memEnd) ph.memEnd
            (Loading.pagesTo l.la ph.memEnd) l).map fun b => (b.1.vm, b.2)
      else some (f.1.vm, false)

/-- The body of the loop of `load_icode` for a segment of type
`ELF_PT_LOAD`; `false` is a jump to the error exit. -/
def loadSegment (s : Vm) (mm : Mm) (perm : Word) (image : Image)
    (ph : ProgHdr) : Option (Vm × Mm × Bool) :=
  if ph.pMemsz < ph.pFilesz then some (s, mm, false)
  else
    (s.mmMap mm ph.pVa ph.pMemsz ph.vmFlags).bind fun r =>
      if r.2.2 then
        (r.1.loadPages r.2.1.pgdir (ph.nextPerm perm) image ph).map fun l =>
          (l.1, r.2.1, l.2)
      else some r

end Vm

-- ===== arguments

def ustacktop : Nat := 0x80000000

def ustacksize : Nat := 16 * pgsize

/-- `stacktop`, where the strings begin. -/
def argStacktop (argc : Nat) : Nat := ustacktop - argc * pgsize

def uargv (argc : Nat) : Nat := argStacktop argc - argc * 4

/-- Where `load_icode` puts a string. -/
def argString (argc i : Nat) : Nat := argStacktop argc + i * pgsize

/-- The bytes of a pointer. -/
def pointerBytes (a : Nat) : List (BitVec 8) :=
  (List.range 4).map fun k => (BitVec.ofNat 32 a).extractLsb' (8 * k) 8

/-- Bytes are stored from `a` on. -/
def storeBytes (accepts : Nat → Bool) :
    (Nat → BitVec 8) → Nat → List (BitVec 8) → Option (Nat → BitVec 8)
  | mem, _, [] => some mem
  | mem, a, b :: bs =>
    if accepts a then storeBytes accepts (Function.update mem a b) (a + 1) bs
    else none

/-- The loop over the arguments: `uargv[i] = strcpy(…, kargv[i])`. -/
def placeArgs (accepts : Nat → Bool) (argc : Nat) :
    Nat → List (List (BitVec 8)) → (Nat → BitVec 8) → Option (Nat → BitVec 8)
  | _, [], mem => some mem
  | i, s :: kargv, mem =>
    (storeBytes accepts mem (argString argc i) (s ++ [0])).bind fun mem =>
      (storeBytes accepts mem (uargv argc + 4 * i)
        (pointerBytes (argString argc i))).bind
          (placeArgs accepts argc (i + 1) kargv)

/-- The registers `sp`, `a0` and `a1` of the new trap frame. -/
structure UserEntry where
  sp : Nat
  a0 : Nat
  a1 : Nat

/-- What `load_icode` puts into them. -/
def userEntry (argc : Nat) : UserEntry := ⟨ustacktop, argc, uargv argc⟩

end MipsUcore.Kern
