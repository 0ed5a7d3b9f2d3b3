/-
Directory entries: as `mksfs` packs them and as the kernel reads them.

Each entry has a block of its own, with four bytes of inode number, the
low one first, and 256 bytes of name. `add_entry` fills one static
`struct sfs_entry` again and again, so the bytes behind a name are those of
earlier names; `write_block` fills up what it is given with zeros.

A directory is the list of its entries' blocks: which blocks these are is
the concern of the block map. Blocks can be read, and there is memory for
the entry. Names are C strings: bytes other than NUL.
-/
import MipsUcore.Lib.Bytes

namespace MipsUcore.Kern

open Bytes

def sfsMaxFnameLen : Nat := 255

/-- What `add_entry` is called with. -/
structure DirEntry where
  ino : Nat
  name : List UInt8
  deriving DecidableEq

-- ===== mksfs

/-- `write_block` of the first `len` bytes of `data`; `none` is a failed
assertion. -/
def writeBlock (data : Nat → UInt8) (len : Nat) : Option (Nat → UInt8) :=
  if len ≤ 4096 then
    some (if len ≠ 4096 then patch (fun _ => 0) 0 (slice data 0 len)
      else data)
  else none

/-- `add_entry`, with the static entry `mem`: the entry then, and the block
that is written. -/
def addEntry (mem : Nat → UInt8) (e : DirEntry) :
    Option ((Nat → UInt8) × (Nat → UInt8)) :=
  if e.name.length ≤ sfsMaxFnameLen then
    let entry := patch
      (setWords mem fun k => if k = 0 then some e.ino else none) 4
      (e.name ++ [0])
    -- `sizeof(entry->name)`
    (writeBlock entry (sfsMaxFnameLen + 1)).map fun block => (entry, block)
  else none

/-- The blocks of a directory, entry by entry. -/
def addEntries (mem : Nat → UInt8) :
    List DirEntry → Option (List (Nat → UInt8))
  | [] => some []
  | e :: es =>
    (addEntry mem e).bind fun r => (addEntries r.1 es).map (r.2 :: ·)

-- ===== the kernel

/-- The C string in an array of 256 bytes. -/
def cString (name : Nat → UInt8) : List UInt8 :=
  (slice name 0 (sfsMaxFnameLen + 1)).takeWhile (· ≠ 0)

/-- `sfs_dirent_read_nolock`. -/
def direntRead (block : Nat → UInt8) : DirEntry :=
  ⟨word block 0,
    cString (Function.update (fun i => block (4 + i)) sfsMaxFnameLen 0)⟩

/-- `sfs_dirent_search_nolock` from the slot `i` on: the slot and the inode
number, or `-E_NOENT`, and the empty slot. -/
def direntSearch (name : List UInt8) :
    List (Nat → UInt8) → Nat → Nat → Option (Nat × Nat) × Nat
  | [], _, empty => (none, empty)
  | block :: blocks, i, empty =>
    let entry := direntRead block
    if entry.ino = 0 then direntSearch name blocks (i + 1) i
    else if name = entry.name then (some (i, entry.ino), empty)
    else direntSearch name blocks (i + 1) empty

end MipsUcore.Kern
