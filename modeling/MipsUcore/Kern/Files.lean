/-
The file table of a process and the counts of inodes: the part of `fs.c`,
`file.c` and `inode.c` that copies and drops a file table.

An `fs_struct` is named by its address, an inode by any number. When a
count of an inode reaches 0 the file system is asked to close or reclaim
it; those operations are parameters (`Vops`). Locks are left out: nobody
is suspended in these functions.

`none` is a failed assertion.
-/
import MipsUcore.Kern.Kmalloc

namespace MipsUcore.Kern

open Function

/-- `status` of a `struct file`. -/
inductive FdStatus
  | none
  | init
  | opened
  | closed
  deriving DecidableEq

/-- `struct file`. -/
structure File where
  status : FdStatus
  readable : Bool
  writable : Bool
  fd : Nat
  pos : Nat
  node : Option Nat
  openCount : Int
  deriving DecidableEq

/-- `struct fs_struct`, its file table behind it. -/
structure FsStruct where
  pwd : Option Nat
  filemap : List File
  fsCount : Int

/-- `sizeof(struct fs_struct)`. -/
def sizeofFs : Nat := 24

/-- `sizeof(struct file)`. -/
def sizeofFile : Nat := 28

def fsStructBufsize : Nat := pgsize - sizeofFs

def fsStructNentry : Nat := fsStructBufsize / sizeofFile

/-- The counts of inodes, and the file tables by their address. -/
structure Files where
  refCount : Nat → Int
  openCount : Nat → Int
  fs : Nat → FsStruct

/-- `vop_reclaim` and `vop_close`. -/
structure Vops where
  reclaim : Nat → Files → Files
  close : Nat → Files → Files

namespace Files

variable (s : Files)

-- ===== inodes

/-- `inode_ref_inc`. -/
def refInc (i : Nat) : Files :=
  { s with refCount := update s.refCount i (s.refCount i + 1) }

/-- `inode_open_inc`. -/
def openInc (i : Nat) : Files :=
  { s with openCount := update s.openCount i (s.openCount i + 1) }

/-- `inode_ref_dec`. -/
def refDec (v : Vops) (i : Nat) : Option Files :=
  if 0 < s.refCount i then
    let t := { s with
      refCount := update s.refCount i (s.refCount i - 1) }
    some (if t.refCount i = 0 then v.reclaim i t else t)
  else none

/-- `inode_open_dec`. -/
def openDec (v : Vops) (i : Nat) : Option Files :=
  if 0 < s.openCount i then
    let t := { s with
      openCount := update s.openCount i (s.openCount i - 1) }
    some (if t.openCount i = 0 then v.close i t else t)
  else none

def vfsClose (v : Vops) (i : Nat) : Option Files :=
  (s.openDec v i).bind fun s => s.refDec v i

-- ===== files

/-- `filemap_init`; the other fields of a slot are not set. -/
def filemapInit (old : List File) : List File :=
  (List.range fsStructNentry).map fun fd =>
    { old.getD fd ⟨.none, false, false, fd, 0, none, 0⟩ with
      status := .none, fd := fd, openCount := 0 }

/-- `filemap_dup` of `file` into the slot `slot`, with its status just set
to `FD_INIT`. -/
def filemapDup (slot file : File) : Option (Files × File) :=
  if file.status = .opened then
    -- a null inode would be followed, and `filemap_open` refuses it
    file.node.map fun i =>
      ((s.refInc i).openInc i,
        { slot with
          status := .opened
          pos := file.pos
          readable := file.readable
          writable := file.writable
          node := file.node
          openCount := slot.openCount + 1 })
  else none

/-- `filemap_free` of a slot that is `FD_CLOSED`. -/
def filemapFree (v : Vops) (file : File) : Option (Files × File) :=
  if file.status = .closed ∧ file.openCount = 0 then
    file.node.bind fun i =>
      (s.vfsClose v i).map fun s => (s, { file with status := .none })
  else none

def filemapClose (v : Vops) (file : File) : Option (Files × File) :=
  if file.status = .opened ∧ 0 < file.openCount then
    let file := { file with
      status := .closed, openCount := file.openCount - 1 }
    if file.openCount = 0 then s.filemapFree v file else some (s, file)
  else none

-- ===== file tables

def setFs (a : Nat) (f : FsStruct) : Files :=
  { s with fs := update s.fs a f }

/-- `fs_count_inc` and `fs_count_dec`. -/
def fsCountAdd (a : Nat) (i : Int) : Files :=
  s.setFs a { s.fs a with fsCount := (s.fs a).fsCount + i }

/-- What `fs_create` writes to the memory at `a`. -/
def fsCreate (a : Nat) : Files :=
  s.setFs a
    { pwd := none
      filemap := filemapInit (s.fs a).filemap
      fsCount := 0 }

/-- The loop of `dup_fs`, over the slots of both tables. -/
def dupFiles : List File → List File → Files → Option (Files × List File)
  | slot :: slots, file :: files, s =>
    if file.status = .opened then
      (s.filemapDup { slot with status := .init } file).bind fun r =>
        (dupFiles slots files r.1).map fun q => (q.1, r.2 :: q.2)
    else (dupFiles slots files s).map fun q => (q.1, slot :: q.2)
  | slots, _, s => some (s, slots)

def dupFs (dst src : Nat) : Option Files :=
  if (s.fs dst).fsCount = 0 ∧ 0 < (s.fs src).fsCount then
    let pwd := (s.fs src).pwd
    let s := pwd.elim s s.refInc
    (dupFiles (s.fs dst).filemap (s.fs src).filemap s).map fun r =>
      r.1.setFs dst { s.fs dst with pwd := pwd, filemap := r.2 }
  else none

/-- The loop of `fs_destroy`. -/
def closeFiles (v : Vops) : List File → Files → Option Files
  | [], s => some s
  | file :: files, s =>
    (if file.status = .opened then s.filemapClose v file
      else some (s, file)).bind fun r =>
        if r.2.status = .none then closeFiles v files r.1 else none

/-- `fs_destroy`, up to the release of the memory. -/
def fsDestroy (v : Vops) (a : Nat) : Option Files :=
  if (s.fs a).fsCount = 0 then
    ((s.fs a).pwd.elim (some s) (s.refDec v)).bind
      (closeFiles v (s.fs a).filemap)
  else none

end Files

end MipsUcore.Kern
