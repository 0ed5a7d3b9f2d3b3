/-
The block layer of the simple file system: `bitmap.c`, `sfs_io.c` and the
part of `sfs_inode.c` about block maps, transfers and sizes.

# The disk

Blocks have 4096 bytes. Block 0 is the superblock, block 1 the inode of
the root, and the freemap begins at block 2. An inode sits in a block of
its own and names 12 blocks itself and 1024 more through its indirect
block; 0 names no block.

`super` and the freemap are kept in memory while the file system is
mounted, and so is every inode that somebody uses (`Sin`). What an inode
in memory says goes to the disk when it is written back (`fsync`).

# What is left out

The device does not fail: a block whose number is in range is read and
written. The semaphores are left out too, nobody is suspended between them.

A failed assertion or a panic is a `Fault`. What a function returns when no
block is free is an ordinary result (`none`, or a code).
-/
import MipsUcore.Kern.Proc
import MipsUcore.Lib.Bytes
import Mathlib.Data.Finset.Basic

namespace MipsUcore.Kern

open Function

/-- The assertions and panics of the block layer. -/
inductive Fault
  /-- `sfs_block_inuse: called out of range` -/
  | inuseRange
  /-- `sfs->super.unused_blocks > 0` -/
  | noUnused
  /-- `sfs_block_inuse(sfs, ino)` -/
  | notInuse
  /-- `blkno != 0 && blkno < sfs->super.blocks` -/
  | blkno
  /-- `offset >= 0 && offset < SFS_BLKSIZE && offset + len <= SFS_BLKSIZE` -/
  | bufRange
  /-- `index < SFS_BLK_NENTRY` -/
  | subIndex
  /-- `din->indirect == 0` -/
  | indirectSet
  /-- not an assertion: `ino` is read before it is set -/
  | uninitialised
  /-- `index <= din->blocks` -/
  | bmapIndex
  /-- `din->blocks != 0` -/
  | noBlocks
  /-- `_SFS_INODE_GET_TYPE(din) != SFS_TYPE_DIR` -/
  | isDir
  /-- `tblks == din->blocks`, the size being right -/
  | truncSame
  /-- `din->blocks == tblks`, after the blocks were added or taken away -/
  | truncDone
  /-- `_SFS_INODE_GET_NLINKS(din) != 0` -/
  | nlinks
  /-- `invalid file type` -/
  | fileType
  /-- `__node->in_ops->vop_##sym != NULL` -/
  | nullOp
  deriving DecidableEq

def ensure (c : Prop) [Decidable c] (f : Fault) : Except Fault Unit :=
  if c then .ok () else .error f

/-- What an `off_t` holds after a calculation. -/
def toOff (n : Int) : Int := n.bmod (2 ^ 32)

-- ===== blocks

/-- `super`, the freemap (a bit is set if the block is free) and the disk. -/
structure Store where
  blocks : Nat
  unusedBlocks : Nat
  freemap : Nat → Bool
  disk : Nat → Nat → UInt8

namespace Store

variable (st : Store)

/-- `sfs_freemap_blocks`. -/
def freemapBlocks : Nat := (st.blocks + 32767) / 32768

/-- `sfs_freemap_bits`. -/
def freemapBits : Nat := st.freemapBlocks * 32768

/-- `bitmap_alloc`: the lowest bit that is set. -/
def bitmapAlloc : Option Nat :=
  (List.range st.freemapBits).find? st.freemap

/-- `sfs_block_inuse`. -/
def blockInuse (ino : Nat) : Except Fault Bool :=
  if ino ≠ 0 ∧ ino < st.blocks then .ok (!st.freemap ino)
  else .error .inuseRange

/-- `assert(sfs_block_inuse(sfs, ino))`. -/
def assertInuse (ino : Nat) : Except Fault Unit := do
  ensure (← st.blockInuse ino) .notInuse

/-- `sfs_rblock` of one block. -/
def rblock (blkno : Nat) : Except Fault (Nat → UInt8) :=
  if blkno ≠ 0 ∧ blkno < st.blocks then .ok (st.disk blkno)
  else .error .blkno

/-- `sfs_wblock` of one block. -/
def wblock (data : Nat → UInt8) (blkno : Nat) : Except Fault Store :=
  if blkno ≠ 0 ∧ blkno < st.blocks then
    .ok { st with disk := update st.disk blkno data }
  else .error .blkno

/-- `sfs_rbuf`. -/
def rbuf (len blkno offset : Nat) : Except Fault (List UInt8) := do
  ensure (offset < 4096 ∧ offset + len ≤ 4096) .bufRange
  let data ← st.rblock blkno
  return Bytes.slice data offset len

/-- `sfs_wbuf`. -/
def wbuf (buf : List UInt8) (blkno offset : Nat) : Except Fault Store := do
  ensure (offset < 4096 ∧ offset + buf.length ≤ 4096) .bufRange
  let data ← st.rblock blkno
  st.wblock (Bytes.patch data offset buf) blkno

/-- `sfs_rbuf` of the entry `index` of an indirect block. -/
def rentry (ent index : Nat) : Except Fault Nat := do
  let data ← st.rblock ent
  return Bytes.word data index

/-- `sfs_wbuf` of the entry `index` of an indirect block. -/
def wentry (ino ent index : Nat) : Except Fault Store := do
  let data ← st.rblock ent
  st.wblock
    (Bytes.setWords data fun k => if k = index then some ino else none) ent

/-- `sfs_clear_block` of one block. -/
def clearBlock (blkno : Nat) : Except Fault Store :=
  st.wblock (fun _ => 0) blkno

/-- `sfs_block_alloc`; `none` is `-E_NO_MEM`. -/
def blockAlloc : Except Fault (Option Nat × Store) :=
  match st.bitmapAlloc with
  | none => .ok (none, st)
  | some ino => do
    ensure (0 < st.unusedBlocks) .noUnused
    let st := { st with
      freemap := update st.freemap ino false
      unusedBlocks := st.unusedBlocks - 1 }
    st.assertInuse ino
    let st ← st.clearBlock ino
    return (some ino, st)

/-- `sfs_block_free`. -/
def blockFree (ino : Nat) : Except Fault Store := do
  st.assertInuse ino
  return { st with
    freemap := update st.freemap ino true
    unusedBlocks := st.unusedBlocks + 1 }

end Store

-- ===== inodes

def sfsTypeFile : Nat := 1

def sfsTypeDir : Nat := 2

/-- `struct sfs_disk_inode`. -/
structure DiskInode where
  size : Nat
  type : Nat
  nlinks : Nat
  blocks : Nat
  direct : Fin 12 → Nat
  indirect : Nat
  deriving DecidableEq

/-- The inode that a block holds. -/
def DiskInode.ofBlock (data : Nat → UInt8) : DiskInode where
  size := Bytes.word data 0
  type := Bytes.word data 1 % 2 ^ 16
  nlinks := Bytes.word data 1 / 2 ^ 16
  blocks := Bytes.word data 2
  direct k := Bytes.word data (3 + k)
  indirect := Bytes.word data 15

/-- The words an inode takes in its block. -/
def DiskInode.words (din : DiskInode) (k : Nat) : Option Nat :=
  if k = 0 then some din.size
  else if k = 1 then some (din.type + 2 ^ 16 * din.nlinks)
  else if k = 2 then some din.blocks
  else if h : k - 3 < 12 then some (din.direct ⟨k - 3, h⟩)
  else if k = 15 then some din.indirect
  else none

/-- `struct sfs_inode`. -/
structure Sin where
  din : DiskInode
  ino : Nat
  dirty : Bool
  reclaimCount : Nat
  deriving DecidableEq

namespace Store

variable (st : Store) (sin : Sin)

-- ===== block maps

/-- The end of `sfs_bmap_get_sub_nolock`: a new block for the entry `index`
of `ent`. The indirect block goes back if it is new too; `old` is `*entp`. -/
def bmapAddSub (old ent index : Nat) :
    Except Fault (Option (Nat × Nat) × Store) := do
  match ← st.blockAlloc with
  | (none, st) =>
    if ent ≠ old then
      let st ← st.blockFree ent
      return (none, st)
    else return (none, st)
  | (some ino, st) =>
    let st ← st.wentry ino ent index
    return (some (ino, ent), st)

/-- `sfs_bmap_get_sub_nolock`: the block and the new `*entp`. -/
def bmapGetSub (old index : Nat) (create : Bool) :
    Except Fault (Option (Nat × Nat) × Store) := do
  ensure (index < 1024) .subIndex
  if old ≠ 0 then
    let ino ← st.rentry old index
    if ino ≠ 0 ∨ create = false then return (some (ino, old), st)
    else st.bmapAddSub old old index
  else if create = false then return (some (0, old), st)
  else
    match ← st.blockAlloc with
    | (none, st) => return (none, st)
    | (some ent, st) => st.bmapAddSub old ent index

/-- The end of `sfs_bmap_get_nolock`. -/
def bmapOut (ino : Nat) : Except Fault (Option Nat × Store × Sin) :=
  if ino = 0 then .ok (some ino, st, sin)
  else do
    st.assertInuse ino
    return (some ino, st, sin)

/-- `sfs_bmap_get_nolock`. -/
def bmapGet (index : Nat) (create : Bool) :
    Except Fault (Option Nat × Store × Sin) := do
  if h : index < 12 then
    let ino := sin.din.direct ⟨index, h⟩
    if ino = 0 ∧ create then
      match ← st.blockAlloc with
      | (none, st) => return (none, st, sin)
      | (some ino, st) =>
        let direct := update sin.din.direct ⟨index, h⟩ ino
        let sin := { sin with
          din := { sin.din with direct := direct }
          dirty := true }
        st.bmapOut sin ino
    else st.bmapOut sin ino
  else if index - 12 < 1024 then
    match ← st.bmapGetSub sin.din.indirect (index - 12) create with
    | (none, st) => return (none, st, sin)
    | (some (ino, ent), st) =>
      if ent ≠ sin.din.indirect then
        ensure (sin.din.indirect = 0) .indirectSet
        let sin := { sin with
          din := { sin.din with indirect := ent }
          dirty := true }
        st.bmapOut sin ino
      else st.bmapOut sin ino
  else .error .uninitialised

/-- `sfs_bmap_free_sub_nolock`. -/
def bmapFreeSub (ent index : Nat) : Except Fault Store := do
  st.assertInuse ent
  ensure (index < 1024) .subIndex
  let ino ← st.rentry ent index
  if ino ≠ 0 then
    let st ← st.wentry 0 ent index
    st.blockFree ino
  else return st

/-- `sfs_bmap_free_nolock`. -/
def bmapFree (index : Nat) : Except Fault (Store × Sin) := do
  if h : index < 12 then
    let ino := sin.din.direct ⟨index, h⟩
    if ino ≠ 0 then
      let st ← st.blockFree ino
      let direct := update sin.din.direct ⟨index, h⟩ 0
      return (st, { sin with
        din := { sin.din with direct := direct }
        dirty := true })
    else return (st, sin)
  else if index - 12 < 1024 then
    if sin.din.indirect ≠ 0 then
      let st ← st.bmapFreeSub sin.din.indirect (index - 12)
      return (st, sin)
    else return (st, sin)
  else return (st, sin)

/-- `sfs_bmap_load_nolock`. -/
def bmapLoad (index : Nat) : Except Fault (Option Nat × Store × Sin) := do
  ensure (index ≤ sin.din.blocks) .bmapIndex
  let create := decide (index = sin.din.blocks)
  match ← st.bmapGet sin index create with
  | (none, st, sin) => return (none, st, sin)
  | (some ino, st, sin) =>
    st.assertInuse ino
    if create then
      return (some ino, st, { sin with
        din := { sin.din with blocks := sin.din.blocks + 1 } })
    else return (some ino, st, sin)

/-- `sfs_bmap_truncate_nolock`. -/
def bmapTruncate : Except Fault (Store × Sin) := do
  ensure (sin.din.blocks ≠ 0) .noBlocks
  let (st, sin) ← st.bmapFree sin (sin.din.blocks - 1)
  return (st, { sin with
    din := { sin.din with blocks := sin.din.blocks - 1 }
    dirty := true })

end Store

-- ===== transfers

def sfsMaxFileSize : Nat := 1024 * 1024 * 128

/-- Where a transfer has got to; `data` is what a read has put in the
buffer. -/
structure IoState where
  st : Store
  sin : Sin
  alen : Nat
  data : List UInt8

namespace Store

variable (st : Store)

/-- `sfs_buf_op`: `sfs_wbuf` or `sfs_rbuf`. -/
def bufOp (write : Bool) (buf : List UInt8) (size ino blkoff : Nat) :
    Except Fault (List UInt8 × Store) :=
  if write then do
    let st ← st.wbuf (buf.take size) ino blkoff
    return ([], st)
  else do
    let data ← st.rbuf size ino blkoff
    return (data, st)

/-- `sfs_block_op`: `sfs_wblock` or `sfs_rblock`, of one block. -/
def blockOp (write : Bool) (buf : List UInt8) (ino : Nat) :
    Except Fault (List UInt8 × Store) :=
  if write then do
    let st ← st.wblock (fun j => buf.getD j 0) ino
    return ([], st)
  else do
    let data ← st.rblock ino
    return (Bytes.slice data 0 4096, st)

end Store

namespace IoState

variable (write : Bool) (buf : List UInt8)

/-- One block of a transfer: it is found or created, and moved. -/
def block (s : IoState) (blkno size : Nat)
    (op : Store → List UInt8 → Nat → Except Fault (List UInt8 × Store)) :
    Except Fault (Int × IoState) := do
  match ← s.st.bmapLoad s.sin blkno with
  | (none, st, sin) => return (-eNoMem, { s with st := st, sin := sin })
  | (some ino, st, sin) =>
    let (data, st) ← op st (buf.drop s.alen) ino
    return (0, ⟨st, sin, s.alen + size, s.data ++ data⟩)

/-- A part of a block: the head or the tail of a transfer. -/
def part (s : IoState) (blkno size blkoff : Nat) :
    Except Fault (Int × IoState) :=
  s.block buf blkno size fun st buf ino => st.bufOp write buf size ino blkoff

/-- The loop over the whole blocks. -/
def wholes : Nat → Nat → IoState → Except Fault (Int × IoState)
  | 0, _, s => .ok (0, s)
  | nblks + 1, blkno, s => do
    let (ret, s) ← s.block buf blkno 4096 fun st buf ino =>
      st.blockOp write buf ino
    if ret ≠ 0 then return (ret, s) else wholes nblks (blkno + 1) s

/-- The whole blocks and the tail. -/
def rest (endpos blkno nblks : Nat) (s : IoState) :
    Except Fault (Int × IoState) := do
  let (ret, s) ← wholes write buf nblks blkno s
  if ret ≠ 0 then return (ret, s)
  else if endpos % 4096 ≠ 0 then
    s.part write buf (blkno + nblks) (endpos % 4096) 0
  else return (0, s)

/-- The transfer of `[offset, endpos)`, up to the label `out`. -/
def move (offset endpos : Nat) (s : IoState) :
    Except Fault (Int × IoState) := do
  let blkno := offset / 4096
  let nblks := endpos / 4096 - blkno
  let blkoff := offset % 4096
  if blkoff ≠ 0 then
    let size := if nblks ≠ 0 then 4096 - blkoff else endpos - offset
    let (ret, s) ← s.part write buf blkno size blkoff
    if ret ≠ 0 ∨ nblks = 0 then return (ret, s)
    else rest write buf endpos (blkno + 1) (nblks - 1) s
  else rest write buf endpos blkno nblks s

end IoState

/-- What an operation of a file gives back: its code, the inode and the
blocks, and of a transfer the bytes that moved. -/
structure Done where
  ret : Int
  st : Store
  sin : Sin
  alen : Nat
  data : List UInt8

namespace Store

variable (st : Store) (sin : Sin)

/-- Nothing moved. -/
def done (ret : Int) : Done := ⟨ret, st, sin, 0, []⟩

/-- The end of `sfs_io_nolock`: a transfer past the end makes the file
longer. -/
def ioOut (offset : Nat) (r : Int × IoState) : Done :=
  let sin := r.2.sin
  let sin :=
    if sin.din.size < offset + r.2.alen then
      { sin with
        din := { sin.din with size := offset + r.2.alen }
        dirty := true }
    else sin
  ⟨r.1, r.2.st, sin, r.2.alen, r.2.data⟩

/-- `sfs_io_nolock`. -/
def ioNolock (write : Bool) (buf : List UInt8) (offset : Int) (len : Nat) :
    Except Fault Done := do
  ensure (sin.din.type ≠ sfsTypeDir) .isDir
  let endpos := toOff (offset + len)
  if offset < 0 ∨ sfsMaxFileSize ≤ offset ∨ endpos < offset then
    return st.done sin (-eInval)
  else if offset = endpos then return st.done sin 0
  else
    let offset := offset.toNat
    let endpos := min endpos.toNat sfsMaxFileSize
    if write = false ∧ sin.din.size ≤ offset then return st.done sin 0
    else
      let endpos := if write then endpos else min endpos sin.din.size
      let r ← IoState.move write buf offset endpos ⟨st, sin, 0, []⟩
      return ioOut offset r

-- ===== sizes

/-- The loop of `sfs_truncfile` that adds blocks. -/
def growFile : Nat → Nat → Store → Sin → Except Fault (Int × Store × Sin)
  | 0, _, st, sin => .ok (0, st, sin)
  | n + 1, nblks, st, sin => do
    match ← st.bmapLoad sin nblks with
    | (none, st, sin) => return (-eNoMem, st, sin)
    | (some _, st, sin) => growFile n (nblks + 1) st sin

/-- The loop of `sfs_truncfile` that takes blocks away. -/
def shrinkFile : Nat → Store → Sin → Except Fault (Store × Sin)
  | 0, st, sin => .ok (st, sin)
  | n + 1, st, sin => do
    let (st, sin) ← st.bmapTruncate sin
    shrinkFile n st sin

/-- The end of `sfs_truncfile`. -/
def setSize (len tblks : Nat) : Except Fault Done := do
  ensure (sin.din.blocks = tblks) .truncDone
  let sin := { sin with din := { sin.din with size := len }, dirty := true }
  return st.done sin 0

/-- `sfs_truncfile`. -/
def truncfile (len : Int) : Except Fault Done := do
  if len < 0 ∨ sfsMaxFileSize < len then return st.done sin (-eInval)
  else
    let len := len.toNat
    let tblks := (len + 4095) / 4096
    let nblks := sin.din.blocks
    if sin.din.size = len then
      ensure (tblks = nblks) .truncSame
      return st.done sin 0
    else if nblks < tblks then
      let (ret, st, sin) ← growFile (tblks - nblks) nblks st sin
      if ret ≠ 0 then return st.done sin ret else st.setSize sin len tblks
    else
      let (st, sin) ← shrinkFile (nblks - tblks) st sin
      st.setSize sin len tblks

/-- `sfs_tryseek`. -/
def tryseek (pos : Int) : Except Fault Done :=
  if pos < 0 ∨ sfsMaxFileSize ≤ pos then .ok (st.done sin (-eInval))
  else if sin.din.size < pos then st.truncfile sin pos
  else .ok (st.done sin 0)

/-- `sfs_fsync`, and `sfs_close`. -/
def fsync : Except Fault Done :=
  if sin.dirty then do
    let data ← st.rblock sin.ino
    let st ← st.wblock (Bytes.setWords data sin.din.words) sin.ino
    return st.done { sin with dirty := false } 0
  else .ok (st.done sin 0)

end Store

-- ===== the file system

/-- The operations of a file that is in memory. -/
inductive SfsOp
  | read (offset : Int) (len : Nat)
  | write (offset : Int) (buf : List UInt8)
  | tryseek (pos : Int)
  | truncfile (len : Int)
  | fsync

def SfsOp.run (st : Store) (sin : Sin) : SfsOp → Except Fault Done
  | read offset len => st.ioNolock sin false [] offset len
  | write offset buf => st.ioNolock sin true buf offset buf.length
  | tryseek pos => st.tryseek sin pos
  | truncfile len => st.truncfile sin len
  | fsync => st.fsync sin

/-- The blocks, and the inodes in memory by their number. -/
structure Sfs where
  st : Store
  sin : Nat → Option Sin

namespace Sfs

variable (s : Sfs)

def setSin (ino : Nat) (sin : Option Sin) : Sfs :=
  { s with sin := update s.sin ino sin }

/-- The file system after an operation of the inode `ino`. -/
def after (ino : Nat) (r : Done) : Sfs :=
  ⟨r.st, update s.sin ino (some r.sin)⟩

/-- `sfs_load_inode` of an inode that is not in memory. -/
def readInode (ino : Nat) : Except Fault Sfs := do
  s.st.assertInuse ino
  let data ← s.st.rblock ino
  let din := DiskInode.ofBlock data
  ensure (din.nlinks ≠ 0) .nlinks
  ensure (din.type = sfsTypeDir ∨ din.type = sfsTypeFile) .fileType
  return s.setSin ino (some ⟨din, ino, false, 1⟩)

/-- The part of `sfs_reclaim` behind the test of the counts. -/
def dropInode (sin : Sin) : Except Fault Sfs :=
  if sin.din.nlinks = 0 then do
    ensure (sin.din.type ≠ sfsTypeDir) .nullOp
    let r ← s.st.truncfile sin 0
    if r.ret ≠ 0 then return s.after sin.ino r
    else
      let r ← r.st.fsync r.sin
      let st ← r.st.blockFree sin.ino
      let st ← if r.sin.din.indirect ≠ 0 then
        st.blockFree r.sin.din.indirect else .ok st
      return { s with st := st }.setSin sin.ino none
  else do
    let r ← s.st.fsync sin
    return { s with st := r.st }.setSin sin.ino none

end Sfs

/-- What can happen to the file system: an inode is read or dropped, or an
operation is called. -/
inductive SfsEvent
  | load (ino : Nat)
  | op (ino : Nat) (o : SfsOp)
  | reclaim (ino : Nat)

/-- An event, with what it returns; `inos` are the inodes there are. -/
inductive Sfs.Step (inos : Finset Nat) :
    Sfs → SfsEvent → Int → Sfs → Prop
  | load {s t : Sfs} {ino : Nat} : ino ∈ inos → s.sin ino = none →
      s.readInode ino = .ok t → Step inos s (.load ino) 0 t
  | op {s : Sfs} {ino : Nat} {sin : Sin} {o : SfsOp} {r : Done} :
      s.sin ino = some sin → o.run s.st sin = .ok r →
      Step inos s (.op ino o) r.ret (s.after ino r)
  | reclaim {s t : Sfs} {ino : Nat} {sin : Sin} :
      s.sin ino = some sin → s.dropInode sin = .ok t →
      Step inos s (.reclaim ino) 0 t

end MipsUcore.Kern
