/-
The in-memory inodes of a mounted SFS, shared by several threads:
`sfs_load_inode`, the reference and open counts of `inode.c`, and
`sfs_reclaim`.

A thread is suspended where it waits for the file system's semaphore, and
inside a device access or an operation that may wait for the inode's
semaphore. The kernel is not preemptive, so everything between two such
points is one step; what the disk and the allocator answer is part of the
step (`CacheAnswer`). Who gets the semaphore next is left open.

A thread may only use a pointer for which it holds a reference, and only
drops an open count it has raised: `CacheThread` keeps what each thread
holds, and references pass from thread to thread (`give`), as they do
through a file table.
-/
import Mathlib.Data.Nat.Notation
import Mathlib.Logic.Function.Basic
import Mathlib.Tactic.Simps.Basic

namespace MipsUcore.Kern

open Function

/-- `struct inode` with its `struct sfs_inode`. -/
structure MemInode where
  ino : Nat
  ref : Int
  opens : Int
  reclaim : Int
  dirty : Bool
  nlinks : Nat
  deriving DecidableEq

/-- Where a thread is. -/
inductive CachePc
  /-- In no operation; what the last `sfs_load_inode` has stored. -/
  | idle (node : Option Nat)
  /-- `sfs_load_inode`, before `lock_sfs_fs`. -/
  | loadWait (ino : Nat)
  /-- `sfs_load_inode`, inside `sfs_rbuf`. -/
  | loadRead (ino : Nat)
  /-- `sfs_reclaim`, before `lock_sfs_fs`. -/
  | reclaimWait (p : Nat)
  /-- `sfs_reclaim`, inside `vop_truncate`. -/
  | truncating (p : Nat)
  /-- `sfs_reclaim`, inside `vop_fsync`. -/
  | syncing (p : Nat)
  /-- `inode_open_dec`, inside `vop_close`. -/
  | closing (p : Nat)
  deriving DecidableEq

/-- A thread: where it is, and the references and the open counts it
holds. -/
structure CacheThread where
  pc : CachePc
  refs : Nat → Nat
  opens : Nat → Nat

/-- The in-memory inodes by their address, the two lists they are on, the
thread inside `lock_sfs_fs`, and the threads. -/
structure InodeCache (τ : Type) where
  node : Nat → Option MemInode
  inodeList : List Nat
  hashList : Nat → List Nat
  lock : Option τ
  thread : τ → CacheThread

/-- What goes wrong: the disk does not hold an inode, a count is beyond
`MAX_INODE_COUNT`, an assertion on the counts fails, freed memory is used. -/
inductive CacheFault
  | disk
  | bound
  | count
  | dangling
  deriving DecidableEq

/-- What the allocator and the disk answer: whether there is memory for the
disk inode, whether its block is in use, the code of the access, the links
of the inode that was read, the address of the new inode, and whether the
operation leaves the inode dirty. -/
structure CacheAnswer where
  din : Bool
  inuse : Bool
  ret : Int
  nlinks : Nat
  node : Option Nat
  dirty : Bool

/-- A step of a thread. `touch` stands for every operation that changes the
inode, and `resume` lets the thread go on from where it is suspended. -/
inductive CacheAction (τ : Type)
  | load (t : τ) (ino : Nat)
  | refInc (t : τ) (p : Nat)
  | refDec (t : τ) (p : Nat)
  | openInc (t : τ) (p : Nat)
  | openDec (t : τ) (p : Nat)
  | give (t u : τ) (p : Nat) (opened : Bool)
  | touch (t : τ) (p : Nat)
  | resume (t : τ) (a : CacheAnswer)

/-- An inode is created for an inode number, or freed. -/
inductive CacheEvent
  | created (p ino : Nat)
  | freed (p : Nat)
  deriving DecidableEq

abbrev CacheStep (τ : Type) :=
  Except CacheFault (InodeCache τ × List CacheEvent)

def maxInodeCount : Int := 0x10000

def sinHashfn (ino : Nat) : Nat :=
  (BitVec.ofNat 32 ino * 0x9e370001#32).toNat >>> 22

namespace CacheThread

variable (c : CacheThread)

@[simps -fullyApplied]
def goto (pc : CachePc) : CacheThread := { c with pc := pc }

/-- The thread has `n` references to `p`. -/
@[simps -fullyApplied]
def setRefs (p n : Nat) : CacheThread :=
  { c with refs := update c.refs p n }

@[simps -fullyApplied]
def setOpens (p n : Nat) : CacheThread :=
  { c with opens := update c.opens p n }

/-- The thread is in no operation. -/
def isIdle : Bool :=
  match c.pc with
  | .idle _ => true
  | _ => false

end CacheThread

namespace InodeCache

variable {τ : Type} [DecidableEq τ] (s : InodeCache τ)

def setNode (p : Nat) (n : Option MemInode) : InodeCache τ :=
  { s with node := update s.node p n }

def setThread (t : τ) (c : CacheThread) : InodeCache τ :=
  { s with thread := update s.thread t c }

def goto (t : τ) (pc : CachePc) : InodeCache τ :=
  s.setThread t ((s.thread t).goto pc)

/-- The thread is in no operation any more. -/
def done (t : τ) (node : Option Nat) : InodeCache τ := s.goto t (.idle node)

/-- The inode behind a pointer. -/
def deref (p : Nat) (k : MemInode → CacheStep τ) : CacheStep τ :=
  match s.node p with
  | none => .error .dangling
  | some n => k n

def inodeCheck (n : MemInode) (k : CacheStep τ) : CacheStep τ :=
  if n.ref < n.opens ∨ n.opens < 0 then .error .count
  else if maxInodeCount ≤ n.ref then .error .bound
  else k

-- ===== counts

/-- `inode_ref_inc`, by a thread that has a reference. -/
def refInc (t : τ) (p : Nat) : CacheStep τ :=
  let c := s.thread t
  s.deref p fun n =>
    .ok ((s.setNode p (some { n with ref := n.ref + 1 })).setThread t
      (c.setRefs p (c.refs p + 1)), [])

/-- `inode_ref_dec`: who drops the last reference goes on in
`sfs_reclaim`. -/
def refDec (t : τ) (p : Nat) : CacheStep τ :=
  let c := (s.thread t).setRefs p ((s.thread t).refs p - 1)
  s.deref p fun n =>
    if 0 < n.ref then
      let n := { n with ref := n.ref - 1 }
      let s := s.setNode p (some n)
      if n.ref = 0 then
        inodeCheck n (.ok (s.setThread t (c.goto (.reclaimWait p)), []))
      else .ok (s.setThread t c, [])
    else .error .count

/-- `inode_open_inc`. -/
def openInc (t : τ) (p : Nat) : CacheStep τ :=
  let c := s.thread t
  s.deref p fun n =>
    .ok ((s.setNode p (some { n with opens := n.opens + 1 })).setThread t
      (c.setOpens p (c.opens p + 1)), [])

/-- `inode_open_dec`: the last one goes on in `vop_close`. -/
def openDec (t : τ) (p : Nat) : CacheStep τ :=
  let c := (s.thread t).setOpens p ((s.thread t).opens p - 1)
  s.deref p fun n =>
    if 0 < n.opens then
      let n := { n with opens := n.opens - 1 }
      let s := s.setNode p (some n)
      if n.opens = 0 then
        inodeCheck n (.ok (s.setThread t (c.goto (.closing p)), []))
      else .ok (s.setThread t c, [])
    else .error .count

/-- A reference passes from one thread to another, with an open count or
without one. -/
def give (t u : τ) (p : Nat) (opened : Bool) : InodeCache τ :=
  let k := if opened then 1 else 0
  let c := s.thread t
  let s := s.setThread t
    ((c.setRefs p (c.refs p - 1)).setOpens p (c.opens p - k))
  let d := s.thread u
  s.setThread u ((d.setRefs p (d.refs p + 1)).setOpens p (d.opens p + k))

-- ===== loading

/-- `lookup_sfs_nolock`. -/
def lookup (ino : Nat) : Option Nat :=
  (s.hashList (sinHashfn ino)).find?
    fun p => (s.node p).any fun n => n.ino = ino

/-- `sfs_load_inode`, with the semaphore. -/
def loadLocked (t : τ) (ino : Nat) (a : CacheAnswer) : CacheStep τ :=
  match s.lookup ino with
  | some p =>
    s.deref p fun n =>
      let n := { n with ref := n.ref + 1 }
      -- an inode that nobody had is revived: one more reclaim will come
      let n := if n.ref = 1 then { n with reclaim := n.reclaim + 1 } else n
      let c := s.thread t
      .ok (((s.setNode p (some n)).setThread t
        (c.setRefs p (c.refs p + 1))).done t (some p), [])
  | none =>
    if a.din then
      if a.inuse then .ok ({ s with lock := some t }.goto t (.loadRead ino), [])
      else .error .disk
    else .ok (s.done t none, [])

/-- `sfs_set_links`. -/
def setLinks (p ino : Nat) : InodeCache τ :=
  let b := sinHashfn ino
  { s with
    inodeList := p :: s.inodeList
    hashList := update s.hashList b (p :: s.hashList b) }

/-- `sfs_remove_links`. -/
def removeLinks (p : Nat) : InodeCache τ :=
  { s with
    inodeList := s.inodeList.erase p
    hashList := fun b => (s.hashList b).erase p }

def unlock : InodeCache τ := { s with lock := none }

/-- `sfs_load_inode`, after `sfs_rbuf`. Memory that is in use is never the
answer of the allocator. -/
def loadFinish (t : τ) (ino : Nat) (a : CacheAnswer) : CacheStep τ :=
  if a.ret ≠ 0 then .ok (s.unlock.done t none, [])
  else if a.nlinks = 0 then .error .disk
  else
    match a.node.filter fun p => (s.node p).isNone with
    | none => .ok (s.unlock.done t none, [])
    | some p =>
      let c := s.thread t
      let s := s.setNode p (some ⟨ino, 1, 0, 1, false, a.nlinks⟩)
      .ok ((((s.setLinks p ino).unlock).setThread t
        (c.setRefs p (c.refs p + 1))).done t (some p), [.created p ino])

-- ===== reclaiming

/-- The end of `sfs_reclaim`, with `vop_kill`; the blocks of an inode
without links are the concern of the store. -/
def kill (t : τ) (p : Nat) : CacheStep τ :=
  s.deref p fun n =>
    if n.ref = 0 ∧ n.opens = 0 then
      .ok ((((s.removeLinks p).unlock).setNode p none).done t none,
        [.freed p])
    else .error .count

/-- `sfs_reclaim`, from the test of `dirty` on. -/
def reclaimSync (t : τ) (p : Nat) : CacheStep τ :=
  s.deref p fun n =>
    if n.dirty then
      inodeCheck n (.ok ({ s with lock := some t }.goto t (.syncing p), []))
    else s.kill t p

/-- `sfs_reclaim`, with the semaphore. -/
def reclaimLocked (t : τ) (p : Nat) : CacheStep τ :=
  s.deref p fun n =>
    if 0 < n.reclaim then
      let n := { n with reclaim := n.reclaim - 1 }
      let s := s.setNode p (some n)
      if n.reclaim ≠ 0 ∨ n.ref ≠ 0 then .ok (s.done t none, [])
      else if n.nlinks = 0 then
        inodeCheck n
          (.ok ({ s with lock := some t }.goto t (.truncating p), []))
      else s.reclaimSync t p
    else .error .count

/-- `sfs_reclaim`, after `vop_truncate`. -/
def endTruncate (t : τ) (p : Nat) (a : CacheAnswer) : CacheStep τ :=
  s.deref p fun n =>
    let s := s.setNode p (some { n with dirty := a.dirty })
    if a.ret ≠ 0 then .ok (s.unlock.done t none, [])
    else s.reclaimSync t p

/-- `sfs_reclaim`, after `vop_fsync`. -/
def endSync (t : τ) (p : Nat) (a : CacheAnswer) : CacheStep τ :=
  if a.ret ≠ 0 then .ok (s.unlock.done t none, [])
  else
    s.deref p fun n =>
      (s.setNode p (some { n with dirty := false })).kill t p

/-- `inode_open_dec`, after `vop_close`. -/
def endClose (t : τ) (p : Nat) (a : CacheAnswer) : CacheStep τ :=
  s.deref p fun n =>
    .ok ((s.setNode p (some { n with dirty := a.dirty })).done t none, [])

-- ===== steps

/-- The thread goes on. It stays where it waits for the semaphore while
another thread has it. -/
def resume (t : τ) (a : CacheAnswer) : CacheStep τ :=
  match (s.thread t).pc with
  | .idle _ => .ok (s, [])
  | .loadWait ino =>
    if s.lock = none then s.loadLocked t ino a else .ok (s, [])
  | .loadRead ino => s.loadFinish t ino a
  | .reclaimWait p =>
    if s.lock = none then s.reclaimLocked t p else .ok (s, [])
  | .truncating p => s.endTruncate t p a
  | .syncing p => s.endSync t p a
  | .closing p => s.endClose t p a

/-- Whether a thread may make a step: it is in no operation and holds what
it uses. -/
def may : CacheAction τ → Bool
  | .load t _ => (s.thread t).isIdle
  | .refInc t p => (s.thread t).isIdle && 0 < (s.thread t).refs p
  | .refDec t p =>
    (s.thread t).isIdle && (s.thread t).opens p < (s.thread t).refs p
  | .openInc t p =>
    (s.thread t).isIdle && (s.thread t).opens p < (s.thread t).refs p
  | .openDec t p => (s.thread t).isIdle && 0 < (s.thread t).opens p
  | .give t _ p opened =>
    (s.thread t).isIdle &&
      if opened then 0 < (s.thread t).opens p
      else (s.thread t).opens p < (s.thread t).refs p
  | .touch t p => (s.thread t).isIdle && 0 < (s.thread t).refs p
  | .resume _ _ => true

/-- A step a thread may make. -/
def act : CacheAction τ → CacheStep τ
  | .load t ino => .ok (s.goto t (.loadWait ino), [])
  | .refInc t p => s.refInc t p
  | .refDec t p => s.refDec t p
  | .openInc t p => s.openInc t p
  | .openDec t p => s.openDec t p
  | .give t u p opened => .ok (s.give t u p opened, [])
  | .touch _ p =>
    s.deref p fun n => .ok (s.setNode p (some { n with dirty := true }), [])
  | .resume t a => s.resume t a

/-- A step; one that a thread may not make is not made. -/
def step (a : CacheAction τ) : CacheStep τ :=
  if s.may a then s.act a else .ok (s, [])

/-- The state after the steps, and the inodes that were created and
freed. -/
def run : InodeCache τ → List (CacheAction τ) → CacheStep τ
  | s, [] => .ok (s, [])
  | s, a :: as =>
    match s.step a with
    | .error e => .error e
    | .ok (s, es) =>
      match run s as with
      | .error e => .error e
      | .ok (s, fs) => .ok (s, es ++ fs)

/-- Just mounted: no inode in memory and no thread in an operation. -/
def mounted : InodeCache τ where
  node _ := none
  inodeList := []
  hashList _ := []
  lock := none
  thread _ := ⟨.idle none, fun _ => 0, fun _ => 0⟩

end InodeCache

end MipsUcore.Kern
