/-
One file table shared by several threads: `file.c` and `fs_closeall`.

A thread runs until it is inside an inode operation (`vfs_open`,
`vfs_close`, `vop_read`, …), where it may be suspended while others run;
what the operation returns is the `VopRet` it is resumed with, and nothing
is assumed about it. Where a thread is suspended is its `FilePc`. The
kernel is not preemptive, so a call goes from one such point to the next
in one step.

Beside the new state a step tells what it did to the slots, in order
(`SlotEvent`): this is the table as seen by the inodes.

Positions are integers: that an `off_t` wraps around at 32 bits is left out,
since no step looks at a position.

`none` is a failed assertion.
-/
import MipsUcore.Kern.Files
import MipsUcore.Kern.Proc
import Mathlib.Data.List.FinRange

namespace MipsUcore.Kern

/-- A slot of the file table. -/
abbrev Fd := Fin fsStructNentry

/-- What happens to a slot: it is handed out, is given an inode by
`vfs_open` or `filemap_dup`, gives the inode to `vfs_close`, `vfs_close`
returns, the slot is free again. -/
inductive SlotEvent
  | alloc
  | take (n : Nat)
  | close (n : Nat)
  | closed (n : Nat)
  | free
  deriving DecidableEq

/-- What an inode operation returns: its code, the inode `vfs_open` has
found, the size in the `struct stat`, and the bytes it has moved. -/
structure VopRet where
  ret : Int
  node : Nat
  size : Nat
  copied : Nat

/-- What a call gives its caller: the code, and the bytes moved
(`*copied_store`, or what is added to `direntp->offset`). -/
structure FileRet where
  ret : Int
  copied : Nat
  deriving DecidableEq

/-- Between `filemap_acquire` and `filemap_release`: the operation that
runs. A read and a write end alike. -/
inductive FileUse
  | transfer
  /-- `vop_fstat` for `LSEEK_END`. -/
  | seekStat (pos : Int)
  /-- `vop_tryseek`. -/
  | seekTry (pos : Int)
  | fstat
  | fsync
  | getdirentry
  deriving DecidableEq

/-- What is left to do when `filemap_free` returns. -/
inductive FileRest
  | ret (r : FileRet)
  /-- `fs_closeall`, at the slot with this number. -/
  | closeall (next : Nat)
  deriving DecidableEq

/-- Where a thread is. -/
inductive FilePc
  /-- Outside the file layer; `r` is what the last call has returned. -/
  | idle (r : FileRet)
  /-- `file_open`, inside `vfs_open`. -/
  | opening (k : Fd) (flags : Nat)
  /-- `file_open`, inside `vop_fstat` for `O_APPEND`. -/
  | stating (k : Fd) (n flags : Nat)
  /-- `file_open`, inside `vfs_close` after that failed with `ret`. -/
  | undoing (k : Fd) (n : Nat) (ret : Int)
  /-- `filemap_dup`, inside `vop_ref_inc` or `vop_open_inc`. -/
  | duping (k : Fd) (n : Nat)
  | inside (k : Fd) (use : FileUse)
  /-- `filemap_free`, inside `vfs_close`. -/
  | freeing (k : Fd) (n : Nat) (rest : FileRest)
  deriving DecidableEq

/-- The calls; a path and a buffer only matter to the inode operations. -/
inductive FileCall
  | open (flags : Nat)
  | close (fd : Int)
  | read (fd : Int)
  | write (fd : Int)
  | seek (fd pos whence : Int)
  | fstat (fd : Int)
  | fsync (fd : Int)
  | getdirentry (fd : Int)
  | dup (fd1 fd2 : Int)
  | closeall

def eBusy : Int := 15

def eMaxOpen : Int := 22

def noFd : Int := -0x9527

/-- `open_flags & O_APPEND`. -/
def oAppend (flags : Nat) : Bool := flags.testBit 5

/-- The access mode as `readable` and `writable`; `O_ACCMODE` itself is
refused. -/
def accMode (flags : Nat) : Option (Bool × Bool) :=
  match flags % 4 with
  | 0 => some (true, false)
  | 1 => some (false, true)
  | 2 => some (true, true)
  | _ => none

-- ===== one file

namespace File

/-- `filemap_alloc` of a slot that was found. -/
def filemapAlloc (f : File) : Option File :=
  if f.openCount = 0 then some { f with status := .init, node := none }
  else none

def filemapAcquire (f : File) : Option File :=
  if f.status = .opened then some { f with openCount := f.openCount + 1 }
  else none

def filemapOpen (f : File) : Option File :=
  if f.status = .init ∧ f.node ≠ none then
    some { f with status := .opened, openCount := f.openCount + 1 }
  else none

/-- `filemap_free`, up to its `vfs_close`: the inode that is closed, and
the slot is free only afterwards. -/
def filemapFree (f : File) : Option (File × Option Nat) :=
  if (f.status = .init ∨ f.status = .closed) ∧ f.openCount = 0 then
    if f.status = .closed then f.node.map fun n => (f, some n)
    else some ({ f with status := .none }, none)
  else none

def filemapRelease (f : File) : Option (File × Option Nat) :=
  if (f.status = .opened ∨ f.status = .closed) ∧ 0 < f.openCount then
    let f := { f with openCount := f.openCount - 1 }
    if f.openCount = 0 then f.filemapFree else some (f, none)
  else none

def filemapClose (f : File) : Option (File × Option Nat) :=
  if f.status = .opened ∧ 0 < f.openCount then
    let f := { f with status := .closed, openCount := f.openCount - 1 }
    if f.openCount = 0 then f.filemapFree else some (f, none)
  else none

end File

-- ===== the table

/-- The table, and where each thread is. -/
structure FileTable (τ : Type) where
  slot : Fd → File
  pc : τ → FilePc

def testfd (fd : Int) : Option Fd :=
  if h : 0 ≤ fd ∧ fd < fsStructNentry then some ⟨fd.toNat, by omega⟩ else none

/-- A step of a thread: it makes a call, or the operation it is suspended
in returns. -/
inductive FileAction (τ : Type)
  | call (t : τ) (c : FileCall)
  | resume (t : τ) (a : VopRet)

/-- What the slots went through. -/
abbrev SlotLog := List (Fd × SlotEvent)

namespace FileTable

variable {τ : Type} [DecidableEq τ] (s : FileTable τ)

def setSlot (k : Fd) (f : File) : FileTable τ :=
  { s with slot := Function.update s.slot k f }

def goto (t : τ) (p : FilePc) : FileTable τ :=
  { s with pc := Function.update s.pc t p }

/-- The thread returns to its caller. -/
def ret (t : τ) (r : FileRet) : FileTable τ := s.goto t (.idle r)

/-- The thread returns the code alone. -/
def fail (t : τ) (code : Int) : Option (FileTable τ × SlotLog) :=
  some (s.ret t ⟨code, 0⟩, [])

def fd2file (fd : Int) : Option Fd :=
  (testfd fd).filter fun k =>
    (s.slot k).status = .opened ∧ ((s.slot k).fd : Int) = fd

/-- The search of `filemap_alloc`: a free slot, or the error. -/
def findFree (fd : Int) : Except Int Fd :=
  if fd = noFd then
    match (List.finRange fsStructNentry).find?
        fun k => (s.slot k).status = .none with
    | some k => .ok k
    | none => .error (-eMaxOpen)
  else
    match testfd fd with
    | some k => if (s.slot k).status = .none then .ok k else .error (-eBusy)
    | none => .error (-eInval)

/-- `filemap_alloc` of the slot that was found. -/
def filemapAlloc (k : Fd) : Option (FileTable τ) :=
  (s.slot k).filemapAlloc.map (s.setSlot k)

/-- The end of a call that drops the slot: what `filemap_free`,
`filemap_release` or `filemap_close` has left is written back, and the
thread is inside `vfs_close` or returns. -/
def drop (t : τ) (k : Fd) (r : FileRet) :
    Option (File × Option Nat) → Option (FileTable τ × SlotLog)
  | none => none
  | some (f, none) =>
    some ((s.setSlot k f).ret t r,
      if f.status = .none then [(k, .free)] else [])
  | some (f, some n) =>
    some ((s.setSlot k f).goto t (.freeing k n (.ret r)), [(k, .close n)])

/-- `filemap_release`, and the call returns. -/
def filemapRelease (t : τ) (k : Fd) (r : FileRet) :
    Option (FileTable τ × SlotLog) :=
  s.drop t k r (s.slot k).filemapRelease

/-- A call on an open slot: `fd2file`, a check of the slot and
`filemap_acquire`. The thread is then inside the operation `use`; there is
none for a `whence` that is not known. -/
def acquire (t : τ) (fd : Int) (allowed : File → Bool)
    (use : File → Option FileUse) : Option (FileTable τ × SlotLog) :=
  match s.fd2file fd with
  | none => s.fail t (-eInval)
  | some k =>
    if allowed (s.slot k) then
      match (s.slot k).filemapAcquire with
      | none => none
      | some f =>
        match use f with
        | some u => some ((s.setSlot k f).goto t (.inside k u), [])
        | none => (s.setSlot k f).filemapRelease t k ⟨-eInval, 0⟩
    else s.fail t (-eInval)

/-- The `switch` of `file_seek`. -/
def seekUse (pos whence : Int) (f : File) : Option FileUse :=
  if whence = 0 then some (.seekTry pos)
  else if whence = 1 then some (.seekTry (pos + f.pos))
  else if whence = 2 then some (.seekStat pos)
  else none

/-- `filemap_dup` of the slot `j` into `k`, up to its `vop_ref_inc`. -/
def filemapDup (t : τ) (k j : Fd) : Option (FileTable τ) :=
  let dst := s.slot k
  let src := s.slot j
  if dst.status = .init ∧ src.status = .opened then
    -- a null inode would be followed
    src.node.map fun n =>
      (s.setSlot k { dst with
        pos := src.pos
        readable := src.readable
        writable := src.writable }).goto t (.duping k n)
  else none

/-- One turn of the loop of `fs_closeall`. The thread is inside `vfs_close`
when there is an inode. -/
def closeSlot (k : Fd) : Option (FileTable τ × Option Nat) :=
  if (s.slot k).status = .opened then
    (s.slot k).filemapClose.map fun r => (s.setSlot k r.1, r.2)
  else some (s, none)

/-- The loop of `fs_closeall`, over the slots that are left. -/
def closeSlots (t : τ) : List Fd → FileTable τ →
    Option (FileTable τ × SlotLog)
  | [], s => s.fail t 0
  | k :: ks, s =>
    match s.closeSlot k with
    | none => none
    | some (s, none) => closeSlots t ks s
    | some (s, some n) =>
      some (s.goto t (.freeing k n (.closeall (k.val + 1))), [(k, .close n)])

/-- `fs_closeall`, the loop at the slot with the number `i`. -/
def fsCloseall (t : τ) (i : Nat) : Option (FileTable τ × SlotLog) :=
  closeSlots t ((List.finRange fsStructNentry).drop i) s

/-- A call, up to the first point where the thread may be suspended. -/
def call (t : τ) : FileCall → Option (FileTable τ × SlotLog)
  | .open flags =>
    match accMode flags with
    | none => s.fail t (-eInval)
    | some _ =>
      match s.findFree noFd with
      | .error e => s.fail t e
      | .ok k =>
        (s.filemapAlloc k).map fun s =>
          (s.goto t (.opening k flags), [(k, .alloc)])
  | .close fd =>
    match s.fd2file fd with
    | none => s.fail t (-eInval)
    | some k => s.drop t k ⟨0, 0⟩ (s.slot k).filemapClose
  | .read fd => s.acquire t fd File.readable fun _ => some .transfer
  | .write fd => s.acquire t fd File.writable fun _ => some .transfer
  | .seek fd pos whence => s.acquire t fd (fun _ => true) (seekUse pos whence)
  | .fstat fd => s.acquire t fd (fun _ => true) fun _ => some .fstat
  | .fsync fd => s.acquire t fd (fun _ => true) fun _ => some .fsync
  | .getdirentry fd =>
    s.acquire t fd (fun _ => true) fun _ => some .getdirentry
  | .dup fd1 fd2 =>
    match s.fd2file fd1 with
    | none => s.fail t (-eInval)
    | some j =>
      match s.findFree fd2 with
      | .error e => s.fail t e
      | .ok k =>
        (s.filemapAlloc k).bind fun s =>
          (s.filemapDup t k j).map fun s => (s, [(k, .alloc)])
  -- stdin and stdout are skipped
  | .closeall => s.fsCloseall t 2

/-- The end of `file_open` and `filemap_dup`: the inode is stored and
`filemap_open` opens the slot `f` was written to. -/
def finish (t : τ) (k : Fd) (f : File) : Option (FileTable τ) :=
  f.filemapOpen.map fun f => (s.setSlot k f).ret t ⟨f.fd, 0⟩

/-- The end of `file_open`. -/
def finishOpen (t : τ) (k : Fd) (n flags pos : Nat) : Option (FileTable τ) :=
  let mode := (accMode flags).getD (false, false)
  s.finish t k { s.slot k with
    pos := pos
    node := some n
    readable := mode.1
    writable := mode.2 }

/-- An operation on an acquired slot returns. -/
def endUse (t : τ) (k : Fd) (use : FileUse) (a : VopRet) :
    Option (FileTable τ × SlotLog) :=
  let f := s.slot k
  match use with
  | .transfer =>
    -- a slot that was closed meanwhile keeps its position
    let pos := if f.status = .opened then f.pos + a.copied else f.pos
    (s.setSlot k { f with pos := pos }).filemapRelease t k ⟨a.ret, a.copied⟩
  | .seekStat pos =>
    if a.ret = 0 then
      some (s.goto t (.inside k (.seekTry (pos + a.size))), [])
    else s.filemapRelease t k ⟨a.ret, 0⟩
  | .seekTry pos =>
    -- `vop_tryseek` refuses a negative position
    let new := if a.ret = 0 then pos.toNat else f.pos
    (s.setSlot k { f with pos := new }).filemapRelease t k ⟨a.ret, 0⟩
  | .fstat => s.filemapRelease t k ⟨a.ret, 0⟩
  | .fsync => s.filemapRelease t k ⟨a.ret, 0⟩
  | .getdirentry =>
    s.filemapRelease t k ⟨a.ret, if a.ret = 0 then a.copied else 0⟩

/-- `vfs_close` returns to `filemap_free`. -/
def endFree (t : τ) (k : Fd) (rest : FileRest) :
    Option (FileTable τ × SlotLog) :=
  let s := s.setSlot k { s.slot k with status := .none }
  match rest with
  | .ret r => some (s.ret t r, [])
  | .closeall i => s.fsCloseall t i

/-- The operation the thread is suspended in returns `a`. -/
def resume (t : τ) (a : VopRet) : Option (FileTable τ × SlotLog) :=
  match s.pc t with
  | .idle _ => some (s, [])
  | .opening k flags =>
    if a.ret ≠ 0 then s.drop t k ⟨a.ret, 0⟩ (s.slot k).filemapFree
    else if oAppend flags then
      some ((s.setSlot k { s.slot k with pos := 0 }).goto t
        (.stating k a.node flags), [(k, .take a.node)])
    else (s.finishOpen t k a.node flags 0).map
      fun s => (s, [(k, .take a.node)])
  | .stating k n flags =>
    if a.ret ≠ 0 then
      some (s.goto t (.undoing k n a.ret), [(k, .close n)])
    else (s.finishOpen t k n flags a.size).map fun s => (s, [])
  | .undoing k n code =>
    (s.drop t k ⟨code, 0⟩ (s.slot k).filemapFree).map
      fun r => (r.1, (k, .closed n) :: r.2)
  | .duping k n =>
    (s.finish t k { s.slot k with node := some n }).map
      fun s => (s, [(k, .take n)])
  | .inside k use => s.endUse t k use a
  | .freeing k n rest =>
    (s.endFree t k rest).map
      fun r => (r.1, (k, .closed n) :: (k, .free) :: r.2)

/-- A step. A thread inside a call does not make another one. -/
def act : FileAction τ → Option (FileTable τ × SlotLog)
  | .call t c =>
    match s.pc t with
    | .idle _ => s.call t c
    | _ => some (s, [])
  | .resume t a => s.resume t a

/-- The state after the steps, and what the slots went through. -/
def run : FileTable τ → List (FileAction τ) → Option (FileTable τ × SlotLog)
  | s, [] => some (s, [])
  | s, a :: as =>
    (s.act a).bind fun r => (run r.1 as).map fun q => (q.1, r.2 ++ q.2)

end FileTable

end MipsUcore.Kern
