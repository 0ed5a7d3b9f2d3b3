/-
The inode cache of SFS under any interleaving.

# The counting argument

For every address four things are counted over the threads: the references
and the open counts they hold, the threads that have dropped the last
reference and wait for the semaphore (`waiting`), and the thread that works
on the inode with the semaphore (`busy`). `NodeOk` says how an in-memory
inode goes with these numbers. The heart is

  reclaim_count = waiting + (1 if there is a reference)

which every step keeps: a revived inode gains a reference and a reclaim, a
dropped one trades the reference for a waiting thread, and a waiting
thread that is let in is traded for the decrement. So the thread that
brings `reclaim_count` to 0 at an inode without references is the last one
to know the pointer, and it has the semaphore.

The lists (`Listed`) only depend on which address holds which inode
number, and change when an inode is created or freed.
-/
import MipsUcore.Lib.Tally
import MipsUcore.Kern.InodeCache
import Mathlib.Algebra.BigOperators.Group.Finset.Piecewise

namespace MipsUcore.Kern

open Tally Function

-- ===== what counts

namespace CacheThread

def refsOf (p : Nat) (c : CacheThread) : Nat := c.refs p

def opensOf (p : Nat) (c : CacheThread) : Nat := c.opens p

/-- The thread waits to reclaim the inode. -/
def waiting (p : Nat) (c : CacheThread) : Nat :=
  if c.pc = .reclaimWait p then 1 else 0

/-- The thread works on the inode with the semaphore. -/
def busy (p : Nat) (c : CacheThread) : Nat :=
  if c.pc = .truncating p ∨ c.pc = .syncing p then 1 else 0

/-- The thread has the semaphore. -/
def locks (c : CacheThread) : Prop :=
  match c.pc with
  | .loadRead _ => True
  | .truncating _ => True
  | .syncing _ => True
  | _ => False

/-- An open count comes with a reference, also inside `vop_close`. -/
structure Ok (c : CacheThread) : Prop where
  le : ∀ p, c.opens p ≤ c.refs p
  closing : ∀ p, c.pc = .closing p → 0 < c.refs p

variable {k p : Nat}

variable {c : CacheThread}

@[simp] theorem setRefs_waiting (p n q : Nat) :
    (c.setRefs p n).waiting q = c.waiting q := rfl

@[simp] theorem setOpens_waiting (p n q : Nat) :
    (c.setOpens p n).waiting q = c.waiting q := rfl

@[simp] theorem goto_waiting (pc : CachePc) (q : Nat) :
    (c.goto pc).waiting q = if pc = .reclaimWait q then 1 else 0 := rfl

@[simp] theorem goto_busy (pc : CachePc) (q : Nat) : (c.goto pc).busy q =
    if pc = .truncating q ∨ pc = .syncing q then 1 else 0 := rfl

/-- Who works on an inode has the semaphore. -/
theorem busy_eq_zero (h : ¬ c.locks) (p : Nat) : c.busy p = 0 := by
  refine if_neg fun hpc => h ?_
  obtain hpc | hpc := hpc <;> simp [locks, hpc]

/-- Where the thread is counts for no inode. -/
def Away (c : CacheThread) : Prop := ∀ q, c.waiting q = 0 ∧ c.busy q = 0

/-- The thread has one more reference and leaves its operation. -/
def obtained (p : Nat) (c : CacheThread) : CacheThread :=
  (c.setRefs p (c.refs p + 1)).goto (.idle (some p))

theorem Ok.obtained (h : c.Ok) (p : Nat) : (c.obtained p).Ok := by
  refine ⟨fun q => ?_, by simp [CacheThread.obtained]⟩
  have hle := h.le q
  by_cases hq : q = p
  · subst hq
    simp [CacheThread.obtained]
    omega
  · simpa [CacheThread.obtained, update_of_ne hq] using hle

/-- The thread is inside an operation on the inode. -/
def At (p : Nat) (c : CacheThread) : Prop :=
  c.pc = .reclaimWait p ∨ c.pc = .truncating p ∨ c.pc = .syncing p ∨
    c.pc = .closing p

/-- The thread gives a reference and `k` open counts away. -/
def lend (p k : Nat) (c : CacheThread) : CacheThread :=
  (c.setRefs p (c.refs p - 1)).setOpens p (c.opens p - k)

/-- The thread gets a reference and `k` open counts. -/
def borrow (p k : Nat) (c : CacheThread) : CacheThread :=
  (c.setRefs p (c.refs p + 1)).setOpens p (c.opens p + k)

theorem refsOf_lend (h : 0 < c.refs p) (q : Nat) :
    (c.lend p k).refsOf q + (if q = p then 1 else 0) = c.refsOf q := by
  by_cases hq : q = p
  · subst hq
    simp [refsOf, lend]
    omega
  · simp [refsOf, lend, hq]

theorem opensOf_lend (h : k ≤ c.opens p) (q : Nat) :
    (c.lend p k).opensOf q + (if q = p then k else 0) = c.opensOf q := by
  by_cases hq : q = p
  · subst hq
    simp [opensOf, lend]
    omega
  · simp [opensOf, lend, hq]

theorem refsOf_borrow (c : CacheThread) (p k q : Nat) :
    (c.borrow p k).refsOf q = c.refsOf q + if q = p then 1 else 0 := by
  by_cases hq : q = p <;> simp [refsOf, borrow, hq]

theorem opensOf_borrow (c : CacheThread) (p k q : Nat) :
    (c.borrow p k).opensOf q = c.opensOf q + if q = p then k else 0 := by
  by_cases hq : q = p <;> simp [opensOf, borrow, hq]

theorem Ok.lend (h : c.Ok) (hpc : ∀ q, c.pc ≠ .closing q)
    (hk : c.opens p - k ≤ c.refs p - 1) : (c.lend p k).Ok where
  le q := by
    by_cases hq : q = p
    · subst hq
      simpa [CacheThread.lend] using hk
    · simpa [CacheThread.lend, hq] using h.le q
  closing q hq := absurd hq (hpc q)

theorem Ok.borrow (h : c.Ok) (hk : k ≤ 1) : (c.borrow p k).Ok where
  le q := by
    have hle := h.le q
    by_cases hq : q = p
    · subst hq
      simp [CacheThread.borrow]
      omega
    · simpa [CacheThread.borrow, hq] using hle
  closing q hq := by
    have hpos := h.closing q hq
    by_cases hqp : q = p
    · subst hqp
      simp [CacheThread.borrow]
    · simpa [CacheThread.borrow, hqp] using hpos

/-- The threads count for the same at this address. -/
def Same (p : Nat) (c d : CacheThread) : Prop :=
  d.refs p = c.refs p ∧ d.opens p = c.opens p ∧
    d.waiting p = c.waiting p ∧ d.busy p = c.busy p

end CacheThread

/-- The thread that makes a step. -/
def CacheAction.thread {τ : Type} : CacheAction τ → τ
  | .load t _ => t
  | .refInc t _ => t
  | .refDec t _ => t
  | .openInc t _ => t
  | .openDec t _ => t
  | .give t _ _ _ => t
  | .touch t _ => t
  | .resume t _ => t

/-- The inode at this address is created. -/
def CacheEvent.isCreated (p : Nat) : CacheEvent → Bool
  | .created q _ => q = p
  | .freed _ => false

/-- An in-memory inode and what the threads hold of it: references, open
counts, waiting threads and busy ones. -/
def NodeOk (r o w b : Nat) : Option MemInode → Prop
  | none => r = 0 ∧ w = 0 ∧ b = 0
  | some n => n.ref = r ∧ n.opens = o ∧
    n.reclaim = w + (if r = 0 then 0 else 1) ∧ (b = 0 ∨ r = 0 ∧ w = 0)

namespace InodeCache

open CacheThread

variable {τ : Type} {s : InodeCache τ} {t : τ} {p : Nat}
  {ino : Nat}

/-- The inode number at an address. -/
def inos (s : InodeCache τ) (p : Nat) : Option Nat :=
  (s.node p).map MemInode.ino

/-- How many inodes are at an address: none or one. -/
def present (s : InodeCache τ) (p : Nat) : Nat :=
  if (s.inos p).isSome then 1 else 0

theorem present_eq (s : InodeCache τ) (p : Nat) :
    s.present p = if (s.node p).isSome then 1 else 0 := by
  simp [present, inos]

theorem inos_setNode {n m : MemInode} (hn : s.node p = some n)
    (hino : m.ino = n.ino) : (s.setNode p (some m)).inos = s.inos := by
  funext q
  by_cases hq : q = p
  · subst hq
    simp [inos, setNode, hn, hino]
  · simp [inos, setNode, update_of_ne hq]

theorem deref_eq {n : MemInode} (hn : s.node p = some n)
    (k : MemInode → CacheStep τ) : s.deref p k = k n := by
  rw [deref, hn]

/-- `inode_check` of an inode whose counts agree. -/
theorem inodeCheck_eq {n : MemInode} (hle : n.opens ≤ n.ref)
    (hpos : 0 ≤ n.opens) (hbound : n.ref < maxInodeCount)
    (k : CacheStep τ) : inodeCheck n k = k := by
  rw [inodeCheck, if_neg (by omega), if_neg (by omega)]

theorem lookup_some (h : s.lookup ino = some p) :
    ∃ n, s.node p = some n ∧ n.ino = ino := by
  have hp := List.find?_some h
  obtain ⟨n, hn, hino⟩ := (Option.any_eq_true _ _).mp hp
  exact ⟨n, hn, of_decide_eq_true hino⟩

theorem inos_setNode_eq (s : InodeCache τ) (p : Nat) (o : Option MemInode) :
    (s.setNode p o).inos = update s.inos p (o.map MemInode.ino) := by
  funext q
  by_cases hq : q = p
  · subst hq
    simp [inos, setNode]
  · simp [inos, setNode, update_of_ne hq]

variable [Fintype τ]

variable {n m : MemInode} {pc : CachePc}

/-- Every address goes with what the threads hold of it. -/
def Counts (s : InodeCache τ) : Prop :=
  ∀ p, NodeOk (tally (refsOf p) s.thread)
    (tally (opensOf p) s.thread)
    (tally (waiting p) s.thread)
    (tally (busy p) s.thread) (s.node p)

/-- The lists hold each inode once, and no inode number twice. -/
structure Listed (inos : Nat → Option Nat) (inodeList : List Nat)
    (hashList : Nat → List Nat) : Prop where
  inj : ∀ p q i, inos p = some i → inos q = some i → p = q
  nodup : inodeList.Nodup
  mem : ∀ p, p ∈ inodeList ↔ (inos p).isSome
  bucketNodup : ∀ b, (hashList b).Nodup
  bucket : ∀ b p, p ∈ hashList b ↔ ∃ i, inos p = some i ∧ sinHashfn i = b

/-- What holds in every state. -/
structure Inv (s : InodeCache τ) : Prop where
  counts : s.Counts
  threads : ∀ t, (s.thread t).Ok
  listed : Listed s.inos s.inodeList s.hashList
  lock : ∀ t, s.lock = some t ↔ (s.thread t).locks
  reading : ∀ t i, (s.thread t).pc = .loadRead i → ∀ p, s.inos p ≠ some i

-- ----- the semaphore

variable (h : s.Inv)

section
include h

/-- Only one thread has the semaphore. -/
theorem Inv.only (hlocks : (s.thread t).locks) {u : τ}
    (hu : u ≠ t) : ¬ (s.thread u).locks := by
  rw [← h.lock u, (h.lock t).mpr hlocks]
  simpa using Ne.symm hu

/-- Nobody works on an inode while the semaphore is free. -/
theorem Inv.not_busy (hlock : s.lock = none) (p : Nat) :
    tally (busy p) s.thread = 0 := by
  refine tally_eq_zero.mpr fun t => busy_eq_zero ?_ p
  rw [← h.lock t, hlock]
  simp

/-- There is an inode where a thread counts for one. -/
theorem Inv.node_of_count
    (hpos : 0 < tally (refsOf p) s.thread + tally (waiting p) s.thread +
      tally (busy p) s.thread) : ∃ n, s.node p = some n := by
  have hok := h.counts p
  cases hn : s.node p with
  | some n => exact ⟨n, rfl⟩
  | none =>
    rw [hn] at hok
    obtain ⟨hr, hw, hb⟩ := hok
    omega

theorem Inv.node_of_refs (hr : 0 < (s.thread t).refs p) :
    ∃ n, s.node p = some n := by
  have hle : (s.thread t).refs p ≤ _ := le_tally (refsOf p) s.thread t
  exact h.node_of_count (by omega)

/-- There are no more open counts than references. -/
theorem Inv.opens_le (p : Nat) :
    tally (opensOf p) s.thread ≤ tally (refsOf p) s.thread :=
  tally_le_tally fun u => (h.threads u).le p

/-- What the threads hold of an inode. -/
theorem Inv.node (hn : s.node p = some n) : n.ref = tally (refsOf p) s.thread ∧
    n.opens = tally (opensOf p) s.thread ∧
    n.reclaim = tally (waiting p) s.thread
      + (if tally (refsOf p) s.thread = 0 then 0 else 1) ∧
    (tally (busy p) s.thread = 0 ∨ tally (refsOf p) s.thread = 0 ∧
        tally (waiting p) s.thread = 0) := by
  have hok := h.counts p
  rwa [hn] at hok

theorem Inv.lookup_none (hnone : s.lookup ino = none)
    (p : Nat) : s.inos p ≠ some ino := by
  intro hp
  have hmem := (h.listed.bucket (sinHashfn ino) p).mpr ⟨ino, hp, rfl⟩
  obtain ⟨n, hn, hino⟩ := Option.map_eq_some_iff.mp hp
  have hno := List.find?_eq_none.mp hnone p hmem
  simp [hn, hino] at hno

/-- What the thread that works on an inode knows of it. -/
theorem Inv.held
    (hpc : (s.thread t).pc = .truncating p ∨ (s.thread t).pc = .syncing p) :
    (s.thread t).locks ∧ ∃ n, s.node p = some n ∧ n.ref = 0 ∧ n.opens = 0 ∧
      n.reclaim = 0 ∧ tally (refsOf p) s.thread = 0 ∧
      tally (waiting p) s.thread = 0 ∧ tally (busy p) s.thread = 1 := by
  have hlocks : (s.thread t).locks := by
    obtain hpc | hpc := hpc <;> simp [locks, hpc]
  have hbusy : tally (busy p) s.thread = 1 := by
    rw [tally_eq_of_alone fun u hu => busy_eq_zero (h.only hlocks hu) p]
    exact if_pos hpc
  have hopen := h.opens_le p
  obtain ⟨n, hn⟩ := h.node_of_count (p := p) (by omega)
  obtain ⟨href, hopens, hrec, hno⟩ := h.node hn
  obtain ⟨hr, hw⟩ := hno.resolve_left (by omega)
  exact ⟨hlocks, n, hn, by omega, by omega, by omega, hr, hw, hbusy⟩

end

/-- The threads that wait to reclaim an inode. -/
theorem waiting_eq_card (s : InodeCache τ) (p : Nat) :
    tally (waiting p) s.thread = (Finset.univ.filter
      fun t => (s.thread t).pc = .reclaimWait p).card := by
  rw [Finset.card_filter]
  rfl

/-- Each inode is on its lists once. -/
theorem Inv.count_lists (h : s.Inv) (p : Nat) :
    s.inodeList.count p = (if (s.node p).isSome then 1 else 0) ∧
      ∀ b, (s.hashList b).count p
        = if (s.node p).any fun n => sinHashfn n.ino = b then 1 else 0 := by
  refine ⟨?_, fun b => ?_⟩
  · rw [h.listed.nodup.count]
    simp [h.listed.mem, inos]
  · have hiff : p ∈ s.hashList b ↔
        ((s.node p).any fun n => sinHashfn n.ino = b) = true := by
      rw [h.listed.bucket, Option.any_eq_true]
      constructor
      · rintro ⟨i, hi, hb⟩
        obtain ⟨n, hn, rfl⟩ := Option.map_eq_some_iff.mp hi
        exact ⟨n, hn, decide_eq_true hb⟩
      · rintro ⟨n, hn, hb⟩
        exact ⟨n.ino, Option.map_eq_some_iff.mpr ⟨n, hn, rfl⟩,
          of_decide_eq_true hb⟩
    rw [(h.listed.bucketNodup b).count]
    exact if_congr hiff rfl rfl

theorem mounted_inv : (mounted : InodeCache τ).Inv where
  counts p := by
    have hzero : ∀ w : CacheThread → Nat,
        w ⟨.idle none, fun _ => 0, fun _ => 0⟩ = 0 →
        tally w (mounted : InodeCache τ).thread = 0 :=
      fun w hw => tally_eq_zero.mpr fun _ => hw
    exact ⟨hzero _ rfl, hzero _ rfl, hzero _ rfl⟩
  threads _ := ⟨fun _ => Nat.le_refl 0, by simp [mounted]⟩
  listed := by
    refine ⟨?_, List.nodup_nil, ?_, fun _ => List.nodup_nil, ?_⟩ <;>
      simp [mounted, inos]
  lock t := by simp [mounted, locks]
  reading t i hpc := by simp [mounted] at hpc

-- ----- what one moves

variable [DecidableEq τ] {s' : InodeCache τ} {c : CacheThread}

/-- One thread moves, and its count changes at one address. -/
theorem Counts.move (h : s.Counts) (hthread : s'.thread = update s.thread t c)
    (hnode : ∀ q, q ≠ p → s'.node q = s.node q)
    (hside : ∀ q, q ≠ p → (s.thread t).Same q c) (hp : ∀ r o w b,
      r + (s.thread t).refs p = tally (refsOf p) s.thread + c.refs p →
      o + (s.thread t).opens p = tally (opensOf p) s.thread + c.opens p →
      w + (s.thread t).waiting p = tally (waiting p) s.thread + c.waiting p →
      b + (s.thread t).busy p = tally (busy p) s.thread + c.busy p →
      NodeOk r o w b (s'.node p)) : s'.Counts := by
  intro q
  rw [hthread]
  by_cases hq : q = p
  · subst hq
    exact hp _ _ _ _ (tally_update (refsOf q) s.thread t c)
      (tally_update (opensOf q) s.thread t c)
      (tally_update (waiting q) s.thread t c)
      (tally_update (busy q) s.thread t c)
  · obtain ⟨hr, ho, hw, hb⟩ := hside q hq
    rw [hnode q hq, tally_update_same hr, tally_update_same ho,
      tally_update_same hw, tally_update_same hb]
    exact h q

/-- One thread moves and counts for the same everywhere. -/
theorem Counts.quiet (h : s.Counts) (hthread : s'.thread = update s.thread t c)
    (hnode : s'.node = s.node) (hside : ∀ q, (s.thread t).Same q c) :
    s'.Counts := by
  intro q
  obtain ⟨hr, ho, hw, hb⟩ := hside q
  rw [hthread, hnode, tally_update_same hr, tally_update_same ho,
    tally_update_same hw, tally_update_same hb]
  exact h q

section Lock

variable (h : s.Inv) (hthread : s'.thread = update s.thread t c)
include h hthread

/-- The semaphore where one thread moves. -/
theorem Inv.lock_move (hself : s'.lock = some t ↔ c.locks)
    (hother : ∀ u, u ≠ t → (s'.lock = some u ↔ s.lock = some u)) (u : τ) :
    s'.lock = some u ↔ (s'.thread u).locks := by
  rw [hthread]
  exact (forall_update_iff s.thread fun u c => s'.lock = some u ↔ c.locks).mpr
      ⟨hself, fun u hu => (hother u hu).trans (h.lock u)⟩ u

/-- The thread neither takes the semaphore nor releases it. -/
theorem Inv.lock_same (hlock : s'.lock = s.lock)
    (hc : c.locks ↔ (s.thread t).locks) (u : τ) :
    s'.lock = some u ↔ (s'.thread u).locks := by
  refine h.lock_move hthread ?_ (fun u _ => ?_) u
  · rw [hlock, hc]
    exact h.lock t
  · rw [hlock]

theorem Inv.lock_take (hfree : s.lock = none) (hlock : s'.lock = some t)
    (hc : c.locks) (u : τ) : s'.lock = some u ↔ (s'.thread u).locks := by
  refine h.lock_move hthread (iff_of_true hlock hc) (fun u hu => ?_) u
  simp [hlock, hfree, Ne.symm hu]

theorem Inv.lock_drop (hhad : (s.thread t).locks) (hlock : s'.lock = none)
    (hc : ¬ c.locks) (u : τ) : s'.lock = some u ↔ (s'.thread u).locks := by
  refine h.lock_move hthread (iff_of_false ?_ hc) (fun u hu => ?_) u
  · simp [hlock]
  · simp [hlock, (h.lock t).mpr hhad, Ne.symm hu]

theorem Inv.threads_move (hok : c.Ok) (u : τ) : (s'.thread u).Ok := by
  rw [hthread]
  exact (forall_update_iff s.thread fun _ c => c.Ok).mpr
    ⟨hok, fun u _ => h.threads u⟩ u

/-- A step that neither creates nor frees an inode. -/
theorem Inv.change (hcounts : s'.Counts) (hok : c.Ok)
    (hinos : s'.inos = s.inos) (hinode : s'.inodeList = s.inodeList)
    (hhash : s'.hashList = s.hashList)
    (hlock : ∀ u, s'.lock = some u ↔ (s'.thread u).locks)
    (hread : ∀ i, c.pc = .loadRead i → ∀ p, s.inos p ≠ some i) : s'.Inv where
  counts := hcounts
  threads := h.threads_move hthread hok
  listed := by
    rw [hinos, hinode, hhash]
    exact h.listed
  lock := hlock
  reading := by
    rw [hinos, hthread]
    exact (forall_update_iff s.thread fun _ c =>
      ∀ i, c.pc = .loadRead i → ∀ p, s.inos p ≠ some i).mpr
        ⟨hread, fun u _ => h.reading u⟩

/-- A step of the thread with the semaphore that creates or frees the inode
at `p` and releases the semaphore. -/
theorem Inv.relist (hlocks : (s.thread t).locks) (hcounts : s'.Counts)
    (hok : c.Ok) (hidle : ∃ m, c.pc = .idle m)
    (hlisted : Listed s'.inos s'.inodeList s'.hashList)
    (hlock : s'.lock = none) : s'.Inv where
  counts := hcounts
  threads := h.threads_move hthread hok
  listed := hlisted
  lock := by
    obtain ⟨m, hm⟩ := hidle
    refine h.lock_drop hthread hlocks hlock ?_
    simp [locks, hm]
  reading := by
    obtain ⟨m, hm⟩ := hidle
    rw [hthread]
    refine (forall_update_iff s.thread fun _ c =>
      ∀ i, c.pc = .loadRead i → ∀ p, s'.inos p ≠ some i).mpr ⟨?_, ?_⟩
    · simp [hm]
    · intro u hu i hpc
      exact absurd (by simp [locks, hpc]) (h.only hlocks hu)

/-- A thread goes on and counts for no inode, neither before nor then. -/
theorem Inv.quiet (hc : c = (s.thread t).goto pc)
    (hold : (s.thread t).Away) (hnew : c.Away)
    (hs : s'.node = s.node ∧ s'.inodeList = s.inodeList ∧
      s'.hashList = s.hashList) (hclose : ∀ q, pc ≠ .closing q)
    (hlock : ∀ u, s'.lock = some u ↔ (s'.thread u).locks)
    (hread : ∀ i, pc = .loadRead i → ∀ p, s.inos p ≠ some i) : s'.Inv := by
  subst hc
  have hinos : s'.inos = s.inos := by
    funext q
    rw [inos, hs.1, inos]
  refine h.change hthread ?_ ⟨(h.threads t).le, fun q hq => ?_⟩ hinos
    hs.2.1 hs.2.2 hlock hread
  · refine h.counts.quiet hthread hs.1 fun q => ⟨rfl, rfl, ?_, ?_⟩
    · rw [(hold q).1, (hnew q).1]
    · rw [(hold q).2, (hnew q).2]
  · exact absurd hq (hclose q)

end Lock

-- ===== the steps

/-- The inode at `p` is freed by `t`: it has no reference and no open count,
no other thread has the pointer, and no list gives it any more. -/
structure Freed (s s' : InodeCache τ) (t : τ) (p : Nat) : Prop where
  unused : ∃ n, s.node p = some n ∧ n.ref = 0 ∧ n.opens = 0
  refs : ∀ u, (s.thread u).refs p = 0
  others : ∀ u, u ≠ t → ¬ (s.thread u).At p
  gone : s'.node p = none
  unlisted : p ∉ s'.inodeList ∧ ∀ b, p ∉ s'.hashList b

/-- A step of the thread `t` from `s` that ends in `r`. The only failures
are the disk's and of the size of the counts; what is created and freed is
accounted for. -/
def Keeps (s : InodeCache τ) (t : τ) : CacheStep τ → Prop
  | .error e => e = .disk ∨ e = .bound
  | .ok (s', es) => s'.Inv ∧
    (∀ p, s.present p + es.countP (CacheEvent.isCreated p)
      = s'.present p + es.count (.freed p)) ∧
    ∀ p, .freed p ∈ es → s.Freed s' t p

omit [DecidableEq τ] in
/-- A step that neither creates nor frees an inode. -/
theorem Inv.keeps (h : s'.Inv) (hinos : s'.inos = s.inos) :
    s.Keeps t (.ok (s', [])) := by
  refine ⟨h, fun p => ?_, fun p hp => ?_⟩
  · simp [present, hinos]
  · cases hp

/-- Outside the semaphore, and inside an operation on at most this
inode. -/
def Calm (p : Nat) : CachePc → Prop
  | .idle _ => True
  | .loadWait _ => True
  | .reclaimWait q => q = p
  | .closing q => q = p
  | _ => False

theorem Calm.locks (h : Calm p pc) (hc : c.pc = pc) : ¬ c.locks := by
  cases pc <;> simp_all [Calm, CacheThread.locks]

theorem Calm.busy (h : Calm p pc) (hc : c.pc = pc) (q : Nat) :
    c.busy q = 0 := by
  cases pc <;> simp_all [Calm, CacheThread.busy]

theorem Calm.waiting (h : Calm p pc) (hc : c.pc = pc)
    {q : Nat} (hq : q ≠ p) : c.waiting q = 0 := by
  cases pc <;> simp_all [Calm, CacheThread.waiting, Ne.symm hq]

/-- The counts of one inode change, and what one thread holds of it: then
`r` references and `o` open counts. -/
theorem Inv.countStep (h : s.Inv) (hn : s.node p = some n)
    (hino : m.ino = n.ino) (hold : Calm p (s.thread t).pc)
    (hnew : Calm p c.pc) (r o w : Nat)
    (hc : c.refs = update (s.thread t).refs p r ∧
      c.opens = update (s.thread t).opens p o ∧ c.waiting p = w)
    (hle : o ≤ r) (hclose : c.pc = .closing p → 0 < r) (hm : ∀ r' o' w',
      r' + (s.thread t).refs p = tally (refsOf p) s.thread + r →
      o' + (s.thread t).opens p = tally (opensOf p) s.thread + o →
      w' + (s.thread t).waiting p = tally (waiting p) s.thread + w →
      NodeOk r' o' w' (tally (busy p) s.thread) (some m)) :
    s.Keeps t (.ok ((s.setNode p (some m)).setThread t c, [])) := by
  obtain ⟨hrefs, hopens, rfl⟩ := hc
  have hr : c.refs p = r := by rw [hrefs, update_self]
  have ho : c.opens p = o := by rw [hopens, update_self]
  have hside : ∀ q, q ≠ p →
      c.refs q = (s.thread t).refs q ∧ c.opens q = (s.thread t).opens q := by
    intro q hq
    simp [hrefs, hopens, update_of_ne hq]
  refine Inv.keeps ?_ (inos_setNode hn hino)
  refine h.change rfl ?_ ?_ (inos_setNode hn hino) rfl rfl ?_ ?_
  · refine h.counts.move (p := p) rfl (fun q hq => ?_) (fun q hq => ?_) ?_
    · exact update_of_ne hq _ _
    · obtain ⟨hr, ho⟩ := hside q hq
      exact ⟨hr, ho, (hnew.waiting rfl hq).trans (hold.waiting rfl hq).symm,
        (hnew.busy rfl q).trans (hold.busy rfl q).symm⟩
    · intro r' o' w' b hr' ho' hw hb
      have hbusy : b = tally (busy p) s.thread := by
        have hzero := hold.busy rfl p
        have hzero' := hnew.busy rfl p
        omega
      rw [hbusy]
      rw [hr] at hr'
      rw [ho] at ho'
      simpa [setThread, setNode] using hm r' o' w' hr' ho' hw
  · refine ⟨fun q => ?_, fun q hq => ?_⟩
    · by_cases hqp : q = p
      · rw [hqp, hr, ho]
        exact hle
      · obtain ⟨hr, ho⟩ := hside q hqp
        rw [hr, ho]
        exact (h.threads t).le q
    · rw [hq] at hnew
      have hqp : q = p := hnew
      rw [hqp] at hq ⊢
      rw [hr]
      exact hclose hq
  · exact h.lock_same rfl rfl (iff_of_false (hnew.locks rfl) (hold.locks rfl))
  · intro i hi
    rw [hi] at hnew
    cases hnew

theorem calm_of_idle (h : c.isIdle) : Calm p c.pc := by
  cases hpc : c.pc <;> simp_all [isIdle, Calm]

theorem waiting_of_idle (h : c.isIdle) (q : Nat) : c.waiting q = 0 := by
  cases hpc : c.pc <;> simp_all [isIdle, waiting]

section
include h

/-- `inode_ref_inc`. -/
theorem Inv.refInc (hidle : (s.thread t).isIdle)
    (hr : 0 < (s.thread t).refs p) : s.Keeps t (s.refInc t p) := by
  obtain ⟨n, hn⟩ := h.node_of_refs hr
  have hcalm : Calm p (s.thread t).pc := calm_of_idle hidle
  have hhas : (s.thread t).refs p ≤ _ := le_tally (refsOf p) s.thread t
  have hle := (h.threads t).le p
  have hwait := waiting_of_idle hidle p
  obtain ⟨href, hopens, hrec, hbusy⟩ := h.node hn
  simp only [InodeCache.refInc, deref_eq hn]
  refine h.countStep hn rfl hcalm hcalm ((s.thread t).refs p + 1)
    ((s.thread t).opens p) 0 (by simp [hwait]) (by omega) (by simp) ?_
  intro r o w hr' ho hw
  simp only [NodeOk]
  split_ifs at hrec ⊢ <;> omega

/-- `inode_ref_dec`, by a thread with a reference to spare. -/
theorem Inv.refDec (hidle : (s.thread t).isIdle)
    (hr : (s.thread t).opens p < (s.thread t).refs p) :
    s.Keeps t (s.refDec t p) := by
  obtain ⟨n, hn⟩ := h.node_of_refs (Nat.zero_lt_of_lt hr)
  have hcalm : Calm p (s.thread t).pc := calm_of_idle hidle
  have hopen : tally (opensOf p) s.thread < tally (refsOf p) s.thread :=
    tally_lt_tally (fun u => (h.threads u).le p) hr
  have hwait := waiting_of_idle hidle p
  obtain ⟨href, hopens, hrec, hbusy⟩ := h.node hn
  simp only [InodeCache.refDec, deref_eq hn]
  rw [if_pos (by omega)]
  split_ifs with hzero
  · -- the last reference: the thread is the one more to reclaim
    have hmax : (0 : Int) < maxInodeCount := by decide
    rw [inodeCheck_eq (by dsimp only; omega) (by dsimp only; omega)
      (by dsimp only; omega)]
    refine h.countStep hn rfl hcalm rfl ((s.thread t).refs p - 1)
      ((s.thread t).opens p) 1 (by simp) (by omega) (by simp) ?_
    intro r o w hr' ho hw
    simp only [NodeOk]
    split_ifs at hrec ⊢ <;> omega
  · refine h.countStep hn rfl hcalm hcalm ((s.thread t).refs p - 1)
      ((s.thread t).opens p) 0 (by simp [hwait]) (by omega) ?_ ?_
    · intro hpc
      rw [setRefs_pc] at hpc
      simp [isIdle, hpc] at hidle
    · intro r o w hr' ho hw
      simp only [NodeOk]
      split_ifs at hrec ⊢ <;> omega

/-- `inode_open_inc`, by a thread with a reference to spare. -/
theorem Inv.openInc (hidle : (s.thread t).isIdle)
    (hr : (s.thread t).opens p < (s.thread t).refs p) :
    s.Keeps t (s.openInc t p) := by
  obtain ⟨n, hn⟩ := h.node_of_refs (Nat.zero_lt_of_lt hr)
  have hcalm : Calm p (s.thread t).pc := calm_of_idle hidle
  have hwait := waiting_of_idle hidle p
  obtain ⟨href, hopens, hrec, hbusy⟩ := h.node hn
  simp only [InodeCache.openInc, deref_eq hn]
  refine h.countStep hn rfl hcalm hcalm ((s.thread t).refs p)
    ((s.thread t).opens p + 1) 0 (by simp [hwait]) (by omega)
    (fun _ => Nat.zero_lt_of_lt hr) ?_
  intro r o w hr' ho hw
  simp only [NodeOk]
  split_ifs at hrec ⊢ <;> omega

/-- `inode_open_dec`. -/
theorem Inv.openDec (hidle : (s.thread t).isIdle)
    (hr : 0 < (s.thread t).opens p) : s.Keeps t (s.openDec t p) := by
  have hrefs := Nat.lt_of_lt_of_le hr ((h.threads t).le p)
  obtain ⟨n, hn⟩ := h.node_of_refs hrefs
  have hcalm : Calm p (s.thread t).pc := calm_of_idle hidle
  have hhas : (s.thread t).opens p ≤ _ := le_tally (opensOf p) s.thread t
  have hle := (h.threads t).le p
  have hwait := waiting_of_idle hidle p
  obtain ⟨href, hopens, hrec, hbusy⟩ := h.node hn
  simp only [InodeCache.openDec, deref_eq hn]
  rw [if_pos (by omega)]
  split_ifs with hzero
  · -- the last open count: `vop_close` checks the inode first
    rw [inodeCheck, if_neg (by dsimp only; omega)]
    split_ifs with hbound
    · exact .inr rfl
    refine h.countStep hn rfl hcalm rfl ((s.thread t).refs p)
      ((s.thread t).opens p - 1) 0 (by simp) (by omega) (fun _ => hrefs) ?_
    intro r o w hr' ho hw
    simp only [NodeOk]
    split_ifs at hrec ⊢ <;> omega
  · refine h.countStep hn rfl hcalm hcalm ((s.thread t).refs p)
      ((s.thread t).opens p - 1) 0 (by simp [hwait]) (by omega)
      (fun _ => hrefs) ?_
    intro r o w hr' ho hw
    simp only [NodeOk]
    split_ifs at hrec ⊢ <;> omega

/-- A step that changes neither the counts of the inode nor what the thread
holds of it. -/
theorem Inv.dirtyStep (hn : s.node p = some n)
    (d : Bool) (pc : CachePc) (hold : Calm p (s.thread t).pc)
    (hnew : Calm p pc)
    (hwait : ((s.thread t).goto pc).waiting p = (s.thread t).waiting p)
    (hclose : pc = .closing p → 0 < (s.thread t).refs p) : s.Keeps t
      (.ok ((s.setNode p (some { n with dirty := d })).goto t pc, [])) := by
  obtain ⟨href, hopens, hrec, hbusy⟩ := h.node hn
  refine h.countStep (c := (s.thread t).goto pc) hn rfl hold hnew _ _ _
    (by simpa using hwait) ((h.threads t).le p) hclose ?_
  intro r o w hr' ho hw
  simp only [NodeOk]
  split_ifs at hrec ⊢ <;> omega

/-- `vop_close` returns. -/
theorem Inv.endClose (hpc : (s.thread t).pc = .closing p)
    (a : CacheAnswer) : s.Keeps t (s.endClose t p a) := by
  obtain ⟨n, hn⟩ := h.node_of_refs ((h.threads t).closing p hpc)
  have hold : Calm p (s.thread t).pc := by
    rw [hpc]
    rfl
  simp only [InodeCache.endClose, deref_eq hn]
  refine h.dirtyStep hn a.dirty (.idle none) hold trivial ?_ (by simp)
  simp [waiting, hpc]

/-- The thread calls `sfs_load_inode`. -/
theorem Inv.load (hidle : (s.thread t).isIdle) (ino : Nat) :
    s.Keeps t (.ok (s.goto t (.loadWait ino), [])) := by
  have hcalm : Calm 0 (s.thread t).pc := calm_of_idle hidle
  refine Inv.keeps ?_ rfl
  refine h.quiet rfl rfl (fun q => ?_) (by simp [Away]) ⟨rfl, rfl, rfl⟩
    (by simp) ?_ (by simp)
  · exact ⟨waiting_of_idle hidle q, hcalm.busy rfl q⟩
  · refine h.lock_same rfl rfl (iff_of_false ?_ (hcalm.locks rfl))
    simp [locks]

/-- An operation makes the inode dirty. -/
theorem Inv.touch (hidle : (s.thread t).isIdle)
    (hr : 0 < (s.thread t).refs p) : s.Keeps t (s.act (.touch t p)) := by
  obtain ⟨n, hn⟩ := h.node_of_refs hr
  have hcalm : Calm p (s.thread t).pc := calm_of_idle hidle
  have hstep := h.dirtyStep hn true (s.thread t).pc hcalm hcalm rfl fun _ => hr
  have hself : (s.setNode p (some { n with dirty := true })).goto t
      (s.thread t).pc = s.setNode p (some { n with dirty := true }) := by
    simp [goto, setThread, setNode, CacheThread.goto]
  simp only [InodeCache.act, deref_eq hn]
  rwa [hself] at hstep

end

/-- What a thread gives of an inode it has. -/
theorem tally_give (w : CacheThread → Nat) {f : τ → CacheThread} {u : τ}
    {c d : CacheThread} {k : Nat} (hc : w c + k = w (f t))
    (hd : w d = w (update f t c u) + k) :
    tally w (update (update f t c) u d) = tally w f := by
  have hfirst := tally_update w f t c
  have hsecond := tally_update w (update f t c) u d
  omega

omit [Fintype τ] in
theorem pc_update {f : τ → CacheThread} (h : c.pc = (f t).pc) (x : τ) :
    (update f t c x).pc = (f x).pc := by
  by_cases hx : x = t
  · rw [hx, update_self, h]
  · rw [update_of_ne hx]

section
include h

/-- A reference passes to another thread. -/
theorem Inv.give (u : τ) (opened : Bool) (hidle : (s.thread t).isIdle)
    (hr : if opened then 0 < (s.thread t).opens p
      else (s.thread t).opens p < (s.thread t).refs p) :
    s.Keeps t (.ok (s.give t u p opened, [])) := by
  have hle := (h.threads t).le p
  have hk : (if opened then 1 else 0) ≤ (s.thread t).opens p ∧
      (s.thread t).opens p - (if opened then 1 else 0)
        ≤ (s.thread t).refs p - 1 ∧ 0 < (s.thread t).refs p := by
    cases opened <;> simp at hr ⊢ <;> omega
  have hone : (if opened then 1 else 0) ≤ 1 := by split_ifs <;> omega
  generalize hkdef : (if opened then 1 else 0) = k at hk hone
  have hthread : (s.give t u p opened).thread
      = update (update s.thread t (s.thread t |>.lend p k))
        u ((update s.thread t (s.thread t |>.lend p k) u).borrow p k) := by
    simp only [InodeCache.give, setThread, hkdef]
    rfl
  have hpc : ∀ x, ((s.give t u p opened).thread x).pc = (s.thread x).pc := by
    intro x
    rw [hthread, pc_update (by rfl), pc_update (by rfl)]
  refine Inv.keeps ⟨?_, ?_, h.listed, ?_, ?_⟩ rfl
  · intro q
    rw [hthread, tally_give (refsOf q) (k := if q = p then 1 else 0) ?_ ?_,
      tally_give (opensOf q) (k := if q = p then k else 0) ?_ ?_,
      tally_give (waiting q) (k := 0) ?_ ?_,
      tally_give (busy q) (k := 0) ?_ ?_]
    · exact h.counts q
    · rfl
    · rfl
    · rfl
    · rfl
    · exact opensOf_lend hk.1 q
    · exact opensOf_borrow _ p k q
    · exact refsOf_lend hk.2.2 q
    · exact refsOf_borrow _ p k q
  · have hlent : ∀ x, (update s.thread t ((s.thread t).lend p k) x).Ok := by
      refine (forall_update_iff s.thread fun _ c => c.Ok).mpr
        ⟨(h.threads t).lend (fun q hq => ?_) hk.2.1, fun x _ => h.threads x⟩
      simp [isIdle, hq] at hidle
    rw [hthread]
    exact (forall_update_iff _ fun _ (c : CacheThread) => c.Ok).mpr
      ⟨(hlent u).borrow hone, fun x _ => hlent x⟩
  · intro x
    have hlocks : ((s.give t u p opened).thread x).locks
        ↔ (s.thread x).locks := by
      simp only [locks, hpc x]
    rw [hlocks]
    exact h.lock x
  · intro x i hx q
    rw [hpc x] at hx
    exact h.reading x i hx q

/-- `sfs_load_inode` finds the inode. -/
theorem Inv.loadFound (hlock : s.lock = none)
    (hpc : (s.thread t).pc = .loadWait ino)
    (hn : s.node p = some n) (m : MemInode) (hino : m.ino = n.ino)
    (href : m.ref = n.ref + 1) (hopens : m.opens = n.opens)
    (hrec : m.reclaim = n.reclaim + if n.ref = 0 then 1 else 0) :
    s.Keeps t (.ok (((s.setNode p (some m)).setThread t
      ((s.thread t).setRefs p ((s.thread t).refs p + 1))).done t (some p),
      [])) := by
  have hbusy := h.not_busy hlock p
  have hle := (h.threads t).le p
  obtain ⟨href₀, hopens₀, hrec₀, -⟩ := h.node hn
  have hold : Calm p (s.thread t).pc := by
    rw [hpc]
    trivial
  have hwait₀ : (s.thread t).waiting p = 0 := by
    simp [waiting, hpc]
  have hstep := h.countStep (t := t) (c := ((s.thread t).setRefs p
    ((s.thread t).refs p + 1)).goto (.idle (some p))) hn hino hold trivial
    ((s.thread t).refs p + 1) ((s.thread t).opens p) 0 (by simp) (by omega)
    (by simp) ?_
  · simpa [done, goto, setThread] using hstep
  · intro r o w hr' ho hw
    simp only [NodeOk]
    split_ifs at hrec hrec₀ ⊢ <;> omega

/-- `sfs_load_inode` gets the semaphore. -/
theorem Inv.loadLocked (hlock : s.lock = none)
    (hpc : (s.thread t).pc = .loadWait ino) (a : CacheAnswer) :
    s.Keeps t (s.loadLocked t ino a) := by
  have haway : (s.thread t).Away := by simp [Away, waiting, busy, hpc]
  simp only [InodeCache.loadLocked]
  cases hfind : s.lookup ino with
  | some p =>
    obtain ⟨n, hn, hino⟩ := lookup_some hfind
    simp only [deref_eq hn]
    refine h.loadFound hlock hpc hn _ ?_ ?_ ?_ ?_ <;> split_ifs <;> simp <;>
      omega
  | none =>
    split_ifs with hdin hinuse
    · refine Inv.keeps ?_ rfl
      refine h.quiet rfl rfl haway (by simp [Away]) ⟨rfl, rfl, rfl⟩
        (by simp) (h.lock_take rfl hlock rfl trivial) ?_
      intro i hi q
      cases hi
      exact h.lookup_none hfind q
    · exact .inl rfl
    · refine Inv.keeps ?_ rfl
      refine h.quiet rfl rfl haway (by simp [Away]) ⟨rfl, rfl, rfl⟩
        (by simp) (h.lock_same rfl rfl ?_) (by simp)
      simp [locks, hpc]

end

-- ----- creating and freeing

/-- `sfs_set_links` of a new inode. -/
theorem Listed.add {inos : Nat → Option Nat} {il : List Nat}
    {hl : Nat → List Nat} (h : Listed inos il hl) (hp : inos p = none)
    (hnew : ∀ q, inos q ≠ some ino) :
    Listed (update inos p (some ino)) (p :: il)
      (update hl (sinHashfn ino) (p :: hl (sinHashfn ino))) := by
  have hout : p ∉ il := by
    rw [h.mem, hp]
    simp
  have hbucket : ∀ b, p ∉ hl b := by
    intro b
    rw [h.bucket, hp]
    simp
  refine ⟨?_, List.nodup_cons.mpr ⟨hout, h.nodup⟩, ?_, ?_, ?_⟩
  · intro q q' i hq hq'
    by_cases hqp : q = p <;> by_cases hqp' : q' = p
    · rw [hqp, hqp']
    · rw [hqp, update_self] at hq
      rw [update_of_ne hqp'] at hq'
      cases hq
      exact absurd hq' (hnew q')
    · rw [hqp', update_self] at hq'
      rw [update_of_ne hqp] at hq
      cases hq'
      exact absurd hq (hnew q)
    · rw [update_of_ne hqp] at hq
      rw [update_of_ne hqp'] at hq'
      exact h.inj q q' i hq hq'
  · intro q
    by_cases hqp : q = p
    · simp [hqp]
    · simp [hqp, h.mem q]
  · intro b
    by_cases hb : b = sinHashfn ino
    · rw [hb, update_self]
      exact List.nodup_cons.mpr ⟨hbucket _, h.bucketNodup _⟩
    · rw [update_of_ne hb]
      exact h.bucketNodup b
  · intro b q
    by_cases hqp : q = p <;> by_cases hb : b = sinHashfn ino
    · simp [hqp, hb]
    · simp [hqp, update_of_ne hb, hbucket b, Ne.symm hb]
    · simp [hb, hqp, h.bucket]
    · simp [update_of_ne hb, update_of_ne hqp, h.bucket]

/-- `sfs_remove_links`. -/
theorem Listed.remove {inos : Nat → Option Nat} {il : List Nat}
    {hl : Nat → List Nat} (h : Listed inos il hl) (p : Nat) :
    Listed (update inos p none) (il.erase p) (fun b => (hl b).erase p) := by
  refine ⟨?_, h.nodup.erase p, ?_, fun b => (h.bucketNodup b).erase p, ?_⟩
  · intro q q' i hq hq'
    have hqp : q ≠ p := by
      rintro rfl
      simp at hq
    have hqp' : q' ≠ p := by
      rintro rfl
      simp at hq'
    rw [update_of_ne hqp] at hq
    rw [update_of_ne hqp'] at hq'
    exact h.inj q q' i hq hq'
  · intro q
    rw [h.nodup.mem_erase_iff]
    by_cases hqp : q = p
    · simp [hqp]
    · simp [hqp, h.mem q]
  · intro b q
    rw [(h.bucketNodup b).mem_erase_iff]
    by_cases hqp : q = p
    · simp [hqp]
    · simp [hqp, h.bucket b q]

section
include h

/-- The inode that `sfs_load_inode` makes. -/
theorem Inv.create {nlinks : Nat}
    (hpc : (s.thread t).pc = .loadRead ino) (hnone : s.node p = none)
    (hthread : s'.thread = update s.thread t ((s.thread t).obtained p))
    (hnode : s'.node = update s.node p (some ⟨ino, 1, 0, 1, false, nlinks⟩))
    (hlists : s'.inodeList = p :: s.inodeList ∧
      s'.hashList = update s.hashList (sinHashfn ino)
        (p :: s.hashList (sinHashfn ino)))
    (hlock : s'.lock = none) : s.Keeps t (.ok (s', [.created p ino])) := by
  have hlocks : (s.thread t).locks := by simp [locks, hpc]
  have hinos : s.inos p = none := by simp [inos, hnone]
  have hinos' : s'.inos = update s.inos p (some ino) := by
    funext q
    by_cases hq : q = p
    · subst hq
      simp [inos, hnode]
    · simp [inos, hnode, update_of_ne hq]
  refine ⟨h.relist hthread hlocks ?_ ((h.threads t).obtained p) ⟨_, rfl⟩ ?_
    hlock, fun q => ?_, fun q hq => ?_⟩
  · -- nobody knew the address, so the new reference is the only one
    have hopen := h.opens_le p
    have haway : (s.thread t).Away := by simp [Away, waiting, busy, hpc]
    have hok := h.counts p
    rw [hnone] at hok
    obtain ⟨hr₀, hw₀, hb₀⟩ := hok
    refine h.counts.move (p := p) hthread (fun q hq => ?_) (fun q hq => ?_) ?_
    · rw [hnode]
      exact update_of_ne hq _ _
    · simp [Same, obtained, haway q, update_of_ne hq]
    · intro r o w b hr' ho hw hb
      simp [obtained, haway p] at hr' ho hw hb
      simp only [hnode, update_self, NodeOk]
      split_ifs <;> omega
  · rw [hinos', hlists.1, hlists.2]
    exact h.listed.add hinos (h.reading t ino hpc)
  · by_cases hq : q = p
    · subst hq
      simp [present, hinos, hinos', CacheEvent.isCreated]
    · simp [present, hinos', update_of_ne hq, CacheEvent.isCreated, Ne.symm hq]
  · simp at hq

/-- `sfs_load_inode` goes on after `sfs_rbuf`. -/
theorem Inv.loadFinish (hpc : (s.thread t).pc = .loadRead ino)
    (a : CacheAnswer) : s.Keeps t (s.loadFinish t ino a) := by
  have hfail : s.Keeps t (.ok (s.unlock.done t none, [])) := by
    refine Inv.keeps ?_ rfl
    refine h.quiet rfl rfl (by simp [Away, waiting, busy, hpc])
      (by simp [Away]) ⟨rfl, rfl, rfl⟩ (by simp) ?_ (by simp)
    refine h.lock_drop rfl ?_ rfl ?_
    · simp [locks, hpc]
    · simp [locks]
  simp only [InodeCache.loadFinish]
  split_ifs with hret hlinks
  · exact hfail
  · exact .inl rfl
  cases hnode : a.node.filter fun p => (s.node p).isNone with
  | none => exact hfail
  | some p =>
    refine h.create hpc ?_ ?_ rfl ⟨rfl, rfl⟩ rfl
    · simpa using (Option.filter_eq_some_iff.mp hnode).2
    · simp [done, goto, setThread, setLinks, unlock, setNode, obtained]

/-- The thread that works on an inode goes on: nobody else counts for it. -/
theorem Inv.heldCounts
    (hpc : (s.thread t).pc = .truncating p ∨ (s.thread t).pc = .syncing p)
    (hthread : s'.thread = update s.thread t ((s.thread t).goto pc))
    (hnode : ∀ q, q ≠ p → s'.node q = s.node q)
    (hwait : ∀ q, ((s.thread t).goto pc).waiting q = 0)
    (hbusy : ∀ q, q ≠ p → ((s.thread t).goto pc).busy q = 0)
    (hp : NodeOk 0 0 0 (((s.thread t).goto pc).busy p) (s'.node p)) :
    s'.Counts := by
  obtain ⟨hlocks, n, hn, -, -, -, hr₀, hw₀, hb₀⟩ := h.held hpc
  have hopen := h.opens_le p
  have hwait₀ : ∀ q, (s.thread t).waiting q = 0 := by
    intro q
    obtain hpc | hpc := hpc <;> simp [waiting, hpc]
  have hbusy₀ : ∀ q, q ≠ p → (s.thread t).busy q = 0 := by
    intro q hq
    obtain hpc | hpc := hpc <;> simp [busy, hpc, Ne.symm hq]
  have hbusy₁ : (s.thread t).busy p = 1 := if_pos hpc
  refine h.counts.move (p := p) hthread hnode (fun q hq => ?_) ?_
  · exact ⟨rfl, rfl, (hwait q).trans (hwait₀ q).symm,
      (hbusy q hq).trans (hbusy₀ q hq).symm⟩
  · intro r o w b hr ho hw hb
    have hw₂ := hwait p
    simp only [goto_refs, goto_opens] at hr ho
    obtain rfl : r = 0 := by omega
    obtain rfl : o = 0 := by omega
    obtain rfl : w = 0 := by omega
    obtain rfl : b = ((s.thread t).goto pc).busy p := by omega
    exact hp

/-- The thread that works on an inode stops and keeps it in memory. -/
theorem Inv.release
    (hpc : (s.thread t).pc = .truncating p ∨ (s.thread t).pc = .syncing p)
    (hn : s.node p = some n) (d : Bool) :
    s.Keeps t (.ok ((s.setNode p (some { n with dirty := d })).unlock.done t
      none, [])) := by
  obtain ⟨hlocks, m, hm, href, hopens, hrec, -⟩ := h.held hpc
  rw [hn] at hm
  cases hm
  refine Inv.keeps ?_ (inos_setNode hn rfl)
  refine h.change rfl ?_ ⟨(h.threads t).le, by simp⟩ (inos_setNode hn rfl)
    rfl rfl ?_ (by simp)
  · refine h.heldCounts hpc rfl (fun q hq => update_of_ne hq _ _)
      (by simp) (by simp) ?_
    simp [done, goto, setThread, unlock, setNode, NodeOk, href, hopens, hrec]
  · refine h.lock_drop rfl hlocks rfl ?_
    simp [locks]

/-- `vop_kill` by the thread that works on the inode. -/
theorem Inv.kill (hpc : (s.thread t).pc = .syncing p) :
    s.Keeps t (s.kill t p) := by
  obtain ⟨hlocks, n, hn, href, hopens, -, hr₀, hw₀, hb₀⟩ := h.held (.inr hpc)
  have hinos : ((((s.removeLinks p).unlock).setNode p none).done t none).inos
      = update s.inos p none :=
    inos_setNode_eq _ p none
  have hlisted := h.listed.remove p
  simp only [InodeCache.kill, deref_eq hn]
  rw [if_pos ⟨href, hopens⟩]
  refine ⟨h.relist (c := (s.thread t).goto (.idle none)) rfl hlocks ?_
    ⟨(h.threads t).le, by simp⟩ ⟨_, rfl⟩ ?_ rfl, fun q => ?_, fun q hq => ?_⟩
  · refine h.heldCounts (.inr hpc) rfl
      (fun q hq => update_of_ne hq _ _) (by simp) (by simp) ?_
    simp [done, goto, setThread, unlock, setNode, NodeOk]
  · rw [hinos]
    exact hlisted
  · have hhere : s.inos p = some n.ino := by simp [inos, hn]
    by_cases hq : q = p
    · subst hq
      simp [present, hinos, hhere, CacheEvent.isCreated]
    · simp [present, hinos, update_of_ne hq, CacheEvent.isCreated, Ne.symm hq]
  · obtain rfl : q = p := by simpa using hq
    have hrefs : ∀ u, (s.thread u).refs q = 0 := tally_eq_zero.mp hr₀
    refine ⟨⟨n, hn, href, hopens⟩, hrefs, fun u hu hat => ?_, ?_, ?_⟩
    · have hno := h.only hlocks hu
      obtain hat | hat | hat | hat := hat
      · have hzero := tally_eq_zero.mp hw₀ u
        simp [waiting, hat] at hzero
      · exact hno (by simp [locks, hat])
      · exact hno (by simp [locks, hat])
      · have hpos := (h.threads u).closing q hat
        rw [hrefs u] at hpos
        cases hpos
    · simp [done, goto, setThread, setNode]
    · have hmem : ∀ b, q ∉ (s.hashList b).erase q := by
        intro b
        rw [hlisted.bucket b q]
        simp
      have hout : q ∉ s.inodeList.erase q := by
        rw [hlisted.mem q]
        simp
      exact ⟨hout, hmem⟩

end

omit [DecidableEq τ] in
/-- A step in two parts, the first of which leaves the inodes, what others
do and what is held. -/
theorem Keeps.mid {r : CacheStep τ} (h : s'.Keeps t r)
    (hinos : s'.inos = s.inos) (hnode : ∀ q n', s'.node q = some n' →
      ∃ n, s.node q = some n ∧ n.ref = n'.ref ∧ n.opens = n'.opens)
    (hrefs : ∀ u, (s'.thread u).refs = (s.thread u).refs)
    (hothers : ∀ u, u ≠ t → (s'.thread u).pc = (s.thread u).pc) :
    s.Keeps t r := by
  match r, h with
  | .error e, h => exact h
  | .ok (s'', es), ⟨hinv, hcount, hfreed⟩ =>
    refine ⟨hinv, fun q => ?_, fun q hq => ?_⟩
    · rw [← hcount q]
      simp only [present, hinos]
    · obtain ⟨⟨n', hn', href, hopens⟩, hzero, hat, hgone, hlists⟩ :=
        hfreed q hq
      obtain ⟨n, hn, href', hopens'⟩ := hnode q n' hn'
      refine ⟨⟨n, hn, href'.trans href, hopens'.trans hopens⟩, ?_, ?_, hgone,
        hlists⟩
      · intro u
        rw [← hrefs u]
        exact hzero u
      · intro u hu
        have hno := hat u hu
        simp only [At, hothers u hu] at hno ⊢
        exact hno

/-- The state of a thread that works on an inode, whose fields are then
`m`. -/
def hold (s : InodeCache τ) (t : τ) (p : Nat) (m : MemInode) (pc : CachePc) :
    InodeCache τ :=
  { (s.setNode p (some m)).goto t pc with lock := some t }

/-- A step from the state in which the thread works on the inode is a step
from the one before. -/
theorem Keeps.of_hold {r : CacheStep τ} (pc : CachePc)
    (h : (s.hold t p m pc).Keeps t r) (hn : s.node p = some n)
    (hino : m.ino = n.ino) (href : m.ref = n.ref)
    (hopens : m.opens = n.opens) : s.Keeps t r := by
  refine h.mid (inos_setNode hn hino) (fun q n' hq => ?_) (fun u => ?_)
    fun u hu => ?_
  · by_cases hqp : q = p
    · subst hqp
      simp only [hold, goto, setThread, setNode, update_self] at hq
      cases hq
      exact ⟨n, hn, href.symm, hopens.symm⟩
    · simp only [hold, goto, setThread, setNode, update_of_ne hqp] at hq
      exact ⟨n', hq, rfl, rfl⟩
  · by_cases hu : u = t
    · subst hu
      simp [hold, goto, setThread, setNode]
    · simp [hold, goto, setThread, setNode, update_of_ne hu]
  · simp [hold, goto, setThread, setNode, update_of_ne hu]

/-- The thread that brings `reclaim_count` to 0 at an inode without
references is the only one that counts for it. -/
theorem Inv.enter (h : s.Inv) (hlock : s.lock = none)
    (hpc : (s.thread t).pc = .reclaimWait p)
    (hn : s.node p = some n) (href : n.ref = 0) (hrec : n.reclaim - 1 = 0)
    (hnew : pc = .truncating p ∨ pc = .syncing p) :
    (s.hold t p { n with reclaim := n.reclaim - 1 } pc).Inv := by
  obtain ⟨href₀, hopens₀, hrec₀, -⟩ := h.node hn
  refine h.change (c := (s.thread t).goto pc) rfl ?_ ⟨(h.threads t).le, ?_⟩
    (inos_setNode hn rfl) rfl rfl ?_ ?_
  · refine h.counts.move (p := p) (c := (s.thread t).goto pc) rfl
      (fun q hq => ?_) (fun q hq => ?_) ?_
    · exact update_of_ne hq _ _
    · obtain rfl | rfl := hnew <;>
        simp [Same, waiting, busy, hpc, Ne.symm hq]
    · intro r o w b hr ho hw hb
      have hw₀ : (s.thread t).waiting p = 1 := if_pos hpc
      have hw₁ : ((s.thread t).goto pc).waiting p = 0 := by
        obtain rfl | rfl := hnew <;> simp
      simp only [goto_refs, goto_opens] at hr ho
      simp only [hold, goto, setThread, setNode, update_self, NodeOk]
      split_ifs at hrec₀ ⊢ <;> omega
  · obtain rfl | rfl := hnew <;> simp
  · refine h.lock_take rfl hlock rfl ?_
    obtain rfl | rfl := hnew <;> simp [locks]
  · obtain rfl | rfl := hnew <;> simp

/-- The thread goes on with the inode it works on. -/
theorem Inv.stay (h : s.Inv)
    (hpc : (s.thread t).pc = .truncating p ∨ (s.thread t).pc = .syncing p)
    (hn : s.node p = some n) (d : Bool) :
    (s.hold t p { n with dirty := d } (.syncing p)).Inv := by
  obtain ⟨hlocks, m, hm, href, hopens, hrec, -⟩ := h.held hpc
  rw [hn] at hm
  cases hm
  refine h.change rfl ?_ ⟨(h.threads t).le, by simp⟩ (inos_setNode hn rfl)
    rfl rfl ?_ (by simp)
  · refine h.heldCounts hpc rfl (fun q hq => update_of_ne hq _ _) (by simp)
      (fun q hq => ?_) ?_
    · simp [Ne.symm hq]
    · simp [hold, goto, setThread, setNode, NodeOk, href, hopens, hrec]
  · refine h.lock_same rfl ((h.lock t).mpr hlocks).symm (iff_of_true ?_ hlocks)
    simp [locks]

omit [Fintype τ] in
theorem kill_hold (s : InodeCache τ) (t : τ) (p : Nat) (m : MemInode)
    (pc : CachePc) :
    (s.setNode p (some m)).kill t p = (s.hold t p m pc).kill t p := by
  simp [InodeCache.kill, deref, hold, setNode, goto, setThread, done,
    removeLinks, unlock, CacheThread.goto]

/-- `sfs_reclaim`, from the test of `dirty` on. -/
theorem Inv.reclaimSync
    (h : (s.hold t p m (.syncing p)).Inv) (hn : s.node p = some n)
    (hino : m.ino = n.ino) (href : m.ref = n.ref)
    (hopens : m.opens = n.opens) :
    s.Keeps t ((s.setNode p (some m)).reclaimSync t p) := by
  have hpc : ((s.hold t p m (.syncing p)).thread t).pc = .syncing p := by
    simp [hold, goto, setThread]
  have hnode : (s.setNode p (some m)).node p = some m := by simp [setNode]
  have hnode' : (s.hold t p m (.syncing p)).node p = some m := hnode
  obtain ⟨-, m', hm', href', hopens', -⟩ := h.held (.inr hpc)
  rw [hnode'] at hm'
  cases hm'
  refine Keeps.of_hold (.syncing p) ?_ hn hino href hopens
  simp only [InodeCache.reclaimSync, deref_eq hnode]
  split_ifs with hdirty
  · have hmax : (0 : Int) < maxInodeCount := by decide
    rw [inodeCheck_eq (by omega) (by omega) (by omega)]
    exact Inv.keeps h rfl
  · rw [kill_hold s t p m (.syncing p)]
    exact h.kill hpc

section
include h

/-- `sfs_reclaim` gets the semaphore. -/
theorem Inv.reclaimLocked (hlock : s.lock = none)
    (hpc : (s.thread t).pc = .reclaimWait p) :
    s.Keeps t (s.reclaimLocked t p) := by
  have hwait : (s.thread t).waiting p = 1 := if_pos hpc
  have hhas := le_tally (waiting p) s.thread t
  obtain ⟨n, hn⟩ := h.node_of_count (p := p) (by omega)
  obtain ⟨href, hopens, hrec, hbusy⟩ := h.node hn
  simp only [InodeCache.reclaimLocked, deref_eq hn]
  rw [if_pos (by split_ifs at hrec <;> omega)]
  split_ifs with hmore hlinks
  · -- another reclaim is to come, or the inode was revived
    have hold : Calm p (s.thread t).pc := by
      rw [hpc]
      rfl
    refine h.countStep (c := (s.thread t).goto (.idle none)) hn rfl hold
      trivial _ _ 0 (by simp) ((h.threads t).le p) (by simp) ?_
    intro r o w hr ho hw
    simp only [NodeOk]
    split_ifs at hrec ⊢ <;> omega
  · have hinv := h.enter hlock hpc hn (by omega) (by omega) (.inl rfl)
    have hopen := h.opens_le p
    have hmax : (0 : Int) < maxInodeCount := by decide
    rw [inodeCheck_eq (by dsimp only; omega) (by dsimp only; omega)
      (by dsimp only; omega)]
    exact (Inv.keeps hinv rfl).of_hold (.truncating p) hn rfl rfl rfl
  · exact (h.enter hlock hpc hn (by omega) (by omega)
      (.inr rfl)).reclaimSync hn rfl rfl rfl

/-- `sfs_reclaim` goes on after `vop_truncate`. -/
theorem Inv.endTruncate (hpc : (s.thread t).pc = .truncating p)
    (a : CacheAnswer) : s.Keeps t (s.endTruncate t p a) := by
  obtain ⟨-, n, hn, -⟩ := h.held (.inl hpc)
  simp only [InodeCache.endTruncate, deref_eq hn]
  split_ifs with hret
  · exact h.release (.inl hpc) hn a.dirty
  · exact (h.stay (.inl hpc) hn a.dirty).reclaimSync hn rfl rfl rfl

/-- `sfs_reclaim` goes on after `vop_fsync`. -/
theorem Inv.endSync (hpc : (s.thread t).pc = .syncing p)
    (a : CacheAnswer) : s.Keeps t (s.endSync t p a) := by
  obtain ⟨-, n, hn, -⟩ := h.held (.inr hpc)
  simp only [InodeCache.endSync, deref_eq hn]
  split_ifs with hret
  · have hsame : s.setNode p (some { n with dirty := n.dirty }) = s := by
      simp [setNode, ← hn]
    have hrelease := h.release (.inr hpc) hn n.dirty
    rwa [hsame] at hrelease
  · have hinv := h.stay (.inr hpc) hn false
    rw [kill_hold s t p _ (.syncing p)]
    refine Keeps.of_hold (.syncing p) (hinv.kill ?_) hn rfl rfl rfl
    simp [hold, goto, setThread]

theorem Inv.resume (t : τ) (a : CacheAnswer) : s.Keeps t (s.resume t a) := by
  have hstay : s.Keeps t (.ok (s, [])) := h.keeps rfl
  simp only [InodeCache.resume]
  cases hpc : (s.thread t).pc with
  | idle m => exact hstay
  | loadWait ino =>
    split_ifs with hlock
    · exact h.loadLocked hlock hpc a
    · exact hstay
  | loadRead ino => exact h.loadFinish hpc a
  | reclaimWait p =>
    split_ifs with hlock
    · exact h.reclaimLocked hlock hpc
    · exact hstay
  | truncating p => exact h.endTruncate hpc a
  | syncing p => exact h.endSync hpc a
  | closing p => exact h.endClose hpc a

/-- The step lemma. -/
theorem Inv.step (a : CacheAction τ) : s.Keeps a.thread (s.step a) := by
  simp only [InodeCache.step]
  split_ifs with hmay
  · cases a with
    | load t ino => exact h.load hmay ino
    | refInc t p =>
      obtain ⟨hidle, hr⟩ := Bool.and_eq_true_iff.mp hmay
      exact h.refInc hidle (of_decide_eq_true hr)
    | refDec t p =>
      obtain ⟨hidle, hr⟩ := Bool.and_eq_true_iff.mp hmay
      exact h.refDec hidle (of_decide_eq_true hr)
    | openInc t p =>
      obtain ⟨hidle, hr⟩ := Bool.and_eq_true_iff.mp hmay
      exact h.openInc hidle (of_decide_eq_true hr)
    | openDec t p =>
      obtain ⟨hidle, hr⟩ := Bool.and_eq_true_iff.mp hmay
      exact h.openDec hidle (of_decide_eq_true hr)
    | give t u p opened =>
      obtain ⟨hidle, hr⟩ := Bool.and_eq_true_iff.mp hmay
      refine h.give (t := t) u opened hidle ?_
      cases opened <;> simpa using hr
    | touch t p =>
      obtain ⟨hidle, hr⟩ := Bool.and_eq_true_iff.mp hmay
      exact h.touch hidle (of_decide_eq_true hr)
    | resume t a => exact h.resume t a
  · exact h.keeps rfl

end

-- ===== the result

/-- What is true of the cache in a state `s`, when `log` tells the inodes
created and freed since it was mounted. -/
structure Sound (s : InodeCache τ) (log : List CacheEvent) : Prop where
  unique : ∀ p q n m, s.node p = some n → s.node q = some m →
    n.ino = m.ino → p = q
  /-- An inode is once on the inode list and once in its bucket, and an
  address without an inode is on no list. -/
  listed : ∀ p, s.inodeList.count p = (if (s.node p).isSome then 1 else 0) ∧
    ∀ b, (s.hashList b).count p
      = if (s.node p).any fun n => sinHashfn n.ino = b then 1 else 0
  reclaim : ∀ p n, s.node p = some n → n.reclaim
    = (Finset.univ.filter fun t => (s.thread t).pc = .reclaimWait p).card
      + if 0 < n.ref then 1 else 0
  refs : ∀ p n, s.node p = some n →
    n.ref = ((∑ t, (s.thread t).refs p : Nat) : Int)
  /-- An inode that is gone was freed, and only where nobody needs it. -/
  freed : ∀ a s' es, s.step a = .ok (s', es) → ∀ p,
    ((s.node p).isSome → s'.node p = none → .freed p ∈ es) ∧
    (.freed p ∈ es → s.Freed s' a.thread p)
  /-- It is freed once for every time it was created. -/
  once : ∀ p, log.countP (CacheEvent.isCreated p)
    = (if (s.node p).isSome then 1 else 0) + log.count (.freed p)

theorem Inv.sound (h : s.Inv) {log : List CacheEvent}
    (hlog : ∀ p, log.countP (CacheEvent.isCreated p)
      = s.present p + log.count (.freed p)) : s.Sound log where
  unique p q n m hp hq hino := by
    refine h.listed.inj p q n.ino ?_ ?_
    · simp [inos, hp]
    · simp [inos, hq, hino]
  listed p := h.count_lists p
  reclaim p n hn := by
    obtain ⟨href, -, hrec, -⟩ := h.node hn
    rw [← waiting_eq_card]
    split_ifs <;> omega
  refs p n hn := (h.node hn).1
  freed a s' es hstep p := by
    have hkeeps := h.step a
    rw [hstep] at hkeeps
    obtain ⟨-, hcount, hfreed⟩ := hkeeps
    refine ⟨fun hsome hnone => ?_, hfreed p⟩
    have hp := hcount p
    rw [present_eq, present_eq, hnone, if_pos hsome] at hp
    refine List.count_pos_iff.mp ?_
    simp at hp
    omega
  once p := by
    rw [← present_eq]
    exact hlog p

/-- The run lemma. -/
theorem Inv.run (h : s.Inv) (as : List (CacheAction τ)) : match s.run as with
    | .error e => e = .disk ∨ e = .bound
    | .ok (s', log) => s'.Inv ∧
      ∀ p, s.present p + log.countP (CacheEvent.isCreated p)
        = s'.present p + log.count (.freed p) := by
  induction as generalizing s with
  | nil => exact ⟨h, fun _ => rfl⟩
  | cons a as ih =>
    have hkeeps := h.step a
    rw [InodeCache.run]
    cases hstep : s.step a with
    | error e =>
      rw [hstep] at hkeeps
      exact hkeeps
    | ok r =>
      obtain ⟨s₁, es⟩ := r
      rw [hstep] at hkeeps
      obtain ⟨hinv, hcount, -⟩ := hkeeps
      have hrest := ih hinv
      dsimp only
      cases hrun : s₁.run as with
      | error e =>
        rw [hrun] at hrest
        exact hrest
      | ok r =>
        rw [hrun] at hrest
        obtain ⟨hinv₂, hcount₂⟩ := hrest
        refine ⟨hinv₂, fun p => ?_⟩
        have hfirst := hcount p
        have hsecond := hcount₂ p
        simp only [List.countP_append, List.count_append]
        omega

/-- The inode cache of SFS under any interleaving. A run fails only where
the disk holds no inode or a count outgrows `MAX_INODE_COUNT`, never by an
assertion on the counts or by the use of freed memory, and in every state
it reaches the cache is sound. -/
theorem inode_cache_sound (as : List (CacheAction τ)) :
    match (mounted : InodeCache τ).run as with
    | .error e => e = .disk ∨ e = .bound
    | .ok (s, log) => s.Sound log := by
  have hinv : (mounted : InodeCache τ).Inv := mounted_inv
  have hall := hinv.run as
  cases hrun : (mounted : InodeCache τ).run as with
  | error e =>
    rw [hrun] at hall
    exact hall
  | ok r =>
    rw [hrun] at hall
    obtain ⟨hend, hcount⟩ := hall
    refine hend.sound fun p => ?_
    have hp := hcount p
    simpa [present_eq, mounted] using hp

end InodeCache

end MipsUcore.Kern
