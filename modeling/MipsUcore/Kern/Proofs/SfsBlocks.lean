/-
Who a block of the file system belongs to.

# Owners

A block in use is the superblock, a block of the freemap, the block of an
inode, the indirect block of an inode, or the block in one slot of the map
of one inode (`Owner`). `names` reads off the disk and the inodes which
block an owner has. `Sound` says that no block has two owners, that what is
owned is in use, and that the count of unused blocks is right; that every
block in use has an owner is kept apart (`Owners.Covered`), since nothing
else rests on it.

# What the block functions do

A block is taken (`take`), given back (`give`) or written (`put`), and the
block functions come down to these: there is a block to be had exactly if
the count is not 0 (`blockAlloc_cases`).
-/
import MipsUcore.Kern.Sfs
import MipsUcore.Lib.Owners
import Mathlib.Data.Finset.Card

namespace MipsUcore.Kern

open Owners Function

@[simp] theorem ensure_pos {c : Prop} [Decidable c] (h : c) (f : Fault) :
    ensure c f = .ok () := if_pos h

theorem ensure_neg {c : Prop} [Decidable c] (h : ¬c) (f : Fault) :
    ensure c f = .error f := if_neg h

-- ===== owners

/-- What a block can be in use as. -/
inductive Owner
  | super
  | freemap (k : Nat)
  | inode (ino : Nat)
  | indirect (ino : Nat)
  | data (ino k : Nat)
  deriving DecidableEq

/-- The block a number stands for; 0 stands for none. -/
def named (b : Nat) : Option Nat := if b = 0 then none else some b

theorem named_of_ne {b : Nat} (h : b ≠ 0) : named b = some b := if_neg h

@[simp] theorem named_zero : named 0 = none := rfl

namespace Store

/-- Slot `k` of the map of an inode. -/
def slot (st : Store) (din : DiskInode) (k : Nat) : Nat :=
  if h : k < 12 then din.direct ⟨k, h⟩
  else if din.indirect ≠ 0 ∧ k - 12 < 1024 then
    Bytes.word (st.disk din.indirect) (k - 12)
  else 0

/-- The blocks in use. -/
def Used (st : Store) (b : Nat) : Prop :=
  b < st.blocks ∧ st.freemap b = false

/-- The bits of the freemap that are set. -/
def freeSet (st : Store) : Finset Nat :=
  (Finset.range st.freemapBits).filter (st.freemap · = true)

/-- A block is taken and cleared. -/
def take (st : Store) (b : Nat) : Store where
  blocks := st.blocks
  unusedBlocks := st.unusedBlocks - 1
  freemap := update st.freemap b false
  disk := update st.disk b fun _ => 0

/-- A block is given back. -/
def give (st : Store) (b : Nat) : Store where
  blocks := st.blocks
  unusedBlocks := st.unusedBlocks + 1
  freemap := update st.freemap b true
  disk := st.disk

/-- A block is written. -/
def put (st : Store) (b : Nat) (data : Nat → UInt8) : Store where
  blocks := st.blocks
  unusedBlocks := st.unusedBlocks
  freemap := st.freemap
  disk := update st.disk b data

@[simp] theorem take_blocks (st : Store) (b : Nat) :
    (st.take b).blocks = st.blocks := rfl

@[simp] theorem put_blocks (st : Store) (b : Nat) (data : Nat → UInt8) :
    (st.put b data).blocks = st.blocks := rfl

theorem take_disk_self (st : Store) (b : Nat) :
    (st.take b).disk b = fun _ => 0 := update_self ..

theorem take_disk_of_ne (st : Store) {b c : Nat} (h : c ≠ b) :
    (st.take b).disk c = st.disk c := update_of_ne h ..

theorem put_disk_self (st : Store) (b : Nat) (data : Nat → UInt8) :
    (st.put b data).disk b = data := update_self ..

theorem put_disk_of_ne (st : Store) {b c : Nat} (h : c ≠ b)
    (data : Nat → UInt8) : (st.put b data).disk c = st.disk c :=
  update_of_ne h ..

/-- The freemap rounds the block count up to whole bitmap blocks. -/
theorem freemapBits_ge (st : Store) : st.blocks ≤ st.freemapBits := by
  unfold freemapBits freemapBlocks
  omega

theorem mem_freeSet {st : Store} {b : Nat} :
    b ∈ st.freeSet ↔ b < st.freemapBits ∧ st.freemap b = true := by
  simp [freeSet]

/-- Taking a block clears its bit and no other. -/
theorem take_freeSet (st : Store) (b : Nat) :
    (st.take b).freeSet = st.freeSet.erase b := by
  ext c
  have hbits : (st.take b).freemapBits = st.freemapBits := rfl
  rw [mem_freeSet, Finset.mem_erase, mem_freeSet, hbits]
  by_cases hc : c = b
  · subst hc
    simp [take]
  · simp [take, hc]

/-- Giving a block back sets its bit. -/
theorem give_freeSet (st : Store) {b : Nat} (h : b < st.freemapBits) :
    (st.give b).freeSet = insert b st.freeSet := by
  ext c
  have hbits : (st.give b).freemapBits = st.freemapBits := rfl
  rw [mem_freeSet, Finset.mem_insert, mem_freeSet, hbits]
  by_cases hc : c = b
  · subst hc
    simp [give, h]
  · simp [give, hc]

/-- After the take exactly one more block is in use. -/
theorem take_used (st : Store) {b : Nat} (h : b < st.blocks) (c : Nat) :
    (st.take b).Used c ↔ c = b ∨ st.Used c := by
  unfold Used
  by_cases hc : c = b
  · subst hc
    simp [take, h]
  · simp [take, hc]

/-- After the give exactly that block is no longer in use. -/
theorem give_used (st : Store) (b c : Nat) :
    (st.give b).Used c ↔ c ≠ b ∧ st.Used c := by
  unfold Used
  by_cases hc : c = b
  · subst hc
    simp [give]
  · simp [give, hc]

end Store

/-- Which block an owner has. -/
def names (inos : Finset Nat) (st : Store) (din : Nat → DiskInode) :
    Owner → Option Nat
  | .super => some 0
  | .freemap k => if k < st.freemapBlocks then some (2 + k) else none
  | .inode i => if i ∈ inos then some i else none
  | .indirect i => if i ∈ inos then named (din i).indirect else none
  | .data i k => if i ∈ inos then named (st.slot (din i) k) else none

-- ===== soundness

/-- No block has two owners, and the freemap and its count are right. -/
structure Sound (n : Owner → Option Nat) (st : Store) : Prop where
  sole : Sole n st.Used
  super : n .super = some 0
  range : ∀ {b}, st.freemap b = true → b < st.blocks
  count : st.unusedBlocks = st.freeSet.card
  small : st.blocks < 2 ^ 32

namespace Sound

variable {n : Owner → Option Nat} {st : Store} {o o' : Owner} {b c : Nat}

theorem free_iff (h : Sound n st) : st.freemap b = true ↔ b ∈ st.freeSet := by
  rw [Store.mem_freeSet]
  constructor
  · intro hb
    exact ⟨Nat.lt_of_lt_of_le (h.range hb) st.freemapBits_ge, hb⟩
  · exact And.right

/-- The superblock, block 0, is never free. -/
theorem ne_zero_of_free (h : Sound n st) (hb : st.freemap b = true) :
    b ≠ 0 := by
  rintro rfl
  have := (h.sole.used h.super).2
  simp_all

/-- A free block is nobody's. -/
theorem ne_of_free (h : Sound n st) (hb : st.freemap b = true)
    (ho : n o = some c) : c ≠ b := by
  rintro rfl
  have := (h.sole.used ho).2
  simp_all

/-- Blocks of different owners are different. -/
theorem ne_of_ne (h : Sound n st) (ho : n o = some b) (ho' : n o' = some c)
    (hne : o ≠ o') : b ≠ c := by
  rintro rfl
  exact hne (h.sole.inj ho ho')

/-- No file or bitmap owns the superblock. -/
theorem ne_zero (h : Sound n st) (ho : n o = some b) (hne : o ≠ .super) :
    b ≠ 0 :=
  h.ne_of_ne ho h.super hne

/-- An owned block lies on the device. -/
theorem lt_blocks (h : Sound n st) (ho : n o = some b) : b < st.blocks :=
  (h.sole.used ho).1

/-- A free block may be taken for any owner but the superblock:
the owner then names it, and every other owner keeps its block. -/
theorem take (h : Sound n st) (hb : st.freemap b = true) (ho : o ≠ .super) :
    Sound (update n o (some b)) (st.take b) where
  sole := h.sole.claim (by simp [Store.Used, hb]) (st.take_used (h.range hb))
  super := by rw [update_of_ne (Ne.symm ho)]; exact h.super
  range := by
    intro c hc
    refine h.range (b := c) ?_
    by_cases hcb : c = b
    · rw [hcb]
      exact hb
    · simpa [Store.take, hcb] using hc
  count := by
    rw [Store.take_freeSet, Finset.card_erase_of_mem (h.free_iff.mp hb),
      ← h.count]
    rfl
  small := h.small

/-- An owner may give its block back: it is then free and unnamed. -/
theorem give (h : Sound n st) (ho : n o = some b) (hne : o ≠ .super) :
    Sound (update n o none) (st.give b) where
  sole := h.sole.release ho (st.give_used b)
  super := by rw [update_of_ne (Ne.symm hne)]; exact h.super
  range := by
    intro c hc
    by_cases hcb : c = b
    · rw [hcb]
      exact h.lt_blocks ho
    · exact h.range (b := c) (by simpa [Store.give, hcb] using hc)
  count := by
    have hb := h.lt_blocks ho
    have hmem : b ∉ st.freeSet := by
      rw [← h.free_iff, (h.sole.used ho).2]
      exact Bool.false_ne_true
    rw [Store.give_freeSet st (Nat.lt_of_lt_of_le hb st.freemapBits_ge),
      Finset.card_insert_of_notMem hmem, ← h.count]
    rfl
  small := h.small

/-- The contents of a block are no part of the bookkeeping. -/
theorem put (h : Sound n st) (b : Nat) (data : Nat → UInt8) :
    Sound n (st.put b data) :=
  ⟨h.sole, h.super, h.range, h.count, h.small⟩

end Sound

-- ===== the block functions

namespace Store

variable {st : Store} {n : Owner → Option Nat} {o : Owner} {b : Nat}

/-- The assertion that a block is in use holds of every owned one. -/
theorem assertInuse_ok (h : Sound n st) (ho : n o = some b)
    (hne : o ≠ .super) : st.assertInuse b = .ok () := by
  obtain ⟨hb, hfree⟩ := h.sole.used ho
  simp [assertInuse, blockInuse, h.ne_zero ho hne, hb, hfree, bind,
    Except.bind, ensure]

/-- Every block but the superblock can be read. -/
theorem rblock_ok (h0 : b ≠ 0) (hb : b < st.blocks) :
    st.rblock b = .ok (st.disk b) := if_pos ⟨h0, hb⟩

theorem wblock_ok (h0 : b ≠ 0) (hb : b < st.blocks)
    (data : Nat → UInt8) : st.wblock data b = .ok (st.put b data) :=
  if_pos ⟨h0, hb⟩

/-- Entry `index` of the block `ent` is set. -/
def setEntry (st : Store) (ent index ino : Nat) : Store :=
  st.put ent (Bytes.setWords (st.disk ent) fun k =>
    if k = index then some ino else none)

/-- One entry of an indirect block is written in place. -/
theorem wentry_ok (h0 : b ≠ 0) (hb : b < st.blocks) (index ino : Nat) :
    st.wentry ino b index = .ok (st.setEntry b index ino) := by
  unfold wentry
  rw [rblock_ok h0 hb]
  exact wblock_ok h0 hb _

theorem rentry_ok (h0 : b ≠ 0) (hb : b < st.blocks) (index : Nat) :
    st.rentry b index = .ok (Bytes.word (st.disk b) index) := by
  unfold rentry
  rw [rblock_ok h0 hb]
  rfl

/-- Freeing an owned block does not meet the assertion. -/
theorem blockFree_ok (h : Sound n st) (ho : n o = some b)
    (hne : o ≠ .super) : st.blockFree b = .ok (st.give b) := by
  unfold blockFree
  rw [assertInuse_ok h ho hne]
  rfl

/-- A block is to be had or not, as the count says. -/
theorem blockAlloc_cases (h : Sound n st) :
    (st.unusedBlocks = 0 ∧ st.blockAlloc = .ok (none, st)) ∨
    ∃ b, st.freemap b = true ∧ 0 < st.unusedBlocks ∧
      st.blockAlloc = .ok (some b, st.take b) := by
  unfold blockAlloc
  cases hfind : st.bitmapAlloc with
  | none =>
    refine .inl ⟨?_, rfl⟩
    rw [h.count, Finset.card_eq_zero, Finset.eq_empty_iff_forall_notMem]
    intro c hc
    obtain ⟨hlt, hc⟩ := mem_freeSet.mp hc
    have := List.find?_eq_none.mp hfind c (List.mem_range.mpr hlt)
    exact this hc
  | some b =>
    have hb : st.freemap b = true := List.find?_some hfind
    have hpos : 0 < st.unusedBlocks := by
      rw [h.count]
      exact Finset.card_pos.mpr ⟨b, h.free_iff.mp hb⟩
    refine .inr ⟨b, hb, hpos, ?_⟩
    have h0 := h.ne_zero_of_free hb
    have hlt := h.range hb
    have hinuse : assertInuse
        { st with
          freemap := update st.freemap b false
          unusedBlocks := st.unusedBlocks - 1 } b = .ok () := by
      simp [assertInuse, blockInuse, h0, hlt, bind, Except.bind, ensure]
    have hclear : clearBlock
        { st with
          freemap := update st.freemap b false
          unusedBlocks := st.unusedBlocks - 1 } b = .ok (st.take b) :=
      if_pos ⟨h0, hlt⟩
    dsimp only
    rw [ensure_pos hpos, hinuse, hclear]
    rfl

end Store

end MipsUcore.Kern
