/-
Every block in use has exactly one owner.

The freemap, the counter of the superblock, the inodes and the indirect
blocks say the same thing about every block, in every state that file
operations reach from a consistent image (`blocks_accounted`). The rest is
about the one place where an allocation can fail half way: a new indirect
block goes back when there is no block for its entry (`bmapGet_none`).
-/
import MipsUcore.Kern.Proofs.SfsRuns
import Mathlib.Order.Interval.Finset.Nat

namespace MipsUcore.Kern

section

variable {inos : Finset Nat} {din : Nat → DiskInode} {i k : Nat}
  {st st' : Store} {x x' : Sin}

/-- A slot that is empty is reported as block 0. -/
theorem bmapGet_absent (hi : i ∈ inos)
    (h : Sound (namesOf inos din i st x.din) st) (hk : k < 1036)
    (hs : st.slot x.din k = 0) :
    st.bmapGet x k false = .ok (some 0, st, x) := by
  unfold Store.bmapGet
  by_cases hk' : k < 12
  · rw [slot_direct hk'] at hs
    rw [dif_pos hk', hs]
    rfl
  rw [dif_neg hk', if_pos (by omega : k - 12 < 1024)]
  unfold Store.bmapGetSub
  rw [ensure_pos (by omega)]
  by_cases hd : x.din.indirect = 0
  · rw [hd]
    rfl
  have ho : namesOf inos din i st x.din (.indirect i) = _ :=
    owns_indirect hi st hd
  rw [if_pos hd, Store.rentry_ok (h.ne_zero ho (by simp)) (h.lt_blocks ho),
    ← slot_indirect hk' hk hd, hs]
  simp only [bind, Except.bind, pure, Except.pure, or_true, if_true,
    ne_eq, not_true_eq_false, if_false]
  rfl

/-- An allocation that fails leaves the freemap, the counter and the map of
the file as they were. -/
theorem bmapGet_none (hi : i ∈ inos)
    (h : Sound (namesOf inos din i st x.din) st) {create : Bool}
    (hr : st.bmapGet x k create = .ok (none, st', x')) :
    x' = x ∧ Kept st st' := by
  by_cases hk : k < 1036
  swap
  · unfold Store.bmapGet at hr
    rw [dif_neg (by omega), if_neg (by omega)] at hr
    cases hr
  by_cases hs : st.slot x.din k = 0
  swap
  · rw [bmapGet_found hi h hk hs] at hr
    cases hr
  cases create with
  | false =>
    rw [bmapGet_absent hi h hk hs] at hr
    cases hr
  | true =>
    rcases bmapGet_create hi h hk hs with ⟨-, b, st₁, x₁, hrun, -⟩ |
      ⟨-, st₁, hrun, hkept⟩
    · rw [hrun] at hr
      cases hr
    · rw [hrun] at hr
      cases hr
      exact ⟨rfl, hkept⟩

end

/-- Block accounting. In every state that is reached from a consistent image
every block in use has exactly one owner, no slot of a map names a free
block, and `unused_blocks` is the number of bits that are set. Whenever the
accounting is right, which it is at every call, a block that cannot be had
changes neither the freemap nor the counter nor a slot of the file. -/
theorem blocks_accounted {inos : Finset Nat} {st : Store}
    (hst : Consistent inos st) :
    (∀ s, Sfs.Run inos (fun _ _ => True) (Sfs.image st) s →
      (∀ b, b < s.st.blocks → s.st.freemap b = false →
        ∃! o, names inos s.st s.din o = some b) ∧
      (∀ i ∈ inos, ∀ k, s.st.slot (s.din i) k ≠ 0 →
        s.st.freemap (s.st.slot (s.din i) k) = false) ∧
      s.st.unusedBlocks = s.st.freeSet.card) ∧
    ∀ (din : Nat → DiskInode) (i : Nat) (st st' : Store) (x x' : Sin)
      (k : Nat) (create : Bool), i ∈ inos →
      Sound (namesOf inos din i st x.din) st →
      st.bmapGet x k create = .ok (none, st', x') →
      st'.freemap = st.freemap ∧ st'.unusedBlocks = st.unusedBlocks ∧
        x' = x ∧ ∀ l, st'.slot x.din l = st.slot x.din l := by
  refine ⟨?_, ?_⟩
  · intro s hrun
    obtain ⟨hm, ho⟩ := hrun.keeps hst.mounted hst.owned
      fun hm ho _ hstep => hstep.owned hm ho
    refine ⟨?_, ?_, hm.sound.count⟩
    · intro b hb hused
      exact hm.sound.sole.existsUnique ho ⟨hb, hused⟩
    · intro i hi k hk
      have hown : names inos s.st s.din (.data i k) = _ :=
        (if_pos hi).trans (named_of_ne hk)
      exact (hm.sound.sole.used hown).2
  · intro din i st st' x x' k create hi h hr
    obtain ⟨rfl, hkept⟩ := bmapGet_none hi h hr
    exact ⟨hkept.freemap, hkept.unused, rfl, hkept.slot hi h⟩

-- ===== a small image

/-- An inode without blocks. -/
def emptyInode (type : Nat) : DiskInode := ⟨0, type, 1, 0, fun _ => 0, 0⟩

/-- An image of `blocks` blocks with an empty root and one empty file, in
block 3; the blocks from `first` on are free. -/
def smallImage (blocks first : Nat) : Store where
  blocks := blocks
  unusedBlocks := blocks - first
  freemap b := decide (first ≤ b ∧ b < blocks)
  disk b := Bytes.setWords (fun _ => 0)
    (emptyInode (if b = 1 then sfsTypeDir else sfsTypeFile)).words

theorem emptyInode_fits {type : Nat} (h : type < 2 ^ 16) :
    (emptyInode type).Fits :=
  ⟨Nat.two_pow_pos 32, h, by show 1 < 2 ^ 16; decide,
    Nat.two_pow_pos 32, fun _ => Nat.two_pow_pos 32, Nat.two_pow_pos 32⟩

theorem smallImage_din (blocks first i : Nat) :
    (Sfs.image (smallImage blocks first)).din i =
      emptyInode (if i = 1 then sfsTypeDir else sfsTypeFile) := by
  refine DiskInode.ofBlock_setWords (emptyInode_fits ?_) _
  split <;> decide

theorem smallImage_names (blocks first : Nat) (o : Owner) :
    names {1, 3} (smallImage blocks first)
        (Sfs.image (smallImage blocks first)).din o =
      match o with
      | .super => some 0
      | .freemap k =>
        if k < (blocks + 32767) / 32768 then some (2 + k) else none
      | .inode i => if i = 1 ∨ i = 3 then some i else none
      | _ => none := by
  have hslot (i k : Nat) : (smallImage blocks first).slot
      ((Sfs.image (smallImage blocks first)).din i) k = 0 := by
    rw [smallImage_din]
    unfold Store.slot
    split
    · rfl
    · rfl
  cases o with
  | super => rfl
  | freemap k => rfl
  | inode i => simp [names]
  | indirect i =>
    show (if i ∈ ({1, 3} : Finset Nat) then
      named ((Sfs.image (smallImage blocks first)).din i).indirect
      else none) = none
    rw [smallImage_din]
    split <;> rfl
  | data i k =>
    show (if i ∈ ({1, 3} : Finset Nat) then
      named ((smallImage blocks first).slot _ k) else none) = none
    rw [hslot]
    split <;> rfl

/-- Images of up to 32768 blocks whose first four are in use. -/
theorem smallImage_consistent {blocks : Nat} (h : 4 ≤ blocks)
    (hle : blocks ≤ 32768) : Consistent {1, 3} (smallImage blocks 4) := by
  have hone : (blocks + 32767) / 32768 = 1 := by omega
  have hnames := smallImage_names blocks 4
  rw [hone] at hnames
  -- the owners are the first four blocks, in this order
  have hown {o : Owner} {b : Nat} (ho : names {1, 3} (smallImage blocks 4)
        (Sfs.image (smallImage blocks 4)).din o = some b) :
      b < 4 ∧ o = if b = 0 then .super else if b = 2 then .freemap 0
        else .inode b := by
    rw [hnames] at ho
    cases o with
    | super =>
      cases ho
      exact ⟨by omega, rfl⟩
    | freemap k =>
      dsimp only at ho
      split at ho
      · obtain rfl : k = 0 := by omega
        cases ho
        exact ⟨by omega, rfl⟩
      · cases ho
    | inode i =>
      dsimp only at ho
      split at ho
      · rename_i hi
        cases ho
        rcases hi with rfl | rfl <;> exact ⟨by omega, rfl⟩
      · cases ho
    | indirect i => cases ho
    | data i k => cases ho
  have hfree (b : Nat) : (smallImage blocks 4).freemap b = true ↔
      4 ≤ b ∧ b < blocks := decide_eq_true_iff
  have hused (b : Nat) : (smallImage blocks 4).freemap b = false ↔
      ¬(4 ≤ b ∧ b < blocks) := decide_eq_false_iff_not
  refine ⟨⟨⟨⟨?_, ?_⟩, rfl, ?_, ?_, ?_⟩, ?_, ?_, ?_, ?_, ?_, ?_⟩, ?_⟩
  · intro o o' b ho ho'
    rw [(hown ho).2, (hown ho').2]
  · intro o b ho
    have := (hown ho).1
    exact ⟨Nat.lt_of_lt_of_le this h, (hused b).mpr (by omega)⟩
  · intro b hb
    exact ((hfree b).mp hb).2
  · have hset : (smallImage blocks 4).freeSet = Finset.Ico 4 blocks := by
      ext b
      rw [Store.mem_freeSet, hfree, Finset.mem_Ico]
      have hbits : (smallImage blocks 4).freemapBits = 32768 := by
        show (blocks + 32767) / 32768 * 32768 = 32768
        rw [hone]
      omega
    show blocks - 4 = (smallImage blocks 4).freeSet.card
    rw [hset, Nat.card_Ico]
  · show blocks < 2 ^ 32
    omega
  · intro i x hx
    cases hx
  · intro i _ k hk
    rw [smallImage_din] at hk
    exact absurd hk (Nat.not_lt_zero k)
  · intro i _
    rw [smallImage_din]
    exact Nat.two_pow_pos 32
  · intro i _
    rw [smallImage_din]
    split <;> decide
  · intro i _
    rw [smallImage_din]
    show 1 ≠ 0 ∧ 1 < 2 ^ 16
    decide
  · intro i x hx
    cases hx
  · intro b hb
    have hlt : b < 4 := by
      have := (hused b).mp hb.2
      have := hb.1
      change b < blocks at this
      omega
    have : b = 0 ∨ b = 1 ∨ b = 2 ∨ b = 3 := by omega
    rcases this with rfl | rfl | rfl | rfl
    · exact ⟨.super, rfl⟩
    · exact ⟨.inode 1, rfl⟩
    · exact ⟨.freemap 0, (hnames _).trans rfl⟩
    · exact ⟨.inode 3, rfl⟩

theorem smallRun_accounted :
    ∃ s, Sfs.Run {1, 3} (fun _ _ => True) (Sfs.image (smallImage 8 4)) s ∧
      s.st.unusedBlocks = 3 ∧
      ∀ b, b < s.st.blocks → s.st.freemap b = false →
        ∃! o, names {1, 3} s.st s.din o = some b := by
  have hrun : (Sfs.execute {1, 3} (fun _ _ => True)
      [.load 3, .op 3 (.write 0 [1, 2, 3, 4, 5]), .op 3 .fsync]
      (Sfs.image (smallImage 8 4))).map (·.st.unusedBlocks) = some 3 := by
    decide +kernel
  obtain ⟨s, hs, hunused⟩ := Option.map_eq_some_iff.mp hrun
  have hreach := Sfs.execute_run .refl hs
  exact ⟨s, hreach, hunused, ((blocks_accounted
    (smallImage_consistent (by omega) (by omega))).1 s hreach).1⟩

end MipsUcore.Kern
