/-
What an operation of a file can do to the file system.

# One file moves

`Moves` is what all operations of a file have in common: the accounting
stays right, the map of the file keeps its blocks without a gap, and
outside of the map of the file everything stays. Of the bytes of the file
it says that one which is zero, or has no block yet, stays so unless it is
written (`Blank`). Loading a block, giving up the last one and writing
bytes are such moves, and moves compose.

# Sizes

`sfs_truncfile` adds blocks one at a time, or takes them away one at a time
(`growFile_cases`, `shrinkFile_ok`). When the blocks run out the ones that
were added stay.
-/
import MipsUcore.Kern.Proofs.SfsMaps

namespace MipsUcore.Kern

open Owners

/-- The owners that make up the map of the file `i`. -/
def Owner.OfFile (i : Nat) (o : Owner) : Prop :=
  (∃ k, o = .data i k) ∨ o = .indirect i

/-- The blocks the file counts are there. -/
def Mapped (st : Store) (d : DiskInode) : Prop :=
  ∀ k < d.blocks, st.slot d k ≠ 0

/-- The byte at `p`, if there is a block for it. -/
def Store.byteAt (st : Store) (d : DiskInode) (p : Nat) : UInt8 :=
  st.disk (st.slot d (p / 4096)) (p % 4096)

/-- There is no block for the byte at `p`, or the byte is zero. -/
def Blank (st : Store) (d : DiskInode) (p : Nat) : Prop :=
  st.slot d (p / 4096) ≠ 0 → st.byteAt d p = 0

theorem named_inj {b c : Nat} (h : named b = named c) : b = c := by
  unfold named at h
  split at h <;> split at h <;> simp_all

/-- Twelve direct blocks and 1024 indirect ones: no slot is further. -/
theorem slot_beyond (st : Store) (d : DiskInode) {k : Nat}
    (hk : 1036 ≤ k) : st.slot d k = 0 := by
  unfold Store.slot
  rw [dif_neg (by omega), if_neg (by omega)]

/-- A mapped file therefore has at most 1036 blocks. -/
theorem Mapped.within {st : Store} {d : DiskInode} (h : Mapped st d) :
    d.blocks ≤ 1036 := by
  by_contra hc
  exact h 1036 (by omega) (slot_beyond st d (Nat.le_refl _))

/-- The inode with another size. -/
def Sin.setSize (x : Sin) (size : Nat) : Sin :=
  { x with din := { x.din with size := size }, dirty := true }

/-- The size of a file has no part in which blocks it owns. -/
theorem namesOf_setSize {inos : Finset Nat} {din : Nat → DiskInode}
    {i : Nat} {st : Store} (x : Sin) (size : Nat) :
    namesOf inos din i st (x.setSize size).din = namesOf inos din i st x.din :=
  namesOf_congr rfl rfl

/-- The file `i` moves from `x` to `x'`, and of its bytes at most those in
`W` are written. -/
structure Moves (inos : Finset Nat) (din : Nat → DiskInode) (i : Nat)
    (W : Nat → Prop) (st : Store) (x : Sin) (st' : Store) (x' : Sin) : Prop
    extends Remaps inos din i (Owner.OfFile i) st x st' x',
      SameNode x x' where
  mapped : Mapped st' x'.din
  blank : ∀ {p}, ¬W p → Blank st x.din p → Blank st' x'.din p
  clean : x'.dirty = false → x.dirty = false ∧
    x'.din.direct = x.din.direct ∧ x'.din.indirect = x.din.indirect ∧
    x'.din.size = x.din.size ∧ x.din.blocks ≤ x'.din.blocks

namespace Moves

variable {inos : Finset Nat} {din : Nat → DiskInode} {i k b : Nat}
  {W : Nat → Prop} {st st' st'' : Store} {x x' x'' : Sin}

theorem refl (W : Nat → Prop) (h : Sound (namesOf inos din i st x.din) st)
    (hm : Mapped st x.din) : Moves inos din i W st x st x :=
  ⟨⟨h, id, .refl ..⟩, ⟨rfl, rfl, rfl, rfl⟩, hm, fun _ => id,
    fun hc => ⟨hc, rfl, rfl, rfl, Nat.le_refl _⟩⟩

/-- Two stretches compose: what both leave alone is left alone. -/
theorem trans (h : Moves inos din i W st x st' x')
    (h' : Moves inos din i W st' x' st'' x'') :
    Moves inos din i W st x st'' x'' where
  sound := h'.sound
  mapped := h'.mapped
  covered hc := h'.covered (h.covered hc)
  frame := h.frame.trans h'.frame
  blank hp hb := h'.blank hp (h.blank hp hb)
  type := h'.type.trans h.type
  nlinks := h'.nlinks.trans h.nlinks
  ino := h'.ino.trans h.ino
  reclaimCount := h'.reclaimCount.trans h.reclaimCount
  clean hc := by
    obtain ⟨hc', hdirect', hindirect', hsize', hblocks'⟩ := h'.clean hc
    obtain ⟨hc, hdirect, hindirect, hsize, hblocks⟩ := h.clean hc'
    exact ⟨hc, hdirect'.trans hdirect, hindirect'.trans hindirect,
      hsize'.trans hsize, Nat.le_trans hblocks hblocks'⟩

theorem mono {W' : Nat → Prop} (h : Moves inos din i W st x st' x')
    (hW : ∀ p, W p → W' p) : Moves inos din i W' st x st' x' :=
  { h with blank := fun hp => h.blank fun hw => hp (hW _ hw) }

theorem setSize (h : Moves inos din i W st x st' x') (size : Nat) :
    Moves inos din i W st x st' (x'.setSize size) where
  toRemaps := h.toRemaps.congr (namesOf_setSize x' size)
  toSameNode := { h with }
  mapped := h.mapped
  blank := h.blank
  clean hc := Bool.noConfusion hc

end Moves

section

variable {inos : Finset Nat} {din : Nat → DiskInode} {i k b : Nat}
  {st st' : Store} {x x' : Sin}

/-- A change that does not touch the owner of block k leaves its
slot in the inode as it was. -/
theorem Framed.slot (hi : i ∈ inos) {T : Owner → Prop} {d d' : DiskInode}
    (h : Framed T (namesOf inos din i st d) (namesOf inos din i st' d')
      st st') (hT : ¬T (.data i k)) : st'.slot d' k = st.slot d k := by
  have := h.names hT
  rw [namesOf_data hi, namesOf_data hi] at this
  exact named_inj this

/-- The block of a slot and the indirect block belong to the file. -/
theorem Remaps.ofFile (h : Remaps inos din i (Owner.Slot i k) st x st' x') :
    Remaps inos din i (Owner.OfFile i) st x st' x' := by
  refine { h with frame := h.frame.mono ?_ }
  rintro o (rfl | rfl)
  · exact .inl ⟨k, rfl⟩
  · exact .inr rfl

/-- Loading block k leaves the other slots as they were. -/
theorem Loaded.slot_of_ne (hi : i ∈ inos)
    (h : Loaded inos din i k st x b st' x') {l : Nat} (hl : l ≠ k) :
    st'.slot x'.din l = st.slot x.din l :=
  h.frame.slot hi (by simp [hl])

/-- A block of the file stays where it is and as it is. -/
theorem Loaded.holds (hi : i ∈ inos) (h : Loaded inos din i k st x b st' x')
    {l : Nat} (hl : st.slot x.din l ≠ 0) : st'.slot x'.din l ≠ 0 ∧
      st'.disk (st'.slot x'.din l) = st.disk (st.slot x.din l) := by
  by_cases hlk : l = k
  · subst hlk
    rw [h.slot, h.page, if_neg hl]
    exact ⟨h.ne, rfl⟩
  · rw [h.slot_of_ne hi hlk]
    exact ⟨hl, h.frame.disk (by simp [hlk]) (owns_data hi hl)⟩

/-- Loading a block of a file, or the one behind its last, moves no
other. -/
theorem Loaded.moves (hi : i ∈ inos)
    (h : Loaded inos din i k st x b st' x') (hm : Mapped st x.din)
    (hk : k ≤ x.din.blocks) (W : Nat → Prop) :
    Moves inos din i W st x st' x' where
  toRemaps := h.toRemaps.ofFile
  toSameNode := h.toSameNode
  mapped := by
    intro l hl
    by_cases hlk : l = k
    · rw [hlk, h.slot]
      exact h.ne
    · rw [h.slot_of_ne hi hlk]
      rw [h.blocks] at hl
      exact hm l (by omega)
  blank := by
    intro p _ hb hs
    by_cases hs0 : st.slot x.din (p / 4096) = 0
    · -- the block is new, so it is the one that was loaded
      have hk : p / 4096 = k := by
        by_contra hne
        exact hs ((h.slot_of_ne hi hne).trans hs0)
      unfold Store.byteAt
      rw [hk, h.slot, h.page, if_pos (hk ▸ hs0)]
    · have hb := hb hs0
      unfold Store.byteAt at hb ⊢
      rw [(h.holds hi hs0).2, hb]
  clean hc := by
    obtain ⟨hc, hdirect, hindirect⟩ := h.clean hc
    refine ⟨hc, hdirect, hindirect, h.size, ?_⟩
    rw [h.blocks]
    exact Nat.le_max_left ..

/-- Freeing the last block of a file moves no other. -/
theorem Freed.moves (hi : i ∈ inos)
    (h : Freed inos din i k st x st' x') (hm : Mapped st x.din)
    (hk : k + 1 = x.din.blocks) (W : Nat → Prop) :
    Moves inos din i W st x st' x' where
  toRemaps := h.toRemaps.ofFile
  toSameNode := h.toSameNode
  mapped := by
    intro l hl
    have := h.blocks
    rw [h.frame.slot hi (by simp; omega)]
    exact hm l (by omega)
  blank := by
    intro p _ hb hs
    have hne : p / 4096 ≠ k := by
      intro hpk
      rw [hpk, h.slot] at hs
      exact hs rfl
    have hslot : st'.slot x'.din (p / 4096) = st.slot x.din (p / 4096) :=
      h.frame.slot hi (by simp [hne])
    rw [hslot] at hs
    have hb := hb hs
    unfold Store.byteAt at hb ⊢
    rw [hslot, h.frame.disk (by simp [hne]) (owns_data hi hs), hb]
  clean hc := by
    rw [h.dirty] at hc
    exact Bool.noConfusion hc

/-- A store that keeps the owned blocks keeps every slot. -/
theorem Kept.slot (hi : i ∈ inos) (h : Kept st st')
    (hs : Sound (Kern.namesOf inos din i st x.din) st) (l : Nat) :
    st'.slot x.din l = st.slot x.din l := by
  have := congrFun (h.namesOf hi hs) (.data i l)
  rw [namesOf_data hi, namesOf_data hi] at this
  exact named_inj this

/-- Nothing but free blocks changed. -/
theorem Kept.moves (hi : i ∈ inos) (h : Kept st st')
    (hs : Sound (Kern.namesOf inos din i st x.din) st)
    (hm : Mapped st x.din) (W : Nat → Prop) :
    Moves inos din i W st x st' x := by
  have hn := h.namesOf hi hs
  have hslot := h.slot hi hs
  have hused (c : Nat) : st'.Used c ↔ st.Used c := by
    unfold Store.Used
    rw [h.blocks, h.freemap]
  have hdisk {o : Owner} {c : Nat}
      (ho : Kern.namesOf inos din i st x.din o = some c) :
      st'.disk c = st.disk c := h.disk (hs.sole.used ho).2
  have hfree : st'.freeSet = st.freeSet := by
    unfold Store.freeSet Store.freemapBits Store.freemapBlocks
    rw [h.freemap, h.blocks]
  refine ⟨⟨?_, fun hc c hcu => ?_, fun _ => congrFun hn _, fun _ => hdisk,
      h.blocks⟩, ⟨rfl, rfl, rfl, rfl⟩, ?_, ?_,
    fun hc => ⟨hc, rfl, rfl, rfl, Nat.le_refl _⟩⟩
  · rw [hn]
    refine ⟨⟨hs.sole.inj, fun ho => (hused _).mpr (hs.sole.used ho)⟩,
      hs.super, ?_, ?_, ?_⟩
    · rw [h.freemap, h.blocks]
      exact hs.range
    · rw [h.unused, hfree]
      exact hs.count
    · rw [h.blocks]
      exact hs.small
  · rw [hn]
    exact hc c ((hused c).mp hcu)
  · intro l hl
    rw [hslot]
    exact hm l hl
  · intro p _ hb hp
    rw [hslot] at hp
    have hb := hb hp
    unfold Store.byteAt at hb ⊢
    rw [hslot, hdisk (owns_data hi hp), hb]

-- ===== growth

/-- How many blocks the file takes to get `n` more, from block `nblks` on:
one for each slot that has none, and one for the indirect block if it comes
to that. -/
def Store.cost (st : Store) (d : DiskInode) (nblks n : Nat) : Nat :=
  (List.range' nblks n).countP (fun k => st.slot d k = 0) +
    if d.indirect = 0 ∧ 12 < nblks + n ∧ 0 < n then 1 else 0

/-- The cost of growing is paid block by block: what the first
block needs, and what the rest then costs. -/
theorem Loaded.cost_succ (hi : i ∈ inos)
    (h : Loaded inos din i k st x b st' x') (hk : k < 1036) (n : Nat) :
    st.cost x.din k (n + 1) = st.need x.din k + st'.cost x'.din (k + 1) n := by
  have hcount : (List.range' (k + 1) n).countP
      (fun l => st'.slot x'.din l = 0) =
      (List.range' (k + 1) n).countP (fun l => st.slot x.din l = 0) := by
    refine List.countP_congr fun l hl => ?_
    rw [List.mem_range'_1] at hl
    rw [h.slot_of_ne hi (by omega)]
  have hind : ¬k < 12 → x'.din.indirect ≠ 0 := by
    intro hk12 h0
    have := h.ne
    rw [← h.slot] at this
    exact this (slot_none hk12 h0)
  unfold Store.cost Store.need
  rw [List.range'_succ, hcount]
  by_cases hk12 : k < 12
  · rw [h.indirect (.inl hk12)]
    by_cases hs : st.slot x.din k = 0
    · simp [hs, hk12]
      split <;> split <;> omega
    · simp [hs]
      split <;> split <;> omega
  · have hind := hind hk12
    by_cases h0 : x.din.indirect = 0
    · have hs : st.slot x.din k = 0 := slot_none hk12 h0
      simp [hs, hk12, h0, hind]
      rw [if_pos (by omega)]
      omega
    · by_cases hs : st.slot x.din k = 0
      · simp [hs, h0, hind]
        omega
      · simp [hs, h0, hind]

theorem Store.need_le_cost (st : Store) (d : DiskInode) (k n : Nat) :
    st.need d k ≤ st.cost d k (n + 1) := by
  unfold cost need
  rw [List.range'_succ]
  by_cases hs : st.slot d k = 0
  · by_cases hk : k < 12 ∨ d.indirect ≠ 0
    · simp [hs, hk]
      omega
    · obtain ⟨hk12, h0⟩ := not_or.mp hk
      simp [hs, hk12, h0]
      rw [if_pos (by omega)]
      omega
  · simp [hs]

/-- The file `i` was to get `n` more blocks: it got them all, or the free
ones ran out and it kept those it had got. -/
structure Grown (inos : Finset Nat) (din : Nat → DiskInode) (i n : Nat)
    (st : Store) (x : Sin) (ret : Int) (st' : Store) (x' : Sin) : Prop where
  moves : Moves inos din i (fun _ => False) st x st' x'
  size : x'.din.size = x.din.size
  holds : ∀ {l}, st.slot x.din l ≠ 0 → st'.slot x'.din l ≠ 0 ∧
    st'.disk (st'.slot x'.din l) = st.disk (st.slot x.din l)
  ret : (ret = 0 ∧ x'.din.blocks = x.din.blocks + n ∧
      st.cost x.din x.din.blocks n ≤ st.unusedBlocks) ∨
    (ret = -eNoMem ∧ x'.din.blocks < x.din.blocks + n ∧
      st.unusedBlocks < st.cost x.din x.din.blocks n)
  none : 0 < n → st.unusedBlocks < st.need x.din x.din.blocks →
    x' = x ∧ Kept st st'
  some : 0 < n → st.need x.din x.din.blocks ≤ st.unusedBlocks →
    x.din.blocks < x'.din.blocks

/-- Growing returns as Grown says, unless it goes past 1036 blocks and
the code uses a block number that was never set. -/
theorem Store.growFile_cases (hi : i ∈ inos) (n : Nat) :
    ∀ {st : Store} {x : Sin}, Sound (namesOf inos din i st x.din) st →
      Mapped st x.din → (1036 < x.din.blocks + n ∧
        growFile n x.din.blocks st x = .error .uninitialised) ∨
      ∃ ret st' x', growFile n x.din.blocks st x = .ok (ret, st', x') ∧
        Grown inos din i n st x ret st' x' := by
  induction n with
  | zero =>
    intro st x h hm
    refine .inr ⟨0, st, x, rfl, .refl _ h hm, rfl, fun hl => ⟨hl, rfl⟩,
      .inl ⟨rfl, rfl, ?_⟩, fun h0 => absurd h0 (Nat.lt_irrefl 0),
      fun h0 => absurd h0 (Nat.lt_irrefl 0)⟩
    simp [cost]
  | succ n ih =>
    intro st x h hm
    by_cases hn : x.din.blocks < 1036
    swap
    · refine .inl ⟨by omega, ?_⟩
      unfold growFile
      rw [bmapLoad_beyond (by omega) (Nat.le_refl _)]
      rfl
    rcases bmapLoad_cases hi h hn
      (Nat.le_refl _) (fun hlt => absurd hlt (Nat.lt_irrefl _)) with
      ⟨hneed, b, st₁, x₁, hload, hl⟩ | ⟨hneed, -, st₁, hload, hkept⟩
    · -- the block is there, and the rest is as before
      have hblocks : x₁.din.blocks = x.din.blocks + 1 := by
        rw [hl.blocks]
        omega
      have hmoves := hl.moves hi hm (Nat.le_refl _) fun _ => False
      rcases ih hl.sound hmoves.mapped with
        ⟨hlt, hrun⟩ | ⟨ret, st', x', hrun, hg⟩
      · refine .inl ⟨by omega, ?_⟩
        rw [hblocks] at hrun
        unfold growFile
        rw [hload]
        exact hrun
      have hcost := hl.cost_succ hi (by omega) n
      have hpaid := hl.cost
      have hret := hg.ret
      rw [hblocks] at hrun hret
      refine .inr ⟨ret, st', x', ?_, hmoves.trans hg.moves,
        hg.size.trans hl.size, ?_, ?_, fun _ hlt => by omega, ?_⟩
      · unfold growFile
        rw [hload]
        exact hrun
      · intro l hl'
        obtain ⟨h1, h2⟩ := hl.holds hi hl'
        obtain ⟨h3, h4⟩ := hg.holds h1
        exact ⟨h3, h4.trans h2⟩
      · rcases hret with ⟨hr, hb, hc⟩ | ⟨hr, hb, hc⟩
        · exact .inl ⟨hr, by omega, by omega⟩
        · exact .inr ⟨hr, by omega, by omega⟩
      · intro _ _
        by_cases hn0 : n = 0
        · rcases hret with ⟨-, hb, -⟩ | ⟨-, hb, hc⟩
          · omega
          · subst hn0
            simp [cost] at hc
        · rcases Nat.lt_or_ge st₁.unusedBlocks
            (st₁.need x₁.din x₁.din.blocks) with hlt | hge
          · obtain ⟨hx, -⟩ := hg.none (by omega) hlt
            rw [hx]
            omega
          · have := hg.some (by omega) hge
            omega
    · refine .inr ⟨-eNoMem, st₁, x, ?_, hkept.moves hi h hm _, rfl, ?_,
        .inr ⟨rfl, by omega, ?_⟩, fun _ _ => ⟨rfl, hkept⟩,
        fun _ hge => by omega⟩
      · unfold growFile
        rw [hload]
        rfl
      · intro l hl
        rw [hkept.slot hi h]
        exact ⟨hl, hkept.disk (h.sole.used (owns_data hi hl)).2⟩
      · exact Nat.lt_of_lt_of_le hneed (need_le_cost ..)

/-- A grown file has lost no block, whatever was returned. -/
theorem Grown.le {n : Nat} {ret : Int}
    (h : Grown inos din i n st x ret st' x') :
    x.din.blocks ≤ x'.din.blocks := by
  by_cases hn : 0 < n
  · rcases Nat.lt_or_ge st.unusedBlocks (st.need x.din x.din.blocks) with
      hlt | hge
    · rw [(h.none hn hlt).1]
    · exact Nat.le_of_lt (h.some hn hge)
  · obtain rfl : n = 0 := by omega
    rcases h.ret with ⟨-, hb, -⟩ | ⟨-, -, hc⟩
    · omega
    · simp [Store.cost] at hc

-- ===== giving blocks up

/-- Shrinking by no more blocks than there are does not fail, and moves
nothing that stays. -/
theorem Store.shrinkFile_ok (hi : i ∈ inos) (n : Nat) :
    ∀ {st : Store} {x : Sin}, Sound (namesOf inos din i st x.din) st →
      Mapped st x.din → n ≤ x.din.blocks →
      ∃ st' x', shrinkFile n st x = .ok (st', x') ∧
        Moves inos din i (fun _ => False) st x st' x' ∧
        x'.din.size = x.din.size ∧ x'.din.blocks + n = x.din.blocks ∧
        (∀ k, x'.din.blocks ≤ k → k < x.din.blocks → st'.slot x'.din k = 0) ∧
        ∀ k, x.din.blocks ≤ k → st'.slot x'.din k = st.slot x.din k := by
  induction n with
  | zero =>
    intro st x h hm _
    exact ⟨st, x, rfl, .refl _ h hm, rfl, rfl,
      fun k _ _ => by omega, fun _ _ => rfl⟩
  | succ n ih =>
    intro st x h hm hn
    have hlast : x.din.blocks - 1 + 1 = x.din.blocks := by omega
    have hwithin := hm.within
    obtain ⟨st₁, x₁, hrun, hf⟩ := bmapTruncate_ok hi h hlast (by omega)
      (hm _ (by omega))
    have hmoves := hf.moves hi hm hlast fun _ => False
    have hblocks := hf.blocks
    obtain ⟨st', x', hrun', hmoves', hsize, hblocks', hfreed, hsame⟩ :=
      ih hf.sound hmoves.mapped (by omega)
    refine ⟨st', x', ?_, hmoves.trans hmoves', hsize.trans hf.size,
      by omega, ?_, ?_⟩
    · unfold shrinkFile
      rw [hrun]
      exact hrun'
    · intro k hk hk'
      by_cases hlast' : k = x.din.blocks - 1
      · rw [hsame k (by omega), hlast']
        exact hf.slot
      · exact hfreed k hk (by omega)
    · intro k hk
      rw [hsame k (by omega)]
      exact hf.frame.slot hi (by simp; omega)

-- ===== `sfs_truncfile`

/-- What `sfs_truncfile` comes to when it returns and the length is one it
takes. -/
structure Resized (inos : Finset Nat) (din : Nat → DiskInode) (i : Nat)
    (st : Store) (x : Sin) (len : Nat) (r : Done) : Prop where
  moves : Moves inos din i (fun _ => False) st x r.st r.sin
  ret : (r.ret = 0 ∧ r.sin.din.size = len ∧
      r.sin.din.blocks = (len + 4095) / 4096) ∨
    (r.ret = -eNoMem ∧ x.din.blocks < (len + 4095) / 4096 ∧
      Grown inos din i ((len + 4095) / 4096 - x.din.blocks) st x (-eNoMem)
        r.st r.sin)
  enough : x.din.blocks < (len + 4095) / 4096 →
    st.cost x.din x.din.blocks ((len + 4095) / 4096 - x.din.blocks) ≤
      st.unusedBlocks → r.ret = 0
  short : x.din.blocks < (len + 4095) / 4096 → st.unusedBlocks <
    st.cost x.din x.din.blocks ((len + 4095) / 4096 - x.din.blocks) →
    r.ret = -eNoMem
  freed : ∀ k, r.sin.din.blocks ≤ k → k < x.din.blocks →
    r.st.slot r.sin.din k = 0

/-- The size is recorded once the blocks are there. -/
theorem Store.setSize_ok {len : Nat} (h : x.din.blocks = (len + 4095) / 4096) :
    st.setSize x len ((len + 4095) / 4096) =
      .ok (st.done (x.setSize len) 0) := by
  unfold setSize
  rw [ensure_pos h]
  rfl

/-- `sfs_truncfile`, for a length in range. -/
theorem Store.truncfile_cases (hi : i ∈ inos)
    (h : Sound (namesOf inos din i st x.din) st) (hm : Mapped st x.din)
    {len : Nat} (hlen : len ≤ sfsMaxFileSize) :
    (x.din.size = len ∧ x.din.blocks ≠ (len + 4095) / 4096 ∧
      st.truncfile x len = .error .truncSame) ∨
    (1036 < (len + 4095) / 4096 ∧ st.truncfile x len = .error .uninitialised) ∨
    ∃ r, st.truncfile x len = .ok r ∧ Resized inos din i st x len r := by
  unfold truncfile
  rw [if_neg (by omega)]
  rw [Int.toNat_natCast]
  by_cases hsize : x.din.size = len
  · rw [if_pos hsize]
    by_cases hblocks : (len + 4095) / 4096 = x.din.blocks
    · refine .inr (.inr ⟨st.done x 0, ?_, .refl _ h hm,
        .inl ⟨rfl, hsize, hblocks.symm⟩, fun hlt => by omega,
        fun hlt => by omega, fun k hk hk' => ?_⟩)
      · rw [ensure_pos hblocks]
        rfl
      · change x.din.blocks ≤ k at hk
        omega
    · refine .inl ⟨hsize, Ne.symm hblocks, ?_⟩
      rw [ensure_neg hblocks]
      rfl
  rw [if_neg hsize]
  by_cases hlt : x.din.blocks < (len + 4095) / 4096
  · rw [if_pos hlt]
    rcases growFile_cases hi ((len + 4095) / 4096 - x.din.blocks) h hm with
      ⟨hwithin, hrun⟩ | ⟨ret, st', x', hrun, hg⟩
    · refine .inr (.inl ⟨by omega, ?_⟩)
      rw [hrun]
      rfl
    refine .inr (.inr ?_)
    rw [hrun]
    simp only [bind, Except.bind]
    rcases hg.ret with ⟨rfl, hblocks, hcost⟩ | ⟨rfl, hblocks, hcost⟩
    · refine ⟨st'.done (x'.setSize len) 0, ?_, hg.moves.setSize len,
        .inl ⟨rfl, rfl, ?_⟩, fun _ _ => rfl, fun _ hgt => by omega,
        fun k hk hk' => ?_⟩
      · rw [if_neg (by simp), setSize_ok (by omega)]
      · show x'.din.blocks = _
        omega
      · change x'.din.blocks ≤ k at hk
        omega
    · refine ⟨st'.done x' (-eNoMem), ?_, hg.moves, .inr ⟨rfl, hlt, hg⟩,
        fun _ hle => by omega, fun _ _ => rfl, fun k hk hk' => ?_⟩
      · rfl
      · have := hg.le
        change x'.din.blocks ≤ k at hk
        omega
  · rw [if_neg hlt]
    obtain ⟨st', x', hrun, hmoves, -, hblocks, hfreed, -⟩ :=
      shrinkFile_ok hi (x.din.blocks - (len + 4095) / 4096) h hm
        (Nat.sub_le ..)
    refine .inr (.inr ⟨st'.done (x'.setSize len) 0, ?_, hmoves.setSize len,
      .inl ⟨rfl, rfl, ?_⟩, fun hlt' => absurd hlt' hlt,
      fun hlt' => absurd hlt' hlt, hfreed⟩)
    · rw [hrun]
      simp only [bind, Except.bind]
      rw [setSize_ok (by omega)]
    · show x'.din.blocks = _
      omega

end

end MipsUcore.Kern
