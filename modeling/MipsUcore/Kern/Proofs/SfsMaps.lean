/-
What the functions of the block map do.

A map gets a block for a slot that has none (`Added`), or it stays as it is
because there are not enough free blocks (`Kept`); loading a block
(`Loaded`) finds the block of a slot or adds one, and giving up the last
block (`Freed`) is the way back. In all these cases everything that is not
in the map of the file is where it was and reads as it did (`Framed`).

The inodes are those of `inos`; `din` is what each of them says, but the
one at work, `i`, is in memory and says `x.din`.
-/
import MipsUcore.Kern.Proofs.SfsBlocks

namespace MipsUcore.Kern

open Owners Function

-- ===== changes of maps

/-- Outside of `T` everything is where it was and reads as it did. -/
structure Framed (T : Owner → Prop) (n n' : Owner → Option Nat)
    (st st' : Store) : Prop where
  names : ∀ {o}, ¬T o → n' o = n o
  disk : ∀ {o c}, ¬T o → n o = some c → st'.disk c = st.disk c
  blocks : st'.blocks = st.blocks

namespace Framed

variable {T T' : Owner → Prop} {n n' n'' : Owner → Option Nat}
  {st st' st'' : Store}

theorem refl (T : Owner → Prop) (n : Owner → Option Nat) (st : Store) :
    Framed T n n st st :=
  ⟨fun _ => rfl, fun _ _ => rfl, rfl⟩

theorem trans (h : Framed T n n' st st') (h' : Framed T n' n'' st' st'') :
    Framed T n n'' st st'' where
  names ho := (h'.names ho).trans (h.names ho)
  disk ho hc := (h'.disk ho ((h.names ho).trans hc)).trans (h.disk ho hc)
  blocks := h'.blocks.trans h.blocks

theorem mono (h : Framed T n n' st st') (hT : ∀ o, T o → T' o) :
    Framed T' n n' st st' where
  names ho := h.names fun ht => ho (hT _ ht)
  disk ho := h.disk fun ht => ho (hT _ ht)
  blocks := h.blocks

end Framed

section Maps

variable {inos : Finset Nat} {din : Nat → DiskInode} {i : Nat}
  {j : Nat} {d : DiskInode} {st' : Store} {x' : Sin}

/-- The owners, when the inode `i` in memory says `d`. -/
def namesOf (inos : Finset Nat) (din : Nat → DiskInode) (i : Nat)
    (st : Store) (d : DiskInode) : Owner → Option Nat :=
  names inos st (Function.update din i d)

theorem namesOf_indirect (hi : i ∈ inos) (st : Store) (d : DiskInode) :
    namesOf inos din i st d (.indirect i) = named d.indirect := by
  simp [namesOf, names, hi]

theorem namesOf_data (hi : i ∈ inos) (st : Store) (d : DiskInode) (k : Nat) :
    namesOf inos din i st d (.data i k) = named (st.slot d k) := by
  simp [namesOf, names, hi]

theorem owns_indirect (hi : i ∈ inos) (st : Store) (hd : d.indirect ≠ 0) :
    namesOf inos din i st d (.indirect i) = some d.indirect := by
  rw [namesOf_indirect hi, named_of_ne hd]

theorem owns_data (hi : i ∈ inos) {st : Store} {k : Nat}
    (hs : st.slot d k ≠ 0) :
    namesOf inos din i st d (.data i k) = some (st.slot d k) := by
  rw [namesOf_data hi, named_of_ne hs]

theorem owns_other (hj : j ∈ inos) (hne : j ≠ i) (st : Store)
    (d : DiskInode) (hd : (din j).indirect ≠ 0) :
    namesOf inos din i st d (.indirect j) = some (din j).indirect := by
  simp [namesOf, names, hj, hne, named_of_ne hd]

theorem Store.slot_congr {st : Store} {k : Nat}
    (h : d.indirect ≠ 0 → st'.disk d.indirect = st.disk d.indirect) :
    st'.slot d k = st.slot d k := by
  unfold slot
  by_cases h0 : d.indirect = 0
  · simp [h0]
  · rw [h h0]

/-- The map of one file changed, in slot `k`. -/
theorem namesOf_change (hi : i ∈ inos) {st : Store} {d' : DiskInode}
    {k : Nat} (hblocks : st'.blocks = st.blocks)
    (hsame : ∀ l, l ≠ k → st'.slot d' l = st.slot d l)
    (hother : ∀ j ∈ inos, j ≠ i → (din j).indirect ≠ 0 →
      st'.disk (din j).indirect = st.disk (din j).indirect) :
    namesOf inos din i st' d' = update
        (update (namesOf inos din i st d) (.indirect i) (named d'.indirect))
        (.data i k) (named (st'.slot d' k)) := by
  funext o
  cases o with
  | super => simp [namesOf, names]
  | freemap l =>
    have hmap : st'.freemapBlocks = st.freemapBlocks := by
      unfold Store.freemapBlocks
      rw [hblocks]
    simp [namesOf, names, hmap]
  | inode j => simp [namesOf, names]
  | indirect j =>
    by_cases hj : j = i
    · subst hj
      simp [namesOf, names, hi]
    · simp [namesOf, names, hj]
  | data j l =>
    by_cases hj : j = i
    · subst hj
      by_cases hl : l = k
      · subst hl
        simp [namesOf, names, hi]
      · simp [namesOf, names, hl, hsame l hl]
    · by_cases hmem : j ∈ inos
      · have := Store.slot_congr (k := l) (hother j hmem hj)
        simp [namesOf, names, hj, this]
      · simp [namesOf, names, hj, hmem]

-- ===== one more block

/-- How many blocks a block for slot `k` takes. -/
def Store.need (st : Store) (d : DiskInode) (k : Nat) : Nat :=
  if st.slot d k ≠ 0 then 0
  else if k < 12 ∨ d.indirect ≠ 0 then 1
  else 2

/-- Nothing but blocks that are free has changed. -/
structure Kept (st st' : Store) : Prop where
  freemap : st'.freemap = st.freemap
  unused : st'.unusedBlocks = st.unusedBlocks
  blocks : st'.blocks = st.blocks
  disk : ∀ {b}, st.freemap b = false → st'.disk b = st.disk b

/-- What no operation on the blocks of a file changes. -/
structure SameNode (x x' : Sin) : Prop where
  type : x'.din.type = x.din.type
  nlinks : x'.din.nlinks = x.din.nlinks
  ino : x'.ino = x.ino
  reclaimCount : x'.reclaimCount = x.reclaimCount

/-- Of the inode nothing but its map has changed, and it is marked. -/
structure OnlyMap (x x' : Sin) : Prop extends SameNode x x' where
  size : x'.din.size = x.din.size
  blocks : x'.din.blocks = x.din.blocks
  clean : x'.dirty = false → x' = x

/-- The file `i` moves from `x` to `x'`: each block still has one owner, none
gets lost, and only what the owners in `T` have may change. -/
structure Remaps (inos : Finset Nat) (din : Nat → DiskInode) (i : Nat)
    (T : Owner → Prop) (st : Store) (x : Sin) (st' : Store) (x' : Sin) :
    Prop where
  sound : Sound (namesOf inos din i st' x'.din) st'
  covered : Covered (namesOf inos din i st x.din) st.Used →
    Covered (namesOf inos din i st' x'.din) st'.Used
  frame : Framed T (namesOf inos din i st x.din)
    (namesOf inos din i st' x'.din) st st'

/-- The owners that a change of slot `k` of the file `i` may touch. -/
@[simp]
def Owner.Slot (i k : Nat) (o : Owner) : Prop :=
  o = .data i k ∨ o = .indirect i

/-- Slot `k` of the file `i` got the new, empty block `b`. -/
structure Added (inos : Finset Nat) (din : Nat → DiskInode) (i k : Nat)
    (st : Store) (x : Sin) (b : Nat) (st' : Store) (x' : Sin) : Prop
    extends Remaps inos din i (Owner.Slot i k) st x st' x' where
  fresh : st.slot x.din k = 0
  slot : st'.slot x'.din k = b
  ne : b ≠ 0
  zero : st'.disk b = fun _ => 0
  cost : st'.unusedBlocks + st.need x.din k = st.unusedBlocks
  indirect : k < 12 ∨ x.din.indirect ≠ 0 →
    x'.din.indirect = x.din.indirect
  only : OnlyMap x x'

variable {st : Store} {x : Sin} {k b e : Nat}
  (hi : i ∈ inos) (h : Sound (namesOf inos din i st x.din) st)

theorem slot_direct (h : k < 12) (d : DiskInode) :
    st.slot d k = d.direct ⟨k, h⟩ := dif_pos h

theorem slot_indirect (h : ¬k < 12) (hk : k < 1036) (hd : d.indirect ≠ 0) :
    st.slot d k = Bytes.word (st.disk d.indirect) (k - 12) := by
  unfold Store.slot
  rw [dif_neg h, if_pos ⟨hd, by omega⟩]

theorem slot_none (h : ¬k < 12) (hd : d.indirect = 0) : st.slot d k = 0 := by
  unfold Store.slot
  rw [dif_neg h, if_neg (by simp [hd])]

/-- Setting an entry of the indirect block sets one slot. -/
theorem slot_setEntry (hk : ¬k < 12) (hk' : k < 1036) (hd : d.indirect ≠ 0)
    (hb : b < 2 ^ 32) (l : Nat) :
    (st.setEntry d.indirect (k - 12) b).slot d l =
      if l = k then b else st.slot d l := by
  by_cases hl : l < 12
  · rw [slot_direct hl, slot_direct hl, if_neg (by omega)]
  · by_cases hl' : l < 1036
    · rw [slot_indirect hl hl' hd, slot_indirect hl hl' hd,
        Store.setEntry, Store.put_disk_self]
      by_cases hlk : l = k
      · subst hlk
        rw [if_pos rfl, Bytes.word_setWords_some _ (by simp) hb]
      · rw [if_neg hlk, Bytes.word_setWords_none _ (if_neg (by omega))]
    · unfold Store.slot
      rw [dif_neg hl, dif_neg hl, if_neg (by omega), if_neg (by omega),
        if_neg (by omega)]

/-- The indirect blocks are not among the free ones. -/
theorem Sound.indirect_ne (hi : i ∈ inos)
    (h : Sound (namesOf inos din i st x.din) st) (hb : st.freemap b = true)
    (hd : x.din.indirect ≠ 0) : x.din.indirect ≠ b :=
  h.ne_of_free hb (owns_indirect hi st hd)

/-- The inode with a new direct block. -/
def Sin.setDirect (x : Sin) (k : Nat) (h : k < 12) (b : Nat) : Sin :=
  { x with
    din := { x.din with direct := Function.update x.din.direct ⟨k, h⟩ b }
    dirty := true }

/-- The inode with a new indirect block. -/
def Sin.setIndirect (x : Sin) (e : Nat) : Sin :=
  { x with din := { x.din with indirect := e }, dirty := true }

theorem OnlyMap.refl (x : Sin) : OnlyMap x x :=
  ⟨⟨rfl, rfl, rfl, rfl⟩, rfl, rfl, fun _ => rfl⟩

/-- The map of one file changed in slot `k`, and of the blocks in use at
most its indirect block was written. -/
theorem namesOf_slot (hi : i ∈ inos) {d' : DiskInode}
    (hblocks : st'.blocks = st.blocks)
    (hsame : ∀ l, l ≠ k → st'.slot d' l = st.slot d l)
    (hind : d'.indirect = d.indirect)
    (hdisk : ∀ {o c}, o ≠ .indirect i → namesOf inos din i st d o = some c →
      st'.disk c = st.disk c) :
    namesOf inos din i st' d' =
      update (namesOf inos din i st d) (.data i k) (named (st'.slot d' k)) ∧
    Framed (Owner.Slot i k) (namesOf inos din i st d)
      (namesOf inos din i st' d') st st' := by
  have hn : namesOf inos din i st' d' = update (namesOf inos din i st d)
      (.data i k) (named (st'.slot d' k)) := by
    rw [namesOf_change hi hblocks hsame fun j hj hne hd =>
      hdisk (by simpa using hne) (owns_other hj hne st d hd), hind]
    congr 1
    exact update_eq_self_iff.mpr (namesOf_indirect hi ..).symm
  refine ⟨hn, fun ho => ?_, fun ho => hdisk fun he => ho (.inr he), hblocks⟩
  rw [hn, update_of_ne fun hc => ho (.inl hc)]

section
include hi h

/-- A block was taken for slot `k`, and of the blocks in use at most the
indirect block of the file was written. -/
theorem added_of_names (hfresh : st.slot x.din k = 0)
    (hb : st.freemap b = true)
    (hpos : 0 < st.unusedBlocks) (hneed : st.need x.din k = 1)
    (hst : st' = st.take b ∨ x.din.indirect ≠ 0 ∧
        ∃ data, st' = (st.take b).put x.din.indirect data)
    (hslot : st'.slot x'.din k = b)
    (hsame : ∀ l, l ≠ k → st'.slot x'.din l = st.slot x.din l)
    (hind : x'.din.indirect = x.din.indirect) (honly : OnlyMap x x') :
    Added inos din i k st x b st' x' := by
  have hdisk {o : Owner} {c : Nat} (ho : o ≠ .indirect i)
      (hc : namesOf inos din i st x.din o = some c) :
      st'.disk c = st.disk c := by
    have hcb := h.ne_of_free hb hc
    rcases hst with rfl | ⟨hx, data, rfl⟩
    · exact st.take_disk_of_ne hcb
    · have hne := h.ne_of_ne hc (owns_indirect hi st hx) ho
      rw [Store.put_disk_of_ne _ hne, st.take_disk_of_ne hcb]
  have hblocks : st'.blocks = st.blocks := by
    rcases hst with rfl | ⟨-, data, rfl⟩ <;> rfl
  obtain ⟨hn, hframe⟩ := namesOf_slot hi hblocks hsame hind hdisk
  rw [hslot, named_of_ne (h.ne_zero_of_free hb)] at hn
  have hnone : namesOf inos din i st x.din (.data i k) = none := by
    rw [namesOf_data hi, hfresh, named_zero]
  refine ⟨⟨?_, fun hc => ?_, hframe⟩, hfresh, hslot, h.ne_zero_of_free hb,
    ?_, ?_, fun _ => hind, honly⟩
  · rw [hn]
    rcases hst with rfl | ⟨-, data, rfl⟩
    · exact h.take hb (by simp)
    · exact (h.take hb (by simp)).put ..
  · rw [hn]
    refine hc.claim hnone fun c => ?_
    rcases hst with rfl | ⟨-, data, rfl⟩ <;>
      exact st.take_used (h.range hb) c
  · rcases hst with rfl | ⟨hx, data, rfl⟩
    · exact st.take_disk_self b
    · rw [Store.put_disk_of_ne _ (h.indirect_ne hi hb hx).symm,
        st.take_disk_self]
  · rw [hneed]
    rcases hst with rfl | ⟨-, data, rfl⟩ <;> exact Nat.sub_add_cancel hpos

theorem added_direct (hk : k < 12)
    (hfresh : st.slot x.din k = 0) (hb : st.freemap b = true)
    (hpos : 0 < st.unusedBlocks) :
    Added inos din i k st x b (st.take b) (x.setDirect k hk b) := by
  refine added_of_names hi h hfresh hb hpos
    (by simp [Store.need, hfresh, hk]) (.inl rfl) ?_ ?_ rfl
    ⟨⟨rfl, rfl, rfl, rfl⟩, rfl, rfl, fun hc => Bool.noConfusion hc⟩
  · rw [slot_direct hk]
    exact update_self ..
  · intro l hl
    by_cases hl12 : l < 12
    · rw [slot_direct hl12, slot_direct hl12]
      exact update_of_ne (by simpa [Fin.ext_iff] using hl) ..
    · have hcongr : (st.take b).slot x.din l = st.slot x.din l :=
        Store.slot_congr fun hd => st.take_disk_of_ne (h.indirect_ne hi hb hd)
      rw [← hcongr]
      unfold Store.slot
      rw [dif_neg hl12, dif_neg hl12]
      rfl

theorem added_entry (hk : ¬k < 12) (hk' : k < 1036) (hd : x.din.indirect ≠ 0)
    (hfresh : st.slot x.din k = 0) (hb : st.freemap b = true)
    (hpos : 0 < st.unusedBlocks) : Added inos din i k st x b
      ((st.take b).setEntry x.din.indirect (k - 12) b) x := by
  have hb' : b < 2 ^ 32 := Nat.lt_trans (h.range hb) h.small
  refine added_of_names hi h hfresh hb hpos
    (by simp [Store.need, hfresh, hd]) (.inr ⟨hd, _, rfl⟩) ?_ ?_ rfl
    (.refl x)
  · rw [slot_setEntry hk hk' hd hb', if_pos rfl]
  · intro l hl
    rw [slot_setEntry hk hk' hd hb', if_neg hl]
    exact Store.slot_congr fun _ => st.take_disk_of_ne (h.indirect_ne hi hb hd)

/-- A new indirect block changes no slot. -/
theorem namesOf_setIndirect (hd : x.din.indirect = 0)
    (he : st.freemap e = true) :
    namesOf inos din i (st.take e) (x.setIndirect e).din =
      update (namesOf inos din i st x.din) (.indirect i) (some e) := by
  have hslot (l : Nat) :
      (st.take e).slot (x.setIndirect e).din l = st.slot x.din l := by
    by_cases hl : l < 12
    · rw [slot_direct hl, slot_direct hl]
      rfl
    · rw [slot_none hl hd]
      unfold Store.slot
      rw [dif_neg hl]
      split
      · show Bytes.word ((st.take e).disk e) _ = 0
        rw [st.take_disk_self, Bytes.word_zero]
      · rfl
  have hnone : namesOf inos din i st x.din (.data i 12) = none := by
    rw [namesOf_data hi, slot_none (by omega) hd, named_zero]
  rw [namesOf_change hi (k := 12) (st.take_blocks e) (fun l _ => hslot l)
    fun j hj hne hd => st.take_disk_of_ne
      (h.ne_of_free he (owns_other hj hne st x.din hd)), hslot,
    slot_none (by omega) hd]
  refine (update_eq_self_iff.mpr ?_).trans
    (by rw [← named_of_ne (h.ne_zero_of_free he)]; rfl)
  rw [update_of_ne (by simp), hnone, named_zero]

theorem added_indirect (hk : ¬k < 12)
    (hk' : k < 1036) (hd : x.din.indirect = 0)
    (he : st.freemap e = true) (hb : (st.take e).freemap b = true)
    (hpos : 0 < (st.take e).unusedBlocks) : Added inos din i k st x b
      (((st.take e).take b).setEntry e (k - 12) b) (x.setIndirect e) := by
  have hn := namesOf_setIndirect hi h hd he
  have he0 := h.ne_zero_of_free he
  have hnone : namesOf inos din i st x.din (.indirect i) = none := by
    rw [namesOf_indirect hi, hd, named_zero]
  have hsound : Sound (namesOf inos din i (st.take e) (x.setIndirect e).din)
      (st.take e) := by
    rw [hn]
    exact h.take he (by simp)
  have hfresh : (st.take e).slot (x.setIndirect e).din k = 0 := by
    rw [slot_indirect hk hk' he0]
    show Bytes.word ((st.take e).disk e) _ = 0
    rw [st.take_disk_self, Bytes.word_zero]
  have hadd := added_entry hi hsound hk hk' he0 hfresh hb hpos
  have hframe : Framed (Owner.Slot i k) (namesOf inos din i st x.din)
      (namesOf inos din i (st.take e) (x.setIndirect e).din) st
      (st.take e) := by
    refine ⟨?_, ?_, rfl⟩
    · intro o ho
      rw [hn, update_of_ne fun hc => ho (.inr hc)]
    · intro o c _ hc
      exact st.take_disk_of_ne (h.ne_of_free he hc)
  refine ⟨⟨hadd.sound, fun hc => hadd.covered ?_, hframe.trans hadd.frame⟩,
    slot_none hk hd, hadd.slot, hadd.ne, hadd.zero, ?_,
    fun hor => (hor.elim hk fun hne => hne hd).elim,
    ⟨⟨rfl, rfl, rfl, rfl⟩, rfl, rfl, fun hc => Bool.noConfusion hc⟩⟩
  · rw [hn]
    exact hc.claim hnone (st.take_used (h.range he))
  · have hneed : st.need x.din k = 2 := by
      simp [Store.need, slot_none hk hd, hk, hd]
    have hcost : (((st.take e).take b).setEntry e (k - 12) b).unusedBlocks
        + (st.take e).need (x.setIndirect e).din k =
        (st.take e).unusedBlocks := hadd.cost
    have hneed' : (st.take e).need (x.setIndirect e).din k = 1 := by
      have hind : (x.setIndirect e).din.indirect ≠ 0 := he0
      simp [Store.need, hfresh, hind]
    have htake : (st.take e).unusedBlocks = st.unusedBlocks - 1 := rfl
    omega

end

-- ===== the map functions

theorem Kept.refl (st : Store) : Kept st st := ⟨rfl, rfl, rfl, fun _ => rfl⟩

theorem Kept.trans {st'' : Store} (h : Kept st st')
    (h' : Kept st' st'') : Kept st st'' where
  freemap := h'.freemap.trans h.freemap
  unused := h'.unused.trans h.unused
  blocks := h'.blocks.trans h.blocks
  disk hb := (h'.disk (by rw [h.freemap]; exact hb)).trans (h.disk hb)

/-- A block that is taken and given back at once. -/
theorem kept_take_give (he : st.freemap e = true)
    (hpos : 0 < st.unusedBlocks) : Kept st ((st.take e).give e) where
  freemap := by
    show update (update st.freemap e false) e true = _
    rw [update_idem, ← he, update_eq_self]
  unused := Nat.sub_add_cancel hpos
  blocks := rfl
  disk := by
    intro b hb
    refine st.take_disk_of_ne ?_
    rintro rfl
    rw [he] at hb
    exact Bool.noConfusion hb

theorem Kept.namesOf (hi : i ∈ inos) (hk : Kept st st')
    (h : Sound (namesOf inos din i st x.din) st) :
    namesOf inos din i st' x.din = namesOf inos din i st x.din := by
  have hsame (l : Nat) : st'.slot x.din l = st.slot x.din l := by
    refine Store.slot_congr fun hd => hk.disk ?_
    exact (h.sole.used (owns_indirect hi st hd)).2
  have hother (j : Nat) (hj : j ∈ inos) (hne : j ≠ i)
      (hd : (din j).indirect ≠ 0) :
      st'.disk (din j).indirect = st.disk (din j).indirect := by
    exact hk.disk (h.sole.used (owns_other hj hne st x.din hd)).2
  rw [namesOf_change hi (k := 0) hk.blocks (fun l _ => hsame l) hother, hsame]
  have hind := @namesOf_indirect inos din i hi st x.din
  have hdata := @namesOf_data inos din i hi st x.din 0
  rw [← hdata, ← hind, update_eq_self, update_eq_self]

theorem bmapOut_ok {n : Owner → Option Nat} {o : Owner} {y : Sin}
    (h : Sound n st) (ho : n o = some b) (hne : o ≠ .super) :
    st.bmapOut y b = .ok (some b, st, y) := by
  unfold Store.bmapOut
  rw [if_neg (h.ne_zero ho hne), Store.assertInuse_ok h ho hne]
  rfl

theorem bmapAddSub_cases {n : Owner → Option Nat} {o : Owner}
    (h : Sound n st) (ho : n o = some e) (hne : o ≠ .super) (old index : Nat) :
    (st.unusedBlocks = 0 ∧ st.bmapAddSub old e index =
      .ok (none, if e ≠ old then st.give e else st)) ∨
    ∃ b, st.freemap b = true ∧ 0 < st.unusedBlocks ∧
      st.bmapAddSub old e index =
        .ok (some (b, e), (st.take b).setEntry e index b) := by
  unfold Store.bmapAddSub
  rcases Store.blockAlloc_cases h with ⟨hzero, halloc⟩ | ⟨b, hb, hpos, halloc⟩
  · refine .inl ⟨hzero, ?_⟩
    rw [halloc]
    simp only [bind, Except.bind]
    rw [Store.blockFree_ok h ho hne]
    split <;> rfl
  · refine .inr ⟨b, hb, hpos, ?_⟩
    rw [halloc]
    have hlt : e < (st.take b).blocks := h.lt_blocks ho
    simp only [bind, Except.bind]
    rw [Store.wentry_ok (h.ne_zero ho hne) hlt]
    rfl

theorem Added.owns (hi : i ∈ inos) (h : Added inos din i k st x b st' x') :
    namesOf inos din i st' x'.din (.data i k) = some b := by
  rw [namesOf_data hi, h.slot, named_of_ne h.ne]

theorem Added.bmapOut (hi : i ∈ inos) (h : Added inos din i k st x b st' x') :
    st'.bmapOut x' b = .ok (some b, st', x') :=
  bmapOut_ok h.sound (h.owns hi) (by simp)

/-- A slot without a block gets one, or nothing happens. -/
def Creates (inos : Finset Nat) (din : Nat → DiskInode) (i k : Nat)
    (st : Store) (x : Sin) : Prop :=
  (st.need x.din k ≤ st.unusedBlocks ∧ ∃ b st' x',
    st.bmapGet x k true = .ok (some b, st', x') ∧
      Added inos din i k st x b st' x') ∨
  (st.unusedBlocks < st.need x.din k ∧ ∃ st',
    st.bmapGet x k true = .ok (none, st', x) ∧ Kept st st')

section
include hi h

/-- A slot that has a block is found. -/
theorem bmapGet_found (hk : k < 1036)
    (hs : st.slot x.din k ≠ 0) (create : Bool) :
    st.bmapGet x k create = .ok (some (st.slot x.din k), st, x) := by
  have hout := bmapOut_ok (y := x) h (owns_data hi hs) (by simp)
  unfold Store.bmapGet
  by_cases hk12 : k < 12
  · rw [slot_direct hk12] at hs hout ⊢
    rw [dif_pos hk12]
    rw [if_neg (by simp [hs]), hout]
  · have hd : x.din.indirect ≠ 0 := fun hd => hs (slot_none hk12 hd)
    have hlt := h.lt_blocks (owns_indirect hi st hd)
    have hsub : st.bmapGetSub x.din.indirect (k - 12) create =
        .ok (some (st.slot x.din k, x.din.indirect), st) := by
      unfold Store.bmapGetSub
      rw [ensure_pos (by omega), if_pos hd,
        Store.rentry_ok hd hlt, ← slot_indirect hk12 hk hd]
      simp only [bind, Except.bind]
      rw [if_pos (.inl hs)]
      rfl
    rw [dif_neg hk12, if_pos (by omega), hsub]
    simp only [bind, Except.bind]
    rw [if_neg (by simp), hout]

theorem creates_direct (hk : k < 12)
    (hs : st.slot x.din k = 0) : Creates inos din i k st x := by
  have hneed : st.need x.din k = 1 := by simp [Store.need, hs, hk]
  have hd : x.din.direct ⟨k, hk⟩ = 0 := by rw [← slot_direct hk, hs]
  unfold Creates Store.bmapGet
  rw [dif_pos hk, hneed]
  rw [if_pos ⟨hd, rfl⟩]
  rcases Store.blockAlloc_cases h with ⟨hzero, halloc⟩ | ⟨b, hb, hpos, halloc⟩
  · refine .inr ⟨by omega, st, ?_, .refl st⟩
    rw [halloc]
    rfl
  · have hadd := added_direct hi h hk hs hb hpos
    refine .inl ⟨hpos, b, _, _, ?_, hadd⟩
    rw [halloc]
    exact hadd.bmapOut hi

theorem creates_entry (hk : ¬k < 12) (hk' : k < 1036) (hd : x.din.indirect ≠ 0)
    (hs : st.slot x.din k = 0) : Creates inos din i k st x := by
  have hneed : st.need x.din k = 1 := by simp [Store.need, hs, hd]
  have ho := @owns_indirect inos din i x.din hi st hd
  have hsub : st.bmapGetSub x.din.indirect (k - 12) true =
      st.bmapAddSub x.din.indirect x.din.indirect (k - 12) := by
    unfold Store.bmapGetSub
    rw [ensure_pos (by omega), if_pos hd,
      Store.rentry_ok hd (h.lt_blocks ho), ← slot_indirect hk hk' hd]
    simp only [bind, Except.bind]
    rw [if_neg (by simp [hs])]
  unfold Creates Store.bmapGet
  rw [dif_neg hk, if_pos (by omega), hneed, hsub]
  rcases bmapAddSub_cases h ho (by simp) x.din.indirect (k - 12) with
    ⟨hzero, hadd⟩ | ⟨b, hb, hpos, hsub'⟩
  · refine .inr ⟨by omega, st, ?_, .refl st⟩
    rw [hadd, if_neg (by simp)]
    rfl
  · have hadd := added_entry hi h hk hk' hd hs hb hpos
    refine .inl ⟨hpos, b, _, _, ?_, hadd⟩
    rw [hsub']
    simp only [bind, Except.bind]
    rw [if_neg (by simp)]
    exact hadd.bmapOut hi

theorem creates_indirect (hk : ¬k < 12)
    (hk' : k < 1036) (hd : x.din.indirect = 0) :
    Creates inos din i k st x := by
  have hneed : st.need x.din k = 2 := by
    simp [Store.need, slot_none hk hd, hk, hd]
  unfold Creates Store.bmapGet Store.bmapGetSub
  rw [dif_neg hk, if_pos (by omega), ensure_pos (by omega),
    if_neg (by simp [hd]), if_neg (by simp)]
  rcases Store.blockAlloc_cases h with ⟨hzero, halloc⟩ | ⟨e, he, hpos, halloc⟩
  · refine .inr ⟨by omega, st, ?_, .refl st⟩
    rw [halloc]
    rfl
  rw [halloc]
  have he0 := h.ne_zero_of_free he
  have hunused : (st.take e).unusedBlocks = st.unusedBlocks - 1 := rfl
  have ho : update (namesOf inos din i st x.din) (.indirect i)
      (some e) (.indirect i) = some e := update_self ..
  -- the indirect block is taken; now the block for the slot
  rcases bmapAddSub_cases (h.take he (by simp)) ho (by simp)
    x.din.indirect (k - 12) with ⟨hzero, hadd⟩ | ⟨b, hb, hpos', hsub'⟩
  · refine .inr ⟨by omega, _, ?_, kept_take_give he hpos⟩
    simp only [bind, Except.bind]
    rw [hadd, if_pos (by simpa [hd] using he0)]
    rfl
  · have hadd := added_indirect hi h hk hk' hd he hb hpos'
    refine .inl ⟨by omega, b, _, _, ?_, hadd⟩
    simp only [bind, Except.bind]
    rw [hsub']
    simp only
    rw [if_pos (by simpa [hd] using he0), ensure_pos hd]
    exact hadd.bmapOut hi

/-- For an empty slot a block is asked for, on whichever level it is. -/
theorem bmapGet_create (hk : k < 1036)
    (hs : st.slot x.din k = 0) : Creates inos din i k st x := by
  by_cases hk12 : k < 12
  · exact creates_direct hi h hk12 hs
  · by_cases hd : x.din.indirect = 0
    · exact creates_indirect hi h hk12 hk hd
    · exact creates_entry hi h hk12 hk hd hs

end

-- ===== loading blocks

/-- Only the map of an inode counts for the owners. -/
theorem namesOf_congr {d' : DiskInode} (hdirect : d'.direct = d.direct)
    (hindirect : d'.indirect = d.indirect) :
    namesOf inos din i st d' = namesOf inos din i st d := by
  have hslot (l : Nat) : st.slot d' l = st.slot d l := by
    unfold Store.slot
    rw [hdirect, hindirect]
  funext o
  cases o with
  | super => rfl
  | freemap l => rfl
  | inode j => rfl
  | indirect j =>
    by_cases hj : j = i
    · subst hj
      simp [namesOf, names, hindirect]
    · simp [namesOf, names, hj]
  | data j l =>
    by_cases hj : j = i
    · subst hj
      simp [namesOf, names, hslot]
    · simp [namesOf, names, hj]

/-- Slot `k` of the file `i` has the block `b`, which it had before or which
is new and empty; the file has at least `k + 1` blocks. -/
structure Loaded (inos : Finset Nat) (din : Nat → DiskInode) (i k : Nat)
    (st : Store) (x : Sin) (b : Nat) (st' : Store) (x' : Sin) : Prop
    extends Remaps inos din i (Owner.Slot i k) st x st' x',
      SameNode x x' where
  slot : st'.slot x'.din k = b
  ne : b ≠ 0
  page : st'.disk b =
    if st.slot x.din k = 0 then fun _ => 0 else st.disk (st.slot x.din k)
  cost : st'.unusedBlocks + st.need x.din k = st.unusedBlocks
  indirect : k < 12 ∨ x.din.indirect ≠ 0 →
    x'.din.indirect = x.din.indirect
  size : x'.din.size = x.din.size
  blocks : x'.din.blocks = max x.din.blocks (k + 1)
  clean : x'.dirty = false → x.dirty = false ∧
    x'.din.direct = x.din.direct ∧ x'.din.indirect = x.din.indirect

/-- The inode with one block more. -/
def Sin.grow (x : Sin) : Sin :=
  { x with din := { x.din with blocks := x.din.blocks + 1 } }

theorem namesOf_grow (x : Sin) :
    namesOf inos din i st x.grow.din = namesOf inos din i st x.din :=
  namesOf_congr rfl rfl

/-- Another inode with the same map. -/
theorem Remaps.congr {T : Owner → Prop} {x'' : Sin}
    (h : Remaps inos din i T st x st' x')
    (hn : namesOf inos din i st' x''.din = namesOf inos din i st' x'.din) :
    Remaps inos din i T st x st' x'' := by
  refine ⟨?_, ?_, ?_⟩ <;> rw [hn]
  exacts [h.sound, h.covered, h.frame]

theorem Added.loaded (h : Added inos din i k st x b st' x')
    (hk : k = x.din.blocks) : Loaded inos din i k st x b st' x'.grow where
  toRemaps := h.toRemaps.congr (namesOf_grow x')
  toSameNode := { h.only with }
  slot := h.slot
  ne := h.ne
  page := by rw [if_pos h.fresh, h.zero]
  cost := h.cost
  indirect := h.indirect
  size := h.only.size
  blocks := by
    show x'.din.blocks + 1 = _
    rw [h.only.blocks]
    omega
  clean hc := by
    have hx := h.only.clean hc
    subst hx
    exact ⟨hc, rfl, rfl⟩

/-- A block the file has already. -/
theorem loaded_found (h : Sound (namesOf inos din i st x.din) st)
    (hs : st.slot x.din k ≠ 0)
    (hx' : (k < x.din.blocks ∧ x' = x) ∨ (k = x.din.blocks ∧ x' = x.grow)) :
    Loaded inos din i k st x (st.slot x.din k) st x' := by
  have hn : namesOf inos din i st x'.din = namesOf inos din i st x.din := by
    rcases hx' with ⟨-, rfl⟩ | ⟨-, rfl⟩
    · rfl
    · exact namesOf_grow x
  have hneed : st.need x.din k = 0 := if_pos hs
  have hmap : Remaps inos din i (Owner.Slot i k) st x st x :=
    ⟨h, id, .refl ..⟩
  refine ⟨hmap.congr hn, ⟨?_, ?_, ?_, ?_⟩, ?_, hs, (if_neg hs).symm,
    by rw [hneed]; rfl, fun _ => ?_, ?_, ?_, ?_⟩
  all_goals rcases hx' with ⟨hk, rfl⟩ | ⟨hk, rfl⟩
  all_goals first | rfl | exact fun hc => ⟨hc, rfl, rfl⟩ | skip
  · omega
  · show x.din.blocks + 1 = _
    omega

/-- A block that the file does not reach. -/
theorem bmapLoad_index (hk : x.din.blocks < k) :
    st.bmapLoad x k = .error .bmapIndex := by
  unfold Store.bmapLoad
  rw [ensure_neg (by omega)]
  rfl

/-- Past the indirect block, `ino` is read before it is set. -/
theorem bmapLoad_beyond (hk : 1036 ≤ k) (hle : k ≤ x.din.blocks) :
    st.bmapLoad x k = .error .uninitialised := by
  unfold Store.bmapLoad Store.bmapGet
  rw [ensure_pos hle]
  dsimp only
  rw [dif_neg (by omega), if_neg (by omega)]
  rfl

section
include hi h

/-- A block of the file is found, and nothing changes. -/
theorem bmapLoad_found (hk : k < x.din.blocks) (hs : st.slot x.din k ≠ 0) :
    st.bmapLoad x k = .ok (some (st.slot x.din k), st, x) := by
  have hk' : k < 1036 := by
    by_contra hc
    refine hs ?_
    unfold Store.slot
    rw [dif_neg (by omega), if_neg (by omega)]
  unfold Store.bmapLoad
  rw [ensure_pos (by omega), decide_eq_false (by omega)]
  dsimp only
  rw [bmapGet_found hi h hk' hs]
  simp only [bind, Except.bind]
  rw [Store.assertInuse_ok h (owns_data hi hs) (by simp)]
  rfl

/-- `sfs_bmap_load_nolock` of a block of the file, or of the next one. -/
theorem bmapLoad_cases (hk : k < 1036)
    (hle : k ≤ x.din.blocks) (hs : k < x.din.blocks → st.slot x.din k ≠ 0) :
    (st.need x.din k ≤ st.unusedBlocks ∧ ∃ b st' x',
      st.bmapLoad x k = .ok (some b, st', x') ∧
        Loaded inos din i k st x b st' x') ∨
    (st.unusedBlocks < st.need x.din k ∧ k = x.din.blocks ∧ ∃ st',
      st.bmapLoad x k = .ok (none, st', x) ∧ Kept st st') := by
  unfold Store.bmapLoad
  rw [ensure_pos hle]
  by_cases hslot : st.slot x.din k = 0
  · -- a slot without a block is the next one
    have hk' : k = x.din.blocks := by
      by_contra hne
      exact hs (by omega) hslot
    rw [decide_eq_true hk']
    dsimp only
    rcases bmapGet_create hi h hk hslot with
      ⟨hneed, b, st', x', hget, hadd⟩ | ⟨hneed, st', hget, hkept⟩
    · refine .inl ⟨hneed, b, st', x'.grow, ?_, hadd.loaded hk'⟩
      rw [hget]
      simp only [bind, Except.bind]
      rw [Store.assertInuse_ok hadd.sound (hadd.owns hi) (by simp)]
      rfl
    · refine .inr ⟨hneed, hk', st', ?_, hkept⟩
      rw [hget]
      rfl
  · have hneed : st.need x.din k = 0 := if_pos hslot
    have hinuse := Store.assertInuse_ok h (owns_data hi hslot) (by simp)
    dsimp only
    rw [bmapGet_found hi h hk hslot, hneed]
    simp only [bind, Except.bind]
    rw [hinuse]
    by_cases hk' : k = x.din.blocks
    · exact .inl ⟨Nat.zero_le _, _, st, x.grow, by rw [decide_eq_true hk']; rfl,
        loaded_found h hslot (.inr ⟨hk', rfl⟩)⟩
    · exact .inl ⟨Nat.zero_le _, _, st, x, by rw [decide_eq_false hk']; rfl,
        loaded_found h hslot (.inl ⟨by omega, rfl⟩)⟩

end

-- ===== giving up blocks

/-- The file `i` gave up its last block, the one in slot `k`. -/
structure Freed (inos : Finset Nat) (din : Nat → DiskInode) (i k : Nat)
    (st : Store) (x : Sin) (st' : Store) (x' : Sin) : Prop
    extends Remaps inos din i (Owner.Slot i k) st x st' x',
      SameNode x x' where
  slot : st'.slot x'.din k = 0
  unused : st'.unusedBlocks = st.unusedBlocks + 1
  size : x'.din.size = x.din.size
  blocks : x'.din.blocks + 1 = x.din.blocks
  dirty : x'.dirty = true

include hi h

/-- The block of slot `k` was given back, and of the blocks in use at most
the indirect block of the file was written. -/
theorem freed_of_names (hs : st.slot x.din k ≠ 0)
    (hst : st' = st.give (st.slot x.din k) ∨ x.din.indirect ≠ 0 ∧ ∃ data,
        st' = (st.put x.din.indirect data).give (st.slot x.din k))
    (hslot : st'.slot x'.din k = 0)
    (hsame : ∀ l, l ≠ k → st'.slot x'.din l = st.slot x.din l)
    (hind : x'.din.indirect = x.din.indirect) :
    Remaps inos din i (Owner.Slot i k) st x st' x' := by
  have hdisk {o : Owner} {c : Nat} (ho : o ≠ .indirect i)
      (hc : namesOf inos din i st x.din o = some c) :
      st'.disk c = st.disk c := by
    rcases hst with rfl | ⟨hx, data, rfl⟩
    · rfl
    · exact st.put_disk_of_ne (h.ne_of_ne hc (owns_indirect hi st hx) ho) data
  obtain ⟨hn, hframe⟩ := namesOf_slot hi
    (by rcases hst with rfl | ⟨-, data, rfl⟩ <;> rfl) hsame hind hdisk
  rw [hslot] at hn
  have ho := @owns_data inos din i x.din hi st k hs
  refine ⟨?_, ?_, hframe⟩
  · rw [hn]
    rcases hst with rfl | ⟨-, data, rfl⟩
    · exact h.give ho (by simp)
    · exact (h.put ..).give ho (by simp)
  · intro hc
    rw [hn]
    refine hc.release ho fun c => ?_
    rcases hst with rfl | ⟨-, data, rfl⟩ <;> exact st.give_used _ c

theorem bmapFree_direct (hk : k < 12) (hs : st.slot x.din k ≠ 0) :
    st.bmapFree x k = .ok (st.give (st.slot x.din k), x.setDirect k hk 0) := by
  have hfree := Store.blockFree_ok h (owns_data hi hs) (by simp)
  rw [slot_direct hk] at hs hfree ⊢
  unfold Store.bmapFree
  rw [dif_pos hk]
  rw [if_pos hs, hfree]
  rfl

theorem bmapFree_entry (hk : ¬k < 12)
    (hk' : k < 1036) (hs : st.slot x.din k ≠ 0) : st.bmapFree x k =
      .ok ((st.setEntry x.din.indirect (k - 12) 0).give
        (st.slot x.din k), x) := by
  have hd : x.din.indirect ≠ 0 := fun hd => hs (slot_none hk hd)
  have ho := @owns_indirect inos din i x.din hi st hd
  have hlt := h.lt_blocks ho
  have hsub : st.bmapFreeSub x.din.indirect (k - 12) =
      .ok ((st.setEntry x.din.indirect (k - 12) 0).give
        (st.slot x.din k)) := by
    unfold Store.bmapFreeSub
    rw [Store.assertInuse_ok h ho (by simp), ensure_pos (by omega),
      Store.rentry_ok hd hlt, ← slot_indirect hk hk' hd]
    simp only [bind, Except.bind]
    rw [if_pos hs, Store.wentry_ok hd hlt]
    exact Store.blockFree_ok (h.put ..) (owns_data hi hs) (by simp)
  unfold Store.bmapFree
  rw [dif_neg hk, if_pos (by omega), if_pos hd, hsub]
  rfl

/-- `sfs_bmap_truncate_nolock`, when the last block is there. -/
theorem bmapTruncate_ok (hk : k + 1 = x.din.blocks) (hk' : k < 1036)
    (hs : st.slot x.din k ≠ 0) : ∃ st' x', st.bmapTruncate x = .ok (st', x') ∧
      Freed inos din i k st x st' x' := by
  have hidx : x.din.blocks - 1 = k := by omega
  unfold Store.bmapTruncate
  rw [ensure_pos (by omega), hidx]
  by_cases hk12 : k < 12
  · let x' : Sin := { x.setDirect k hk12 0 with
      din := { (x.setDirect k hk12 0).din with blocks := k } }
    have hslot : (st.give (st.slot x.din k)).slot x'.din k = 0 := by
      rw [slot_direct hk12]
      exact update_self ..
    have hsame (l : Nat) (hl : l ≠ k) :
        (st.give (st.slot x.din k)).slot x'.din l = st.slot x.din l := by
      by_cases hl12 : l < 12
      · rw [slot_direct hl12, slot_direct hl12]
        exact update_of_ne (by simpa [Fin.ext_iff] using hl) ..
      · unfold Store.slot
        rw [dif_neg hl12, dif_neg hl12]
        rfl
    refine ⟨_, x', ?_, freed_of_names hi h hs (.inl rfl) hslot hsame rfl,
      ⟨rfl, rfl, rfl, rfl⟩, hslot, rfl, rfl, hk, rfl⟩
    rw [bmapFree_direct hi h hk12 hs]
    simp only [bind, Except.bind]
    rw [show (x.setDirect k hk12 0).din.blocks - 1 = k from hidx]
    rfl
  · have hd : x.din.indirect ≠ 0 := fun hd => hs (slot_none hk12 hd)
    let x' : Sin := { x with din := { x.din with blocks := k }, dirty := true }
    let st' := (st.setEntry x.din.indirect (k - 12) 0).give (st.slot x.din k)
    have hentry (l : Nat) :
        st'.slot x'.din l = if l = k then 0 else st.slot x.din l :=
      slot_setEntry hk12 hk' hd (by omega) l
    have hslot : st'.slot x'.din k = 0 := (hentry k).trans (if_pos rfl)
    have hmap := freed_of_names hi h hs (.inr ⟨hd, _, rfl⟩) hslot
      (fun l hl => (hentry l).trans (if_neg hl)) rfl
    refine ⟨st', x', ?_, hmap, ⟨rfl, rfl, rfl, rfl⟩, hslot, rfl, rfl, hk, rfl⟩
    rw [bmapFree_entry hi h hk12 hk' hs]
    simp only [bind, Except.bind]
    rw [hidx]
    rfl

end Maps

end MipsUcore.Kern
