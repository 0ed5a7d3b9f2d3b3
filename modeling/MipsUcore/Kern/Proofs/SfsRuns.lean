/-
The file system over whole runs.

# The state

An inode in memory counts, not the copy on the disk: `Sfs.din` is what the
inode `i` says. `Mounted` is the invariant: the accounting is right, every
file has the blocks it counts, and the copy on the disk of an inode that is
not marked dirty names the same blocks. It may count fewer of them, since
`sfs_bmap_load_nolock` does not mark the inode when it counts one more: a
growth that fails past the direct blocks is forgotten when the inode is
dropped, and the slots it filled keep their blocks.

# Steps

Every event keeps `Mounted` and that every block in use has an owner
(`Step.mounted`, `Step.covered`), and so do runs. Besides the block map an
event changes nothing but the file it is about (`Change`).
-/
import MipsUcore.Kern.Proofs.SfsIo

namespace MipsUcore.Kern

open Owners Function

-- ===== the copy on disk

/-- The fields of an inode fit in their places on the disk. -/
structure DiskInode.Fits (d : DiskInode) : Prop where
  size : d.size < 2 ^ 32
  type : d.type < 2 ^ 16
  nlinks : d.nlinks < 2 ^ 16
  blocks : d.blocks < 2 ^ 32
  direct : ∀ k, d.direct k < 2 ^ 32
  indirect : d.indirect < 2 ^ 32

variable {inos : Finset Nat} {s t : Sfs}

/-- An inode that is written is read back. -/
theorem DiskInode.ofBlock_setWords {d : DiskInode} (h : d.Fits)
    (data : Nat → UInt8) : ofBlock (Bytes.setWords data d.words) = d := by
  have hword {k v : Nat} (hk : d.words k = some v) (hv : v < 2 ^ 32) :
      Bytes.word (Bytes.setWords data d.words) k = v :=
    Bytes.word_setWords_some data hk hv
  have htype := h.type
  have hnlinks := h.nlinks
  have hboth : Bytes.word (Bytes.setWords data d.words) 1 =
      d.type + 2 ^ 16 * d.nlinks := hword rfl (by omega)
  have hdirect (k : Fin 12) : d.words (3 + k) = some (d.direct k) := by
    obtain ⟨k, hk⟩ := k
    unfold words
    rw [if_neg (by omega), if_neg (by omega), if_neg (by omega),
      dif_pos (by omega)]
    simp
  cases d with
  | mk size type nlinks blocks direct indirect =>
    unfold ofBlock
    rw [hboth, hword rfl h.size, hword rfl h.blocks, hword rfl h.indirect]
    congr 1
    · show (type + 2 ^ 16 * nlinks) % 2 ^ 16 = type
      change type < 2 ^ 16 at htype
      omega
    · show (type + 2 ^ 16 * nlinks) / 2 ^ 16 = nlinks
      change type < 2 ^ 16 at htype
      omega
    · funext k
      exact hword (hdirect k) (h.direct k)

/-- The copy `d` on the disk of an inode that says `d'`: the same map and
size, but perhaps fewer blocks counted. -/
structure Backed (d d' : DiskInode) : Prop where
  direct : d.direct = d'.direct
  indirect : d.indirect = d'.indirect
  size : d.size = d'.size
  type : d.type = d'.type
  nlinks : d.nlinks = d'.nlinks
  blocks : d.blocks ≤ d'.blocks

theorem Backed.refl (d : DiskInode) : Backed d d :=
  ⟨rfl, rfl, rfl, rfl, rfl, Nat.le_refl _⟩

theorem Backed.slot {d d' : DiskInode} (h : Backed d d') (st : Store)
    (k : Nat) : st.slot d k = st.slot d' k := by
  unfold Store.slot
  rw [h.direct, h.indirect]

-- ===== the invariant

namespace Sfs

/-- What the inode `i` says, in memory or on the disk. -/
def din (s : Sfs) (i : Nat) : DiskInode :=
  (s.sin i).elim (DiskInode.ofBlock (s.st.disk i)) Sin.din

theorem din_of_some {s : Sfs} {i : Nat} {x : Sin} (h : s.sin i = some x) :
    s.din i = x.din := by
  simp [din, h]

theorem din_of_none {s : Sfs} {i : Nat} (h : s.sin i = none) :
    s.din i = DiskInode.ofBlock (s.st.disk i) := by
  simp [din, h]

/-- The inode `i` in memory and the blocks, changed. -/
def set (s : Sfs) (i : Nat) (st : Store) (x : Sin) : Sfs :=
  ⟨st, Function.update s.sin i (some x)⟩

@[simp] theorem set_st (s : Sfs) (i : Nat) (st : Store) (x : Sin) :
    (s.set i st x).st = st := rfl

@[simp] theorem set_sin_self (s : Sfs) (i : Nat) (st : Store) (x : Sin) :
    (s.set i st x).sin i = some x := update_self ..

theorem set_sin_of_ne (s : Sfs) {i j : Nat} (h : j ≠ i) (st : Store)
    (x : Sin) : (s.set i st x).sin j = s.sin j :=
  update_of_ne h ..

theorem setSin_self (s : Sfs) (i : Nat) (y : Option Sin) :
    (s.setSin i y).sin i = y := update_self ..

theorem setSin_of_ne (s : Sfs) {i j : Nat} (h : j ≠ i) (y : Option Sin) :
    (s.setSin i y).sin j = s.sin j := update_of_ne h ..

/-- The file system is in order. -/
structure Mounted (inos : Finset Nat) (s : Sfs) : Prop where
  sound : Sound (names inos s.st s.din) s.st
  loaded : ∀ {i x}, s.sin i = some x → i ∈ inos ∧ x.ino = i
  mapped : ∀ {i}, i ∈ inos → Mapped s.st (s.din i)
  size : ∀ {i}, i ∈ inos → (s.din i).size < 2 ^ 32
  type : ∀ {i}, i ∈ inos → (s.din i).type < 2 ^ 16
  nlinks : ∀ {i}, i ∈ inos →
    (s.din i).nlinks ≠ 0 ∧ (s.din i).nlinks < 2 ^ 16
  backed : ∀ {i x}, s.sin i = some x → x.dirty = false →
    Backed (DiskInode.ofBlock (s.st.disk i)) x.din

variable {inos : Finset Nat} {s t : Sfs} {i j : Nat} {x : Sin}

theorem names_eq_namesOf (h : s.sin i = some x) :
    names inos s.st s.din = namesOf inos s.din i s.st x.din := by
  unfold namesOf
  rw [← din_of_some h, update_eq_self]

variable (h : s.Mounted inos) (hx : s.sin i = some x)

section
include h hx

theorem Mounted.sound_of : Sound (namesOf inos s.din i s.st x.din) s.st := by
  rw [← names_eq_namesOf hx]
  exact h.sound

theorem Mounted.mapped_of : Mapped s.st x.din := by
  rw [← din_of_some hx]
  exact h.mapped (h.loaded hx).1

end

theorem Mounted.fits (h : s.Mounted inos) (hj : j ∈ inos) :
    (s.din j).Fits := by
  have hsmall := h.sound.small
  have hdata {k : Nat} : s.st.slot (s.din j) k < 2 ^ 32 := by
    by_cases h0 : s.st.slot (s.din j) k = 0
    · omega
    · have ho : names inos s.st s.din (.data j k) = _ :=
        (if_pos hj).trans (named_of_ne h0)
      exact Nat.lt_trans (h.sound.lt_blocks ho) hsmall
  have hwithin := (h.mapped hj).within
  refine ⟨h.size hj, h.type hj, (h.nlinks hj).2, by omega, ?_, ?_⟩
  · intro k
    have := @hdata k
    rwa [slot_direct k.isLt] at this
  · by_cases h0 : (s.din j).indirect = 0
    · omega
    · have ho : names inos s.st s.din (.indirect j) = _ :=
        (if_pos hj).trans (named_of_ne h0)
      exact Nat.lt_trans (h.sound.lt_blocks ho) hsmall

end Sfs

/-- Only the maps of the inodes there are count for the owners. -/
theorem names_congr {st : Store} {din din' : Nat → DiskInode}
    (h : ∀ j ∈ inos, (din' j).direct = (din j).direct ∧
      (din' j).indirect = (din j).indirect) :
    names inos st din' = names inos st din := by
  funext o
  cases o with
  | super => rfl
  | freemap k => rfl
  | inode j => rfl
  | indirect j =>
    by_cases hj : j ∈ inos
    · simp [names, hj, (h j hj).2]
    · simp [names, hj]
  | data j k =>
    by_cases hj : j ∈ inos
    · have : st.slot (din' j) k = st.slot (din j) k := by
        unfold Store.slot
        rw [(h j hj).1, (h j hj).2]
      simp [names, hj, this]
    · simp [names, hj]

theorem names_backed {din din' : Nat → DiskInode}
    (st : Store) (h : ∀ j, Backed (din' j) (din j)) :
    names inos st din' = names inos st din :=
  names_congr fun j _ => ⟨(h j).direct, (h j).indirect⟩

-- ===== one file

/-- The file `i` changes from `x` to `x'`, perhaps with its copy on the
disk. -/
structure Change (inos : Finset Nat) (din : Nat → DiskInode) (i : Nat)
    (st : Store) (x : Sin) (st' : Store) (x' : Sin) : Prop
    extends Remaps inos din i (fun o => o.OfFile i ∨ o = .inode i) st x st' x',
      SameNode x x' where
  mapped : Mapped st' x'.din
  size : x'.din.size < 2 ^ 32
  backed : (x.dirty = false → Backed (DiskInode.ofBlock (st.disk i)) x.din) →
    x'.dirty = false → Backed (DiskInode.ofBlock (st'.disk i)) x'.din
  copy : (st'.disk i = st.disk i ∧ (x'.dirty = false → x.dirty = false)) ∨
    DiskInode.ofBlock (st'.disk i) = x'.din

section

variable {inos : Finset Nat} {din : Nat → DiskInode} {i j : Nat}
  {st st' : Store} {x x' : Sin} {s t : Sfs}
  {r : Done} (h : s.Mounted inos) (hx : s.sin i = some x)

/-- The block of the inode is not written. -/
theorem Moves.inode {W : Nat → Prop} (hi : i ∈ inos)
    (h : Moves inos din i W st x st' x') : st'.disk i = st.disk i :=
  h.frame.disk (o := .inode i) (by simp [Owner.OfFile]) (if_pos hi)

theorem Moves.change {W : Nat → Prop} (hi : i ∈ inos)
    (h : Moves inos din i W st x st' x') (hsize : x'.din.size < 2 ^ 32) :
    Change inos din i st x st' x' where
  toRemaps := { h with frame := h.frame.mono fun _ => .inl }
  toSameNode := h.toSameNode
  mapped := h.mapped
  size := hsize
  backed hb hc := by
    obtain ⟨hx, hdirect, hindirect, hsize, hblocks⟩ := h.clean hc
    have hb := hb hx
    rw [h.inode hi]
    exact ⟨hb.direct.trans hdirect.symm, hb.indirect.trans hindirect.symm,
      hb.size.trans hsize.symm, hb.type.trans h.type.symm,
      hb.nlinks.trans h.nlinks.symm, Nat.le_trans hb.blocks hblocks⟩
  copy := .inl ⟨h.inode hi, fun hc => (h.clean hc).1⟩

/-- Other inodes than the one that changed. -/
theorem Change.din_other (h : Change inos s.din i s.st x st' x')
    (hj : j ∈ inos) (hne : j ≠ i) : st'.disk j = s.st.disk j :=
  h.frame.disk (o := .inode j) (by simp [Owner.OfFile, hne]) (if_pos hj)

theorem Sfs.din_after (h : Change inos s.din i s.st x st' x') (hj : j ∈ inos) :
    (s.set i st' x').din j = update s.din i x'.din j := by
  by_cases hji : j = i
  · subst hji
    simp [Sfs.din]
  · rw [update_of_ne hji]
    unfold Sfs.din
    rw [s.set_sin_of_ne hji, Sfs.set_st, h.din_other hj hji]

theorem Sfs.names_after (h : Change inos s.din i s.st x st' x') :
    names inos st' (s.set i st' x').din = namesOf inos s.din i st' x'.din :=
  names_congr fun _ hj => by rw [Sfs.din_after h hj]; exact ⟨rfl, rfl⟩

theorem Framed.slot_other {T : Owner → Prop} {d d' : DiskInode}
    (h : Framed T (namesOf inos din i st d) (namesOf inos din i st' d')
      st st') (hj : j ∈ inos) (hne : j ≠ i) {k : Nat}
    (hT : ¬T (.data j k)) : st'.slot (din j) k = st.slot (din j) k := by
  have := h.names hT
  simp only [namesOf, Kern.names, hj, if_true, update_of_ne hne] at this
  exact named_inj this

section
include h hx

/-- An operation of a file keeps the file system in order. -/
theorem Sfs.Mounted.change (hc : Change inos s.din i s.st x st' x') :
    (s.set i st' x').Mounted inos := by
  obtain ⟨hi, hino⟩ := h.loaded hx
  have hdin (j : Nat) (hj : j ∈ inos) := Sfs.din_after hc hj
  refine ⟨?_, ?_, ?_, ?_, ?_, ?_, ?_⟩
  · rw [Sfs.set_st, Sfs.names_after hc]
    exact hc.sound
  · intro j y hy
    by_cases hji : j = i
    · subst hji
      rw [Sfs.set_sin_self] at hy
      cases hy
      exact ⟨hi, hc.ino.trans hino⟩
    · rw [s.set_sin_of_ne hji] at hy
      exact h.loaded hy
  · intro j hj
    rw [hdin j hj]
    by_cases hji : j = i
    · subst hji
      rw [update_self]
      exact hc.mapped
    · rw [update_of_ne hji]
      intro k hk
      rw [Sfs.set_st, hc.frame.slot_other hj hji (by simp [Owner.OfFile, hji])]
      exact h.mapped hj k hk
  · intro j hj
    rw [hdin j hj]
    by_cases hji : j = i
    · subst hji
      rw [update_self]
      exact hc.size
    · rw [update_of_ne hji]
      exact h.size hj
  · intro j hj
    rw [hdin j hj]
    by_cases hji : j = i
    · subst hji
      rw [update_self, hc.type, ← Sfs.din_of_some hx]
      exact h.type hj
    · rw [update_of_ne hji]
      exact h.type hj
  · intro j hj
    rw [hdin j hj]
    by_cases hji : j = i
    · subst hji
      rw [update_self, hc.nlinks, ← Sfs.din_of_some hx]
      exact h.nlinks hj
    · rw [update_of_ne hji]
      exact h.nlinks hj
  · intro j y hy hclean
    by_cases hji : j = i
    · subst hji
      rw [Sfs.set_sin_self] at hy
      cases hy
      exact hc.backed (h.backed hx) hclean
    · rw [s.set_sin_of_ne hji] at hy
      show Backed (DiskInode.ofBlock (st'.disk j)) y.din
      rw [hc.din_other (h.loaded hy).1 hji]
      exact h.backed hy hclean

end

-- ===== the operations

section
include h hx

/-- What an operation that returns at once leaves. -/
theorem Change.refl : Change inos s.din i s.st x s.st x := by
  refine (Moves.refl (fun _ => False) (h.sound_of hx)
    (h.mapped_of hx)).change (h.loaded hx).1 ?_
  rw [← Sfs.din_of_some hx]
  exact h.size (h.loaded hx).1

/-- A transfer that returned did nothing or got somewhere. -/
theorem io_done {write : Bool} {buf : List UInt8} {offset : Int} {len : Nat}
    (hbuf : write → buf.length = len)
    (hr : s.st.ioNolock x write buf offset len = .ok r) :
    (∃ ret, r = s.st.done x ret) ∨
    ∃ off endpos : Nat, offset = off ∧ endpos ≤ sfsMaxFileSize ∧
      endpos - off ≤ len ∧ (write = false → endpos ≤ x.din.size) ∧
      off + r.alen ≤ endpos ∧
      IoDone inos s.din i write buf off endpos s.st x r := by
  have htype : x.din.type ≠ sfsTypeDir := by
    intro htype
    rw [Store.io_dir htype] at hr
    cases hr
  rcases Store.io_cases (h.loaded hx).1 (h.sound_of hx) (h.mapped_of hx)
    htype write buf offset len hbuf with ⟨ret, hrun⟩ |
      ⟨off, endpos, hoff, -, hmax, hlen, hread, hrun⟩
  · rw [hrun] at hr
    cases hr
    exact .inl ⟨ret, rfl⟩
  rcases hrun with ⟨-, hrun⟩ | ⟨-, ⟨-, hrun⟩ | ⟨r', hrun, hdone⟩⟩
  · rw [hrun] at hr
    cases hr
  · rw [hrun] at hr
    cases hr
  · rw [hrun] at hr
    cases hr
    refine .inr ⟨off, endpos, hoff, hmax, hlen, hread, ?_, hdone⟩
    rcases hdone.ret with ⟨-, ha⟩ | ⟨-, ha, -⟩ <;> omega

/-- A resize that returned refused the length or is as `Resized` says. -/
theorem truncfile_done {len : Int} (hr : s.st.truncfile x len = .ok r) :
    r = s.st.done x (-eInval) ∨ ∃ n : Nat, len = n ∧ n ≤ sfsMaxFileSize ∧
      Resized inos s.din i s.st x n r := by
  by_cases hlen : len < 0 ∨ sfsMaxFileSize < len
  · unfold Store.truncfile at hr
    rw [if_pos hlen] at hr
    cases hr
    exact .inl rfl
  obtain ⟨n, rfl⟩ := Int.eq_ofNat_of_zero_le (by omega : 0 ≤ len)
  have hn : n ≤ sfsMaxFileSize := by omega
  rcases Store.truncfile_cases (h.loaded hx).1 (h.sound_of hx)
    (h.mapped_of hx) hn with ⟨-, -, hrun⟩ | ⟨-, hrun⟩ | ⟨r', hrun, hres⟩
  · rw [hrun] at hr
    cases hr
  · rw [hrun] at hr
    cases hr
  · rw [hrun] at hr
    cases hr
    exact .inr ⟨n, rfl, hn, hres⟩

end

/-- A seek returns at once or resizes the file. -/
theorem tryseek_done {st : Store} {pos : Int} (hr : st.tryseek x pos = .ok r) :
    (∃ ret, r = st.done x ret) ∨ (x.din.size < pos ∧ pos < sfsMaxFileSize ∧
        st.truncfile x pos = .ok r) := by
  unfold Store.tryseek at hr
  split at hr
  · cases hr
    exact .inl ⟨_, rfl⟩
  · split at hr
    · exact .inr ⟨‹_›, by omega, hr⟩
    · cases hr
      exact .inl ⟨_, rfl⟩

include h hx

theorem io_change {write : Bool} {buf : List UInt8} {offset : Int} {len : Nat}
    (hbuf : write → buf.length = len)
    (hr : s.st.ioNolock x write buf offset len = .ok r) :
    Change inos s.din i s.st x r.st r.sin := by
  have hi := (h.loaded hx).1
  rcases io_done h hx hbuf hr with ⟨ret, rfl⟩ |
    ⟨off, endpos, -, hmax, -, -, hend, hdone⟩
  · exact .refl h hx
  refine hdone.moves.change hi ?_
  have hsize := h.size hi
  rw [Sfs.din_of_some hx] at hsize
  rw [hdone.size]
  unfold sfsMaxFileSize at hmax
  omega

theorem truncfile_change {len : Int} (hr : s.st.truncfile x len = .ok r) :
    Change inos s.din i s.st x r.st r.sin := by
  have hi := (h.loaded hx).1
  rcases truncfile_done h hx hr with rfl | ⟨n, -, hn, hres⟩
  · exact .refl h hx
  refine hres.moves.change hi ?_
  rcases hres.ret with ⟨-, hsize, -⟩ | ⟨-, -, hg⟩
  · unfold sfsMaxFileSize at hn
    omega
  · rw [hg.size, ← Sfs.din_of_some hx]
    exact h.size hi

theorem fsync_ok : s.st.fsync x = .ok (if x.dirty then
      (s.st.put i (Bytes.setWords (s.st.disk i) x.din.words)).done
        { x with dirty := false } 0
      else s.st.done x 0) := by
  obtain ⟨hi, rfl⟩ := h.loaded hx
  have ho : names inos s.st s.din (.inode x.ino) = some x.ino := if_pos hi
  have h0 := h.sound.ne_zero ho (by simp)
  have hlt := h.sound.lt_blocks ho
  unfold Store.fsync
  split
  · rw [Store.rblock_ok h0 hlt]
    simp only [bind, Except.bind]
    rw [Store.wblock_ok h0 hlt]
    rfl
  · rfl

theorem fsync_din (hr : s.st.fsync x = .ok r) : r.sin.din = x.din := by
  rw [fsync_ok h hx] at hr
  cases hr
  split
  · rfl
  · rfl

/-- Writing the block of an inode moves no owner. -/
theorem namesOf_put_inode (data : Nat → UInt8) :
    namesOf inos s.din i (s.st.put i data) x.din =
      namesOf inos s.din i s.st x.din := by
  have hi := (h.loaded hx).1
  have hs := h.sound_of hx
  have ho : namesOf inos s.din i s.st x.din (.inode i) = some i := if_pos hi
  have hslot (l : Nat) : (s.st.put i data).slot x.din l = s.st.slot x.din l :=
    Store.slot_congr fun hd => s.st.put_disk_of_ne
      (hs.ne_of_ne (owns_indirect hi s.st hd) ho (by simp)) data
  rw [namesOf_change hi (k := 0) (s.st.put_blocks ..) (fun l _ => hslot l)
    fun j hj hne hd => s.st.put_disk_of_ne
      (hs.ne_of_ne (owns_other hj hne s.st x.din hd) ho (by simp)) data,
    hslot]
  have hind := @namesOf_indirect inos s.din i hi s.st x.din
  have hdata := @namesOf_data inos s.din i hi s.st x.din 0
  rw [← hdata, ← hind, update_eq_self, update_eq_self]

/-- Writing an inode back changes no block that a file owns but its own. -/
theorem fsync_change (hr : s.st.fsync x = .ok r) :
    Change inos s.din i s.st x r.st r.sin := by
  have hi := (h.loaded hx).1
  rw [fsync_ok h hx] at hr
  cases hr
  by_cases hd : x.dirty = true
  swap
  · rw [if_neg hd]
    exact .refl h hx
  rw [if_pos hd]
  have hs := h.sound_of hx
  have hn := namesOf_put_inode h hx (Bytes.setWords (s.st.disk i) x.din.words)
  have hsize := h.size hi
  have hfits := h.fits hi
  rw [Sfs.din_of_some hx] at hsize hfits
  have hcopy : DiskInode.ofBlock ((s.st.put i
      (Bytes.setWords (s.st.disk i) x.din.words)).disk i) = x.din := by
    rw [s.st.put_disk_self, DiskInode.ofBlock_setWords hfits]
  refine ⟨⟨?_, ?_, ?_⟩, ⟨rfl, rfl, rfl, rfl⟩, ?_, hsize, ?_, .inr hcopy⟩
  · show Sound (namesOf inos s.din i (s.st.put i _) x.din) (s.st.put i _)
    rw [hn]
    exact hs.put ..
  · show _ → Covered (namesOf inos s.din i (s.st.put i _) x.din) s.st.Used
    rw [hn]
    exact id
  · show Framed _ _ (namesOf inos s.din i (s.st.put i _) x.din) s.st
      (s.st.put i _)
    rw [hn]
    refine ⟨fun _ => rfl, ?_, rfl⟩
    intro o c ho hc
    have hown : namesOf inos s.din i s.st x.din (.inode i) = some i :=
      if_pos hi
    exact s.st.put_disk_of_ne (hs.ne_of_ne hc hown fun he => ho (.inr he)) _
  · intro k hk
    show (s.st.put i _).slot x.din k ≠ 0
    have := congrFun hn (.data i k)
    rw [namesOf_data hi, namesOf_data hi] at this
    rw [named_inj this]
    exact h.mapped_of hx k hk
  · intro _ _
    show Backed (DiskInode.ofBlock ((s.st.put i _).disk i)) x.din
    rw [hcopy]
    exact .refl _

/-- Every operation on an open file changes that file alone. -/
theorem op_change {o : SfsOp} (hr : o.run s.st x = .ok r) :
    Change inos s.din i s.st x r.st r.sin := by
  cases o with
  | read offset len => exact io_change h hx (fun hw => Bool.noConfusion hw) hr
  | write offset buf => exact io_change h hx (fun _ => rfl) hr
  | tryseek pos =>
    rcases tryseek_done hr with ⟨ret, rfl⟩ | ⟨-, -, hr⟩
    · exact .refl h hx
    · exact truncfile_change h hx hr
  | truncfile len => exact truncfile_change h hx hr
  | fsync => exact fsync_change h hx hr

end

-- ===== steps

section

variable {inos : Finset Nat} {s t u : Sfs} {i : Nat} {x : Sin}
  {e : SfsEvent} {ret : Int} (h : s.Mounted inos) (hx : s.sin i = some x)

theorem Sfs.din_setSin (s : Sfs) {i j : Nat} (h : j ≠ i)
    (y : Option Sin) : (s.setSin i y).din j = s.din j := by
  unfold Sfs.din
  rw [s.setSin_of_ne h]
  rfl

theorem Sfs.din_load (h : s.sin i = none)
    (hx : x.din = DiskInode.ofBlock (s.st.disk i)) :
    (s.setSin i (some x)).din = s.din := by
  funext j
  by_cases hj : j = i
  · subst hj
    rw [Sfs.din_of_none h, ← hx]
    exact Sfs.din_of_some (s.setSin_self ..)
  · exact s.din_setSin hj _

theorem Sfs.readInode_eq (h : s.readInode i = .ok t) : t = s.setSin i
      (some ⟨DiskInode.ofBlock (s.st.disk i), i, false, 1⟩) := by
  unfold Sfs.readInode at h
  cases ha : s.st.assertInuse i with
  | error f =>
    rw [ha] at h
    cases h
  | ok =>
    rw [ha] at h
    unfold Store.rblock at h
    split at h
    · simp only [bind, Except.bind, ensure] at h
      split at h
      · cases h
      · split at h
        · cases h
        · cases h
          rfl
    · cases h

theorem Sfs.Mounted.load (h : s.Mounted inos) (hi : i ∈ inos)
    (hs : s.sin i = none) (ht : s.readInode i = .ok t) :
    t.Mounted inos ∧ t.st = s.st ∧ t.din = s.din := by
  cases Sfs.readInode_eq ht
  have hdin := Sfs.din_load
    (x := ⟨DiskInode.ofBlock (s.st.disk i), i, false, 1⟩) hs rfl
  refine ⟨⟨?_, ?_, ?_, ?_, ?_, ?_, ?_⟩, rfl, hdin⟩
  · rw [hdin]
    exact h.sound
  · intro j y hy
    by_cases hj : j = i
    · subst hj
      rw [Sfs.setSin_self] at hy
      cases hy
      exact ⟨hi, rfl⟩
    · rw [s.setSin_of_ne hj] at hy
      exact h.loaded hy
  · rw [hdin]
    exact h.mapped
  · rw [hdin]
    exact h.size
  · rw [hdin]
    exact h.type
  · rw [hdin]
    exact h.nlinks
  · intro j y hy hclean
    by_cases hj : j = i
    · subst hj
      rw [Sfs.setSin_self] at hy
      cases hy
      exact .refl _
    · rw [s.setSin_of_ne hj] at hy
      exact h.backed hy hclean

section
include h hx

/-- A clean inode goes out of memory: what is on the disk counts again. -/
theorem Sfs.Mounted.forget (hclean : x.dirty = false) :
    (s.setSin i none).Mounted inos ∧
      (∀ j, Backed ((s.setSin i none).din j) (s.din j)) := by
  have hnone := s.setSin_self i none
  have hback (j : Nat) : Backed ((s.setSin i none).din j) (s.din j) := by
    by_cases hj : j = i
    · subst hj
      rw [Sfs.din_of_none hnone, Sfs.din_of_some hx]
      exact h.backed hx hclean
    · rw [s.din_setSin hj]
      exact .refl _
  refine ⟨⟨?_, ?_, ?_, ?_, ?_, ?_, ?_⟩, hback⟩
  · show Sound (names inos s.st _) s.st
    rw [names_backed s.st hback]
    exact h.sound
  · intro j y hy
    by_cases hj : j = i
    · subst hj
      rw [hnone] at hy
      cases hy
    · rw [s.setSin_of_ne hj] at hy
      exact h.loaded hy
  · intro j hj k hk
    rw [(hback j).slot]
    exact h.mapped hj k (Nat.lt_of_lt_of_le hk (hback j).blocks)
  · intro j hj
    rw [(hback j).size]
    exact h.size hj
  · intro j hj
    rw [(hback j).type]
    exact h.type hj
  · intro j hj
    rw [(hback j).nlinks]
    exact h.nlinks hj
  · intro j y hy hclean
    by_cases hj : j = i
    · subst hj
      rw [hnone] at hy
      cases hy
    · rw [s.setSin_of_ne hj] at hy
      exact h.backed hy hclean

/-- An inode that is dropped is written back first. -/
theorem Sfs.dropInode_eq (ht : s.dropInode x = .ok t) :
    ∃ r, s.st.fsync x = .ok r ∧ r.sin.dirty = false ∧
      r.sin.din = x.din ∧ t = (s.set i r.st r.sin).setSin i none := by
  obtain ⟨hi, rfl⟩ := h.loaded hx
  have hn := (h.nlinks hi).1
  rw [Sfs.din_of_some hx] at hn
  unfold Sfs.dropInode at ht
  rw [if_neg hn, fsync_ok h hx] at ht
  refine ⟨_, fsync_ok h hx, ?_⟩
  cases ht
  have hset (r : Done) : (Sfs.mk r.st s.sin).setSin x.ino none =
      (s.set x.ino r.st r.sin).setSin x.ino none := by
    unfold Sfs.setSin Sfs.set
    rw [update_idem]
  by_cases hd : x.dirty = true
  · rw [if_pos hd]
    exact ⟨rfl, rfl, hset _⟩
  · rw [if_neg hd]
    exact ⟨Bool.eq_false_of_not_eq_true hd, rfl, hset _⟩

end

/-- What a step is to the file system: the inode of the event is read, or
changed, or changed and forgotten. -/
theorem Sfs.Step.cases (h : s.Mounted inos) (hstep : Step inos s e ret t) :
    (∃ i, e = .load i ∧ ret = 0 ∧ i ∈ inos ∧ s.sin i = none ∧
      s.readInode i = .ok t) ∨
    (∃ i o x r, e = .op i o ∧ s.sin i = some x ∧ o.run s.st x = .ok r ∧
      ret = r.ret ∧ t = s.set i r.st r.sin ∧
      Change inos s.din i s.st x r.st r.sin) ∨
    ∃ i x r, e = .reclaim i ∧ ret = 0 ∧ s.sin i = some x ∧
      s.st.fsync x = .ok r ∧ r.sin.dirty = false ∧ r.sin.din = x.din ∧
      t = (s.set i r.st r.sin).setSin i none ∧
      Change inos s.din i s.st x r.st r.sin := by
  cases hstep with
  | load hi hs ht => exact .inl ⟨_, rfl, rfl, hi, hs, ht⟩
  | op hx hr =>
    exact .inr (.inl ⟨_, _, _, _, rfl, hx, hr, rfl, rfl, op_change h hx hr⟩)
  | reclaim hx ht =>
    obtain ⟨r, hr, hclean, hdin, rfl⟩ := Sfs.dropInode_eq h hx ht
    exact .inr (.inr ⟨_, _, r, rfl, rfl, hx, hr, hclean, hdin, rfl,
      fsync_change h hx hr⟩)

/-- Every step keeps the file system mounted. -/
theorem Sfs.Step.mounted (h : s.Mounted inos)
    (hstep : Step inos s e ret t) : t.Mounted inos := by
  rcases hstep.cases h with ⟨i, -, -, hi, hs, ht⟩ |
    ⟨i, o, x, r, -, hx, -, -, rfl, hc⟩ |
    ⟨i, x, r, -, -, hx, -, hclean, -, rfl, hc⟩
  · exact (h.load hi hs ht).1
  · exact h.change hx hc
  · exact ((h.change hx hc).forget (Sfs.set_sin_self ..) hclean).1

/-- Every block in use has an owner. -/
def Sfs.Owned (inos : Finset Nat) (s : Sfs) : Prop :=
  Covered (names inos s.st s.din) s.st.Used

theorem Sfs.Owned.change (h : s.Owned inos) (hx : s.sin i = some x)
    {st' : Store} {x' : Sin} (hc : Change inos s.din i s.st x st' x') :
    (s.set i st' x').Owned inos := by
  have := hc.covered (by rw [← Sfs.names_eq_namesOf hx]; exact h)
  unfold Sfs.Owned
  rw [Sfs.set_st, Sfs.names_after hc]
  exact this

theorem Sfs.Step.owned (h : s.Mounted inos) (ho : s.Owned inos)
    (hstep : Step inos s e ret t) : t.Owned inos := by
  rcases hstep.cases h with ⟨i, -, -, hi, hs, ht⟩ |
    ⟨i, o, x, r, -, hx, -, -, rfl, hc⟩ |
    ⟨i, x, r, -, -, hx, -, hclean, -, rfl, hc⟩
  · obtain ⟨-, hst, hdin⟩ := h.load hi hs ht
    unfold Sfs.Owned
    rw [hst, hdin]
    exact ho
  · exact ho.change hx hc
  · have hback := ((h.change hx hc).forget (Sfs.set_sin_self ..) hclean).2
    show Covered (names inos r.st _) r.st.Used
    rw [names_backed r.st hback]
    exact ho.change hx hc

end

-- ===== a fact of files

section

variable {inos : Finset Nat} {s t : Sfs} {i : Nat} {x : Sin}
  {Q : DiskInode → Prop}

/-- `Q` holds of every regular file, and of the copy on the disk of one
that is not marked dirty. -/
structure Sfs.Files (Q : DiskInode → Prop) (inos : Finset Nat) (s : Sfs) :
    Prop where
  din : ∀ {i}, i ∈ inos → (s.din i).type = sfsTypeFile → Q (s.din i)
  copy : ∀ {i x}, s.sin i = some x → x.din.type = sfsTypeFile →
    x.dirty = false → Q (DiskInode.ofBlock (s.st.disk i))

theorem Sfs.Files.of_some (h : s.Mounted inos) (hs : s.Files Q inos)
    (hx : s.sin i = some x) (htype : x.din.type = sfsTypeFile) : Q x.din := by
  have := hs.din (h.loaded hx).1
  rw [Sfs.din_of_some hx] at this
  exact this htype

theorem Sfs.Files.change (h : s.Mounted inos) (hs : s.Files Q inos)
    (hx : s.sin i = some x) {st' : Store} {x' : Sin}
    (hc : Change inos s.din i s.st x st' x')
    (hQ : x.din.type = sfsTypeFile → Q x'.din) :
    (s.set i st' x').Files Q inos := by
  refine ⟨?_, ?_⟩
  · intro j hj htype
    rw [Sfs.din_after hc hj] at htype ⊢
    by_cases hji : j = i
    · subst hji
      rw [update_self] at htype ⊢
      exact hQ (hc.type.symm.trans htype)
    · rw [update_of_ne hji] at htype ⊢
      exact hs.din hj htype
  · intro j y hy htype hclean
    by_cases hji : j = i
    · subst hji
      rw [Sfs.set_sin_self] at hy
      cases hy
      have htype' := hc.type.symm.trans htype
      rcases hc.copy with ⟨hdisk, hdirty⟩ | hcopy
      · rw [Sfs.set_st, hdisk]
        exact hs.copy hx htype' (hdirty hclean)
      · rw [Sfs.set_st, hcopy]
        exact hQ htype'
    · rw [s.set_sin_of_ne hji] at hy
      rw [Sfs.set_st, hc.din_other (h.loaded hy).1 hji]
      exact hs.copy hy htype hclean

/-- A step keeps what the operations of a regular file keep. -/
theorem Sfs.Files.step (h : s.Mounted inos) (hs : s.Files Q inos)
    {e : SfsEvent} {ret : Int} (hstep : Step inos s e ret t)
    (hop : ∀ {i o x r}, e = .op i o → s.sin i = some x →
      x.din.type = sfsTypeFile → Q x.din → o.run s.st x = .ok r →
      Q r.sin.din) : t.Files Q inos := by
  rcases hstep.cases h with ⟨i, -, -, hi, hnone, ht⟩ |
    ⟨i, o, x, r, rfl, hx, hr, -, rfl, hc⟩ |
    ⟨i, x, r, -, -, hx, hr, hclean, hsame, rfl, hc⟩
  · obtain ⟨-, hst, hsame⟩ := h.load hi hnone ht
    cases Sfs.readInode_eq ht
    refine ⟨?_, ?_⟩
    · rw [hsame]
      exact hs.din
    · intro j y hy htype hclean
      by_cases hji : j = i
      · subst hji
        have := hs.din hi
        rw [Sfs.din_of_none hnone] at this
        rw [Sfs.setSin_self] at hy
        cases hy
        exact this htype
      · rw [s.setSin_of_ne hji] at hy
        exact hs.copy hy htype hclean
  · exact hs.change h hx hc fun htype =>
      hop rfl hx htype (hs.of_some h hx htype) hr
  · have hnext := hs.change h hx hc fun htype => by
      rw [hsame]
      exact hs.of_some h hx htype
    refine ⟨?_, ?_⟩
    · intro j hj htype
      by_cases hji : j = i
      · subst hji
        rw [Sfs.din_of_none (Sfs.setSin_self ..)] at htype ⊢
        have hback := (h.change hx hc).backed (Sfs.set_sin_self ..) hclean
        exact hnext.copy (Sfs.set_sin_self ..)
          (hback.type.symm.trans htype) hclean
      · rw [Sfs.din_setSin _ hji] at htype ⊢
        exact hnext.din hj htype
    · intro j y hy htype hclean'
      by_cases hji : j = i
      · subst hji
        rw [Sfs.setSin_self] at hy
        cases hy
      · rw [Sfs.setSin_of_ne _ hji] at hy
        exact hnext.copy hy htype hclean'

end

-- ===== runs

/-- Events one after the other, each of which `P` allows where it happens. -/
inductive Sfs.Run (inos : Finset Nat) (P : Sfs → SfsEvent → Prop)
    (s : Sfs) : Sfs → Prop
  | refl : Run inos P s s
  | tail {t u : Sfs} {e : SfsEvent} {ret : Int} : Run inos P s t → P t e →
      Step inos t e ret u → Run inos P s u

/-- The rule of invariants. -/
theorem Sfs.Run.keeps {P : Sfs → SfsEvent → Prop}
    {I : Sfs → Prop} (hrun : Run inos P s t) (hm : s.Mounted inos) (hs : I s)
    (hstep : ∀ {t u : Sfs} {e ret}, t.Mounted inos → I t → P t e →
      Step inos t e ret u → I u) : t.Mounted inos ∧ I t := by
  induction hrun with
  | refl => exact ⟨hm, hs⟩
  | tail _ hP hst ih => exact ⟨hst.mounted ih.1, hstep ih.1 ih.2 hP hst⟩

/-- The step an event makes, where it can make one. -/
def SfsEvent.run (inos : Finset Nat) (s : Sfs) : SfsEvent → Option Sfs
  | .load i =>
    if i ∈ inos ∧ (s.sin i).isNone then (s.readInode i).toOption else none
  | .op i o => (s.sin i).bind fun x =>
    (o.run s.st x).toOption.map fun r => s.after i r
  | .reclaim i => (s.sin i).bind fun x => (s.dropInode x).toOption

theorem toOption_eq_some {ε α : Type} {r : Except ε α} {a : α}
    (h : r.toOption = some a) : r = .ok a := by
  cases r with
  | error e => cases h
  | ok b =>
    cases h
    rfl

/-- The assertion that failed. -/
def faultOf {α : Type} : Except Fault α → Option Fault
  | .error f => some f
  | .ok _ => none

theorem faultOf_eq_some {α : Type} {r : Except Fault α} {f : Fault}
    (h : faultOf r = some f) : r = .error f := by
  cases r with
  | error g =>
    cases h
    rfl
  | ok a => cases h

theorem SfsEvent.run_step {e : SfsEvent}
    (h : e.run inos s = some t) : ∃ ret, Sfs.Step inos s e ret t := by
  cases e with
  | load i =>
    rw [run] at h
    by_cases hi : i ∈ inos ∧ (s.sin i).isNone
    · rw [if_pos hi] at h
      exact ⟨0, .load hi.1 (Option.isNone_iff_eq_none.mp hi.2)
        (toOption_eq_some h)⟩
    · rw [if_neg hi] at h
      cases h
  | op i o =>
    obtain ⟨x, hx, h⟩ := Option.bind_eq_some_iff.mp h
    obtain ⟨r, hr, rfl⟩ := Option.map_eq_some_iff.mp h
    exact ⟨r.ret, .op hx (toOption_eq_some hr)⟩
  | reclaim i =>
    obtain ⟨x, hx, h⟩ := Option.bind_eq_some_iff.mp h
    exact ⟨0, .reclaim hx (toOption_eq_some h)⟩

/-- Events made one after the other, as long as `P` allows them. -/
def Sfs.execute (inos : Finset Nat) (P : Sfs → SfsEvent → Prop)
    [∀ s e, Decidable (P s e)] : List SfsEvent → Sfs → Option Sfs
  | [], s => some s
  | e :: es, s => if P s e then (e.run inos s).bind (execute inos P es)
    else none

theorem Sfs.execute_run {P : Sfs → SfsEvent → Prop}
    [∀ s e, Decidable (P s e)] {es : List SfsEvent} {u : Sfs}
    (hrun : Run inos P s t) (h : execute inos P es t = some u) :
    Run inos P s u := by
  induction es generalizing t with
  | nil =>
    cases h
    exact hrun
  | cons e es ih =>
    unfold execute at h
    split at h
    · rename_i hP
      obtain ⟨v, hv, h⟩ := Option.bind_eq_some_iff.mp h
      obtain ⟨ret, hstep⟩ := SfsEvent.run_step hv
      exact ih (hrun.tail hP hstep) h
    · cases h

/-- A disk as it is mounted, with no inode in memory. -/
def Sfs.image (st : Store) : Sfs := ⟨st, fun _ => none⟩

theorem Sfs.Files.image {Q : DiskInode → Prop} {st : Store}
    (h : ∀ i ∈ inos, ((Sfs.image st).din i).type = sfsTypeFile →
      Q ((Sfs.image st).din i)) : (Sfs.image st).Files Q inos :=
  ⟨fun hi => h _ hi, fun hx => by cases hx⟩

/-- An image whose accounting is right. -/
structure Consistent (inos : Finset Nat) (st : Store) : Prop where
  mounted : (Sfs.image st).Mounted inos
  owned : (Sfs.image st).Owned inos

end MipsUcore.Kern
