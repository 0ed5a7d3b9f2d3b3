/-
What a file reads as.

# Transfers

A read gives the bytes of the file, a write changes the bytes it was given
and no others, of this file or another (`read_exact`, `write_exact`).

# Bytes that nobody wrote

A block that is added is cleared, so a byte behind the end reads as zero
when a seek makes the file longer, provided that the rest of its last block
was zero before (`Sfs.Padded`). The tool that makes images pads with zeros,
and every operation that the kernel calls keeps it. A byte behind the end
stays blank until a write covers it (`Step.blank`).
-/
import MipsUcore.Kern.Proofs.SfsResize

namespace MipsUcore.Kern

open Function

/-- The size is within the blocks. -/
def DiskInode.Enough (d : DiskInode) : Prop := d.size ≤ 4096 * d.blocks

section

variable {inos : Finset Nat} {s t : Sfs} {i j : Nat} {x : Sin} {r : Done}
  {off p : Nat} {len : Int}

-- ===== one call

/-- `sfs_io_nolock` of a range that is nowhere near the largest size. -/
theorem Store.io_within (st : Store) (htype : x.din.type ≠ sfsTypeDir)
    (write : Bool) (buf : List UInt8) {len : Nat}
    (hend : off + len < sfsMaxFileSize) : st.ioNolock x write buf off len =
      if len = 0 ∨ (write = false ∧ x.din.size ≤ off) then
        .ok (st.done x 0)
      else do
        let r ← IoState.move write buf off
          (if write then off + len else min (off + len) x.din.size)
          ⟨st, x, 0, []⟩
        return ioOut off r := by
  have hoff : toOff ((off : Int) + len) = off + len :=
    toOff_eq (by omega) (by unfold sfsMaxFileSize at hend; omega)
  unfold ioNolock
  rw [ensure_pos htype]
  simp only [bind, Except.bind]
  rw [hoff, if_neg (by omega)]
  by_cases hlen : len = 0
  · rw [if_pos (by omega), if_pos (.inl hlen)]
    rfl
  rw [if_neg (by omega), Int.toNat_natCast]
  by_cases hpast : write = false ∧ x.din.size ≤ off
  · rw [if_pos hpast, if_pos (.inr hpast)]
    rfl
  have hsome : ¬(len = 0 ∨ (write = false ∧ x.din.size ≤ off)) :=
    fun hor => hor.elim hlen hpast
  rw [if_neg hpast, if_neg hsome,
    show ((off : Int) + len).toNat = off + len by omega,
    Nat.min_eq_left (Nat.le_of_lt hend)]

variable (h : s.Mounted inos) (hx : s.sin i = some x)

section
include h hx

/-- A read stops at the end of the file and returns what is before it. -/
theorem read_exact (htype : x.din.type ≠ sfsTypeDir) (henough : x.din.Enough)
    {len : Nat} (hend : off + len < sfsMaxFileSize) :
    ∃ r, s.st.ioNolock x false [] off len = .ok r ∧ r.ret = 0 ∧
      r.st = s.st ∧ r.sin = x ∧ r.alen = min len (x.din.size - off) ∧
      r.data = Bytes.slice (s.st.byteAt x.din) off r.alen := by
  rw [s.st.io_within htype false [] hend]
  by_cases hnone : len = 0 ∨ (false = false ∧ x.din.size ≤ off)
  · rw [if_pos hnone]
    refine ⟨_, rfl, rfl, rfl, rfl, ?_, rfl⟩
    show 0 = _
    omega
  rw [if_neg hnone, if_neg (by decide)]
  obtain ⟨hlen, hsize⟩ := not_or.mp hnone
  have hlt : off < min (off + len) x.din.size := by
    have : ¬x.din.size ≤ off := fun hle => hsize ⟨rfl, hle⟩
    omega
  unfold DiskInode.Enough at henough
  rw [IoState.move_reading (h.loaded hx).1 (h.sound_of hx)
    (h.mapped_of hx) hlt (by omega)]
  refine ⟨_, rfl, rfl, rfl, ?_, ?_, rfl⟩
  · show (if x.din.size < off + (min (off + len) x.din.size - off) then _
      else x) = x
    rw [if_neg (by omega)]
  · show min (off + len) x.din.size - off = _
    omega

theorem write_exact (htype : x.din.type ≠ sfsTypeDir) (henough : x.din.Enough)
    {buf : List UInt8} (hoff : off ≤ x.din.size)
    (hend : off + buf.length ≤ 1036 * 4096) (hne : buf ≠ []) :
    ∃ r, s.st.ioNolock x true buf off buf.length = .ok r ∧
      IoDone inos s.din i true buf off (off + buf.length) s.st x r := by
  have hi := (h.loaded hx).1
  have hs := h.sound_of hx
  have hpos : 0 < buf.length := List.length_pos_iff.mpr hne
  rw [s.st.io_within htype true buf (by unfold sfsMaxFileSize; omega),
    if_neg (by simp; omega), if_pos rfl]
  unfold DiskInode.Enough at henough
  have hends : Ends inos s.din i true buf off s.st x
      (off + buf.length - off) _ :=
    IoState.move_ends hi hs (h.mapped_of hx)
      (by omega : off / 4096 ≤ x.din.blocks)
      (by omega : off < off + buf.length) (fun _ => by omega)
  rcases hends with ⟨hbig, -⟩ | ⟨r, hrun, ht⟩
  · omega
  · refine ⟨Store.ioOut off r, ?_, ht.ioOut hi hs (by omega)⟩
    rw [hrun]
    rfl

end

/-- The bytes of other files. -/
theorem Change.byteAt_other {st' : Store} {x' : Sin}
    (hc : Change inos s.din i s.st x st' x') (hx : s.sin i = some x)
    (hj : j ∈ inos) (hne : j ≠ i)
    (hslot : s.st.slot (s.din j) (p / 4096) ≠ 0) :
    st'.byteAt (s.din j) p = s.st.byteAt (s.din j) p := by
  have hT : ¬(Owner.OfFile i (.data j (p / 4096)) ∨
      Owner.data j (p / 4096) = .inode i) := by simp [Owner.OfFile, hne]
  have hown : namesOf inos s.din i s.st x.din (.data j (p / 4096)) =
      some (s.st.slot (s.din j) (p / 4096)) := by
    rw [← Sfs.names_eq_namesOf hx]
    exact (if_pos hj).trans (named_of_ne hslot)
  unfold Store.byteAt
  rw [hc.frame.slot_other hj hne hT, hc.frame.disk hT hown]

-- ===== blank bytes

/-- The bytes that an operation wrote, `alen` of them. -/
def SfsOp.Wrote (alen p : Nat) : SfsOp → Prop
  | .write offset _ => offset ≤ p ∧ (p : Int) < offset + alen
  | _ => False

section
include h hx

theorem io_blank {write : Bool} {buf : List UInt8} {offset : Int} {n : Nat}
    (hbuf : write → buf.length = n)
    (hr : s.st.ioNolock x write buf offset n = .ok r)
    (hp : write → ¬(offset ≤ p ∧ (p : Int) < offset + r.alen))
    (hb : Blank s.st x.din p) : Blank r.st r.sin.din p := by
  rcases io_done h hx hbuf hr with ⟨ret, rfl⟩ |
    ⟨off, endpos, rfl, -, -, -, -, hdone⟩
  · exact hb
  refine hdone.moves.blank ?_ hb
  rintro ⟨hw, hlow, hhigh⟩
  exact hp hw ⟨by omega, by omega⟩

theorem truncfile_blank (hr : s.st.truncfile x len = .ok r)
    (hb : Blank s.st x.din p) : Blank r.st r.sin.din p := by
  rcases truncfile_done h hx hr with rfl | ⟨n, -, -, hres⟩
  · exact hb
  · exact hres.moves.blank id hb

theorem fsync_blank (hr : s.st.fsync x = .ok r) (hb : Blank s.st x.din p) :
    Blank r.st r.sin.din p := by
  have hi := (h.loaded hx).1
  have hs := h.sound_of hx
  rw [fsync_ok h hx] at hr
  cases hr
  by_cases hd : x.dirty = true
  swap
  · rw [if_neg hd]
    exact hb
  rw [if_pos hd]
  intro hslot
  have hn := congrFun (namesOf_put_inode h hx
    (Bytes.setWords (s.st.disk i) x.din.words)) (.data i (p / 4096))
  rw [namesOf_data hi, namesOf_data hi] at hn
  have heq := named_inj hn
  change (s.st.put i _).slot x.din (p / 4096) ≠ 0 at hslot
  rw [heq] at hslot
  show (s.st.put i _).disk ((s.st.put i _).slot x.din (p / 4096)) _ = 0
  have hown : namesOf inos s.din i s.st x.din (.inode i) = some i := if_pos hi
  rw [heq, s.st.put_disk_of_ne
    (hs.ne_of_ne (owns_data hi hslot) hown (by simp))]
  exact hb hslot

theorem op_blank {o : SfsOp}
    (hr : o.run s.st x = .ok r) (hp : ¬o.Wrote r.alen p)
    (hb : Blank s.st x.din p) : Blank r.st r.sin.din p := by
  cases o with
  | read offset len =>
    exact io_blank h hx (fun hw => Bool.noConfusion hw) hr
      (fun hw => Bool.noConfusion hw) hb
  | write offset buf => exact io_blank h hx (fun _ => rfl) hr (fun _ => hp) hb
  | tryseek pos =>
    rcases tryseek_done hr with ⟨ret, rfl⟩ | ⟨-, -, hr⟩
    · exact hb
    · exact truncfile_blank h hx hr hb
  | truncfile len => exact truncfile_blank h hx hr hb
  | fsync => exact fsync_blank h hx hr hb

end

/-- The bytes that an event may write. -/
def SfsEvent.Covers (i p : Nat) : SfsEvent → Prop
  | .op j (.write offset buf) =>
    j = i ∧ offset ≤ p ∧ (p : Int) < offset + buf.length
  | _ => False

theorem not_wrote {o : SfsOp} (h : s.Mounted inos)
    (hx : s.sin i = some x) (hr : o.run s.st x = .ok r)
    (hp : ¬(SfsEvent.op i o).Covers i p) : ¬o.Wrote r.alen p := by
  cases o with
  | write offset buf =>
    rcases io_done h hx (fun _ => rfl) hr with ⟨ret, rfl⟩ |
      ⟨off, endpos, rfl, -, hlen, -, hend, -⟩
    · rintro ⟨hlow, hhigh⟩
      change (p : Int) < offset + (0 : Nat) at hhigh
      omega
    · rintro ⟨hlow, hhigh⟩
      exact hp ⟨rfl, hlow, by omega⟩
  | _ => exact id

theorem Backed.blank {d d' : DiskInode} (h : Backed d d')
    (st : Store) : Blank st d p ↔ Blank st d' p := by
  unfold Blank Store.byteAt
  rw [h.slot]

theorem Sfs.set_blank {st' : Store} {x' : Sin} (hx : s.sin j = some x)
    (hc : Change inos s.din j s.st x st' x') (hi : i ∈ inos)
    (hself : i = j → Blank s.st x.din p → Blank st' x'.din p)
    (hb : Blank s.st (s.din i) p) : Blank st' ((s.set j st' x').din i) p := by
  rw [Sfs.din_after hc hi]
  by_cases hij : i = j
  · subst hij
    rw [update_self]
    rw [Sfs.din_of_some hx] at hb
    exact hself rfl hb
  · rw [update_of_ne hij]
    intro hslot
    rw [hc.frame.slot_other hi hij (by simp [Owner.OfFile, hij])] at hslot
    rw [hc.byteAt_other hx hi hij hslot]
    exact hb hslot

/-- A blank byte stays blank until a write covers it. -/
theorem Sfs.Step.blank {e : SfsEvent} {ret : Int} (h : s.Mounted inos)
    (hi : i ∈ inos) (hstep : Step inos s e ret t)
    (hp : ¬e.Covers i p) (hb : Blank s.st (s.din i) p) :
    Blank t.st (t.din i) p := by
  rcases hstep.cases h with ⟨j, -, -, hj, hs, ht⟩ |
    ⟨j, o, x, r, rfl, hx, hr, -, rfl, hc⟩ |
    ⟨j, x, r, -, -, hx, hr, hclean, -, rfl, hc⟩
  · obtain ⟨-, hst, hdin⟩ := h.load hj hs ht
    rw [hst, hdin]
    exact hb
  · refine Sfs.set_blank hx hc hi (fun hij hb => ?_) hb
    subst hij
    exact op_blank h hx hr (not_wrote h hx hr hp) hb
  · have hback := ((h.change hx hc).forget (Sfs.set_sin_self ..) hclean).2 i
    refine (hback.blank _).mpr (Sfs.set_blank hx hc hi (fun _ hb => ?_) hb)
    exact fsync_blank h hx hr hb

-- ===== behind the end

/-- The calls the kernel makes: a write begins in the file or at its end,
and a file is truncated to nothing. -/
def SfsOp.Plain (x : Sin) : SfsOp → Prop
  | .write offset _ => offset ≤ x.din.size
  | .truncfile len => len = 0
  | _ => True

def SfsEvent.Plain (s : Sfs) : SfsEvent → Prop
  | .op i o => (s.sin i).elim True fun x => o.Plain x
  | _ => True

theorem SfsEvent.Plain.op {e : SfsEvent} {o : SfsOp} (h : e.Plain s)
    (he : e = .op i o) (hx : s.sin i = some x) : o.Plain x := by
  subst he
  rw [Plain, hx] at h
  exact h

section
include h hx

theorem truncfile_enough (henough : x.din.Enough)
    (hr : s.st.truncfile x len = .ok r) : r.sin.din.Enough := by
  rcases truncfile_done h hx hr with rfl | ⟨n, -, -, hres⟩
  · exact henough
  unfold DiskInode.Enough at henough ⊢
  rcases hres.ret with ⟨-, hsize, hblocks⟩ | ⟨-, -, hg⟩
  · omega
  · have := hg.le
    rw [hg.size]
    omega

theorem io_enough (henough : x.din.Enough) {write : Bool} {buf : List UInt8}
    {offset : Int} {n : Nat} (hbuf : write → buf.length = n)
    (hplain : write → offset ≤ x.din.size)
    (hr : s.st.ioNolock x write buf offset n = .ok r) : r.sin.din.Enough := by
  rcases io_done h hx hbuf hr with ⟨ret, rfl⟩ |
    ⟨off, endpos, rfl, -, -, hread, hend, hdone⟩
  · exact henough
  unfold DiskInode.Enough at henough ⊢
  rw [hdone.blocks, hdone.size]
  have hoff : off ≤ x.din.size := by
    cases hw : write with
    | false =>
      have := hread hw
      omega
    | true =>
      have := hplain hw
      omega
  split <;> omega

theorem op_enough (henough : x.din.Enough) {o : SfsOp} (hplain : o.Plain x)
    (hr : o.run s.st x = .ok r) : r.sin.din.Enough := by
  cases o with
  | read offset len =>
    exact io_enough h hx henough (fun hw => Bool.noConfusion hw)
      (fun hw => Bool.noConfusion hw) hr
  | write offset buf =>
    exact io_enough h hx henough (fun _ => rfl) (fun _ => hplain) hr
  | tryseek pos =>
    rcases tryseek_done hr with ⟨ret, rfl⟩ | ⟨-, -, hr⟩
    · exact henough
    · exact truncfile_enough h hx henough hr
  | truncfile len => exact truncfile_enough h hx henough hr
  | fsync =>
    rw [fsync_din h hx hr]
    exact henough

/-- The bytes behind the end of every regular file are blank. -/
def Sfs.Padded (inos : Finset Nat) (s : Sfs) : Prop :=
  ∀ i ∈ inos, (s.din i).type = sfsTypeFile →
    ∀ p, (s.din i).size ≤ p → Blank s.st (s.din i) p

theorem truncfile_padded (henough : x.din.Enough)
    (hlen : len = 0 ∨ x.din.size < len) (hr : s.st.truncfile x len = .ok r)
    (hpad : ∀ p, x.din.size ≤ p → Blank s.st x.din p)
    (hp : r.sin.din.size ≤ p) : Blank r.st r.sin.din p := by
  by_cases hle : x.din.size ≤ p
  · exact truncfile_blank h hx hr (hpad p hle)
  rcases truncfile_done h hx hr with rfl | ⟨n, rfl, -, hres⟩
  · exact absurd hp hle
  rcases hres.ret with ⟨-, hsize, hblocks⟩ | ⟨-, -, hg⟩
  · -- the file is empty now, and so are the slots it had
    have hn : n = 0 := by omega
    unfold DiskInode.Enough at henough
    intro hslot
    exact absurd (hres.freed (p / 4096) (by omega) (by omega)) hslot
  · rw [hg.size] at hp
    exact absurd hp hle

theorem op_padded (henough : x.din.Enough) {o : SfsOp} (hplain : o.Plain x)
    (hr : o.run s.st x = .ok r)
    (hpad : ∀ p, x.din.size ≤ p → Blank s.st x.din p)
    (hp : r.sin.din.size ≤ p) : Blank r.st r.sin.din p := by
  cases o with
  | read offset len =>
    refine op_blank h hx hr id (hpad p ?_)
    rcases io_done h hx (fun hw => Bool.noConfusion hw) hr with
      ⟨ret, rfl⟩ | ⟨off, endpos, -, -, -, -, -, hdone⟩
    · exact hp
    · rw [hdone.size] at hp
      omega
  | write offset buf =>
    rcases io_done h hx (fun _ => rfl) hr with ⟨ret, rfl⟩ |
      ⟨off, endpos, rfl, -, -, -, -, hdone⟩
    · exact hpad p hp
    · rw [hdone.size] at hp
      refine op_blank h hx hr ?_ (hpad p (by omega))
      rintro ⟨-, hhigh⟩
      omega
  | tryseek pos =>
    rcases tryseek_done hr with ⟨ret, rfl⟩ | ⟨hlt, -, hr⟩
    · exact hpad p hp
    · exact truncfile_padded h hx henough (.inr hlt) hr hpad hp
  | truncfile len =>
    exact truncfile_padded h hx henough (.inl hplain) hr hpad hp
  | fsync =>
    rw [fsync_din h hx hr] at hp
    exact fsync_blank h hx hr (hpad p hp)

end

/-- Behind the end of a file there stay only zeros. -/
theorem Sfs.Padded.step (h : s.Mounted inos)
    (henough : s.Files DiskInode.Enough inos) (hpad : s.Padded inos)
    {e : SfsEvent} {ret : Int} (hplain : e.Plain s)
    (hstep : Step inos s e ret t) : t.Padded inos := by
  intro i hi htype p hp
  rcases hstep.cases h with ⟨j, -, -, hj, hs, ht⟩ |
    ⟨j, o, x, r, rfl, hx, hr, -, rfl, hc⟩ |
    ⟨j, x, r, -, -, hx, hr, hclean, hsame, rfl, hc⟩
  · obtain ⟨-, hst, hdin⟩ := h.load hj hs ht
    rw [hdin] at htype hp ⊢
    rw [hst]
    exact hpad i hi htype p hp
  · rw [Sfs.din_after hc hi] at htype hp
    by_cases hij : i = j
    · subst hij
      rw [update_self] at htype hp
      rw [Sfs.din_after hc hi, update_self]
      have hxt := hc.type.symm.trans htype
      refine op_padded h hx (henough.of_some h hx hxt)
        (hplain.op rfl hx) hr (fun p hp => ?_) hp
      have := hpad i hi
      rw [Sfs.din_of_some hx] at this
      exact this hxt p hp
    · rw [update_of_ne hij] at htype hp
      exact Sfs.set_blank hx hc hi (fun h => absurd h hij)
        (hpad i hi htype p hp)
  · have hback := ((h.change hx hc).forget (Sfs.set_sin_self ..) hclean).2 i
    rw [hback.type, Sfs.din_after hc hi] at htype
    rw [hback.size, Sfs.din_after hc hi] at hp
    have hbefore : Blank s.st (s.din i) p := by
      by_cases hij : i = j
      · subst hij
        rw [update_self, hsame, ← Sfs.din_of_some hx] at htype hp
        exact hpad i hi htype p hp
      · rw [update_of_ne hij] at htype hp
        exact hpad i hi htype p hp
    refine (hback.blank _).mpr (Sfs.set_blank hx hc hi (fun _ hb => ?_)
      hbefore)
    exact fsync_blank h hx hr hb

theorem Sfs.Run.enough (hrun : Run inos (fun s e => e.Plain s) s t)
    (h : s.Mounted inos) (henough : s.Files DiskInode.Enough inos) :
    t.Mounted inos ∧ t.Files DiskInode.Enough inos :=
  hrun.keeps h henough fun hm hs hP hstep =>
    hs.step hm hstep fun he hx _ hQ hr => op_enough hm hx hQ (hP.op he hx) hr

theorem Sfs.Run.padded (hrun : Run inos (fun s e => e.Plain s) s t)
    (h : s.Mounted inos) (henough : s.Files DiskInode.Enough inos)
    (hpad : s.Padded inos) : t.Padded inos := by
  refine (hrun.keeps
    (I := fun s => s.Files DiskInode.Enough inos ∧ s.Padded inos) h
    ⟨henough, hpad⟩ ?_).2.2
  rintro t u e ret hm ⟨hs, hpad⟩ hP hstep
  exact ⟨hs.step hm hstep fun he hx _ hQ hr =>
    op_enough hm hx hQ (hP.op he hx) hr, hpad.step hm hs hP hstep⟩

/-- Reads, writes and seeks of regular files. A read gives the bytes of the
file up to its end. A write stores a prefix of the buffer and changes no
other byte of any file; it is short only if a block cannot be had. If the
bytes behind the end of every file are zero, as they are in an image that
was just made, they stay so in every run of the calls that the kernel makes,
and a byte behind the end that a seek brings into the file reads as zero
until a write covers it. -/
theorem file_contents (h : s.Mounted inos)
    (henough : s.Files DiskInode.Enough inos) :
    (∀ i x, s.sin i = some x → x.din.type = sfsTypeFile →
      ∀ off len : Nat, off + len ≤ 1036 * 4096 →
      ∃ r, s.st.ioNolock x false [] off len = .ok r ∧ r.ret = 0 ∧
        r.st = s.st ∧ r.sin = x ∧ r.alen = min len (x.din.size - off) ∧
        r.data = Bytes.slice (s.st.byteAt x.din) off r.alen) ∧
    (∀ i x, s.sin i = some x → x.din.type = sfsTypeFile →
      ∀ (off : Nat) (buf : List UInt8), off ≤ x.din.size →
      off + buf.length ≤ 1036 * 4096 →
      ∃ r, s.st.ioNolock x true buf off buf.length = .ok r ∧
        r.alen ≤ buf.length ∧
        (∀ p, off ≤ p → p < off + r.alen →
          r.st.byteAt r.sin.din p = buf.getD (p - off) 0) ∧
        (∀ p, p < x.din.size → ¬(off ≤ p ∧ p < off + r.alen) →
          r.st.byteAt r.sin.din p = s.st.byteAt x.din p) ∧
        (∀ j ∈ inos, j ≠ i → (s.after i r).din j = s.din j ∧
          ∀ p, p < 4096 * (s.din j).blocks →
            r.st.byteAt (s.din j) p = s.st.byteAt (s.din j) p) ∧
        r.sin.din.size = max x.din.size (off + r.alen) ∧
        (r.alen < buf.length → r.ret = -eNoMem ∧ r.st.unusedBlocks <
          r.st.need r.sin.din ((off + r.alen) / 4096))) ∧
    (s.Padded inos → ∀ t, Sfs.Run inos (fun s e => e.Plain s) s t →
      t.Padded inos) ∧
    (s.Padded inos → ∀ i ∈ inos, (s.din i).type = sfsTypeFile →
      ∀ p, (s.din i).size ≤ p →
      ∀ t, Sfs.Run inos (fun _ e => ¬e.Covers i p) s t →
        p < 4096 * (t.din i).blocks → t.st.byteAt (t.din i) p = 0) := by
  have hdir {x : Sin} (htype : x.din.type = sfsTypeFile) :
      x.din.type ≠ sfsTypeDir := by
    rw [htype]
    decide
  refine ⟨?_, ?_, fun hpad t hrun => hrun.padded h henough hpad, ?_⟩
  · intro i x hx htype off len hend
    exact read_exact h hx (hdir htype) (henough.of_some h hx htype)
      (by unfold sfsMaxFileSize; omega)
  · intro i x hx htype off buf hoff hend
    have hx' := henough.of_some h hx htype
    by_cases hne : buf = []
    · subst hne
      refine ⟨s.st.done x 0, ?_, Nat.le_refl _, ?_, fun _ _ _ => rfl, ?_,
        ?_, fun hlt => absurd hlt (Nat.lt_irrefl _)⟩
      · rw [s.st.io_within (hdir htype) true []
          (by unfold sfsMaxFileSize; simp only [List.length_nil]; omega),
          if_pos (.inl rfl)]
      · intro p hlow hhigh
        change p < off + 0 at hhigh
        omega
      · intro j hj hji
        exact ⟨(Sfs.din_after (Change.refl h hx) hj).trans
          (update_of_ne hji ..), fun _ _ => rfl⟩
      · exact (Nat.max_eq_left hoff).symm
    obtain ⟨r, hr, hdone⟩ := write_exact h hx (hdir htype) hx' hoff hend hne
    have hc := io_change h hx (fun _ => rfl) hr
    have hle : off + r.alen ≤ off + buf.length := by
      rcases hdone.ret with ⟨-, ha⟩ | ⟨-, ha, -⟩ <;> omega
    refine ⟨r, hr, by omega, ?_, ?_, ?_, hdone.size, ?_⟩
    · exact fun p hlow hhigh => (hdone.wrote rfl hlow hhigh).2
    · intro p hp hout
      unfold DiskInode.Enough at hx'
      have hslot := h.mapped_of hx (p / 4096) (by omega)
      exact (hdone.holds (fun hc => hout hc.2) hslot).2
    · intro j hj hji
      refine ⟨(Sfs.din_after hc hj).trans (update_of_ne hji ..),
        fun p hp => hc.byteAt_other hx hj hji ?_⟩
      exact h.mapped hj (p / 4096) (by omega)
    · intro hlt
      rcases hdone.ret with ⟨-, ha⟩ | ⟨hret, -, hshort⟩
      · omega
      · exact ⟨hret, hshort⟩
  · intro hpad i hi htype p hp t hrun hlt
    obtain ⟨hm, hb⟩ := hrun.keeps h (hpad i hi htype p hp)
      fun hm hb hP hstep => hstep.blank hm hi hP hb
    exact hb (hm.mapped hi (p / 4096) (by omega))

end

instance (x : Sin) : DecidablePred (SfsOp.Plain x)
  | .read .. => isTrue trivial
  | .write offset _ => inferInstanceAs (Decidable (offset ≤ _))
  | .tryseek _ => isTrue trivial
  | .truncfile len => inferInstanceAs (Decidable (len = 0))
  | .fsync => isTrue trivial

instance (s : Sfs) : DecidablePred (SfsEvent.Plain s)
  | .load _ => isTrue trivial
  | .op i o =>
    match h : s.sin i with
    | none => isTrue (by rw [SfsEvent.Plain, h]; trivial)
    | some x => decidable_of_iff (o.Plain x)
      (by rw [SfsEvent.Plain, h]; rfl)
  | .reclaim _ => isTrue trivial

/-- A file of five bytes is read to its end. -/
theorem file_contents_small :
    ∃ (s : Sfs) (x : Sin), s.Mounted {1, 3} ∧ s.sin 3 = some x ∧
      x.din.size = 5 ∧
      ∃ r, s.st.ioNolock x false [] (2 : Nat) 100 = .ok r ∧ r.alen = 3 := by
  have hrun : ((Sfs.execute {1, 3} (fun s e => e.Plain s)
      [.load 3, .op 3 (.write 0 [1, 2, 3, 4, 5])]
      (Sfs.image (smallImage 8 4))).bind fun s => (s.sin 3).map fun x =>
        (x.din.type, x.din.size)) = some (1, 5) := by
    decide +kernel
  obtain ⟨s, hs, hmap⟩ := Option.bind_eq_some_iff.mp hrun
  obtain ⟨x, hx, heq⟩ := Option.map_eq_some_iff.mp hmap
  obtain ⟨htype, hsize⟩ : x.din.type = 1 ∧ x.din.size = 5 := by
    simpa using heq
  have himage : Consistent {1, 3} (smallImage 8 4) :=
    smallImage_consistent (by omega) (by omega)
  have hempty (i : Nat) :
      ((Sfs.image (smallImage 8 4)).din i).Enough := by
    rw [smallImage_din]
    exact Nat.le_refl 0
  obtain ⟨hm, hs⟩ := (Sfs.execute_run .refl hs).enough himage.mounted
    (.image fun i _ _ => hempty i)
  obtain ⟨r, hr, -, -, -, hlen, -⟩ :=
    (file_contents hm hs).1 3 x hx htype 2 100 (by omega)
  refine ⟨s, x, hm, hx, hsize, r, hr, ?_⟩
  rw [hlen, hsize]
  rfl

/-- A file of one byte whose block goes on with another byte: a seek to the
second byte makes it part of the file, and it is read though nobody wrote it
after the seek. -/
theorem seek_shows_old_byte :
    ∃ (s : Sfs) (x : Sin) (r r' : Done), s.Mounted {1, 3} ∧
      s.sin 3 = some x ∧ x.din.size = 1 ∧ x.din.blocks = 1 ∧
      s.st.tryseek x 2 = .ok r ∧ r.ret = 0 ∧ r.sin.din.size = 2 ∧
      r.st.ioNolock r.sin false [] 1 1 = .ok r' ∧ r'.data = [66] := by
  have hrun : ((Sfs.execute {1, 3} (fun _ _ => True)
      [.load 3, .op 3 (.write 0 [65, 66]), .op 3 (.truncfile 1)]
      (Sfs.image (smallImage 8 4))).bind fun s => (s.sin 3).bind fun x =>
        (s.st.tryseek x 2).toOption.bind fun r =>
          (r.st.ioNolock r.sin false [] 1 1).toOption.map fun r' =>
            ([x.din.size, x.din.blocks, r.sin.din.size], r.ret, r'.data)) =
      some ([1, 1, 2], 0, [66]) := by
    decide +kernel
  obtain ⟨s, hs, hrest⟩ := Option.bind_eq_some_iff.mp hrun
  obtain ⟨x, hx, hrest⟩ := Option.bind_eq_some_iff.mp hrest
  obtain ⟨r, hr, hrest⟩ := Option.bind_eq_some_iff.mp hrest
  obtain ⟨r', hr', heq⟩ := Option.map_eq_some_iff.mp hrest
  simp only [Prod.mk.injEq, List.cons.injEq, and_true] at heq
  obtain ⟨⟨hsize, hblocks, hsize'⟩, hret, hdata⟩ := heq
  have himage : Consistent {1, 3} (smallImage 8 4) :=
    smallImage_consistent (by omega) (by omega)
  have hm := ((Sfs.execute_run .refl hs).keeps (I := fun _ => True)
    himage.mounted trivial fun _ _ _ _ => trivial).1
  exact ⟨s, x, r, r', hm, hx, hsize, hblocks, toOption_eq_some hr, hret,
    hsize', toOption_eq_some hr', hdata⟩

end MipsUcore.Kern
