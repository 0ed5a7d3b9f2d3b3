/-
Sizes and block counts.

# What goes wrong

`sfs_truncfile` adds blocks one by one and sets the size at the end. If the
blocks run out after some were added, it returns `-E_NO_MEM` and the file
keeps them: its size is not what its blocks say any more, and the next call
with the old size trips the assertion `tblks == din->blocks`. A write behind
the end that cannot have its first block leaves a size without blocks in the
same way.

# When it does not

If every growth has all the blocks it takes, or not even the first one, and
no write behind the end is short of its first block (`SfsEvent.Whole`), the
blocks of every regular file are as many as its size takes, in memory and on
the disk (`DiskInode.Tight`), and a failed resize changes nothing.
-/
import MipsUcore.Kern.Proofs.SfsAccounting

namespace MipsUcore.Kern

/-- The blocks are as many as the size takes. -/
def DiskInode.Tight (d : DiskInode) : Prop :=
  d.blocks = (d.size + 4095) / 4096

/-- A growth to `len` bytes has all the blocks it takes, or not even the
first. -/
def Store.GrowsWhole (st : Store) (x : Sin) (len : Nat) : Prop :=
  x.din.blocks < (len + 4095) / 4096 →
    st.cost x.din x.din.blocks ((len + 4095) / 4096 - x.din.blocks) ≤
      st.unusedBlocks ∨
    st.unusedBlocks < st.need x.din x.din.blocks

/-- An operation that cannot stop between the blocks and the size. -/
def SfsOp.Whole (st : Store) (x : Sin) : SfsOp → Prop
  | .truncfile len => len ≤ sfsMaxFileSize → st.GrowsWhole x len.toNat
  | .tryseek pos => x.din.size < pos → pos < sfsMaxFileSize →
    st.GrowsWhole x pos.toNat
  | .write offset _ => x.din.size < offset →
    st.need x.din (offset.toNat / 4096) ≤ st.unusedBlocks
  | _ => True

def SfsEvent.Whole (s : Sfs) : SfsEvent → Prop
  | .op i o => (s.sin i).elim True fun x =>
    x.din.type = sfsTypeFile → o.Whole s.st x
  | _ => True

/-- What a failed resize should leave as it was. -/
structure SameFile (st : Store) (x : Sin) (st' : Store) (x' : Sin) :
    Prop where
  size : x'.din.size = x.din.size
  blocks : x'.din.blocks = x.din.blocks
  slots : ∀ k, st'.slot x'.din k = st.slot x.din k
  unused : st'.unusedBlocks = st.unusedBlocks

section

variable {inos : Finset Nat} {s t : Sfs} {i : Nat} {x : Sin} {r : Done}

-- ===== one call

/-- A resize that runs out of blocks changes nothing exactly if it did not
get the first one. -/
theorem sameFile_iff (h : s.Mounted inos) (hx : s.sin i = some x)
    {len : Int} (hr : s.st.truncfile x len = .ok r) (hret : r.ret = -eNoMem) :
    SameFile s.st x r.st r.sin ↔ s.st.GrowsWhole x len.toNat := by
  rcases truncfile_done h hx hr with rfl | ⟨n, rfl, -, hres⟩
  · change -eInval = -eNoMem at hret
    exact absurd hret (by decide)
  rcases hres.ret with ⟨hzero, -⟩ | ⟨-, hlt, hg⟩
  · rw [hzero] at hret
    exact absurd hret (by decide)
  constructor
  · intro hsame _
    refine .inr (Nat.lt_of_not_le fun hneed => ?_)
    have := hg.some (by omega) hneed
    have := hsame.blocks
    omega
  · intro hwhole
    have hshort : s.st.unusedBlocks < s.st.need x.din x.din.blocks := by
      refine (hwhole hlt).resolve_left fun hle => ?_
      rw [hres.enough hlt hle] at hret
      exact absurd hret (by decide)
    obtain ⟨hsin, hkept⟩ := hg.none (by omega) hshort
    rw [hsin]
    exact ⟨rfl, rfl, hkept.slot (h.loaded hx).1 (h.sound_of hx), hkept.unused⟩

variable (h : s.Mounted inos) (hx : s.sin i = some x) (ht : x.din.Tight)

section
include h hx ht

theorem truncfile_tight {len : Int}
    (hwhole : len ≤ sfsMaxFileSize → s.st.GrowsWhole x len.toNat)
    (hr : s.st.truncfile x len = .ok r) : r.sin.din.Tight := by
  rcases truncfile_done h hx hr with rfl | ⟨n, rfl, hn, hres⟩
  · exact ht
  rcases hres.ret with ⟨-, hsize, hblocks⟩ | ⟨hret, -⟩
  · unfold DiskInode.Tight
    rw [hsize, hblocks]
  · have hsame := (sameFile_iff h hx hr hret).mpr (hwhole (by omega))
    unfold DiskInode.Tight
    rw [hsame.size, hsame.blocks]
    exact ht

/-- The assertions on `tblks` hold where the count is right. -/
theorem truncfile_no_fault (len : Int) :
    s.st.truncfile x len ≠ .error .truncSame ∧
      s.st.truncfile x len ≠ .error .truncDone := by
  by_cases hlen : len < 0 ∨ sfsMaxFileSize < len
  · unfold Store.truncfile
    rw [if_pos hlen]
    exact ⟨by simp [pure, Except.pure], by simp [pure, Except.pure]⟩
  obtain ⟨n, rfl⟩ := Int.eq_ofNat_of_zero_le (by omega : 0 ≤ len)
  rcases Store.truncfile_cases (h.loaded hx).1 (h.sound_of hx)
    (h.mapped_of hx) (by omega : n ≤ sfsMaxFileSize) with
      ⟨hsize, hne, -⟩ | ⟨-, hrun⟩ | ⟨r, hrun, -⟩
  · rw [← hsize] at hne
    exact absurd ht hne
  · rw [hrun]
    exact ⟨by simp, by simp⟩
  · rw [hrun]
    exact ⟨by simp, by simp⟩

theorem io_tight {write : Bool} {buf : List UInt8} {offset : Int}
    {n : Nat} (hbuf : write → buf.length = n)
    (hwhole : write → x.din.size < offset →
      s.st.need x.din (offset.toNat / 4096) ≤ s.st.unusedBlocks)
    (hr : s.st.ioNolock x write buf offset n = .ok r) : r.sin.din.Tight := by
  rcases io_done h hx hbuf hr with ⟨ret, rfl⟩ |
    ⟨off, endpos, rfl, -, -, hread, hend, hdone⟩
  · exact ht
  unfold DiskInode.Tight at ht ⊢
  rw [hdone.blocks, hdone.size]
  by_cases hzero : r.alen = 0
  · rw [if_pos hzero]
    have hle : off ≤ x.din.size := by
      cases hw : write with
      | false =>
        have := hread hw
        omega
      | true =>
        -- behind the end the first block would have been there
        obtain ⟨-, hshort, -⟩ := hdone.none hzero
        have := hwhole hw
        rw [Int.toNat_natCast] at this
        omega
    rw [Nat.max_eq_left (by omega)]
    exact ht
  · rw [if_neg hzero, ht]
    omega

theorem op_tight {o : SfsOp} (hwhole : o.Whole s.st x)
    (hr : o.run s.st x = .ok r) : r.sin.din.Tight := by
  cases o with
  | read offset len =>
    exact io_tight h hx ht (fun hw => Bool.noConfusion hw)
      (fun hw => Bool.noConfusion hw) hr
  | write offset buf =>
    exact io_tight h hx ht (fun _ => rfl) (fun _ => hwhole) hr
  | tryseek pos =>
    rcases tryseek_done hr with ⟨ret, rfl⟩ | ⟨hlt, hmax, hr⟩
    · exact ht
    · exact truncfile_tight h hx ht (fun _ => hwhole hlt hmax) hr
  | truncfile len => exact truncfile_tight h hx ht hwhole hr
  | fsync =>
    rw [fsync_din h hx hr]
    exact ht

end

-- ===== whole runs

theorem SfsEvent.Whole.op {e : SfsEvent} {o : SfsOp} (h : e.Whole s)
    (he : e = .op i o) (hx : s.sin i = some x)
    (htype : x.din.type = sfsTypeFile) : o.Whole s.st x := by
  subst he
  rw [Whole, hx] at h
  exact h htype

/-- Resizing a file. As long as no growth stops between its first block and
its last and no write behind the end is short of its first block, every
regular file has the blocks its size takes, so the assertions on `tblks`
hold in every call. A resize that runs out of blocks leaves the file and the
counter alone exactly if it did not get its first block. -/
theorem resize_whole {st : Store} (hst : Consistent inos st)
    (htight : ∀ i ∈ inos, ((Sfs.image st).din i).type = sfsTypeFile →
      ((Sfs.image st).din i).Tight)
    (hrun : Sfs.Run inos (fun s e => e.Whole s) (Sfs.image st) s) :
    (∀ i ∈ inos, (s.din i).type = sfsTypeFile → (s.din i).Tight) ∧
    ∀ i x, s.sin i = some x → x.din.type = sfsTypeFile → ∀ len : Int,
      s.st.truncfile x len ≠ .error .truncSame ∧
      s.st.truncfile x len ≠ .error .truncDone ∧
      ∀ r, s.st.truncfile x len = .ok r → r.ret = -eNoMem →
        (SameFile s.st x r.st r.sin ↔ s.st.GrowsWhole x len.toNat) := by
  obtain ⟨hm, hs⟩ := hrun.keeps hst.mounted (Sfs.Files.image htight)
    fun hm hs hP hstep => hs.step hm hstep fun he hx htype ht hr =>
      op_tight hm hx ht (hP.op he hx htype) hr
  refine ⟨fun i hi => hs.din hi, ?_⟩
  intro i x hx htype len
  obtain ⟨hsame, hdone⟩ :=
    truncfile_no_fault hm hx (hs.of_some hm hx htype) len
  refine ⟨hsame, hdone, ?_⟩
  intro r hr hret
  exact sameFile_iff hm hx hr hret

end

instance (st : Store) (x : Sin) (len : Nat) :
    Decidable (st.GrowsWhole x len) :=
  inferInstanceAs (Decidable (_ → _ ∨ _))

instance (st : Store) (x : Sin) : DecidablePred (SfsOp.Whole st x)
  | .read .. => isTrue trivial
  | .write .. => inferInstanceAs (Decidable (_ → _))
  | .tryseek _ => inferInstanceAs (Decidable (_ → _ → _))
  | .truncfile _ => inferInstanceAs (Decidable (_ → _))
  | .fsync => isTrue trivial

instance (s : Sfs) : DecidablePred (SfsEvent.Whole s)
  | .load _ => isTrue trivial
  | .op i o =>
    match h : s.sin i with
    | none => isTrue (by rw [SfsEvent.Whole, h]; trivial)
    | some x => decidable_of_iff (x.din.type = sfsTypeFile → o.Whole s.st x)
      (by rw [SfsEvent.Whole, h]; rfl)
  | .reclaim _ => isTrue trivial

theorem smallImage_tight (blocks first i : Nat) :
    ((Sfs.image (smallImage blocks first)).din i).Tight := by
  rw [smallImage_din]
  show 0 = (0 + 4095) / 4096
  rfl

/-- Two blocks are free. A write takes one and a seek the other. -/
theorem resize_whole_small :
    ∃ s x, Sfs.Run {1, 3} (fun s e => e.Whole s)
        (Sfs.image (smallImage 6 4)) s ∧
      s.sin 3 = some x ∧ x.din.blocks = 2 ∧ x.din.size = 4097 ∧
      s.st.truncfile x 4097 ≠ .error .truncSame := by
  have hrun : ((Sfs.execute {1, 3} (fun s e => e.Whole s)
      [.load 3, .op 3 (.write 0 [7]), .op 3 (.tryseek 4097)]
      (Sfs.image (smallImage 6 4))).bind fun s => (s.sin 3).map fun x =>
        (x.din.type, x.din.blocks, x.din.size)) = some (1, 2, 4097) := by
    decide +kernel
  obtain ⟨s, hs, hmap⟩ := Option.bind_eq_some_iff.mp hrun
  obtain ⟨x, hx, heq⟩ := Option.map_eq_some_iff.mp hmap
  have hreach := Sfs.execute_run .refl hs
  obtain ⟨htype, hblocks, hsize⟩ : x.din.type = 1 ∧ x.din.blocks = 2 ∧
      x.din.size = 4097 := by simpa using heq
  exact ⟨s, x, hreach, hx, hblocks, hsize, ((resize_whole
    (smallImage_consistent (by omega) (by omega))
    (fun i _ _ => smallImage_tight 6 4 i) hreach).2 3 x hx htype 4097).1⟩

/-- With two free blocks a seek to the end of the third one fails and keeps
two blocks for a file of size 0; the next truncation of the file trips the
assertion. -/
theorem seek_keeps_blocks :
    ∃ s x r, Sfs.Run {1, 3} (fun _ _ => True)
        (Sfs.image (smallImage 6 4)) s ∧ s.sin 3 = some x ∧
      x.din.size = 0 ∧ x.din.blocks = 0 ∧ s.st.unusedBlocks = 2 ∧
      s.st.tryseek x 12288 = .ok r ∧ r.ret = -eNoMem ∧
      r.sin.din.size = 0 ∧ r.sin.din.blocks = 2 ∧ r.st.unusedBlocks = 0 ∧
      r.st.truncfile r.sin 0 = .error .truncSame := by
  have hrun : ((Sfs.execute {1, 3} (fun _ _ => True) [.load 3]
      (Sfs.image (smallImage 6 4))).bind fun s => (s.sin 3).bind fun x =>
        (s.st.tryseek x 12288).toOption.map fun r =>
          ([x.din.size, x.din.blocks, s.st.unusedBlocks, r.sin.din.size,
            r.sin.din.blocks, r.st.unusedBlocks], r.ret,
            faultOf (r.st.truncfile r.sin 0))) =
      some ([0, 0, 2, 0, 2, 0], -eNoMem, some .truncSame) := by
    decide +kernel
  obtain ⟨s, hs, hrest⟩ := Option.bind_eq_some_iff.mp hrun
  obtain ⟨x, hx, hrest⟩ := Option.bind_eq_some_iff.mp hrest
  obtain ⟨r, hr, heq⟩ := Option.map_eq_some_iff.mp hrest
  simp only [Prod.mk.injEq, List.cons.injEq, and_true] at heq
  obtain ⟨⟨hsize, hblocks, hunused, hsize', hblocks', hunused'⟩, hret, hf⟩ :=
    heq
  exact ⟨s, x, r, Sfs.execute_run .refl hs, hx, hsize, hblocks, hunused,
    toOption_eq_some hr, hret, hsize', hblocks', hunused',
    faultOf_eq_some hf⟩

end MipsUcore.Kern
