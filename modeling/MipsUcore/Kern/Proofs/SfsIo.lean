/-
What a transfer moves.

# Progress

`sfs_io_nolock` goes through the blocks of the range in order: the end of
the first one if the range begins inside of it, the whole blocks, and the
beginning of the last one. After each of them a `Progress` holds: the bytes
of the range up to there are those of the buffer, the other bytes are what
they were, and the file has the blocks it needs. A block that cannot be had
ends the transfer, with the progress made so far (`Transferred`).

# Reading

Where the file has a block for all of its bytes a read changes nothing, and
what it puts in the buffer are the bytes of the file (`read_eq`).
-/
import MipsUcore.Kern.Proofs.SfsFiles

namespace MipsUcore.Kern

section

variable {inos : Finset Nat} {din : Nat → DiskInode} {i k b : Nat}
  {st st' : Store} {x x' : Sin}
  (hi : i ∈ inos) (h : Sound (namesOf inos din i st x.din) st)
include hi h

-- ===== writing a block

/-- Writing the block of a slot moves no owner. -/
theorem namesOf_put (hs : st.slot x.din k ≠ 0) (data : Nat → UInt8) :
    namesOf inos din i (st.put (st.slot x.din k) data) x.din =
      namesOf inos din i st x.din := by
  have ho := @owns_data inos din i x.din hi st k hs
  have hslot (l : Nat) :
      (st.put (st.slot x.din k) data).slot x.din l = st.slot x.din l :=
    Store.slot_congr fun hd => st.put_disk_of_ne
      (h.ne_of_ne (owns_indirect hi st hd) ho (by simp)) data
  rw [namesOf_change hi (k := 0) (st.put_blocks ..) (fun l _ => hslot l)
    fun j hj hne hd => st.put_disk_of_ne
      (h.ne_of_ne (owns_other hj hne st x.din hd) ho (by simp)) data, hslot]
  have hind := @namesOf_indirect inos din i hi st x.din
  have hdata := @namesOf_data inos din i hi st x.din 0
  rw [← hdata, ← hind, Function.update_eq_self, Function.update_eq_self]

theorem slot_put (hs : st.slot x.din k ≠ 0) (data : Nat → UInt8) (l : Nat) :
    (st.put (st.slot x.din k) data).slot x.din l = st.slot x.din l := by
  have := congrFun (namesOf_put hi h hs data) (.data i l)
  rw [namesOf_data hi, namesOf_data hi] at this
  exact named_inj this

/-- What the bytes of a file are after a write to one of its blocks. -/
theorem byteAt_put (hs : st.slot x.din k ≠ 0) (data : Nat → UInt8) (p : Nat)
    (hp : st.slot x.din (p / 4096) ≠ 0) :
    (st.put (st.slot x.din k) data).byteAt x.din p =
      if p / 4096 = k then data (p % 4096) else st.byteAt x.din p := by
  unfold Store.byteAt
  rw [slot_put hi h hs]
  split
  · next hpk => rw [hpk, st.put_disk_self]
  · next hpk =>
    rw [st.put_disk_of_ne (h.ne_of_ne (owns_data hi hp) (owns_data hi hs)
      (by simpa using hpk))]

theorem put_moves (hm : Mapped st x.din)
    (hs : st.slot x.din k ≠ 0) {W : Nat → Prop} {data : Nat → UInt8}
    (hW : ∀ p, p / 4096 = k → ¬W p →
      data (p % 4096) = st.disk (st.slot x.din k) (p % 4096)) :
    Moves inos din i W st x (st.put (st.slot x.din k) data) x := by
  have hn := namesOf_put hi h hs data
  refine ⟨⟨?_, ?_, ?_⟩, ⟨rfl, rfl, rfl, rfl⟩, ?_, ?_,
    fun hc => ⟨hc, rfl, rfl, rfl, Nat.le_refl _⟩⟩
  · rw [hn]
    exact h.put ..
  · rw [hn]
    exact id
  · rw [hn]
    refine ⟨fun _ => rfl, ?_, rfl⟩
    intro o c ho hc
    refine st.put_disk_of_ne (h.ne_of_ne hc (owns_data hi hs) ?_) data
    rintro rfl
    exact ho (.inl ⟨k, rfl⟩)
  · intro l hl
    rw [slot_put hi h hs]
    exact hm l hl
  · intro p hp hb hslot
    rw [slot_put hi h hs] at hslot
    rw [byteAt_put hi h hs data p hslot]
    split
    · next hpk =>
      have hb := hb hslot
      unfold Store.byteAt at hb
      rw [hW p hpk hp, ← hpk, hb]
    · exact hb hslot

end

-- ===== progress

/-- Where a transfer of the file `i` from `offset` on has got to. -/
structure Progress (inos : Finset Nat) (din : Nat → DiskInode) (i : Nat)
    (write : Bool) (buf : List UInt8) (offset : Nat) (st : Store) (x : Sin)
    (s : IoState) : Prop where
  moves : Moves inos din i
    (fun p => write ∧ offset ≤ p ∧ p < offset + s.alen) st x s.st s.sin
  size : s.sin.din.size = x.din.size
  blocks : s.sin.din.blocks =
    if s.alen = 0 then x.din.blocks
    else max x.din.blocks ((offset + s.alen + 4095) / 4096)
  holds : ∀ {p}, ¬(write ∧ offset ≤ p ∧ p < offset + s.alen) →
    st.slot x.din (p / 4096) ≠ 0 →
    s.st.slot s.sin.din (p / 4096) ≠ 0 ∧
      s.st.byteAt s.sin.din p = st.byteAt x.din p
  wrote : write → ∀ {p}, offset ≤ p → p < offset + s.alen →
    s.st.slot s.sin.din (p / 4096) ≠ 0 ∧
      s.st.byteAt s.sin.din p = buf.getD (p - offset) 0
  still : s.alen = 0 → s.sin = x ∧ Kept st s.st

/-- The next block of the transfer cannot be had. -/
def IoState.Short (s : IoState) (offset : Nat) : Prop :=
  s.st.unusedBlocks < s.st.need s.sin.din ((offset + s.alen) / 4096)

/-- A transfer got to `target`, or a block could not be had before. -/
structure Transferred (inos : Finset Nat) (din : Nat → DiskInode) (i : Nat)
    (write : Bool) (buf : List UInt8) (offset : Nat) (st : Store) (x : Sin)
    (target : Nat) (r : Int × IoState) : Prop where
  progress : Progress inos din i write buf offset st x r.2
  ret : (r.1 = 0 ∧ r.2.alen = target) ∨
    (r.1 = -eNoMem ∧ r.2.alen < target ∧ r.2.Short offset)

section

variable {inos : Finset Nat} {din : Nat → DiskInode} {i k b : Nat}
  {write : Bool} {buf : List UInt8} {offset : Nat}
  {st st' : Store} {x : Sin} {s : IoState}
  {endpos pos size : Nat}

theorem Progress.start (h : Sound (namesOf inos din i st x.din) st)
    (hm : Mapped st x.din) (data : List UInt8) :
    Progress inos din i write buf offset st x ⟨st, x, 0, data⟩ where
  moves := .refl _ h hm
  size := rfl
  blocks := rfl
  holds _ hs := ⟨hs, rfl⟩
  wrote _ p hp hp' := by
    simp only [Nat.add_zero] at hp'
    omega
  still _ := ⟨rfl, .refl st⟩

/-- What moving `size` bytes between the buffer and a block comes to. -/
structure OpSpec (write : Bool) (buf : List UInt8) (blkoff size : Nat)
    (st : Store) (b : Nat) (st' : Store) : Prop where
  read : write = false → st' = st
  write : write → ∃ data, st' = st.put b data ∧
    ∀ j < 4096, data j =
      if blkoff ≤ j ∧ j < blkoff + size then buf.getD (j - blkoff) 0
      else st.disk b j

theorem Progress.reach (h : Progress inos din i write buf offset st x s)
    (hoff : offset / 4096 ≤ x.din.blocks) :
    (offset + s.alen) / 4096 ≤ s.sin.din.blocks := by
  rw [h.blocks]
  split <;> omega

theorem getD_drop (buf : List UInt8) (n j : Nat) :
    (buf.drop n).getD j 0 = buf.getD (n + j) 0 := by
  simp [List.getD_eq_getElem?_getD]

theorem OpSpec.slot (hi : i ∈ inos) {blkoff : Nat}
    (h : OpSpec write buf blkoff size st (st.slot x.din k) st')
    (hs : Sound (namesOf inos din i st x.din) st)
    (hk : st.slot x.din k ≠ 0) (l : Nat) :
    st'.slot x.din l = st.slot x.din l := by
  cases write with
  | false => rw [h.read rfl]
  | true =>
    obtain ⟨data, rfl, -⟩ := h.write rfl
    exact slot_put hi hs hk data l

/-- The bytes of the file after one block is moved, `pos` being the place
where it begins. -/
theorem OpSpec.byteAt (hi : i ∈ inos)
    (h : OpSpec write buf (pos % 4096) size st
      (st.slot x.din (pos / 4096)) st')
    (hs : Sound (namesOf inos din i st x.din) st)
    (hk : st.slot x.din (pos / 4096) ≠ 0) (hsize : pos % 4096 + size ≤ 4096)
    {p : Nat} (hp : st.slot x.din (p / 4096) ≠ 0) : st'.byteAt x.din p =
      if write ∧ pos ≤ p ∧ p < pos + size then buf.getD (p - pos) 0
      else st.byteAt x.din p := by
  cases write with
  | false => simp [h.read rfl]
  | true =>
    obtain ⟨data, rfl, hdata⟩ := h.write rfl
    rw [byteAt_put hi hs hk data p hp]
    by_cases hpk : p / 4096 = pos / 4096
    · rw [if_pos hpk, hdata _ (Nat.mod_lt _ (by omega))]
      by_cases hin : pos ≤ p ∧ p < pos + size
      · rw [if_pos (by omega), if_pos ⟨rfl, hin⟩,
          show p % 4096 - pos % 4096 = p - pos by omega]
      · rw [if_neg (by omega), if_neg (fun hc => hin hc.2)]
        unfold Store.byteAt
        rw [hpk]
    · rw [if_neg hpk, if_neg (by omega)]

theorem OpSpec.moves (hi : i ∈ inos) (h : OpSpec write buf (pos % 4096) size st
      (st.slot x.din (pos / 4096)) st')
    (hs : Sound (namesOf inos din i st x.din) st) (hm : Mapped st x.din)
    (hk : st.slot x.din (pos / 4096) ≠ 0) :
    Moves inos din i (fun p => write ∧ pos ≤ p ∧ p < pos + size) st x
      st' x := by
  cases write with
  | false =>
    rw [h.read rfl]
    exact .refl _ hs hm
  | true =>
    obtain ⟨data, rfl, hdata⟩ := h.write rfl
    refine put_moves hi hs hm hk fun p hpk hp => ?_
    rw [hdata _ (Nat.mod_lt _ (by omega)), if_neg]
    intro hin
    exact hp ⟨rfl, by omega, by omega⟩

theorem Kept.byteAt (hi : i ∈ inos) (h : Kept st st')
    (hs : Sound (Kern.namesOf inos din i st x.din) st) {p : Nat}
    (hp : st.slot x.din (p / 4096) ≠ 0) :
    st'.byteAt x.din p = st.byteAt x.din p := by
  unfold Store.byteAt
  rw [h.slot hi hs, h.disk (hs.sole.used (owns_data hi hp)).2]

theorem bufOp_ok {blkoff : Nat} (hb : b ≠ 0) (hlt : b < st.blocks)
    (hsize : blkoff + size ≤ 4096) (hpos : 0 < size)
    (hbuf : write → size ≤ buf.length) :
    ∃ data st', st.bufOp write buf size b blkoff = .ok (data, st') ∧
      OpSpec write buf blkoff size st b st' := by
  unfold Store.bufOp
  cases write with
  | false =>
    refine ⟨Bytes.slice (st.disk b) blkoff size, st, ?_, fun _ => rfl,
      fun h => Bool.noConfusion h⟩
    unfold Store.rbuf
    rw [ensure_pos (by omega), Store.rblock_ok hb hlt]
    rfl
  | true =>
    have hlen : (buf.take size).length = size := by
      rw [List.length_take, Nat.min_eq_left (hbuf rfl)]
    refine ⟨[], st.put b (Bytes.patch (st.disk b) blkoff (buf.take size)),
      ?_, fun h => Bool.noConfusion h, fun _ => ⟨_, rfl, ?_⟩⟩
    · unfold Store.wbuf
      rw [ensure_pos (by omega), Store.rblock_ok hb hlt]
      simp only [bind, Except.bind]
      rw [Store.wblock_ok hb hlt]
      rfl
    · intro j _
      unfold Bytes.patch
      rw [hlen]
      split
      · next hj =>
        rw [List.getD_eq_getElem?_getD, List.getD_eq_getElem?_getD,
          List.getElem?_take_of_lt (by omega)]
      · rfl

theorem blockOp_ok (hb : b ≠ 0) (hlt : b < st.blocks) :
    ∃ data st', st.blockOp write buf b = .ok (data, st') ∧
      OpSpec write buf 0 4096 st b st' := by
  unfold Store.blockOp
  cases write with
  | false =>
    refine ⟨Bytes.slice (st.disk b) 0 4096, st, ?_, fun _ => rfl,
      fun h => Bool.noConfusion h⟩
    rw [Store.rblock_ok hb hlt]
    rfl
  | true =>
    refine ⟨[], st.put b fun j => buf.getD j 0, ?_,
      fun h => Bool.noConfusion h, fun _ => ⟨_, rfl, ?_⟩⟩
    · rw [Store.wblock_ok hb hlt]
      rfl
    · intro j hj
      rw [if_pos (by omega), Nat.sub_zero]

/-- A transfer up to `target`: it comes to an end, or it runs past the
indirect block. -/
def Ends (inos : Finset Nat) (din : Nat → DiskInode) (i : Nat)
    (write : Bool) (buf : List UInt8) (offset : Nat) (st : Store) (x : Sin)
    (target : Nat) (run : Except Fault (Int × IoState)) : Prop :=
  (1036 * 4096 < offset + target ∧ run = .error .uninitialised) ∨
  ∃ r, run = .ok r ∧
    Transferred inos din i write buf offset st x target r

-- ===== one block

section
variable (hi : i ∈ inos) (h : Progress inos din i write buf offset st x s)
include hi h

/-- The step of a transfer: one block is loaded and moved. -/
theorem Progress.step {st₁ st₂ : Store} {x₁ : Sin} {data : List UInt8}
    (hpos : 0 < size) (hsize : (offset + s.alen) % 4096 + size ≤ 4096)
    (hreach : (offset + s.alen) / 4096 ≤ s.sin.din.blocks)
    (hl : Loaded inos din i ((offset + s.alen) / 4096) s.st s.sin b st₁ x₁)
    (hop : OpSpec write (buf.drop s.alen) ((offset + s.alen) % 4096) size
      st₁ b st₂) :
    Progress inos din i write buf offset st x
      ⟨st₂, x₁, s.alen + size, data⟩ := by
  have hb := hl.slot
  subst hb
  have hmoved := hl.moves hi h.moves.mapped hreach
  have hslot := hop.slot hi hl.sound hl.ne
  have hbyte {p : Nat} (hp : st₁.slot x₁.din (p / 4096) ≠ 0) :=
    hop.byteAt hi hl.sound hl.ne hsize hp
  have hloaded {p : Nat} (hp : s.st.slot s.sin.din (p / 4096) ≠ 0) :
      st₁.slot x₁.din (p / 4096) ≠ 0 ∧
        st₁.byteAt x₁.din p = s.st.byteAt s.sin.din p := by
    obtain ⟨hne, hdisk⟩ := hl.holds hi hp
    refine ⟨hne, ?_⟩
    unfold Store.byteAt
    rw [hdisk]
  refine ⟨?_, hl.size.trans h.size, ?_, ?_, ?_, ?_⟩
  · have hfirst : Moves inos din i
        (fun p => write ∧ offset ≤ p ∧ p < offset + (s.alen + size)) st x
        s.st s.sin :=
      h.moves.mono fun p hp => ⟨hp.1, hp.2.1, by omega⟩
    refine (hfirst.trans (hmoved _)).trans ?_
    refine (hop.moves hi hl.sound (hmoved fun _ => False).mapped
      hl.ne).mono fun p hp => ⟨hp.1, by omega, by omega⟩
  · rw [if_neg (show s.alen + size ≠ 0 by omega), hl.blocks, h.blocks]
    show _ = max _ ((offset + (s.alen + size) + 4095) / 4096)
    split <;> omega
  · intro p hp hs
    change ¬(write ∧ offset ≤ p ∧ p < offset + (s.alen + size)) at hp
    obtain ⟨hs', hheld⟩ := h.holds (p := p)
      (fun hc => hp ⟨hc.1, hc.2.1, by omega⟩) hs
    obtain ⟨hne, hload⟩ := hloaded hs'
    rw [hslot, hbyte hne, if_neg fun hc => hp ⟨hc.1, by omega, by omega⟩]
    exact ⟨hne, hload.trans hheld⟩
  · intro hw p hlow hhigh
    change p < offset + (s.alen + size) at hhigh
    by_cases hold : p < offset + s.alen
    · obtain ⟨hs', hwrote⟩ := h.wrote hw hlow hold
      obtain ⟨hne, hload⟩ := hloaded hs'
      rw [hslot, hbyte hne, if_neg (by omega)]
      exact ⟨hne, hload.trans hwrote⟩
    · have hpk : p / 4096 = (offset + s.alen) / 4096 := by omega
      have hne : st₁.slot x₁.din (p / 4096) ≠ 0 := by
        rw [hpk]
        exact hl.ne
      rw [hslot, hbyte hne, if_pos ⟨hw, by omega, by omega⟩, getD_drop,
        show s.alen + (p - (offset + s.alen)) = p - offset by omega]
      exact ⟨hne, rfl⟩
  · intro hzero
    change s.alen + size = 0 at hzero
    omega

theorem Progress.kept (hk : Kept s.st st') :
    Progress inos din i write buf offset st x { s with st := st' } where
  moves := h.moves.trans (hk.moves hi h.moves.sound h.moves.mapped _)
  size := h.size
  blocks := h.blocks
  holds hp hs := by
    obtain ⟨hne, hbyte⟩ := h.holds hp hs
    rw [hk.slot hi h.moves.sound, hk.byteAt hi h.moves.sound hne]
    exact ⟨hne, hbyte⟩
  wrote hw p hlow hhigh := by
    obtain ⟨hne, hbyte⟩ := h.wrote hw hlow hhigh
    rw [hk.slot hi h.moves.sound, hk.byteAt hi h.moves.sound hne]
    exact ⟨hne, hbyte⟩
  still hzero := by
    obtain ⟨hsin, hkept⟩ := h.still hzero
    exact ⟨hsin, hkept.trans hk⟩

theorem Progress.block_ends (size : Nat)
    (hpos : 0 < size) (hsize : (offset + s.alen) % 4096 + size ≤ 4096)
    (hoff : offset / 4096 ≤ x.din.blocks)
    (op : Store → List UInt8 → Nat → Except Fault (List UInt8 × Store))
    (hop : ∀ {st₁ b}, b ≠ 0 → b < st₁.blocks →
      ∃ data st₂, op st₁ (buf.drop s.alen) b = .ok (data, st₂) ∧
        OpSpec write (buf.drop s.alen) ((offset + s.alen) % 4096) size
          st₁ b st₂) :
    Ends inos din i write buf offset st x (s.alen + size)
      (s.block buf ((offset + s.alen) / 4096) size op) := by
  have hreach := h.reach hoff
  unfold IoState.block
  by_cases hk : (offset + s.alen) / 4096 < 1036
  swap
  · refine .inl ⟨by omega, ?_⟩
    rw [bmapLoad_beyond (by omega) hreach]
    rfl
  refine .inr ?_
  rcases bmapLoad_cases hi h.moves.sound hk hreach
    (h.moves.mapped _) with ⟨-, b, st₁, x₁, hload, hl⟩ |
      ⟨hneed, -, st₁, hload, hkept⟩
  · have hs : st₁.slot x₁.din ((offset + s.alen) / 4096) ≠ 0 := by
      rw [hl.slot]
      exact hl.ne
    have ho := @owns_data inos din i x₁.din hi st₁ _ hs
    rw [hl.slot] at ho
    obtain ⟨data, st₂, hrun, hspec⟩ := hop hl.ne (hl.sound.lt_blocks ho)
    refine ⟨(0, ⟨st₂, x₁, s.alen + size, s.data ++ data⟩), ?_,
      h.step hi hpos hsize hreach hl hspec, .inl ⟨rfl, rfl⟩⟩
    rw [hload]
    simp only [bind, Except.bind]
    rw [hrun]
    rfl
  · refine ⟨(-eNoMem, { s with st := st₁ }), ?_, h.kept hi hkept,
      .inr ⟨rfl, ?_, ?_⟩⟩
    · rw [hload]
      rfl
    · show s.alen < s.alen + size
      omega
    · show st₁.unusedBlocks < st₁.need s.sin.din _
      unfold Store.need
      rw [hkept.unused, hkept.slot hi h.moves.sound]
      exact hneed

theorem Progress.part_ends (size : Nat)
    (hpos : 0 < size) (hsize : (offset + s.alen) % 4096 + size ≤ 4096)
    (hoff : offset / 4096 ≤ x.din.blocks)
    (hbuf : write → s.alen + size ≤ buf.length) :
    Ends inos din i write buf offset st x (s.alen + size)
      (s.part write buf ((offset + s.alen) / 4096) size
        ((offset + s.alen) % 4096)) := by
  refine h.block_ends hi size hpos hsize hoff (fun st buf ino =>
    st.bufOp write buf size ino ((offset + s.alen) % 4096))
    fun hb hlt => bufOp_ok hb hlt hsize hpos fun hw => ?_
  have := hbuf hw
  rw [List.length_drop]
  omega

end

-- ===== the whole transfer

/-- A transfer that goes on where another ends. -/
theorem Ends.bind {target₁ target₂ : Nat} {run : Except Fault (Int × IoState)}
    {f : Int × IoState → Except Fault (Int × IoState)}
    (h : Ends inos din i write buf offset st x target₁ run)
    (hle : target₁ ≤ target₂)
    (hok : ∀ r, Progress inos din i write buf offset st x r.2 → r.1 = 0 →
      r.2.alen = target₁ → Ends inos din i write buf offset st x target₂ (f r))
    (hfail : ∀ r, r.1 = -eNoMem → f r = .ok r) :
    Ends inos din i write buf offset st x target₂ (run >>= f) := by
  rcases h with ⟨hlt, rfl⟩ | ⟨r, rfl, ht⟩
  · exact .inl ⟨by omega, rfl⟩
  show Ends inos din i write buf offset st x target₂ (f r)
  rcases ht.ret with ⟨hret, halen⟩ | ⟨hret, halen, hshort⟩
  · exact hok r ht.progress hret halen
  · rw [hfail r hret]
    exact .inr ⟨r, rfl, ht.progress, .inr ⟨hret, by omega, hshort⟩⟩

/-- The loop over the whole blocks, by induction on their number. -/
theorem IoState.wholes_ends (hi : i ∈ inos)
    (hoff : offset / 4096 ≤ x.din.blocks) (n : Nat) :
    ∀ {s : IoState}, Progress inos din i write buf offset st x s →
      (offset + s.alen) % 4096 = 0 →
      Ends inos din i write buf offset st x (s.alen + 4096 * n)
        (wholes write buf n ((offset + s.alen) / 4096) s) := by
  induction n with
  | zero =>
    intro s h _
    exact .inr ⟨(0, s), rfl, h, .inl ⟨rfl, rfl⟩⟩
  | succ n ih =>
    intro s h halign
    refine (h.block_ends hi 4096 (by omega) (by omega) hoff
      (fun st buf ino => st.blockOp write buf ino)
      fun hb hlt => by rw [halign]; exact blockOp_ok hb hlt).bind (by omega)
      (fun r hp hret halen => ?_) fun r hret => if_pos (by rw [hret]; decide)
    have hrest := ih hp (by omega)
    rw [show (offset + r.2.alen) / 4096 = (offset + s.alen) / 4096 + 1 by
      omega, show r.2.alen + 4096 * n = s.alen + 4096 * (n + 1) by omega]
      at hrest
    dsimp only
    rw [if_neg (by simp [hret])]
    exact hrest

theorem Progress.rest_ends (hi : i ∈ inos)
    (h : Progress inos din i write buf offset st x s)
    (hoff : offset / 4096 ≤ x.din.blocks)
    (halign : (offset + s.alen) % 4096 = 0) (endpos nblks : Nat)
    (hle : offset + s.alen ≤ endpos)
    (hn : nblks = endpos / 4096 - (offset + s.alen) / 4096)
    (hbuf : write → endpos - offset ≤ buf.length) :
    Ends inos din i write buf offset st x (endpos - offset)
      (IoState.rest write buf endpos ((offset + s.alen) / 4096) nblks s) := by
  refine (IoState.wholes_ends hi hoff nblks h halign).bind (by omega)
    (fun r hp hret halen => ?_) fun r hret => if_pos (by rw [hret]; decide)
  dsimp only
  rw [if_neg (by simp [hret])]
  by_cases htail : endpos % 4096 = 0
  · rw [if_neg (by simp [htail])]
    exact .inr ⟨(0, r.2), rfl, hp, .inl ⟨rfl, show r.2.alen = _ by omega⟩⟩
  · rw [if_pos htail]
    have hpart := hp.part_ends hi (endpos % 4096)
      (by omega) (by omega) hoff (fun hw => by have := hbuf hw; omega)
    rw [show (offset + r.2.alen) / 4096 =
        (offset + s.alen) / 4096 + nblks by omega,
      show (offset + r.2.alen) % 4096 = 0 by omega,
      show r.2.alen + endpos % 4096 = endpos - offset by omega] at hpart
    exact hpart

/-- The transfer of `[offset, endpos)`, when the file reaches up to
`offset` or the block before. -/
theorem IoState.move_ends (hi : i ∈ inos)
    (h : Sound (namesOf inos din i st x.din) st) (hm : Mapped st x.din)
    (hoff : offset / 4096 ≤ x.din.blocks) (hlt : offset < endpos)
    (hbuf : write → endpos - offset ≤ buf.length) :
    Ends inos din i write buf offset st x (endpos - offset)
      (move write buf offset endpos ⟨st, x, 0, []⟩) := by
  have hstart : Progress inos din i write buf offset st x ⟨st, x, 0, []⟩ :=
    .start h hm []
  unfold move
  dsimp only
  by_cases hhead : offset % 4096 = 0
  · rw [if_neg (by simp [hhead])]
    exact hstart.rest_ends hi hoff hhead endpos _ (Nat.le_of_lt hlt) rfl hbuf
  rw [if_pos hhead]
  by_cases hn : endpos / 4096 - offset / 4096 = 0
  · -- the range is inside of one block
    rw [if_neg (by simp [hn])]
    have hpart := hstart.part_ends hi (endpos - offset) (by omega)
      (by show (offset + 0) % 4096 + _ ≤ 4096; omega) hoff
      (fun hw => by have := hbuf hw; show 0 + _ ≤ _; omega)
    simp only [Nat.add_zero, Nat.zero_add] at hpart
    exact hpart.bind (Nat.le_refl _) (fun r hp hret halen => .inr
      ⟨r, if_pos (.inr hn), hp, .inl ⟨hret, halen⟩⟩)
      fun r _ => if_pos (.inr hn)
  · rw [if_pos hn]
    have hpart := hstart.part_ends hi (4096 - offset % 4096)
      (by omega) (by show (offset + 0) % 4096 + _ ≤ 4096; omega) hoff
      (fun hw => by have := hbuf hw; show 0 + _ ≤ _; omega)
    simp only [Nat.add_zero, Nat.zero_add] at hpart
    refine hpart.bind (by omega) (fun r hp hret halen => ?_) fun r hret =>
      if_pos (.inl (by rw [hret]; decide))
    rw [if_neg (by simp [hret, hn])]
    have hrest := hp.rest_ends hi hoff (by omega) endpos
      (endpos / 4096 - offset / 4096 - 1) (by omega) (by omega) hbuf
    rw [show (offset + r.2.alen) / 4096 = offset / 4096 + 1 by omega] at hrest
    exact hrest

/-- A transfer that begins past the blocks of the file stops the kernel. -/
theorem IoState.move_index (hlt : offset < endpos)
    (hoff : x.din.blocks < offset / 4096) :
    move write buf offset endpos ⟨st, x, 0, []⟩ = .error .bmapIndex := by
  have hblock (size : Nat)
      (op : Store → List UInt8 → Nat → Except Fault (List UInt8 × Store)) :
      block buf ⟨st, x, 0, []⟩ (offset / 4096) size op =
        .error .bmapIndex := by
    unfold block
    rw [bmapLoad_index hoff]
    rfl
  unfold move
  dsimp only
  by_cases hhead : offset % 4096 = 0
  · rw [if_neg (by simp [hhead])]
    unfold rest
    rcases Nat.eq_zero_or_pos (endpos / 4096 - offset / 4096) with hn | hn
    · rw [hn]
      unfold wholes
      simp only [bind, Except.bind]
      rw [if_neg (by simp), if_pos (by omega)]
      exact hblock ..
    · obtain ⟨n, hn⟩ := Nat.exists_eq_succ_of_ne_zero (Nat.ne_of_gt hn)
      rw [hn]
      unfold wholes
      rw [hblock]
      rfl
  · rw [if_pos hhead]
    unfold part
    rw [hblock]
    rfl

-- ===== reading

theorem slice_byteAt (h : pos % 4096 + size ≤ 4096) :
    Bytes.slice (st.disk (st.slot x.din (pos / 4096))) (pos % 4096) size =
      Bytes.slice (st.byteAt x.din) pos size := by
  refine Bytes.slice_congr fun j hj => ?_
  unfold Store.byteAt
  rw [show (pos + j) / 4096 = pos / 4096 by omega,
    show (pos + j) % 4096 = pos % 4096 + j by omega]

/-- A read that has got to `alen`. -/
def IoState.reading (st : Store) (x : Sin) (offset alen : Nat) : IoState :=
  ⟨st, x, alen, Bytes.slice (st.byteAt x.din) offset alen⟩

section Reading

variable (hi : i ∈ inos) (h : Sound (namesOf inos din i st x.din) st)
  (hm : Mapped st x.din)
  {alen pos : Nat}

include hi h hm

theorem IoState.block_reading (buf : List UInt8)
    (size : Nat) (hpos : pos = offset + alen)
    (hsize : pos % 4096 + size ≤ 4096) (hlt : pos / 4096 < x.din.blocks)
    (op : Store → List UInt8 → Nat → Except Fault (List UInt8 × Store))
    (hop : ∀ buf, op st buf (st.slot x.din (pos / 4096)) = .ok
      (Bytes.slice (st.disk (st.slot x.din (pos / 4096))) (pos % 4096) size,
        st)) :
    (reading st x offset alen).block buf (pos / 4096) size op =
      .ok (0, reading st x offset (alen + size)) := by
  unfold block
  dsimp only [reading]
  rw [bmapLoad_found hi h hlt (hm _ hlt)]
  simp only [bind, Except.bind]
  rw [hop, slice_byteAt hsize, Bytes.slice_append, hpos]
  rfl

theorem IoState.part_reading {size : Nat}
    (hpos : pos = offset + alen) (hsize : pos % 4096 + size ≤ 4096)
    (hlt : pos / 4096 < x.din.blocks) :
    (reading st x offset alen).part false buf (pos / 4096) size
        (pos % 4096) = .ok (0, reading st x offset (alen + size)) := by
  have hs := hm _ hlt
  refine block_reading hi h hm buf size hpos hsize hlt _ fun buf => ?_
  unfold Store.bufOp Store.rbuf
  rw [ensure_pos (by omega),
    Store.rblock_ok hs (h.lt_blocks (owns_data hi hs))]
  rfl

theorem IoState.wholes_reading (n : Nat) :
    ∀ (pos alen : Nat), pos = offset + alen → pos % 4096 = 0 →
      pos / 4096 + n ≤ x.din.blocks →
      wholes false buf n (pos / 4096) (reading st x offset alen) =
        .ok (0, reading st x offset (alen + 4096 * n)) := by
  induction n with
  | zero =>
    intro pos alen _ _ _
    rfl
  | succ n ih =>
    intro pos alen hpos halign hle
    have hlt : pos / 4096 < x.din.blocks := by omega
    have hs := hm _ hlt
    have hblock := block_reading hi h hm buf 4096 hpos (by omega) hlt
      (fun st buf ino => st.blockOp false buf ino) fun buf => by
        unfold Store.blockOp
        rw [Store.rblock_ok hs (h.lt_blocks (owns_data hi hs)), halign]
        rfl
    have hrest := ih (pos + 4096) (alen + 4096) (by omega) (by omega)
      (by omega)
    unfold wholes
    rw [hblock]
    simp only [bind, Except.bind]
    rw [if_neg (by simp), show pos / 4096 + 1 = (pos + 4096) / 4096 by omega,
      hrest, show alen + 4096 + 4096 * n = alen + 4096 * (n + 1) by omega]

theorem IoState.rest_reading {endpos nblks : Nat}
    (hpos : pos = offset + alen) (halign : pos % 4096 = 0)
    (hle : pos ≤ endpos) (hn : nblks = endpos / 4096 - pos / 4096)
    (hend : endpos ≤ 4096 * x.din.blocks) :
    rest false buf endpos (pos / 4096) nblks (reading st x offset alen) =
      .ok (0, reading st x offset (endpos - offset)) := by
  unfold rest
  rw [wholes_reading hi h hm nblks pos alen hpos halign (by omega)]
  simp only [bind, Except.bind]
  rw [if_neg (by simp)]
  by_cases htail : endpos % 4096 = 0
  · rw [if_neg (by simp [htail]),
      show alen + 4096 * nblks = endpos - offset by omega]
    rfl
  · have hpart := @part_reading inos din i buf offset st x hi h hm _ _ _
      (show pos + 4096 * nblks = offset + (alen + 4096 * nblks) by omega)
      (show _ + endpos % 4096 ≤ _ by omega) (by omega)
    rw [if_pos htail]
    rw [show (pos + 4096 * nblks) / 4096 = pos / 4096 + nblks by omega,
      show (pos + 4096 * nblks) % 4096 = 0 by omega,
      show alen + 4096 * nblks + endpos % 4096 = endpos - offset by omega]
      at hpart
    exact hpart

/-- A read of bytes that the file has blocks for. -/
theorem IoState.move_reading {endpos : Nat} (hlt : offset < endpos)
    (hend : endpos ≤ 4096 * x.din.blocks) :
    move false buf offset endpos ⟨st, x, 0, []⟩ =
      .ok (0, reading st x offset (endpos - offset)) := by
  have hstart : (⟨st, x, 0, []⟩ : IoState) = reading st x offset 0 := rfl
  rw [hstart]
  unfold move
  dsimp only
  by_cases hhead : offset % 4096 = 0
  · rw [if_neg (by simp [hhead])]
    exact rest_reading hi h hm rfl hhead (Nat.le_of_lt hlt) rfl hend
  rw [if_pos hhead]
  by_cases hn : endpos / 4096 - offset / 4096 = 0
  · rw [if_neg (by simp [hn]), part_reading hi h hm
      (show offset = offset + 0 from rfl) (by omega) (by omega)]
    simp only [bind, Except.bind]
    rw [if_pos (.inr hn), Nat.zero_add]
    rfl
  · rw [if_pos hn, part_reading hi h hm (show offset = offset + 0 from rfl)
      (by omega) (by omega)]
    simp only [bind, Except.bind]
    rw [if_neg (by simp [hn])]
    have hrest := @rest_reading inos din i buf offset st x hi h hm _ _ _ _
      (show offset / 4096 * 4096 + 4096 =
        offset + (0 + (4096 - offset % 4096)) by omega) (by omega)
      (show _ ≤ endpos by omega) rfl hend
    rw [show (offset / 4096 * 4096 + 4096) / 4096 = offset / 4096 + 1
      by omega, show endpos / 4096 - (offset / 4096 + 1) =
        endpos / 4096 - offset / 4096 - 1 by omega] at hrest
    exact hrest

end Reading

-- ===== `sfs_io_nolock`

/-- What a transfer of `[offset, endpos)` comes to. -/
structure IoDone (inos : Finset Nat) (din : Nat → DiskInode) (i : Nat)
    (write : Bool) (buf : List UInt8) (offset endpos : Nat) (st : Store)
    (x : Sin) (r : Done) : Prop where
  moves : Moves inos din i
    (fun p => write ∧ offset ≤ p ∧ p < offset + r.alen) st x r.st r.sin
  size : r.sin.din.size = max x.din.size (offset + r.alen)
  blocks : r.sin.din.blocks =
    if r.alen = 0 then x.din.blocks
    else max x.din.blocks ((offset + r.alen + 4095) / 4096)
  holds : ∀ {p}, ¬(write ∧ offset ≤ p ∧ p < offset + r.alen) →
    st.slot x.din (p / 4096) ≠ 0 →
    r.st.slot r.sin.din (p / 4096) ≠ 0 ∧
      r.st.byteAt r.sin.din p = st.byteAt x.din p
  wrote : write → ∀ {p}, offset ≤ p → p < offset + r.alen →
    r.st.slot r.sin.din (p / 4096) ≠ 0 ∧
      r.st.byteAt r.sin.din p = buf.getD (p - offset) 0
  ret : (r.ret = 0 ∧ offset + r.alen = endpos) ∨
    (r.ret = -eNoMem ∧ offset + r.alen < endpos ∧
      r.st.unusedBlocks <
        r.st.need r.sin.din ((offset + r.alen) / 4096))
  none : r.alen = 0 → Kept st r.st ∧
    st.unusedBlocks < st.need x.din (offset / 4096) ∧
    r.sin = if x.din.size < offset then x.setSize offset else x

/-- Where nothing moved the first block could not be had. -/
theorem Transferred.none {r : Int × IoState} {target : Nat}
    (hi : i ∈ inos) (hpos : 0 < target)
    (hs : Sound (namesOf inos din i st x.din) st)
    (h : Transferred inos din i write buf offset st x target r)
    (hzero : r.2.alen = 0) : r.2.sin = x ∧ Kept st r.2.st ∧
      st.unusedBlocks < st.need x.din (offset / 4096) := by
  obtain ⟨hsin, hkept⟩ := h.progress.still hzero
  refine ⟨hsin, hkept, ?_⟩
  rcases h.ret with ⟨-, ha⟩ | ⟨-, -, hshort⟩
  · omega
  · unfold IoState.Short at hshort
    rw [hzero, hsin, hkept.unused] at hshort
    unfold Store.need at hshort ⊢
    rwa [hkept.slot hi hs] at hshort

theorem Transferred.ioOut {r : Int × IoState} (hi : i ∈ inos)
    (hs : Sound (namesOf inos din i st x.din) st) (hlt : offset < endpos)
    (h : Transferred inos din i write buf offset st x (endpos - offset) r) :
    IoDone inos din i write buf offset endpos st x (Store.ioOut offset r) := by
  have hp := h.progress
  have hret : ∀ {m : Nat}, (r.1 = 0 ∧ r.2.alen = endpos - offset) ∨
      (r.1 = -eNoMem ∧ r.2.alen < endpos - offset ∧ r.2.Short offset) →
      m = offset + r.2.alen → (r.1 = 0 ∧ m = endpos) ∨
      (r.1 = -eNoMem ∧ m < endpos ∧ r.2.st.unusedBlocks <
        r.2.st.need r.2.sin.din (m / 4096)) := by
    rintro m (⟨hr, ha⟩ | ⟨hr, ha, hs⟩) rfl
    · exact .inl ⟨hr, by omega⟩
    · exact .inr ⟨hr, by omega, hs⟩
  unfold Store.ioOut
  dsimp only
  by_cases hsize : r.2.sin.din.size < offset + r.2.alen
  · rw [if_pos hsize]
    rw [hp.size] at hsize
    refine ⟨hp.moves.setSize _, ?_, hp.blocks, hp.holds, hp.wrote,
      hret h.ret rfl, ?_⟩
    · show offset + r.2.alen = max x.din.size (offset + r.2.alen)
      omega
    · intro hzero
      change r.2.alen = 0 at hzero
      obtain ⟨hsin, hkept, hshort⟩ := h.none hi (by omega) hs hzero
      refine ⟨hkept, hshort, ?_⟩
      rw [if_pos (by omega), hsin, hzero]
      rfl
  · rw [if_neg hsize]
    rw [hp.size] at hsize
    refine ⟨hp.moves, ?_, hp.blocks, hp.holds, hp.wrote, hret h.ret rfl, ?_⟩
    · show r.2.sin.din.size = max x.din.size (offset + r.2.alen)
      rw [hp.size]
      omega
    · intro hzero
      obtain ⟨hsin, hkept, hshort⟩ := h.none hi (by omega) hs hzero
      refine ⟨hkept, hshort, ?_⟩
      rw [if_neg (by omega)]
      exact hsin

theorem toOff_le {n : Int} (h : 0 ≤ n) : toOff n ≤ n := by
  unfold toOff Int.bmod
  dsimp only
  split <;> omega

theorem toOff_eq {n : Int} (h : 0 ≤ n) (hlt : n < 2 ^ 31) : toOff n = n := by
  unfold toOff Int.bmod
  dsimp only
  split <;> omega

/-- `sfs_io_nolock` returns at once, or makes a transfer of a range that is
in the file or, for a write, as long as the buffer. -/
theorem Store.io_eq (st : Store) (x : Sin) (write : Bool)
    (buf : List UInt8) (offset : Int) (len : Nat)
    (htype : x.din.type ≠ sfsTypeDir) :
    (∃ ret, st.ioNolock x write buf offset len = .ok (st.done x ret)) ∨
    ∃ off endpos : Nat, offset = off ∧ off < endpos ∧
      endpos ≤ sfsMaxFileSize ∧ endpos - off ≤ len ∧
      (write = false → endpos ≤ x.din.size) ∧
      st.ioNolock x write buf offset len = do
        let r ← IoState.move write buf off endpos ⟨st, x, 0, []⟩
        return ioOut off r := by
  unfold ioNolock
  rw [ensure_pos htype]
  by_cases hinval : offset < 0 ∨ sfsMaxFileSize ≤ offset ∨
      toOff (offset + len) < offset
  · rw [if_pos hinval]
    exact .inl ⟨_, rfl⟩
  rw [if_neg hinval]
  by_cases hempty : offset = toOff (offset + len)
  · rw [if_pos hempty]
    exact .inl ⟨_, rfl⟩
  rw [if_neg hempty]
  by_cases hpast : write = false ∧ x.din.size ≤ offset.toNat
  · rw [if_pos hpast]
    exact .inl ⟨_, rfl⟩
  rw [if_neg hpast]
  have hle : toOff (offset + len) ≤ offset + len := toOff_le (by omega)
  refine .inr ⟨offset.toNat, _, by omega, ?_, ?_, ?_, ?_, rfl⟩
  · cases write with
    | false => simp only [true_and] at hpast; split <;> omega
    | true => rw [if_pos rfl]; omega
  · split <;> omega
  · split <;> omega
  · intro hw
    rw [hw]
    exact Nat.min_le_right ..

theorem Store.io_dir (htype : x.din.type = sfsTypeDir) (offset : Int)
    (len : Nat) : st.ioNolock x write buf offset len = .error .isDir := by
  unfold ioNolock
  rw [ensure_neg (by simp [htype])]
  rfl

/-- `sfs_io_nolock` of a file. -/
theorem Store.io_cases (hi : i ∈ inos)
    (h : Sound (namesOf inos din i st x.din) st) (hm : Mapped st x.din)
    (htype : x.din.type ≠ sfsTypeDir) (write : Bool) (buf : List UInt8)
    (offset : Int) (len : Nat) (hbuf : write → buf.length = len) :
    (∃ ret, st.ioNolock x write buf offset len = .ok (st.done x ret)) ∨
    ∃ off endpos : Nat, offset = off ∧ off < endpos ∧
      endpos ≤ sfsMaxFileSize ∧ endpos - off ≤ len ∧
      (write = false → endpos ≤ x.din.size) ∧ ((x.din.blocks < off / 4096 ∧
          st.ioNolock x write buf offset len = .error .bmapIndex) ∨
        off / 4096 ≤ x.din.blocks ∧ ((1036 * 4096 < endpos ∧
            st.ioNolock x write buf offset len = .error .uninitialised) ∨
          ∃ r, st.ioNolock x write buf offset len = .ok r ∧
            IoDone inos din i write buf off endpos st x r)) := by
  rcases io_eq st x write buf offset len htype with hret |
    ⟨off, endpos, hoff, hlt, hmax, hlen, hread, hrun⟩
  · exact .inl hret
  refine .inr ⟨off, endpos, hoff, hlt, hmax, hlen, hread, ?_⟩
  rw [hrun]
  rcases Nat.lt_or_ge x.din.blocks (off / 4096) with hblocks | hblocks
  · refine .inl ⟨hblocks, ?_⟩
    rw [IoState.move_index hlt hblocks]
    rfl
  refine .inr ⟨hblocks, ?_⟩
  rcases IoState.move_ends hi h hm hblocks hlt
    (fun hw => by rw [hbuf hw]; exact hlen) with ⟨hbig, hmove⟩ | ⟨r, hmove, ht⟩
  · refine .inl ⟨by omega, ?_⟩
    rw [hmove]
    rfl
  · refine .inr ⟨ioOut off r, ?_, ht.ioOut hi h hlt⟩
    rw [hmove]
    rfl

end

end MipsUcore.Kern
