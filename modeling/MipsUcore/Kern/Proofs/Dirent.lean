/-
Do directory entries survive packing?

`add_entry` writes `sizeof(entry->name)` bytes of an entry, and four of
them are the inode number: 252 bytes of the name reach the image. The
kernel reads the block's zeros behind them, so a name comes back cut off at
252 bytes (`direntRead_addEntry`), which is the whole name unless it has
253 to 255.
-/
import MipsUcore.Kern.Dirent
import Mathlib.Data.List.TakeWhile

namespace MipsUcore.Kern

open Bytes

variable {mem mem' block : Nat → UInt8} {e : DirEntry}
  {blocks : List (Nat → UInt8)} {es : List DirEntry}

/-- A name and an inode number as `mksfs` has them. -/
structure DirEntry.Accepted (e : DirEntry) : Prop where
  ino : 0 < e.ino ∧ e.ino < 2 ^ 32
  length : 0 < e.name.length ∧ e.name.length ≤ sfsMaxFnameLen
  noNul : 0 ∉ e.name

/-- A string ends at its first NUL. -/
theorem cString_eq {f : Nat → UInt8} (name : List UInt8)
    (hlen : name.length ≤ sfsMaxFnameLen) (hnul : 0 ∉ name)
    (h : ∀ i < name.length, f i = name.getD i 0) (hend : f name.length = 0) :
    cString f = name := by
  obtain ⟨k, hk⟩ := Nat.exists_eq_add_of_le hlen
  have hfront : slice f 0 name.length = name := by
    refine List.ext_getElem (by simp [slice]) fun i hi hi' => ?_
    simp [slice, h i hi', hi']
  have hbytes : slice f 0 (sfsMaxFnameLen + 1) =
      name ++ 0 :: slice f (name.length + 1) k := by
    rw [show sfsMaxFnameLen + 1 = name.length + (1 + k) by omega,
      slice_append, slice_append, hfront, Nat.zero_add]
    simp [slice, hend]
  rw [cString, hbytes, List.takeWhile_append_of_pos]
  · simp
  · intro b hb
    simpa using ne_of_mem_of_not_mem hb hnul

/-- What comes back: the inode number, and 252 bytes of the name. -/
theorem direntRead_addEntry (he : e.Accepted)
    (h : addEntry mem e = some (mem', block)) :
    direntRead block = ⟨e.ino, e.name.take 252⟩ := by
  have hlen := he.length.2
  rw [addEntry, if_pos hlen] at h
  obtain ⟨block, hblock, heq⟩ := Option.map_eq_some_iff.1 h
  cases heq
  generalize hm : setWords mem _ = words at hblock
  -- inside the 256 bytes stands the entry, behind them nothing
  have hin : ∀ j < 256, block j = patch words 4 (e.name ++ [0]) j := by
    intro j hj
    rw [← Option.some.inj hblock]
    simp [patch, slice, sfsMaxFnameLen, hj]
  have hout : ∀ j, 256 ≤ j → block j = 0 := by
    intro j hj
    rw [← Option.some.inj hblock]
    simp [patch, slice, sfsMaxFnameLen, Nat.not_lt.2 hj]
  have hname : ∀ i < 252, i ≤ e.name.length →
      block (4 + i) = (e.name ++ [0]).getD i 0 := by
    intro i hi hle
    rw [hin _ (by omega), patch, if_pos]
    · simp
    · simp
      omega
  have hino : word block 0 = e.ino := by
    have hword : word words 0 = e.ino := by
      rw [← hm]
      exact word_setWords_some mem (if_pos rfl) he.ino.2
    have hlow : ∀ j < 4, block j = words j := by
      intro j hj
      rw [hin j (by omega), patch, if_neg (by omega)]
    rw [← hword]
    simp only [word]
    rw [hlow _ (by decide), hlow _ (by decide), hlow _ (by decide),
      hlow _ (by decide)]
  have hcut : (e.name.take 252).length = min 252 e.name.length :=
    List.length_take
  have hmax : sfsMaxFnameLen = 255 := rfl
  rw [direntRead, hino, cString_eq (e.name.take 252)]
  · omega
  · exact fun hmem => he.noNul (List.mem_of_mem_take hmem)
  · intro i hi
    rw [Function.update_of_ne (by omega), hname i (by omega) (by omega)]
    simp [List.getD_eq_getElem?_getD, show i < 252 by omega,
      List.getElem?_append_left (show i < e.name.length by omega)]
  · rw [Function.update_of_ne (by omega)]
    by_cases hlong : e.name.length < 252
    · rw [hname _ (by omega) (by omega), hcut, Nat.min_eq_right (by omega)]
      simp [List.getD_eq_getElem?_getD]
    · exact hout _ (by omega)

-- ===== directories

/-- Every directory can be packed, and comes back with its names cut. -/
theorem addEntries_read (hes : ∀ e ∈ es, e.Accepted)
    (mem : Nat → UInt8) : ∃ blocks, addEntries mem es = some blocks ∧
      blocks.map direntRead = es.map fun e => ⟨e.ino, e.name.take 252⟩ := by
  induction es generalizing mem with
  | nil => exact ⟨[], rfl, rfl⟩
  | cons e es ih =>
    obtain ⟨he, hes⟩ := List.forall_mem_cons.1 hes
    have hrun : ∃ r, addEntry mem e = some r := by
      rw [addEntry, if_pos he.length.2]
      exact ⟨_, rfl⟩
    obtain ⟨⟨mem', block⟩, hrun⟩ := hrun
    obtain ⟨blocks, hrest, hread⟩ := ih hes mem'
    refine ⟨block :: blocks, by simp [addEntries, hrun, hrest], ?_⟩
    rw [List.map_cons, direntRead_addEntry he hrun, hread, List.map_cons]

/-- Nothing is found that no entry is called. -/
theorem direntSearch_none {name : List UInt8}
    (h : ∀ b ∈ blocks, (direntRead b).name ≠ name) (i empty : Nat) :
    (direntSearch name blocks i empty).1 = none := by
  induction blocks generalizing i empty with
  | nil => rfl
  | cons b blocks ih =>
    obtain ⟨hb, h⟩ := List.forall_mem_cons.1 h
    rw [direntSearch, if_neg (Ne.symm hb)]
    split
    · exact ih h _ _
    · exact ih h _ _

theorem direntSearch_found (hread : blocks.map direntRead = es)
    (hino : ∀ e ∈ es, e.ino ≠ 0) (hnames : (es.map DirEntry.name).Nodup)
    {j : Nat} (hj : es[j]? = some e) (i empty : Nat) :
    (direntSearch e.name blocks i empty).1 = some (i + j, e.ino) := by
  induction es generalizing blocks i j with
  | nil => simp at hj
  | cons d es ih =>
    obtain ⟨b, blocks, rfl, rfl, hrest⟩ := List.map_eq_cons_iff.1 hread
    obtain ⟨hd, hino⟩ := List.forall_mem_cons.1 hino
    obtain ⟨hnew, hnames⟩ := List.nodup_cons.1 hnames
    rw [direntSearch, if_neg hd]
    cases j with
    | zero =>
      cases hj
      rw [if_pos rfl]
      rfl
    | succ j =>
      have hne : e.name ≠ (direntRead b).name := fun heq =>
        hnew (heq ▸ List.mem_map_of_mem (List.mem_of_getElem? hj))
      rw [if_neg hne, ih hrest hino hnames hj (i + 1)]
      simp [Nat.add_comm, Nat.add_left_comm]

/-- The kernel sees the directory that was packed. -/
structure Survives (es : List DirEntry) (blocks : List (Nat → UInt8)) :
    Prop where
  read : blocks.map direntRead = es
  found : ∀ i e, es[i]? = some e →
    (direntSearch e.name blocks 0 blocks.length).1 = some (i, e.ino)
  notFound : ∀ name, (∀ e ∈ es, e.name ≠ name) →
    (direntSearch name blocks 0 blocks.length).1 = none
  distinct : (blocks.map fun b => (direntRead b).name).Nodup

/-- A directory survives packing just if none of its names has more than
252 bytes. -/
theorem directory_survives_iff (hes : ∀ e ∈ es, e.Accepted)
    (hnames : (es.map DirEntry.name).Nodup) (mem : Nat → UInt8) :
    ∃ blocks, addEntries mem es = some blocks ∧
      (Survives es blocks ↔ ∀ e ∈ es, e.name.length ≤ 252) := by
  obtain ⟨blocks, hrun, hcut⟩ := addEntries_read hes mem
  refine ⟨blocks, hrun, fun h e he => ?_, fun hshort => ?_⟩
  · have hsame : es.map (fun e => (⟨e.ino, e.name.take 252⟩ : DirEntry)) =
        es.map id := by
      rw [← hcut, h.read, List.map_id]
    have htake : e.name.take 252 = e.name :=
      congrArg DirEntry.name (List.map_inj_left.1 hsame e he)
    rw [← htake]
    exact List.length_take_le ..
  · have hread : blocks.map direntRead = es := by
      rw [hcut]
      refine (List.map_congr_left fun e he => ?_).trans (List.map_id es)
      rw [List.take_of_length_le (hshort e he)]
      rfl
    refine ⟨hread, fun i e hi => ?_, fun name hname => ?_, ?_⟩
    · rw [direntSearch_found hread (fun e he => (hes e he).ino.1.ne') hnames
        hi, Nat.zero_add]
    · refine direntSearch_none (fun b hb => ?_) 0 _
      exact hname _ (hread ▸ List.mem_map_of_mem hb)
    · rw [← hread, List.map_map] at hnames
      exact hnames

theorem directory_survives_iff_cat :
    ∃ blocks, addEntries (fun _ => 7) [⟨9, [99, 97, 116]⟩] = some blocks ∧
      (Survives [⟨9, [99, 97, 116]⟩] blocks ↔
        ∀ e ∈ [(⟨9, [99, 97, 116]⟩ : DirEntry)], e.name.length ≤ 252) :=
  directory_survives_iff
    (by simpa using ⟨by decide, by decide, by decide⟩) (by simp) _

/-- Two files with names of 253 bytes: both come back under the same name,
and a search for the second one finds nothing. -/
theorem names_of_253_bytes_collide :
    (addEntries (fun _ => 0) [⟨3, .replicate 252 97 ++ [98]⟩,
        ⟨5, .replicate 252 97 ++ [99]⟩]).map (fun blocks =>
      (blocks.map direntRead,
        (direntSearch (.replicate 252 97 ++ [99]) blocks 0 2).1)) =
      some ([⟨3, .replicate 252 97⟩, ⟨5, .replicate 252 97⟩], none) := by
  decide +kernel

end MipsUcore.Kern
