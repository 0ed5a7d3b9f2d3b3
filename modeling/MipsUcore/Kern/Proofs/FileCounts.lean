/-
The counts of inodes when a file table is copied and dropped again.

# The account

What a copied table adds to the counts of an inode is the number of its
opened slots that name it (`opens`). `dup_fs` adds exactly that and
`fs_destroy` takes exactly that away; in between no count falls to 0, as
long as the table that was copied still holds its own references. So the
file system is never asked to close or reclaim anything, whatever its
operations are.
-/
import MipsUcore.Kern.Files

namespace MipsUcore.Kern

open Function

namespace Files

variable {s t : Files} {v : Vops} {a old : Nat} {new : List File}

/-- How many of the slots are open on the inode. -/
def opens (files : List File) (i : Nat) : Int :=
  (files.countP fun f => f.status = .opened ∧ f.node = some i : Nat)

/-- The counts with a number of references added. -/
def addCounts (s : Files) (n : Nat → Int) : Files :=
  { s with
    refCount := fun i => s.refCount i + n i
    openCount := fun i => s.openCount i + n i }

theorem opens_nonneg (files : List File) (i : Nat) : 0 ≤ opens files i :=
  Int.natCast_nonneg _

theorem opens_cons (f : File) (files : List File) (i : Nat) :
    opens (f :: files) i = opens files i +
      if f.status = .opened ∧ f.node = some i then 1 else 0 := by
  rw [opens, opens, List.countP_cons]
  by_cases h : f.status = .opened ∧ f.node = some i
  · simp [h]
  · simp [h]

/-- A file that is opened is opened on an inode. -/
def OnNode (f : File) : Prop := f.status = .opened → f.node.isSome

theorem opens_cons_of_none {f : File} (files : List File)
    (h : f.status = .none) : opens (f :: files) = opens files := by
  funext i
  rw [opens_cons, h, if_neg (by simp), Int.add_zero]

theorem opens_cons_of_opened {f : File} (files : List File) {i : Nat}
    (h : f.status = .opened) (hi : f.node = some i) :
    opens (f :: files) = fun j => opens files j + if i = j then 1 else 0 := by
  funext j
  rw [opens_cons, h, hi]
  simp

theorem opens_fresh {slots : List File} (h : ∀ f ∈ slots, f.status = .none) :
    opens slots = fun _ => 0 := by
  induction slots with
  | nil => rfl
  | cons f slots ih =>
    rw [opens_cons_of_none slots (h f List.mem_cons_self)]
    exact ih fun g hg => h g (.tail f hg)

theorem addCounts_zero (s : Files) : s.addCounts (fun _ => 0) = s := by
  simp [addCounts]

/-- One more open file. -/
theorem addCounts_open (s : Files) (i : Nat) (n : Nat → Int) :
    ((s.refInc i).openInc i).addCounts n
      = s.addCounts fun j => n j + if i = j then 1 else 0 := by
  have hone : ∀ (c : Nat → Int) (j : Nat),
      update c i (c i + 1) j + n j
        = c j + (n j + if i = j then 1 else 0) := by
    intro c j
    by_cases hj : i = j
    · subst hj
      rw [update_self, if_pos rfl]
      omega
    · rw [update_of_ne (Ne.symm hj), if_neg hj, Int.add_zero]
  simp only [addCounts, refInc, openInc, hone]

/-- A slot without a file, or with a file of its own on an inode. -/
def Slot (f : File) : Prop :=
  f.status = .none ∨ f.status = .opened ∧ f.openCount = 1 ∧ f.node.isSome

/-- `filemap_dup` of an open file. -/
theorem filemapDup_spec {slot file : File} {i : Nat}
    (hcount : slot.openCount = 0) (hopen : file.status = .opened)
    (hi : file.node = some i) :
    ∃ f, s.filemapDup { slot with status := .init } file
        = some ((s.refInc i).openInc i, f) ∧
      f.status = .opened ∧ f.openCount = 1 ∧ f.node = some i := by
  rw [filemapDup, if_pos hopen, hi]
  refine ⟨_, rfl, rfl, ?_, rfl⟩
  rw [hcount]
  rfl

/-- The loop of `dup_fs`: every slot it opens is open on an inode of the
source. -/
theorem dupFiles_spec {slots files : List File}
    (hslots : ∀ f ∈ slots, f.status = .none ∧ f.openCount = 0)
    (hfiles : ∀ f ∈ files, OnNode f) :
    ∃ new, dupFiles slots files s = some (s.addCounts (opens new), new) ∧
      (∀ f ∈ new, Slot f) ∧
      ∀ i, 0 < opens new i → ∃ f ∈ files, f.status = .opened ∧
        f.node = some i := by
  -- where one list ends nothing is opened any more
  have hend : ∀ {slots files : List File} {s : Files},
      (∀ f ∈ slots, f.status = .none ∧ f.openCount = 0) →
      dupFiles slots files s = some (s, slots) →
      ∃ new, dupFiles slots files s = some (s.addCounts (opens new), new) ∧
        (∀ f ∈ new, Slot f) ∧ ∀ i, 0 < opens new i →
          ∃ f ∈ files, f.status = .opened ∧ f.node = some i := by
    intro slots files s h hrun
    have hzero := opens_fresh fun f hf => (h f hf).1
    refine ⟨slots, ?_, fun f hf => .inl (h f hf).1, fun i hi => ?_⟩
    · rw [hrun, hzero, addCounts_zero]
    · rw [hzero] at hi
      exact absurd hi (Int.lt_irrefl 0)
  induction slots generalizing files s with
  | nil => exact hend hslots (by cases files <;> rfl)
  | cons slot slots ih =>
    cases files with
    | nil => exact hend hslots rfl
    | cons file files =>
      obtain ⟨hnone, hcount⟩ := hslots slot List.mem_cons_self
      have hslots' : ∀ f ∈ slots, f.status = .none ∧ f.openCount = 0 :=
        fun f hf => hslots f (.tail slot hf)
      have hfiles' : ∀ f ∈ files, OnNode f :=
        fun f hf => hfiles f (.tail file hf)
      rw [dupFiles]
      by_cases hopen : file.status = .opened
      · obtain ⟨i, hi⟩ := Option.isSome_iff_exists.1
          (hfiles file List.mem_cons_self hopen)
        obtain ⟨new, hrun, hnew, hfrom⟩ :=
          ih (s := (s.refInc i).openInc i) hslots' hfiles'
        obtain ⟨f, hdup, hopen', hcount', hi'⟩ :=
          filemapDup_spec (s := s) hcount hopen hi
        rw [if_pos hopen, hdup, Option.bind_some, hrun]
        refine ⟨f :: new, ?_, ?_, ?_⟩
        · rw [opens_cons_of_opened new hopen' hi', ← addCounts_open]
          rfl
        · intro g hg
          rcases List.mem_cons.1 hg with rfl | hg
          · exact .inr ⟨hopen', hcount', by rw [hi']; rfl⟩
          · exact hnew g hg
        · intro j hj
          rw [opens_cons_of_opened new hopen' hi'] at hj
          by_cases hij : i = j
          · exact ⟨file, List.mem_cons_self, hopen, hij ▸ hi⟩
          · simp only [if_neg hij, Int.add_zero] at hj
            obtain ⟨f, hf, h⟩ := hfrom j hj
            exact ⟨f, .tail file hf, h⟩
      · obtain ⟨new, hrun, hnew, hfrom⟩ := ih (s := s) hslots' hfiles'
        rw [if_neg hopen, hrun]
        refine ⟨slot :: new, ?_, ?_, ?_⟩
        · rw [opens_cons_of_none new hnone]
          rfl
        · intro f hf
          rcases List.mem_cons.1 hf with rfl | hf
          · exact .inl hnone
          · exact hnew f hf
        · intro j hj
          rw [opens_cons_of_none new hnone] at hj
          obtain ⟨f, hf, h⟩ := hfrom j hj
          exact ⟨f, .tail file hf, h⟩

-- ===== dropping

/-- A reference that is not the last. -/
theorem refDec_eq {i : Nat} (h : 1 < s.refCount i) :
    s.refDec v i = some { s with
      refCount := update s.refCount i (s.refCount i - 1) } := by
  have hne : ¬s.refCount i - 1 = 0 := by omega
  simp only [refDec, update_self, if_pos (show 0 < s.refCount i by omega),
    if_neg hne]

theorem openDec_eq {i : Nat} (h : 1 < s.openCount i) :
    s.openDec v i = some { s with
      openCount := update s.openCount i (s.openCount i - 1) } := by
  have hne : ¬s.openCount i - 1 = 0 := by omega
  simp only [openDec, update_self,
    if_pos (show 0 < s.openCount i by omega), if_neg hne]

/-- The inode keeps a reference when the slots are closed. -/
def Spare (s : Files) (files : List File) : Prop :=
  ∀ i, 0 < opens files i →
    opens files i < s.refCount i ∧ opens files i < s.openCount i

/-- Closing a file of a table. -/
theorem filemapClose_eq {f : File} {i : Nat} (hopen : f.status = .opened)
    (hcount : f.openCount = 1) (hi : f.node = some i)
    (href : 1 < s.refCount i) (hopens : 1 < s.openCount i) :
    s.filemapClose v f = some (s.addCounts fun j => if i = j then -1 else 0,
        { f with status := .none, openCount := 0 }) := by
  have hone : ∀ (c : Nat → Int), update c i (c i - 1)
      = fun j => c j + if i = j then -1 else 0 := by
    intro c
    funext j
    by_cases hj : i = j
    · subst hj
      rw [update_self, if_pos rfl]
      omega
    · rw [update_of_ne (Ne.symm hj), if_neg hj, Int.add_zero]
  have hclose : s.vfsClose v i
      = some (s.addCounts fun j => if i = j then -1 else 0) := by
    rw [vfsClose, openDec_eq hopens, Option.bind_some,
      refDec_eq (by exact href), addCounts, hone, hone]
  simp [filemapClose, filemapFree, hopen, hcount, hi, hclose]

/-- The loop of `fs_destroy`. -/
theorem closeFiles_eq {files : List File} (hslots : ∀ f ∈ files, Slot f)
    (hspare : s.Spare files) :
    closeFiles v files s = some (s.addCounts fun i => -opens files i) := by
  induction files generalizing s with
  | nil =>
    exact congrArg some (addCounts_zero s).symm
  | cons f files ih =>
    have hslots' : ∀ g ∈ files, Slot g := fun g hg => hslots g (.tail f hg)
    rw [closeFiles]
    rcases hslots f List.mem_cons_self with hnone | ⟨hopen, hcount, hnode⟩
    · have hspare' : s.Spare files := by
        rw [Spare, opens_cons_of_none files hnone] at hspare
        exact hspare
      have hclosed : ¬f.status = .opened := by rw [hnone]; decide
      rw [if_neg hclosed, opens_cons_of_none files hnone]
      show (if f.status = .none then _ else _) = _
      rw [if_pos hnone]
      exact ih hslots' hspare'
    · obtain ⟨i, hi⟩ := Option.isSome_iff_exists.1 hnode
      simp only [Spare, opens_cons_of_opened files hopen hi] at hspare
      have hlast := opens_nonneg files i
      have hself := hspare i (by rw [if_pos rfl]; omega)
      rw [if_pos hopen, filemapClose_eq hopen hcount hi (by omega) (by omega)]
      show closeFiles v files _ = _
      rw [ih hslots']
      · rw [opens_cons_of_opened files hopen hi]
        simp only [addCounts]
        congr 2
        · funext j
          split <;> omega
        · funext j
          split <;> omega
      · intro j hj
        have := hspare j (by split <;> omega)
        simp only [addCounts]
        by_cases hij : i = j
        · rw [if_pos hij] at this ⊢
          omega
        · rw [if_neg hij] at this ⊢
          omega

-- ===== file tables

/-- The table at `a` is in use and holds a reference to each inode it
names. -/
structure Sound (s : Files) (a : Nat) : Prop where
  count : 0 < (s.fs a).fsCount
  pwd : ∀ i ∈ (s.fs a).pwd, 0 < s.refCount i
  files : ∀ f ∈ (s.fs a).filemap, f.status = .opened →
    ∃ i, f.node = some i ∧ 0 < s.refCount i ∧ 0 < s.openCount i

/-- The new table of `fs_create`. -/
theorem filemapInit_fresh (old : List File) :
    ∀ f ∈ filemapInit old, f.status = .none ∧ f.openCount = 0 := by
  intro f hf
  obtain ⟨fd, -, rfl⟩ := List.mem_map.1 hf
  exact ⟨rfl, rfl⟩

theorem fsCountAdd_cancel (s : Files) (a : Nat) :
    (s.fsCountAdd a 1).fsCountAdd a (-1) = s := by
  simp [fsCountAdd, setFs]

/-- The reference to the working directory. -/
def addPwd (s : Files) (pwd : Option Nat) : Files := pwd.elim s s.refInc

theorem addPwd_fs (s : Files) (pwd : Option Nat) :
    (s.addPwd pwd).fs = s.fs := by
  cases pwd <;> rfl

/-- `dup_fs` into a new table. -/
theorem dupFs_eq (h : s.Sound old) (hne : old ≠ a) :
    ∃ new, (s.fsCreate a).dupFs a old = some
        (((s.fsCreate a).addPwd (s.fs old).pwd).addCounts (opens new) |>.setFs a
          ⟨(s.fs old).pwd, new, 0⟩) ∧
      (∀ f ∈ new, Slot f) ∧
      ∀ i, 0 < opens new i → 0 < s.refCount i ∧ 0 < s.openCount i := by
  have hold : (s.fsCreate a).fs old = s.fs old := update_of_ne hne _ _
  have hnew : (s.fsCreate a).fs a
      = ⟨none, filemapInit (s.fs a).filemap, 0⟩ := update_self _ _ _
  obtain ⟨new, hrun, hslots, hfrom⟩ :=
    dupFiles_spec (s := (s.fsCreate a).addPwd (s.fs old).pwd)
      (filemapInit_fresh (s.fs a).filemap)
      fun f (hf : f ∈ (s.fs old).filemap) hopen => by
        obtain ⟨i, hi, -⟩ := h.files f hf hopen
        rw [hi]
        rfl
  refine ⟨new, ?_, hslots, fun i hi => ?_⟩
  · have hcond : ((s.fsCreate a).fs a).fsCount = 0 ∧
        0 < ((s.fsCreate a).fs old).fsCount := by
      rw [hnew, hold]
      exact ⟨rfl, h.count⟩
    have hpwd (pwd : Option Nat) : pwd.elim (s.fsCreate a)
        (s.fsCreate a).refInc = (s.fsCreate a).addPwd pwd := rfl
    rw [dupFs, if_pos hcond]
    simp only [hpwd, addPwd_fs, hnew, hold, hrun]
    rfl
  · obtain ⟨f, hf, hopen, hnode⟩ := hfrom i hi
    obtain ⟨j, hj, hpos⟩ := h.files f hf hopen
    have hij : j = i := Option.some.inj (hj.symm.trans hnode)
    exact hij ▸ hpos

/-- The reference to the working directory is given back. -/
theorem dropPwd_eq (v : Vops) (pwd : Option Nat)
    (hcounts : ∀ i, t.refCount i = (s.addPwd pwd).refCount i + opens new i)
    (hpos : ∀ i ∈ pwd, 0 < s.refCount i) : pwd.elim (some t) (t.refDec v)
      = some { t with refCount := fun i => s.refCount i + opens new i } := by
  cases pwd with
  | none =>
    have hsame : t.refCount = fun i => s.refCount i + opens new i :=
      funext hcounts
    rw [← hsame]
    rfl
  | some j =>
    have hj := hpos j rfl
    have hother : ∀ i, t.refCount i
        = update s.refCount j (s.refCount j + 1) i + opens new i :=
      hcounts
    have hself := hother j
    rw [update_self] at hself
    have hnonneg := opens_nonneg new j
    show t.refDec v j = _
    rw [refDec_eq (by omega)]
    congr 2
    funext i
    by_cases hij : i = j
    · subst hij
      rw [update_self]
      omega
    · rw [update_of_ne hij, hother, update_of_ne hij]

/-- A copied table can be dropped, and the counts are as they were. -/
theorem dupFs_undo (v : Vops) (h : s.Sound old) (hne : old ≠ a) :
    ∃ t w, (s.fsCreate a).dupFs a old = some t ∧
      (t.fs a).fsCount = 0 ∧ t.fsDestroy v a = some w ∧
      w.refCount = s.refCount ∧ w.openCount = s.openCount ∧
      ∀ y, y ≠ a → w.fs y = s.fs y := by
  obtain ⟨new, hrun, hslots, hpos⟩ := dupFs_eq h hne
  generalize ht : (((s.fsCreate a).addPwd (s.fs old).pwd).addCounts
    (opens new)).setFs a ⟨(s.fs old).pwd, new, 0⟩ = t at hrun
  have hself : t.fs a = ⟨(s.fs old).pwd, new, 0⟩ := by
    rw [← ht]
    exact update_self ..
  have hother : ∀ y, y ≠ a → t.fs y = s.fs y := by
    intro y hy
    rw [← ht]
    refine (update_of_ne hy _ _).trans ?_
    show ((s.fsCreate a).addPwd (s.fs old).pwd).fs y = _
    rw [addPwd_fs]
    exact update_of_ne hy _ _
  have href : ∀ i, t.refCount i
      = (s.addPwd (s.fs old).pwd).refCount i + opens new i := by
    intro i
    rw [← ht]
    cases (s.fs old).pwd <;> rfl
  have hopen : ∀ i, t.openCount i = s.openCount i + opens new i := by
    intro i
    rw [← ht]
    cases (s.fs old).pwd <;> rfl
  have hspare : Spare { t with
      refCount := fun i => s.refCount i + opens new i } new := by
    intro i hi
    obtain ⟨hpos, hpos'⟩ := hpos i hi
    refine ⟨?_, ?_⟩
    · show _ < s.refCount i + opens new i
      omega
    · show _ < t.openCount i
      rw [hopen]
      omega
  have hdrop : t.fsDestroy v a = some (addCounts { t with
      refCount := fun i => s.refCount i + opens new i }
        fun i => -opens new i) := by
    rw [fsDestroy, hself, if_pos rfl]
    rw [dropPwd_eq v (s.fs old).pwd href h.pwd, Option.bind_some]
    exact closeFiles_eq hslots hspare
  refine ⟨t, _, hrun, by rw [hself], hdrop, ?_, ?_, hother⟩
  · funext i
    show s.refCount i + opens new i + -opens new i = _
    omega
  · funext i
    show t.openCount i + -opens new i = _
    rw [hopen]
    omega

end Files

end MipsUcore.Kern
