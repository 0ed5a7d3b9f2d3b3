/-
The slots of a shared file table follow one protocol, whatever the threads
do and wherever they are suspended.

# The protocol

`SlotPhase` is what a slot is to the inodes: it is free, claimed by a
thread that has no inode yet, holds an inode, has given it to `vfs_close`,
or waits to be freed when that has returned. `SlotPhase.next` is the only
way around.

# The invariant

`SlotOk` ties the three views of a slot together: its fields, what the
threads are doing with it (`FileRole`), and its phase. There is one case
for each status, two for `FD_CLOSED`: while users are left the inode is
still held, and when the last one is gone exactly one thread is inside
`vfs_close`. Every step moves one thread at one slot, so a step lemma is a
lemma on `SlotOk` with one role changed; only `fs_closeall` goes over
several slots, and it is at none of them while it does.
-/
import MipsUcore.Lib.Tally
import MipsUcore.Kern.FileTable
import MipsUcore.Kern.Proofs.FileCounts
import Mathlib.Algebra.BigOperators.Group.Finset.Piecewise

namespace MipsUcore.Kern

open Tally Function

-- ===== the protocol

/-- What a slot is to the inodes. -/
inductive SlotPhase
  | free
  | claimed
  | held (n : Nat)
  | closing (n : Nat)
  | spent
  deriving DecidableEq

/-- The way around: `vfs_close` is for the inode that is held. -/
def SlotPhase.next : SlotPhase → SlotEvent → Option SlotPhase
  | .free, .alloc => some .claimed
  | .claimed, .take n => some (.held n)
  | .claimed, .free => some .free
  | .held n, .close m => if m = n then some (.closing n) else none
  | .closing n, .closed m => if m = n then some .spent else none
  | .spent, .free => some .free
  | _, _ => none

/-- The phase after the events, if they are all allowed. -/
def SlotPhase.after (p : SlotPhase) : List SlotEvent → Option SlotPhase
  | [] => some p
  | e :: es => (p.next e).bind fun q => q.after es

/-- The slot has `n`, and `vfs_close` has not returned it. -/
def SlotPhase.has (n : Nat) : SlotPhase → Nat
  | .held m => if m = n then 1 else 0
  | .closing m => if m = n then 1 else 0
  | _ => 0

/-- The events of one slot. -/
def SlotLog.at (k : Fd) (es : SlotLog) : List SlotEvent :=
  (es.filter fun e => e.1 = k).map Prod.snd

theorem SlotLog.at_append (k : Fd) (es fs : SlotLog) :
    SlotLog.at k (es ++ fs) = SlotLog.at k es ++ SlotLog.at k fs := by
  simp [SlotLog.at]

theorem SlotPhase.after_append {p q : SlotPhase} {es : List SlotEvent}
    (h : p.after es = some q) (fs : List SlotEvent) :
    p.after (es ++ fs) = q.after fs := by
  induction es generalizing p with
  | nil =>
    cases h
    rfl
  | cons e es ih =>
    obtain ⟨m, hm, hrest⟩ := Option.bind_eq_some_iff.mp h
    simp only [List.cons_append, after, hm, Option.bind_some]
    exact ih hrest

/-- One event moves at most one inode. -/
theorem SlotPhase.next_has {p q : SlotPhase} {e : SlotEvent}
    (h : p.next e = some q) (n : Nat) :
    p.has n + (if e = .take n then 1 else 0)
      = q.has n + (if e = .closed n then 1 else 0) := by
  cases p <;> cases e <;> simp only [next, reduceCtorEq] at h
  all_goals grind [has]

/-- What was taken is what was given back and what is still there. -/
theorem SlotPhase.after_has {p q : SlotPhase} {es : List SlotEvent}
    (h : p.after es = some q) (n : Nat) :
    p.has n + es.count (.take n) = q.has n + es.count (.closed n) := by
  induction es generalizing p with
  | nil =>
    cases h
    simp
  | cons e es ih =>
    obtain ⟨m, hm, hrest⟩ := Option.bind_eq_some_iff.mp h
    have hone := SlotPhase.next_has hm n
    have hmany := ih hrest
    simp only [List.count_cons, beq_iff_eq]
    omega

-- ===== the roles

/-- What a thread is doing with a slot. -/
inductive FileRole
  | out
  /-- Between `filemap_acquire` and `filemap_release`. -/
  | user
  /-- It has the slot from `filemap_alloc`, which is in this phase. -/
  | claims (p : SlotPhase)
  /-- Inside `vfs_close` of `filemap_free`. -/
  | frees (n : Nat)
  deriving DecidableEq

def FilePc.role (k : Fd) : FilePc → FileRole
  | .idle _ => .out
  | .opening j _ => if j = k then .claims .claimed else .out
  | .stating j n _ => if j = k then .claims (.held n) else .out
  | .undoing j n _ => if j = k then .claims (.closing n) else .out
  | .duping j _ => if j = k then .claims .claimed else .out
  | .inside j _ => if j = k then .user else .out
  | .freeing j n _ => if j = k then .frees n else .out

/-- The slot a thread is at. -/
def FilePc.fd : FilePc → Option Fd
  | .idle _ => none
  | .opening k _ => some k
  | .stating k _ _ => some k
  | .undoing k _ _ => some k
  | .duping k _ => some k
  | .inside k _ => some k
  | .freeing k _ _ => some k

/-- The thread is at no slot but this one. -/
def FilePc.Near (k : Fd) (p : FilePc) : Prop := p.fd = none ∨ p.fd = some k

theorem FilePc.Near.role {k j : Fd} {p : FilePc} (h : p.Near k)
    (hj : j ≠ k) : p.role j = .out := by
  have hne : p.fd ≠ some j := by
    obtain h | h := h
    · simp [h]
    · simp [h, Ne.symm hj]
  cases p <;> simp_all [FilePc.fd, FilePc.role]

attribute [simp] FilePc.role FilePc.fd

/-- A thread with a part in a slot is at it. -/
theorem FilePc.near_of_role {k : Fd} {p : FilePc} (h : p.role k ≠ .out) :
    p.Near k := by
  cases p <;> simp_all [FilePc.Near]

/-- The thread is between `filemap_acquire` and `filemap_release`. -/
def FilePc.uses (k : Fd) : FilePc → Bool
  | .inside j _ => j = k
  | _ => false

def FileRole.users : FileRole → Nat
  | .user => 1
  | _ => 0

/-- The thread frees the slot by its next step, or might. -/
def FileRole.Ends : FileRole → Prop
  | .claims _ => True
  | .frees _ => True
  | _ => False

variable {τ : Type}

/-- The thread that makes a step. -/
def FileAction.thread : FileAction τ → τ
  | .call t _ => t
  | .resume t _ => t

namespace FileTable

variable {s : FileTable τ} {t : τ} {k : Fd}

/-- What the threads do with a slot. -/
def roles (s : FileTable τ) (k : Fd) (t : τ) : FileRole := (s.pc t).role k

@[simp] theorem roles_setSlot (s : FileTable τ) (k j : Fd) (f : File) :
    (s.setSlot k f).roles j = s.roles j := rfl

@[simp] theorem slot_setSlot (s : FileTable τ) (k : Fd) (f : File) :
    (s.setSlot k f).slot = update s.slot k f := rfl

@[simp] theorem setSlot_setSlot (s : FileTable τ) (k : Fd) (f g : File) :
    (s.setSlot k f).setSlot k g = s.setSlot k g := by
  simp [setSlot]

@[simp] theorem setSlot_self (s : FileTable τ) (k : Fd) :
    s.setSlot k (s.slot k) = s := by
  simp [setSlot]

theorem fd2file_opened {fd : Int} (h : s.fd2file fd = some k) :
    (s.slot k).status = .opened := by
  have hk := (Option.filter_eq_some_iff.mp h).2
  exact (of_decide_eq_true hk).1

theorem findFree_none {fd : Int} (h : s.findFree fd = .ok k) :
    (s.slot k).status = .none := by
  simp only [findFree] at h
  split_ifs at h with hfd
  · split at h
    · next j hfind =>
      cases h
      have hj := List.find?_some hfind
      exact of_decide_eq_true hj
    · cases h
  · split at h
    · split_ifs at h with hnone
      cases h
      exact hnone
    · cases h

theorem roles_of_fd_none (ht : (s.pc t).fd = none) (k : Fd) :
    s.roles k t = .out := by
  simp only [roles]
  cases hpc : s.pc t <;> simp_all

section Moves

variable [DecidableEq τ]

theorem roles_goto (s : FileTable τ) (t : τ) (p : FilePc) (k : Fd) :
    (s.goto t p).roles k = update (s.roles k) t (p.role k) := by
  funext x
  by_cases hx : x = t
  · subst hx
    simp [roles, goto]
  · simp [roles, goto, update_of_ne hx]

@[simp] theorem slot_goto (s : FileTable τ) (t : τ) (p : FilePc) :
    (s.goto t p).slot = s.slot := rfl

@[simp] theorem goto_goto (s : FileTable τ) (t : τ) (p q : FilePc) :
    (s.goto t p).goto t q = s.goto t q := by
  simp [goto]

theorem roles_ret (s : FileTable τ) (t : τ) (r : FileRet) (k : Fd) :
    (s.ret t r).roles k t = .out := by
  rw [FileTable.ret, roles_goto, update_self]
  rfl

theorem near_ret (s : FileTable τ) (t : τ) (r : FileRet) (k : Fd) :
    ((s.ret t r).pc t).Near k := by
  left
  simp [FileTable.ret, goto]

@[simp] theorem setSlot_drop (s : FileTable τ) (t : τ) (k : Fd) (r : FileRet)
    (f : File) (x : Option (File × Option Nat)) :
    (s.setSlot k f).drop t k r x = s.drop t k r x := by
  match x with
  | none => rfl
  | some (g, none) => simp [FileTable.drop]
  | some (g, some n) => simp [FileTable.drop]

-- ----- handing out

variable {s' : FileTable τ} {es : SlotLog}

theorem drop_alloc {r : FileRet} {x : Option (File × Option Nat)} {j : Fd}
    (h : s.drop t j r x = some (s', es)) : (k, SlotEvent.alloc) ∉ es := by
  match x with
  | none => cases h
  | some (g, none) =>
    cases h
    split_ifs <;> simp
  | some (g, some n) =>
    cases h
    simp

theorem fail_alloc {code : Int} (h : s.fail t code = some (s', es)) :
    (k, SlotEvent.alloc) ∉ es := by
  cases h
  simp

theorem closeSlots_alloc {ks : List Fd} :
    ∀ {s : FileTable τ}, closeSlots t ks s = some (s', es) →
      (k, SlotEvent.alloc) ∉ es := by
  induction ks with
  | nil => exact fail_alloc
  | cons j ks ih =>
    intro s h
    simp only [closeSlots] at h
    split at h
    · cases h
    · exact ih h
    · cases h
      simp

theorem acquire_alloc {fd : Int} {allowed : File → Bool}
    {use : File → Option FileUse}
    (h : s.acquire t fd allowed use = some (s', es)) :
    (k, SlotEvent.alloc) ∉ es := by
  simp only [FileTable.acquire] at h
  split at h
  · exact fail_alloc h
  · split_ifs at h
    · split at h
      · cases h
      · split at h
        · cases h
          simp
        · exact drop_alloc h
    · exact fail_alloc h

theorem call_alloc {c : FileCall} (h : s.call t c = some (s', es))
    (hk : (k, SlotEvent.alloc) ∈ es) : (s.slot k).status = .none := by
  cases c with
  | «open» flags =>
    simp only [FileTable.call] at h
    split at h
    · exact absurd hk (fail_alloc h)
    · split at h
      · exact absurd hk (fail_alloc h)
      · next j hfind =>
        obtain ⟨s₁, -, heq⟩ := Option.map_eq_some_iff.mp h
        cases heq
        cases List.mem_singleton.mp hk
        exact findFree_none hfind
  | close fd =>
    simp only [FileTable.call] at h
    split at h
    · exact absurd hk (fail_alloc h)
    · exact absurd hk (drop_alloc h)
  | read fd | write fd | seek fd pos whence | fstat fd | fsync fd
  | getdirentry fd =>
    rw [FileTable.call] at h
    exact absurd hk (acquire_alloc h)
  | dup fd1 fd2 =>
    simp only [FileTable.call] at h
    split at h
    · exact absurd hk (fail_alloc h)
    · split at h
      · exact absurd hk (fail_alloc h)
      · next j hfind =>
        obtain ⟨s₁, -, hdup⟩ := Option.bind_eq_some_iff.mp h
        obtain ⟨s₂, -, heq⟩ := Option.map_eq_some_iff.mp hdup
        cases heq
        cases List.mem_singleton.mp hk
        exact findFree_none hfind
  | closeall =>
    exact absurd hk (closeSlots_alloc h)

theorem endUse_alloc {j : Fd} {use : FileUse} {a : VopRet}
    (h : s.endUse t j use a = some (s', es)) : (k, SlotEvent.alloc) ∉ es := by
  cases use with
  | transfer => exact drop_alloc h
  | seekStat pos =>
    simp only [FileTable.endUse] at h
    split_ifs at h
    · cases h
      simp
    · exact drop_alloc h
  | seekTry pos | fstat | fsync | getdirentry => exact drop_alloc h

theorem resume_alloc {a : VopRet} (h : s.resume t a = some (s', es)) :
    (k, SlotEvent.alloc) ∉ es := by
  simp only [FileTable.resume] at h
  split at h
  · cases h
    simp
  · split_ifs at h
    · exact drop_alloc h
    · cases h
      simp
    · obtain ⟨s₁, -, heq⟩ := Option.map_eq_some_iff.mp h
      cases heq
      simp
  · split_ifs at h
    · cases h
      simp
    · obtain ⟨s₁, -, heq⟩ := Option.map_eq_some_iff.mp h
      cases heq
      simp
  · obtain ⟨r, hdrop, heq⟩ := Option.map_eq_some_iff.mp h
    cases heq
    simpa using drop_alloc (k := k) hdrop
  · obtain ⟨s₁, -, heq⟩ := Option.map_eq_some_iff.mp h
    cases heq
    simp
  · exact endUse_alloc h
  · next j n rest hpc =>
    obtain ⟨r, hfree, heq⟩ := Option.map_eq_some_iff.mp h
    cases heq
    cases rest with
    | ret r =>
      cases hfree
      simp
    | closeall i => simpa using closeSlots_alloc (k := k) hfree

/-- Only a free slot is handed out. -/
theorem act_alloc {a : FileAction τ} (h : s.act a = some (s', es))
    (hk : (k, SlotEvent.alloc) ∈ es) : (s.slot k).status = .none := by
  cases a with
  | call t c =>
    simp only [FileTable.act] at h
    split at h
    · exact call_alloc h hk
    · cases h
      simp at hk
  | resume t a => exact absurd hk (resume_alloc h)

end Moves

end FileTable

variable [Fintype τ]

/-- A slot, what the threads do with it, and its phase. -/
inductive SlotOk (f : File) (r : τ → FileRole) : SlotPhase → Prop
  | none (hs : f.status = .none) (hc : f.openCount = 0)
      (hr : ∀ t, r t = .out) : SlotOk f r .free
  | init (t : τ) (p : SlotPhase) (hs : f.status = .init)
      (hc : f.openCount = 0) (ht : r t = .claims p)
      (hr : ∀ x, x ≠ t → r x = .out) : SlotOk f r p
  | opened (n : Nat) (hs : f.status = .opened) (hn : f.node = some n)
      (hr : ∀ t, r t = .out ∨ r t = .user)
      (hc : f.openCount = 1 + tally FileRole.users r) : SlotOk f r (.held n)
  | closed (n : Nat) (hs : f.status = .closed) (hn : f.node = some n)
      (hr : ∀ t, r t = .out ∨ r t = .user)
      (hc : f.openCount = tally FileRole.users r)
      (hu : 0 < tally FileRole.users r) : SlotOk f r (.held n)
  | closing (t : τ) (n : Nat) (hs : f.status = .closed)
      (hn : f.node = some n) (hc : f.openCount = 0) (ht : r t = .frees n)
      (hr : ∀ x, x ≠ t → r x = .out) : SlotOk f r (.closing n)

namespace SlotOk

variable {f g : File} {r : τ → FileRole} {p q : SlotPhase} {t : τ}

/-- Only the status, the inode and the count matter. -/
theorem congr (h : SlotOk f r p) (hs : g.status = f.status)
    (hn : g.node = f.node) (hc : g.openCount = f.openCount) :
    SlotOk g r p := by
  cases h with
  | none hs' hc' hr => exact .none (hs.trans hs') (hc.trans hc') hr
  | init t _ hs' hc' ht hr =>
    exact .init t _ (hs.trans hs') (hc.trans hc') ht hr
  | opened n hs' hn' hr hc' =>
    exact .opened n (hs.trans hs') (hn.trans hn') hr (hc.trans hc')
  | closed n hs' hn' hr hc' hu =>
    exact .closed n (hs.trans hs') (hn.trans hn') hr (hc.trans hc') hu
  | closing t n hs' hn' hc' ht hr =>
    exact .closing t n (hs.trans hs') (hn.trans hn') (hc.trans hc') ht hr

/-- A free slot is nobody's. -/
theorem of_none (h : SlotOk f r p) (hs : f.status = .none) :
    p = .free ∧ f.openCount = 0 ∧ ∀ t, r t = .out := by
  cases h with
  | none _ hc hr => exact ⟨rfl, hc, hr⟩
  | init t _ hs' _ _ _ | opened n hs' _ _ _ | closed n hs' _ _ _ _
  | closing t n hs' _ _ _ _ => rw [hs] at hs'; cases hs'

theorem of_opened (h : SlotOk f r p) (hs : f.status = .opened) :
    ∃ n, p = .held n ∧ f.node = some n ∧ (∀ t, r t = .out ∨ r t = .user) ∧
      f.openCount = 1 + tally FileRole.users r := by
  cases h with
  | opened n _ hn hr hc => exact ⟨n, rfl, hn, hr, hc⟩
  | none hs' _ _ | init t _ hs' _ _ _ | closed n hs' _ _ _ _
  | closing t n hs' _ _ _ _ => rw [hs] at hs'; cases hs'

/-- What the role of one thread says about the slot. -/
def Tells (f : File) (r : τ → FileRole) (p : SlotPhase) (t : τ) :
    FileRole → Prop
  | .out => True
  | .user =>
    ∃ n, p = .held n ∧ f.node = some n ∧ (∀ t, r t = .out ∨ r t = .user) ∧
      (f.status = .opened ∧ f.openCount = 1 + tally FileRole.users r ∨
        f.status = .closed ∧ f.openCount = tally FileRole.users r)
  | .claims q =>
    p = q ∧ f.status = .init ∧ f.openCount = 0 ∧ ∀ x, x ≠ t → r x = .out
  | .frees n =>
    p = .closing n ∧ f.status = .closed ∧ f.node = some n ∧
      f.openCount = 0 ∧ ∀ x, x ≠ t → r x = .out

theorem tells (h : SlotOk f r p) (t : τ) : Tells f r p t (r t) := by
  cases h with
  | none _ _ hr =>
    rw [hr t]
    trivial
  | init t' _ hs hc ht hr =>
    by_cases heq : t = t'
    · subst heq
      rw [ht]
      exact ⟨rfl, hs, hc, hr⟩
    · rw [hr t heq]
      trivial
  | opened n hs hn hr hc =>
    obtain ht | ht := hr t
    · rw [ht]
      trivial
    · rw [ht]
      exact ⟨n, rfl, hn, hr, .inl ⟨hs, hc⟩⟩
  | closed n hs hn hr hc _ =>
    obtain ht | ht := hr t
    · rw [ht]
      trivial
    · rw [ht]
      exact ⟨n, rfl, hn, hr, .inr ⟨hs, hc⟩⟩
  | closing t' n hs hn hc ht hr =>
    by_cases heq : t = t'
    · subst heq
      rw [ht]
      exact ⟨rfl, hs, hn, hc, hr⟩
    · rw [hr t heq]
      trivial

theorem of_role (h : SlotOk f r p) {x : FileRole} (ht : r t = x) :
    Tells f r p t x :=
  ht ▸ h.tells t

theorem users_zero (hr : ∀ t, r t ≠ .user) : tally FileRole.users r = 0 := by
  rw [tally_eq_zero]
  intro t
  have ht := hr t
  cases hrt : r t with
  | user => exact absurd hrt ht
  | out => rfl
  | claims p => rfl
  | frees n => rfl

/-- The count of a slot. -/
theorem count (h : SlotOk f r p) :
    f.openCount = (if f.status = .opened then 1 else 0)
      + tally FileRole.users r := by
  have halone : ∀ {t : τ} {x : FileRole}, x ≠ .user → r t = x →
      (∀ y, y ≠ t → r y = .out) → tally FileRole.users r = 0 := by
    intro t x hx ht hr
    refine users_zero fun y => ?_
    by_cases hy : y = t
    · rwa [hy, ht]
    · simp [hr y hy]
  cases h with
  | none hs hc hr =>
    have hzero : tally FileRole.users r = 0 := users_zero fun t => by
      simp [hr t]
    simp [hs, hc, hzero]
  | init t _ hs hc ht hr => simp [hs, hc, halone (by simp) ht hr]
  | opened n hs _ _ hc => simp [hs, hc]
  | closed n hs _ _ hc _ => simp [hs, hc]
  | closing t n hs _ hc ht hr => simp [hs, hc, halone (by simp) ht hr]

theorem free_iff (h : SlotOk f r p) (hr : ∀ t, r t ≠ .claims .free) :
    p = .free ↔ f.status = .none := by
  refine ⟨?_, fun hs => (h.of_none hs).1⟩
  intro hp
  cases h with
  | none hs _ _ => exact hs
  | init t _ _ _ ht _ =>
    rw [hp] at ht
    exact absurd ht (hr t)
  | opened n _ _ _ _ => cases hp
  | closed n _ _ _ _ _ => cases hp
  | closing t n _ _ _ _ _ => cases hp

-- ----- one role is changed

variable [DecidableEq τ]

omit [Fintype τ] in
theorem update_out {x : FileRole} (hr : ∀ x, x ≠ t → r x = .out) :
    ∀ y, y ≠ t → update r t x y = .out := by
  intro y hy
  rw [update_of_ne hy]
  exact hr y hy

omit [Fintype τ] in
theorem update_user {x : FileRole} (hx : x = .out ∨ x = .user)
    (hr : ∀ t, r t = .out ∨ r t = .user) (y : τ) :
    update r t x y = .out ∨ update r t x y = .user := by
  rcases eq_or_ne y t with rfl | hy
  · rwa [update_self]
  · rw [update_of_ne hy]
    exact hr y

omit [Fintype τ] in
theorem update_none (hr : ∀ x, x ≠ t → r x = .out) (y : τ) :
    update r t .out y = .out := by
  rcases eq_or_ne y t with rfl | hy
  · rw [update_self]
  · exact update_out hr y hy

omit [DecidableEq τ] in
/-- Nobody uses the slot. -/
theorem users_of_out (hr : ∀ t, r t = .out) : tally FileRole.users r = 0 := by
  rw [tally_eq_zero]
  intro t
  rw [hr t]
  rfl

/-- The slot is claimed, or its claim goes on: the thread has it alone. -/
theorem claim (hr : ∀ x, x ≠ t → r x = .out) (hs : f.status = .init)
    (hc : f.openCount = 0) (p : SlotPhase) :
    SlotOk f (update r t (.claims p)) p :=
  .init t p hs hc (update_self t _ r) (update_out hr)

/-- The slot is given up. -/
theorem giveUp (hr : ∀ x, x ≠ t → r x = .out) (hs : f.status = .none)
    (hc : f.openCount = 0) : SlotOk f (update r t .out) .free :=
  .none hs hc (update_none hr)

/-- The slot is opened by the thread that has claimed it. -/
theorem openUp {n : Nat} (hr : ∀ x, x ≠ t → r x = .out)
    (hs : f.status = .opened) (hn : f.node = some n) (hc : f.openCount = 1) :
    SlotOk f (update r t .out) (.held n) := by
  refine .opened n hs hn (fun y => .inl (update_none hr y)) ?_
  rw [users_of_out (update_none hr), hc]
  rfl

/-- A user more. -/
theorem acquire (h : SlotOk f r p) (hs : f.status = .opened)
    (ht : r t = .out) :
    f.filemapAcquire = some { f with openCount := f.openCount + 1 } ∧
      SlotOk { f with openCount := f.openCount + 1 } (update r t .user) p := by
  obtain ⟨n, rfl, hn, hr, hc⟩ := h.of_opened hs
  have hmove := tally_update FileRole.users r t .user
  simp only [ht, FileRole.users] at hmove
  refine ⟨if_pos hs, .opened n hs hn (update_user (.inr rfl) hr) ?_⟩
  dsimp only
  omega

/-- What a thread leaves of a slot it drops: others still use it, or the
thread is the one to close the inode. -/
inductive Drops (r : τ → FileRole) (t : τ) (p : SlotPhase) :
    Option (File × Option Nat) → Prop
  | kept (g : File) (hs : g.status ≠ .none)
      (h : SlotOk g (Function.update r t .out) p) :
      Drops r t p (some (g, .none))
  | last (g : File) (n : Nat) (hs : g.status ≠ .none) (hp : p = .held n)
      (h : SlotOk g (Function.update r t (.frees n)) (.closing n)) :
      Drops r t p (some (g, some n))

/-- The count of a slot with no user falls to 0. -/
theorem drops_last {n : Nat} (hs : f.status = .closed)
    (hn : f.node = some n) (hc : f.openCount = 0)
    (hr : ∀ t, r t = .out ∨ r t = .user)
    (hu : tally FileRole.users (update r t .out) = 0) :
    Drops r t (.held n) f.filemapFree := by
  have hfree : f.filemapFree = some (f, some n) := by
    simp [File.filemapFree, hs, hc, hn]
  rw [hfree]
  refine .last f n (by simp [hs]) rfl ?_
  refine .closing t n hs hn hc (update_self t _ r) ?_
  intro y hy
  have hzero := tally_eq_zero.mp hu y
  rw [update_of_ne hy] at hzero ⊢
  obtain hout | huser := hr y
  · exact hout
  · rw [huser] at hzero
    cases hzero

/-- `filemap_release`. -/
theorem release (h : SlotOk f r p) (ht : r t = .user) :
    Drops r t p f.filemapRelease := by
  obtain ⟨n, rfl, hn, hr, hst⟩ := h.of_role ht
  have hmove := tally_update FileRole.users r t .out
  simp only [ht, FileRole.users] at hmove
  obtain ⟨hs, hc⟩ | ⟨hs, hc⟩ := hst
  · have hrel : f.filemapRelease
        = some ({ f with openCount := f.openCount - 1 }, .none) := by
      simp only [File.filemapRelease]
      rw [if_pos ⟨.inl hs, by omega⟩, if_neg (by omega)]
    rw [hrel]
    refine .kept _ (by simp [hs]) (.opened n hs hn
      (update_user (.inl rfl) hr) ?_)
    dsimp only
    omega
  · simp only [File.filemapRelease]
    rw [if_pos ⟨.inr hs, by omega⟩]
    split_ifs with hzero
    · exact drops_last hs hn hzero hr (by omega)
    · refine .kept _ (by simp [hs]) (.closed n hs hn
        (update_user (.inl rfl) hr) ?_ ?_)
      · dsimp only
        omega
      · omega

/-- `filemap_close`, by a thread that does not use the slot. -/
theorem close (h : SlotOk f r p) (hs : f.status = .opened)
    (ht : r t = .out) : Drops r t p f.filemapClose := by
  obtain ⟨n, rfl, hn, hr, hc⟩ := h.of_opened hs
  have hmove := tally_update FileRole.users r t .out
  simp only [ht, FileRole.users] at hmove
  simp only [File.filemapClose]
  rw [if_pos ⟨hs, by omega⟩]
  split_ifs with hzero
  · exact drops_last rfl hn hzero hr (by omega)
  · refine .kept _ (by simp) (.closed n rfl hn
      (update_user (.inl rfl) hr) ?_ ?_)
    · dsimp only
      omega
    · omega

end SlotOk

-- ===== the table

namespace FileTable

variable [DecidableEq τ]

/-- Every slot is as it should be, `ph` being the phases. -/
def Inv (s : FileTable τ) (ph : Fd → SlotPhase) : Prop :=
  ∀ k, SlotOk (s.slot k) (s.roles k) (ph k)

/-- A step of the thread `t` from `s`, whose slots are in the phases `ph`,
that ends in `r`: no assertion fails, the slots follow the protocol, and a
slot is freed only by a thread that frees it or has claimed it. -/
def Follows (s : FileTable τ) (t : τ) (ph : Fd → SlotPhase)
    (r : Option (FileTable τ × SlotLog)) : Prop :=
  ∃ s' es ph', r = some (s', es) ∧ s'.Inv ph' ∧
    (∀ k, (ph k).after (SlotLog.at k es) = some (ph' k)) ∧
    ∀ k, (s'.slot k).status = .none →
      (s.slot k).status = .none ∨ (s.roles k t).Ends

variable {s : FileTable τ} {ph : Fd → SlotPhase} {t : τ} {k : Fd}

variable (h : s.Inv ph)

section
include h

/-- One slot is written and one thread moves, at that slot. -/
theorem Inv.set {f : File} {p : FilePc} {q : SlotPhase}
    (hold : (s.pc t).Near k) (hnew : p.Near k)
    (hk : SlotOk f (update (s.roles k) t (p.role k)) q) :
    ((s.setSlot k f).goto t p).Inv (update ph k q) := by
  intro j
  rw [roles_goto]
  by_cases hj : j = k
  · subst hj
    simpa using hk
  · have hrole : update ((s.setSlot k f).roles j) t (p.role j)
        = s.roles j := by
      rw [hnew.role hj, ← hold.role hj]
      exact update_eq_self t (s.roles j)
    rw [hrole]
    simpa [update_of_ne hj] using h j

/-- The same, as a step. -/
theorem Inv.move (f : File) (p : FilePc)
    (es : List SlotEvent) (q : SlotPhase) (hold : (s.pc t).Near k)
    (hnew : p.Near k) (hk : SlotOk f (update (s.roles k) t (p.role k)) q)
    (hq : (ph k).after es = some q) (hfree : f.status = .none →
      (s.slot k).status = .none ∨ (s.roles k t).Ends) :
    s.Follows t ph (some ((s.setSlot k f).goto t p, es.map (k, ·))) := by
  refine ⟨_, _, update ph k q, rfl, h.set hold hnew hk, ?_, ?_⟩
  · intro j
    by_cases hj : j = k
    · subst hj
      rw [update_self, ← hq]
      congr 1
      simp [SlotLog.at, List.filter_map, Function.comp_def]
    · have hnone : SlotLog.at j (es.map (k, ·)) = [] := by
        simp [SlotLog.at, List.filter_map, Function.comp_def, Ne.symm hj]
      rw [update_of_ne hj, hnone]
      rfl
  · intro j
    by_cases hj : j = k
    · subst hj
      simpa using hfree
    · simp only [slot_goto, slot_setSlot, update_of_ne hj]
      exact .inl

/-- A thread that is at no slot returns. -/
theorem Inv.ret (ht : ∀ k, s.roles k t = .out)
    (r : FileRet) : (s.ret t r).Inv ph := by
  intro k
  have hrole : (s.ret t r).roles k = s.roles k := by
    rw [FileTable.ret, roles_goto]
    exact (congrArg _ (ht k).symm).trans (update_eq_self t _)
  rw [hrole]
  exact h k

theorem Inv.fail (ht : ∀ k, s.roles k t = .out)
    (code : Int) : s.Follows t ph (s.fail t code) :=
  ⟨_, [], ph, rfl, h.ret ht _, fun _ => rfl, fun _ => .inl⟩

/-- The thread that is the last to drop a slot goes into `vfs_close`. -/
theorem Inv.goFreeing (hold : (s.pc t).Near k)
    {g : File} {n : Nat} (hs : g.status ≠ .none) (hp : ph k = .held n)
    (hg : SlotOk g (update (s.roles k) t (.frees n)) (.closing n))
    (rest : FileRest) : s.Follows t ph
      (some ((s.setSlot k g).goto t (.freeing k n rest), [(k, .close n)])) := by
  refine h.move g (.freeing k n rest) [.close n] (.closing n) hold (.inr rfl)
    ?_ ?_ ?_
  · simpa using hg
  · simp [SlotPhase.after, SlotPhase.next, hp]
  · exact fun hnone => absurd hnone hs

/-- A thread drops a slot. -/
theorem Inv.drop {x : Option (File × Option Nat)} (hold : (s.pc t).Near k)
    (hx : SlotOk.Drops (s.roles k) t (ph k) x) (r : FileRet) :
    s.Follows t ph (s.drop t k r x) := by
  cases hx with
  | kept g hs hg =>
    have hmove := h.move g (.idle r) [] (ph k) hold (.inl rfl) hg rfl
      fun hnone => absurd hnone hs
    simpa [FileTable.drop, FileTable.ret, hs] using hmove
  | last g n hs hp hg => exact h.goFreeing hold hs hp hg (.ret r)

end

-- ----- fs_closeall

omit [DecidableEq τ] in
/-- A step in two parts: in the second the thread starts at no slot. -/
theorem Follows.after {s' : FileTable τ} {ph' : Fd → SlotPhase}
    {r : Option (FileTable τ × SlotLog)} (h : s'.Follows t ph' r)
    (ht : ∀ k, s'.roles k t = .out) (es : SlotLog)
    (hes : ∀ k, (ph k).after (SlotLog.at k es) = some (ph' k))
    (hfree : ∀ k, (s'.slot k).status = .none →
      (s.slot k).status = .none ∨ (s.roles k t).Ends) :
    s.Follows t ph (r.map fun r => (r.1, es ++ r.2)) := by
  obtain ⟨s'', es', ph'', rfl, hinv, hlog, hfree'⟩ := h
  refine ⟨s'', es ++ es', ph'', rfl, hinv, fun k => ?_, fun k hk => ?_⟩
  · rw [SlotLog.at_append, SlotPhase.after_append (hes k)]
    exact hlog k
  · obtain hnone | hends := hfree' k hk
    · exact hfree k hnone
    · rw [ht k] at hends
      cases hends

/-- The loop of `fs_closeall`, by a thread that is at no slot. -/
theorem closeSlots_follows (r : FileRet) (ks : List Fd) :
    ∀ s : FileTable τ, (s.ret t r).Inv ph →
      (s.ret t r).Follows t ph (closeSlots t ks s) := by
  induction ks with
  | nil =>
    intro s h
    simpa [FileTable.fail, FileTable.ret, closeSlots]
      using h.fail (roles_ret s t r) 0
  | cons k ks ih =>
    intro s h
    simp only [closeSlots, closeSlot]
    split_ifs with hopen
    · have hdrops : SlotOk.Drops ((s.ret t r).roles k) t (ph k)
          (s.slot k).filemapClose := (h k).close hopen (roles_ret s t r k)
      generalize (s.slot k).filemapClose = x at hdrops ⊢
      cases hdrops with
      | kept g hs hg =>
        -- the slot keeps its inode for its users, and the loop goes on
        have hset := h.set (near_ret s t r k) (p := .idle r) (.inl rfl) hg
        have hnext : ((s.setSlot k g).ret t r).Inv ph := by
          simpa [FileTable.ret, FileTable.goto, setSlot] using hset
        have hrest := (ih _ hnext).after (s := s.ret t r)
          (roles_ret _ t r) [] (fun _ => rfl) fun j hj => .inl ?_
        · simpa using hrest
        · by_cases hjk : j = k
          · subst hjk
            simp [FileTable.ret] at hj
            exact absurd hj hs
          · simpa [FileTable.ret, update_of_ne hjk] using hj
      | last g n hs hp hg =>
        have hgo := h.goFreeing (near_ret s t r k) hs hp hg
          (.closeall (k.val + 1))
        simpa [FileTable.ret, FileTable.goto, setSlot] using hgo
    · exact ih s h

-- ----- calls

/-- `filemap_alloc` gives the slot to the thread. -/
theorem Inv.claim (h : s.Inv ph) (ht : (s.pc t).fd = none)
    (hs : (s.slot k).status = .none) (g : File) (p : FilePc)
    (hg : g.status = .init) (hc : g.openCount = 0)
    (hp : p.fd = some k) (hrole : p.role k = .claims .claimed) :
    s.Follows t ph (some ((s.setSlot k g).goto t p, [(k, .alloc)])) := by
  obtain ⟨hph, -, hout⟩ := (h k).of_none hs
  refine h.move g p [.alloc] .claimed (.inl ht) (.inr hp) ?_ ?_ ?_
  · rw [hrole]
    exact SlotOk.claim (fun x _ => hout x) hg hc .claimed
  · simp [SlotPhase.after, SlotPhase.next, hph]
  · intro hnone
    rw [hg] at hnone
    cases hnone

/-- A user that leaves at once leaves the slot as it was. -/
theorem filemapRelease_acquired {f : File} (hs : f.status = .opened)
    (hc : 0 < f.openCount) :
    { f with openCount := f.openCount + 1 }.filemapRelease
      = some (f, none) := by
  simp only [File.filemapRelease]
  rw [if_pos ⟨.inl hs, by omega⟩, if_neg (by omega)]
  simp

/-- A call on an open slot. -/
theorem Inv.acquire (h : s.Inv ph) (ht : (s.pc t).fd = none) (fd : Int)
    (allowed : File → Bool) (use : File → Option FileUse) :
    s.Follows t ph (s.acquire t fd allowed use) := by
  have hout := roles_of_fd_none ht
  simp only [FileTable.acquire]
  cases hfd : s.fd2file fd with
  | none => exact h.fail hout _
  | some k =>
    dsimp only
    have hopen := fd2file_opened hfd
    split_ifs with hallow
    · obtain ⟨hacq, hok⟩ := (h k).acquire hopen (hout k)
      rw [hacq]
      dsimp only
      split
      · next u huse =>
        refine h.move _ (.inside k u) [] (ph k) (.inl ht) (.inr rfl) ?_ rfl ?_
        · simpa using hok
        · simp [hopen]
      · -- an unknown `whence`: the slot is released at once
        obtain ⟨n, -, -, -, hc⟩ := (h k).of_opened hopen
        have hsame := filemapRelease_acquired hopen (by omega)
        rw [FileTable.filemapRelease, slot_setSlot, update_self, hsame]
        simpa [FileTable.drop, FileTable.fail, hopen]
          using h.fail hout (-eInval)
    · exact h.fail hout _

/-- A call by a thread that is at no slot. -/
theorem Inv.call (h : s.Inv ph) (ht : (s.pc t).fd = none) (c : FileCall) :
    s.Follows t ph (s.call t c) := by
  have hout := roles_of_fd_none ht
  cases c with
  | «open» flags =>
    simp only [FileTable.call]
    split
    · exact h.fail hout _
    · split
      · exact h.fail hout _
      · next k hfind =>
        have hs := findFree_none hfind
        have hc := ((h k).of_none hs).2.1
        simp only [FileTable.filemapAlloc, File.filemapAlloc, if_pos hc,
          Option.map_some]
        exact h.claim ht hs _ _ rfl hc rfl (by simp)
  | close fd =>
    simp only [FileTable.call]
    split
    · exact h.fail hout _
    · next k hfd =>
      exact h.drop (.inl ht) ((h k).close (fd2file_opened hfd) (hout k)) _
  | read fd | write fd | seek fd pos whence | fstat fd | fsync fd
  | getdirentry fd =>
    rw [FileTable.call]
    exact h.acquire ht _ _ _
  | dup fd1 fd2 =>
    simp only [FileTable.call]
    split
    · exact h.fail hout _
    · next j hfd =>
      split
      · exact h.fail hout _
      · next k hfind =>
        have hopen := fd2file_opened hfd
        obtain ⟨n, -, hn, -⟩ := (h j).of_opened hopen
        have hs := findFree_none hfind
        have hc := ((h k).of_none hs).2.1
        have hjk : j ≠ k := by
          intro heq
          rw [heq, hs] at hopen
          cases hopen
        simp only [FileTable.filemapAlloc, File.filemapAlloc, if_pos hc,
          Option.map_some, Option.bind_some, FileTable.filemapDup,
          slot_setSlot, update_self, update_of_ne hjk,
          hopen, hn, and_self, if_true, setSlot_setSlot]
        exact h.claim ht hs _ _ rfl hc rfl (by simp)
  | closeall =>
    rw [FileTable.call]
    have hloop := closeSlots_follows ⟨0, 0⟩
      ((List.finRange fsStructNentry).drop 2) s (h.ret hout _)
    have hcall := hloop.after (s := s) (roles_ret s t ⟨0, 0⟩) []
      (fun _ => rfl) fun _ => .inl
    simpa [fsCloseall] using hcall

-- ----- returns

/-- `filemap_free` of a slot that was never opened. -/
theorem filemapFree_init {f : File} (hs : f.status = .init)
    (hc : f.openCount = 0) :
    f.filemapFree = some ({ f with status := .none }, none) := by
  simp [File.filemapFree, hs, hc]

omit [Fintype τ] [DecidableEq τ] in
theorem near_of_claims {p : SlotPhase} (hrole : s.roles k t = .claims p) :
    (s.pc t).Near k :=
  FilePc.near_of_role (ne_of_eq_of_ne hrole FileRole.noConfusion)

section
include h

/-- A thread that has claimed a slot goes on with it. -/
theorem Inv.proceed {p₀ : SlotPhase}
    (hrole : s.roles k t = .claims p₀) (g : File) (p : FilePc)
    (es : List SlotEvent) {q : SlotPhase} (hnew : p.fd = some k)
    (hp : p.role k = .claims q) (hs : g.status = (s.slot k).status)
    (hc : g.openCount = (s.slot k).openCount) (hes : p₀.after es = some q) :
    s.Follows t ph (some ((s.setSlot k g).goto t p, es.map (k, ·))) := by
  obtain ⟨rfl, hinit, hzero, hout⟩ := (h k).of_role hrole
  refine h.move g p es q (near_of_claims hrole) (.inr hnew) ?_ hes ?_
  · rw [hp]
    exact SlotOk.claim hout (hs.trans hinit) (hc.trans hzero) q
  · intro _
    right
    rw [hrole]
    trivial

/-- A thread that has claimed a slot gives it up. -/
theorem Inv.undo {p₀ : SlotPhase}
    (hrole : s.roles k t = .claims p₀) (r : FileRet) (es : List SlotEvent)
    (hes : p₀.after (es ++ [.free]) = some .free) :
    s.Follows t ph ((s.drop t k r (s.slot k).filemapFree).map
      fun x => (x.1, es.map (k, ·) ++ x.2)) := by
  obtain ⟨rfl, hinit, hzero, hout⟩ := (h k).of_role hrole
  have hmove := h.move { s.slot k with status := .none } (.idle r)
    (es ++ [.free]) .free (near_of_claims hrole) (.inl rfl) ?_ hes ?_
  · rw [filemapFree_init hinit hzero]
    simpa [FileTable.drop, FileTable.ret] using hmove
  · exact SlotOk.giveUp hout rfl hzero
  · intro _
    right
    rw [hrole]
    trivial

/-- A thread that has claimed a slot opens it. -/
theorem Inv.finish {p₀ : SlotPhase}
    (hrole : s.roles k t = .claims p₀) (g : File) {n : Nat}
    (es : List SlotEvent) (hn : g.node = some n)
    (hs : g.status = (s.slot k).status)
    (hc : g.openCount = (s.slot k).openCount)
    (hes : p₀.after es = some (.held n)) : s.Follows t ph ((s.finish t k g).map
      fun x => (x, es.map (k, ·))) := by
  obtain ⟨rfl, hinit, hzero, hout⟩ := (h k).of_role hrole
  have hopen : g.filemapOpen
      = some { g with status := .opened, openCount := g.openCount + 1 } := by
    simp [File.filemapOpen, hs, hinit, hn]
  rw [FileTable.finish, hopen]
  refine h.move _ _ es (.held n) (near_of_claims hrole) (.inl rfl) ?_ hes ?_
  · refine SlotOk.openUp hout rfl hn ?_
    dsimp only
    omega
  · intro hnone
    cases hnone

/-- A user releases a slot it may have moved the position of. -/
theorem Inv.release {use : FileUse}
    (hpc : s.pc t = .inside k use) (pos : Nat) (r : FileRet) :
    s.Follows t ph ((s.setSlot k { s.slot k with pos := pos }).filemapRelease
      t k r) := by
  have hrole : s.roles k t = .user := by simp [roles, hpc]
  have hok : SlotOk { s.slot k with pos := pos } (s.roles k) (ph k) :=
    (h k).congr rfl rfl rfl
  simp only [FileTable.filemapRelease, slot_setSlot, update_self, setSlot_drop]
  exact h.drop (.inr (congrArg FilePc.fd hpc)) (hok.release hrole) r

/-- The operation on an acquired slot returns. -/
theorem Inv.endUse {use : FileUse}
    (hpc : s.pc t = .inside k use) (a : VopRet) :
    s.Follows t ph (s.endUse t k use a) := by
  have hsame : ∀ r, s.Follows t ph (s.filemapRelease t k r) := by
    intro r
    have hrel := h.release hpc (s.slot k).pos r
    have heta : { s.slot k with pos := (s.slot k).pos } = s.slot k := rfl
    rwa [heta, setSlot_self] at hrel
  cases use with
  | transfer => exact h.release hpc _ _
  | seekStat pos =>
    simp only [FileTable.endUse]
    split_ifs with hret
    · -- the thread goes on to `vop_tryseek` and is still a user
      have hrole : s.roles k t = .user := by simp [roles, hpc]
      have hmove := h.move (k := k) (s.slot k)
        (.inside k (.seekTry (pos + a.size))) [] (ph k)
        (.inr (congrArg FilePc.fd hpc)) (.inr rfl) ?_ rfl .inl
      · simpa using hmove
      · have hself := update_eq_self t (s.roles k)
        rw [hrole] at hself
        simpa [hself] using h k
    · exact hsame _
  | seekTry pos => exact h.release hpc _ _
  | fstat => exact hsame _
  | fsync => exact hsame _
  | getdirentry => exact hsame _

/-- `vfs_close` returns to `filemap_free`. -/
theorem Inv.endFree {n : Nat} {rest : FileRest}
    (hpc : s.pc t = .freeing k n rest) :
    s.Follows t ph ((s.endFree t k rest).map
      fun r => (r.1, (k, .closed n) :: (k, .free) :: r.2)) := by
  have hrole : s.roles k t = .frees n := by simp [roles, hpc]
  obtain ⟨hph, -, -, hzero, hout⟩ := (h k).of_role hrole
  have hok : SlotOk { s.slot k with status := .none }
      (update (s.roles k) t .out) .free :=
    SlotOk.giveUp hout rfl hzero
  have hold : (s.pc t).Near k := .inr (congrArg FilePc.fd hpc)
  have hends : (s.roles k t).Ends := by
    rw [hrole]
    trivial
  have hafter : (ph k).after [.closed n, .free] = some .free := by
    simp [hph, SlotPhase.after, SlotPhase.next]
  cases rest with
  | ret r =>
    exact h.move _ (.idle r) [.closed n, .free] .free hold (.inl rfl) hok
      hafter fun _ => .inr hends
  | closeall i =>
    -- the slot is freed first, then the loop goes on from no slot
    have hfreed := h.move _ (.idle ⟨0, 0⟩) [.closed n, .free] .free hold
      (.inl rfl) hok hafter fun _ => .inr hends
    obtain ⟨s', es, ph', heq, hinv, hlog, hfree⟩ := hfreed
    cases heq
    have hloop := closeSlots_follows ⟨0, 0⟩
      ((List.finRange fsStructNentry).drop i) _ hinv
    exact hloop.after (roles_ret _ t ⟨0, 0⟩) _ hlog hfree

/-- The operation a thread is suspended in returns. -/
theorem Inv.resume (t : τ) (a : VopRet) : s.Follows t ph (s.resume t a) := by
  simp only [FileTable.resume]
  cases hpc : s.pc t with
  | idle r => exact ⟨s, [], ph, rfl, h, fun _ => rfl, fun _ => .inl⟩
  | opening k flags =>
    have hrole : s.roles k t = .claims .claimed := by
      simp [roles, hpc]
    dsimp only
    split_ifs with hret happ
    · simpa using h.undo hrole ⟨a.ret, 0⟩ [] rfl
    · exact h.proceed hrole _ _ [.take a.node] rfl (by simp) rfl rfl rfl
    · exact h.finish hrole _ [.take a.node] rfl rfl rfl rfl
  | stating k n flags =>
    have hrole : s.roles k t = .claims (.held n) := by
      simp [roles, hpc]
    split_ifs with hret
    · have hgo := h.proceed hrole (s.slot k) (.undoing k n a.ret)
        [.close n] rfl (q := .closing n) (by simp) rfl rfl
        (by simp [SlotPhase.after, SlotPhase.next])
      simpa using hgo
    · exact h.finish hrole _ [] rfl rfl rfl rfl
  | undoing k n code =>
    have hrole : s.roles k t = .claims (.closing n) := by
      simp [roles, hpc]
    exact h.undo hrole ⟨code, 0⟩ [.closed n]
      (by simp [SlotPhase.after, SlotPhase.next])
  | duping k n =>
    have hrole : s.roles k t = .claims .claimed := by
      simp [roles, hpc]
    exact h.finish hrole _ [.take n] rfl rfl rfl rfl
  | inside k use => exact h.endUse hpc a
  | freeing k n rest => exact h.endFree hpc

/-- The step lemma. -/
theorem Inv.act (a : FileAction τ) : s.Follows a.thread ph (s.act a) := by
  have hstay : ∀ t, s.Follows t ph (some (s, [])) :=
    fun _ => ⟨s, [], ph, rfl, h, fun _ => rfl, fun _ => .inl⟩
  cases a with
  | call t c =>
    simp only [FileTable.act]
    split
    · next r hpc => exact h.call (congrArg FilePc.fd hpc) c
    · exact hstay t
  | resume t a => exact h.resume t a

/-- The run lemma: no assertion fails, and each slot has followed the
protocol. -/
theorem Inv.run (as : List (FileAction τ)) :
    ∃ s' es ph', s.run as = some (s', es) ∧ s'.Inv ph' ∧
      ∀ k, (ph k).after (SlotLog.at k es) = some (ph' k) := by
  induction as generalizing s ph with
  | nil => exact ⟨s, [], ph, rfl, h, fun _ => rfl⟩
  | cons a as ih =>
    obtain ⟨s₁, es₁, ph₁, hact, hinv₁, hlog₁, -⟩ := h.act a
    obtain ⟨s₂, es₂, ph₂, hrun, hinv₂, hlog₂⟩ := ih hinv₁
    refine ⟨s₂, es₁ ++ es₂, ph₂, ?_, hinv₂, fun k => ?_⟩
    · simp [FileTable.run, hact, hrun]
    · rw [SlotLog.at_append, SlotPhase.after_append (hlog₁ k)]
      exact hlog₂ k

end

-- ===== the result

/-- The table as `filemap_init` or `dup_fs` leaves it. -/
structure Fresh (s : FileTable τ) : Prop where
  idle : ∀ t, ∃ r, s.pc t = .idle r
  slot : ∀ k, (s.slot k).status = .none ∧ (s.slot k).openCount = 0 ∨
    (s.slot k).status = .opened ∧ (s.slot k).openCount = 1 ∧
      (s.slot k).node ≠ none

/-- The table `filemap_init` leaves, before any call. -/
def created (τ : Type) (old : List File) : FileTable τ where
  slot k := (Files.filemapInit old).get ⟨k, by simp [Files.filemapInit]⟩
  pc _ := .idle ⟨0, 0⟩

/-- The phase of a slot of such a table. -/
def phase (s : FileTable τ) (k : Fd) : SlotPhase :=
  match (s.slot k).status, (s.slot k).node with
  | .opened, some n => .held n
  | _, _ => .free

omit [DecidableEq τ] in
theorem Fresh.inv (h : s.Fresh) : s.Inv s.phase := by
  intro k
  have hout : ∀ t, s.roles k t = .out := by
    intro t
    obtain ⟨r, hpc⟩ := h.idle t
    simp [roles, hpc]
  obtain ⟨hs, hc⟩ | ⟨hs, hc, hn⟩ := h.slot k
  · have hphase : s.phase k = .free := by simp [phase, hs]
    rw [hphase]
    exact .none hs hc hout
  · obtain ⟨n, hn⟩ := Option.ne_none_iff_exists'.mp hn
    have hphase : s.phase k = .held n := by simp [phase, hs, hn]
    rw [hphase]
    refine .opened n hs hn (fun t => .inl (hout t)) ?_
    rw [hc, SlotOk.users_of_out hout]
    rfl

omit [DecidableEq τ] in
theorem users_eq_card (s : FileTable τ) (k : Fd) :
    tally FileRole.users (s.roles k)
      = (Finset.univ.filter fun t => (s.pc t).uses k).card := by
  rw [Finset.card_filter]
  refine Finset.sum_congr rfl fun t _ => ?_
  simp only [roles]
  cases s.pc t <;> simp only [FilePc.role, FilePc.uses] <;> split_ifs <;>
    simp_all [FileRole.users]

/-- What is true of a slot in a state `s`, when `log` is what the slot went
through since it was in the phase `p₀`. -/
structure Sound (s : FileTable τ) (k : Fd) (p₀ : SlotPhase)
    (log : List SlotEvent) : Prop where
  count : (s.slot k).openCount
    = (if (s.slot k).status = .opened then 1 else 0)
      + (Finset.univ.filter fun t => (s.pc t).uses k).card
  protocol : ∃ p, p₀.after log = some p ∧
    (p = .free ↔ (s.slot k).status = .none) ∧
    (∀ n, (s.slot k).status = .opened →
      ((s.slot k).node = some n ↔ p = .held n)) ∧
    ∀ n, p₀.has n + log.count (.take n) = p.has n + log.count (.closed n)
  /-- A slot is free again when its count is 0, and if it was opened when
  `vfs_close` of its inode returns. -/
  freed : ∀ a s' es, s.act a = some (s', es) →
    (s.slot k).status ≠ .none → (s'.slot k).status = .none →
    (s.slot k).openCount = 0 ∧ ((s.slot k).status = .init ∨
      ∃ t v n rest, a = .resume t v ∧ s.pc t = .freeing k n rest ∧
        (s.slot k).node = some n)
  /-- A slot is handed out when it is free and no thread is at it. -/
  handed : ∀ a s' es, s.act a = some (s', es) → (k, .alloc) ∈ es →
    (s.slot k).status = .none ∧ ∀ t, (s.pc t).fd ≠ some k
  /-- No assertion fails. -/
  runs : ∀ a, s.act a ≠ none

/-- A slot that is claimed is not free. -/
theorem role_ne_claims_free (p : FilePc) (k : Fd) :
    p.role k ≠ .claims .free := by
  cases p <;> simp only [FilePc.role] <;> (try split_ifs) <;> simp

theorem role_ne_out {p : FilePc} {k : Fd} (h : p.fd = some k) :
    p.role k ≠ .out := by
  cases p <;> simp_all [FilePc.fd, FilePc.role]

theorem role_frees {p : FilePc} {k : Fd} {n : Nat} (h : p.role k = .frees n) :
    ∃ rest, p = .freeing k n rest := by
  cases p <;> simp only [FilePc.role] at h <;> (try split_ifs at h) <;>
    simp_all

theorem Inv.freed (h : s.Inv ph) {a : FileAction τ} {s' : FileTable τ}
    {es : SlotLog} (hact : s.act a = some (s', es))
    (hs : (s.slot k).status ≠ .none) (hs' : (s'.slot k).status = .none) :
    (s.slot k).openCount = 0 ∧ ((s.slot k).status = .init ∨
      ∃ t v n rest, a = .resume t v ∧ s.pc t = .freeing k n rest ∧
        (s.slot k).node = some n) := by
  obtain ⟨_, _, _, heq, -, -, hfree⟩ := h.act a
  rw [hact] at heq
  cases heq
  have hends := (hfree k hs').resolve_left hs
  cases hrole : s.roles k a.thread with
  | out =>
    rw [hrole] at hends
    cases hends
  | user =>
    rw [hrole] at hends
    cases hends
  | claims p =>
    obtain ⟨-, hinit, hzero, -⟩ := (h k).of_role hrole
    exact ⟨hzero, .inl hinit⟩
  | frees n =>
    obtain ⟨-, -, hn, hzero, -⟩ := (h k).of_role hrole
    obtain ⟨rest, hpc⟩ := role_frees hrole
    refine ⟨hzero, .inr ?_⟩
    cases a with
    | resume t v => exact ⟨t, v, n, rest, rfl, hpc, hn⟩
    | call t c =>
      -- a thread inside `vfs_close` makes no call
      have hpc' : s.pc t = .freeing k n rest := hpc
      simp only [FileTable.act, hpc'] at hact
      cases hact
      exact absurd hs' hs

theorem Inv.sound (h : s.Inv ph) {p₀ : SlotPhase} {log : List SlotEvent}
    (hlog : p₀.after log = some (ph k)) : s.Sound k p₀ log where
  count := by
    rw [← users_eq_card]
    exact (h k).count
  protocol := by
    refine ⟨ph k, hlog, ?_, ?_, SlotPhase.after_has hlog⟩
    · exact (h k).free_iff fun t => role_ne_claims_free (s.pc t) k
    · intro n hs
      obtain ⟨m, hp, hm, -⟩ := (h k).of_opened hs
      simp [hp, hm]
  freed := fun _ _ _ => h.freed
  handed := by
    intro a s' es hact hk
    have hs := act_alloc hact hk
    refine ⟨hs, fun t ht => ?_⟩
    exact role_ne_out ht (((h k).of_none hs).2.2 t)
  runs := by
    intro a hnone
    obtain ⟨_, _, _, heq, -⟩ := h.act a
    rw [hnone] at heq
    cases heq

end FileTable

end MipsUcore.Kern
