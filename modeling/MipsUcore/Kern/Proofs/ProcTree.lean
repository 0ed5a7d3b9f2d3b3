/-
The family tree of the processes and the table they are found in.

# The tree

`kids p` are the children of `p`, youngest first. They hang on `p` by the
links `cptr`, `optr` and `yptr` (`Chain`) and are the processes whose
parent is `p`. While a process exits its children are moved to `initproc`
one by one; the chain that is left leads back to one that has gone, so
`Tree` names the process that is `leaving` and asks nothing of that link.

# The table

`PidTable` is `proc_list`, the hash buckets, the pids, and what `get_pid`
keeps between its calls.

Each function that moves links has one lemma for the tree and one for the
table; everything else leaves both alone (`SameTree`).
-/
import MipsUcore.Kern.Proofs.Pid
import MipsUcore.Kern.Proofs.ProcBasic
import MipsUcore.Lib.Links

namespace MipsUcore.Kern

open Threads Function

namespace Procs

variable {s t : Procs} {kids : Nat → List Nat} {leaving : Option Nat}
  {p q : Nat}

/-- `l` hangs on `p`; the first of it leads back to `before`. -/
def Chain (s : Procs) (before : Option Nat) (p : Nat) (l : List Nat) : Prop :=
  Linked (fun q => (s.proc q).optr) (fun q => (s.proc q).yptr) before
    (s.proc p).cptr l

structure Tree (s : Procs) (kids : Nat → List Nat) (leaving : Option Nat) :
    Prop where
  chain : ∀ p, s.IsProc p → ∃ before, (leaving ≠ some p → before = none) ∧
    s.Chain before p (kids p)
  nodup : ∀ p, s.IsProc p → (kids p).Nodup
  mem : ∀ p, s.IsProc p → ∀ q,
    q ∈ kids p ↔ q ∈ s.procList ∧ (s.proc q).parent = some p
  parent : ∀ q ∈ s.procList, ∃ p, (s.proc q).parent = some p ∧ p ≠ q ∧
    s.IsProc p
  childless : ∀ q ∈ s.procList, (s.proc q).state = .zombie →
    leaving ≠ some q → kids q = []
  root : (s.proc s.idleproc).parent = none

structure PidTable (s : Procs) : Prop where
  idle : s.idleproc ∉ s.procList
  nodup : s.procList.Nodup
  bucket : ∀ b q, q ∈ s.hashList b ↔
    q ∈ s.procList ∧ pidHashfn (s.proc q).pid = b
  bucketNodup : ∀ b, (s.hashList b).Nodup
  idlePid : (s.proc s.idleproc).pid = 0
  pid : ∀ q ∈ s.procList, 0 < (s.proc q).pid ∧ (s.proc q).pid < maxPid
  inj : ∀ q ∈ s.procList, ∀ r ∈ s.procList,
    (s.proc q).pid = (s.proc r).pid → q = r
  count : s.nrProcess = s.procList.length + 1
  lastPid : 1 ≤ s.lastPid
  nextSafe : s.nextSafe ≤ maxPid
  gap : Gap s.pids s.lastPid s.nextSafe

-- ===== what is the same

theorem SameTable.isProc (h : SameTable s t) : t.IsProc p ↔ s.IsProc p := by
  rw [IsProc, IsProc, h.procList, h.idleproc]

theorem SameTable.pids (h : SameTable s t) : t.pids = s.pids := by
  rw [Procs.pids, h.procList]
  exact List.map_congr_left fun q _ => h.pid q

/-- The tree depends on the links only. -/
theorem Tree.same (h : s.Tree kids leaving) (hst : SameTree s t) :
    t.Tree kids leaving where
  chain p hp := by
    obtain ⟨before, hbefore, hchain⟩ := h.chain p (hst.table.isProc.1 hp)
    refine ⟨before, hbefore, ?_⟩
    rw [Chain, hst.cptr]
    exact hchain.congr (fun q _ => hst.optr q) fun q _ => hst.yptr q
  nodup p hp := h.nodup p (hst.table.isProc.1 hp)
  mem p hp q := by
    rw [h.mem p (hst.table.isProc.1 hp), hst.procList, hst.parent]
  parent q hq := by
    obtain ⟨p, hp, hne, hproc⟩ := h.parent q (hst.procList ▸ hq)
    exact ⟨p, (hst.parent q).trans hp, hne, hst.table.isProc.2 hproc⟩
  childless q hq hz := h.childless q (hst.procList ▸ hq) ((hst.zombie q).1 hz)
  root := by
    rw [hst.idleproc, hst.parent]
    exact h.root

/-- The pid table depends on the pids and the lists only. -/
theorem PidTable.same (h : s.PidTable) (hst : SameTable s t) : t.PidTable where
  idle := by
    rw [hst.idleproc, hst.procList]
    exact h.idle
  nodup := hst.procList ▸ h.nodup
  bucket b q := by
    rw [hst.hashList, hst.procList, hst.pid]
    exact h.bucket b q
  bucketNodup b := hst.hashList ▸ h.bucketNodup b
  idlePid := by
    rw [hst.idleproc, hst.pid]
    exact h.idlePid
  pid q hq := by
    rw [hst.pid]
    exact h.pid q (hst.procList ▸ hq)
  inj q hq r hr := by
    rw [hst.pid, hst.pid]
    exact h.inj q (hst.procList ▸ hq) r (hst.procList ▸ hr)
  count := by
    rw [hst.nrProcess, hst.procList]
    exact h.count
  lastPid := hst.lastPid ▸ h.lastPid
  nextSafe := hst.nextSafe ▸ h.nextSafe
  gap := by
    rw [hst.pids, hst.lastPid, hst.nextSafe]
    exact h.gap

-- ===== the chains

/-- Two processes have no child in common. -/
theorem Tree.disjoint (h : s.Tree kids leaving) {a b x : Nat}
    (ha : s.IsProc a) (hb : s.IsProc b) (hxa : x ∈ kids a)
    (hxb : x ∈ kids b) : a = b :=
  Option.some.inj (((h.mem a ha x).1 hxa).2.symm.trans
    ((h.mem b hb x).1 hxb).2)

/-- The youngest child is one. -/
theorem Tree.cptr_mem (h : s.Tree kids leaving) (hp : s.IsProc p)
    (hq : (s.proc p).cptr = some q) : q ∈ kids p := by
  obtain ⟨before, -, hchain⟩ := h.chain p hp
  have hhead := hchain.head_eq
  rw [hq] at hhead
  exact List.mem_of_mem_head? hhead.symm

/-- A child in front of the others: what `set_links` and the hand-over to
`initproc` have in common. -/
theorem Tree.push_chain (h : s.Tree kids leaving) {c : Nat}
    (hc : s.IsProc c) (hfresh : p ∉ kids c) (hoptr : ∀ q, (t.proc q).optr =
      if q = p then (s.proc c).cptr else (s.proc q).optr)
    (hyptr : ∀ q, (t.proc q).yptr =
      if (s.proc c).cptr = some q then some p
      else if q = p then none else (s.proc q).yptr)
    (hcptr : (t.proc c).cptr = some p) : t.Chain none c (p :: kids c) := by
  obtain ⟨before, -, hchain⟩ := h.chain c hc
  have hne : ∀ q ∈ kids c, q ≠ p := fun q hq heq => hfresh (heq ▸ hq)
  have hfirst : (s.proc c).cptr ≠ some p := fun heq =>
    hfresh (h.cptr_mem hc heq)
  rw [Chain, hcptr]
  refine hchain.push (h.nodup c hc) (fun q hq => ?_) ?_ ?_ (fun q hq => ?_)
    fun q hq hnot => ?_
  · rw [hoptr, if_neg (hne q hq)]
  · rw [hoptr, if_pos rfl]
  · rw [hyptr, if_neg hfirst, if_pos rfl]
  · rw [hyptr, if_pos hq]
  · rw [hyptr, if_neg hnot, if_neg (hne q hq)]

/-- The chain of another process is left alone. -/
theorem Tree.other_chain (h : s.Tree kids leaving) {c r : Nat}
    {before : Option Nat} {l : List Nat} (hc : s.IsProc c)
    (hchain : Linked (fun q => (s.proc q).optr) (fun q => (s.proc q).yptr)
      before (t.proc r).cptr l)
    (hl : ∀ q ∈ l, q ∉ kids c ∧ q ≠ p) (hoptr : ∀ q, (t.proc q).optr =
      if q = p then (s.proc c).cptr else (s.proc q).optr)
    (hyptr : ∀ q, (t.proc q).yptr =
      if (s.proc c).cptr = some q then some p
      else if q = p then none else (s.proc q).yptr) :
    t.Chain before r l := by
  refine hchain.congr (fun q hq => ?_) fun q hq => ?_
  · rw [hoptr, if_neg (hl q hq).2]
  · have hfirst : (s.proc c).cptr ≠ some q := fun heq =>
      (hl q hq).1 (h.cptr_mem hc heq)
    rw [hyptr, if_neg hfirst, if_neg (hl q hq).2]

-- ===== the hand-over

/-- `initproc` is a process, not a child of a user process, and alive. -/
structure Init (s : Procs) : Prop where
  listed : s.initproc ∈ s.procList
  parent : (s.proc s.initproc).parent = some s.idleproc
  alive : (s.proc s.initproc).state ≠ .zombie

theorem Init.same (h : s.Init) (hst : SameTree s t) : t.Init where
  listed := by
    rw [hst.initproc, hst.procList]
    exact h.listed
  parent := by
    rw [hst.initproc, hst.parent, hst.idleproc]
    exact h.parent
  alive := by
    rw [hst.initproc]
    exact fun hz => h.alive ((hst.zombie _).1 hz)

/-- The children when the first one of `c`, `p`, has been handed to `i`. -/
def handOver (kids : Nat → List Nat) (c i p : Nat) (rest : List Nat) :
    Nat → List Nat :=
  Function.update (Function.update kids c rest) i (p :: kids i)

theorem handOver_current {c i : Nat} (h : c ≠ i) (kids : Nat → List Nat)
    (p : Nat) (rest : List Nat) : handOver kids c i p rest c = rest := by
  rw [handOver, update_of_ne h, update_self]

theorem handOver_other {c i r : Nat} (hc : r ≠ c) (hi : r ≠ i)
    (kids : Nat → List Nat) (p : Nat) (rest : List Nat) :
    handOver kids c i p rest r = kids r := by
  rw [handOver, update_of_ne hi, update_of_ne hc]

section HandOver

variable (htree : s.Tree kids (some s.current)) (hinit : s.Init)
  (hproc : s.IsProc s.current) (hne : s.current ≠ s.initproc)
  {rest : List Nat} (hkids : kids s.current = p :: rest)
include htree hinit hproc hne hkids

/-- The child handed over is on no other list of children. -/
theorem Tree.handOver_notMem : p ∉ kids s.initproc ∧ p ∉ rest ∧
    ∀ r, s.IsProc r → r ≠ s.current → p ∉ kids r := by
  have hpmem : p ∈ kids s.current := hkids ▸ List.mem_cons_self
  have hother : ∀ r, s.IsProc r → r ≠ s.current → p ∉ kids r :=
    fun r hr hrc hin => hrc (htree.disjoint hr hproc hin hpmem)
  refine ⟨hother _ (.inr hinit.listed) hne.symm, ?_, hother⟩
  have hnodup := htree.nodup _ hproc
  rw [hkids] at hnodup
  exact (List.nodup_cons.1 hnodup).1

/-- The children of each process when `p` has been handed over. -/
theorem Tree.handOver_kids {r : Nat} (hr : s.IsProc r) :
    (∃ before, (some s.current ≠ some r → before = none) ∧
      (s.adoptLinks p).Chain before r
        (handOver kids s.current s.initproc p rest r)) ∧
    (handOver kids s.current s.initproc p rest r).Nodup ∧
    ∀ q, q ∈ handOver kids s.current s.initproc p rest r ↔ q ∈ s.procList ∧
        (if q = p then some s.initproc else (s.proc q).parent) = some r := by
  have hinitp : s.IsProc s.initproc := .inr hinit.listed
  obtain ⟨hpinit, hprest, hpother⟩ :=
    htree.handOver_notMem hinit hproc hne hkids
  have hlinks := adoptLinks_eq hne p
  have hoptr := fun q => congrArg (fun u : Procs => (u.proc q).optr) hlinks
  have hyptr := fun q => congrArg (fun u : Procs => (u.proc q).yptr) hlinks
  have hcptr : ((s.adoptLinks p).proc r).cptr = if r = s.initproc then some p
      else if r = s.current then (s.proc p).optr else (s.proc r).cptr := by
    rw [hlinks]
    rfl
  by_cases hri : r = s.initproc
  · subst hri
    rw [handOver, update_self]
    refine ⟨⟨none, fun _ => rfl, htree.push_chain hinitp hpinit hoptr hyptr ?_⟩,
      List.nodup_cons.2 ⟨hpinit, htree.nodup _ hr⟩, fun q => ?_⟩
    · rw [hcptr, if_pos rfl]
    · rw [List.mem_cons]
      by_cases hqp : q = p
      · have hpmem : p ∈ kids s.current := hkids ▸ List.mem_cons_self
        rw [if_pos hqp, hqp]
        exact iff_of_true (.inl rfl) ⟨((htree.mem _ hproc p).1 hpmem).1, rfl⟩
      · rw [if_neg hqp, or_iff_right hqp, htree.mem _ hr]
  have hnot : some s.initproc ≠ some r := fun heq =>
    hri (Option.some.inj heq).symm
  by_cases hrc : r = s.current
  · -- what is left of the children still leads back to `p`
    subst hrc
    obtain ⟨before, -, hchain⟩ := htree.chain _ hproc
    rw [hkids] at hchain
    have hnodup := htree.nodup _ hproc
    rw [hkids] at hnodup
    rw [handOver_current hne]
    refine ⟨⟨some p, fun hnot => absurd rfl hnot, htree.other_chain hinitp ?_
      (fun q hq => ⟨?_, ?_⟩) hoptr hyptr⟩, (List.nodup_cons.1 hnodup).2,
      fun q => ?_⟩
    · rw [hcptr, if_neg hne, if_pos rfl]
      exact hchain.tail
    · intro hin
      exact hne (htree.disjoint hproc hinitp (hkids ▸ .tail p hq) hin)
    · exact fun heq => hprest (heq ▸ hq)
    · by_cases hqp : q = p
      · rw [if_pos hqp, hqp]
        exact iff_of_false hprest fun hboth => hnot hboth.2
      · rw [if_neg hqp, ← htree.mem _ hr, hkids, List.mem_cons,
          or_iff_right hqp]
  · obtain ⟨before, hbefore, hchain⟩ := htree.chain r hr
    rw [handOver_other hrc hri]
    refine ⟨⟨before, hbefore, htree.other_chain hinitp ?_
      (fun q hq => ⟨?_, ?_⟩) hoptr hyptr⟩, htree.nodup r hr, fun q => ?_⟩
    · rw [hcptr, if_neg hri, if_neg hrc]
      exact hchain
    · exact fun hin => hri (htree.disjoint hr hinitp hq hin)
    · exact fun heq => hpother r hr hrc (heq ▸ hq)
    · by_cases hqp : q = p
      · rw [if_pos hqp, hqp]
        exact iff_of_false (hpother r hr hrc) fun hboth => hnot hboth.2
      · rw [if_neg hqp, htree.mem r hr]

/-- The first child of `current` becomes the first one of `initproc`. -/
theorem Tree.adoptLinks (hpinit : s.initproc ≠ p) : (s.adoptLinks p).Tree
    (handOver kids s.current s.initproc p rest) (some s.current) := by
  have htable := SameTable.adoptLinks hne p
  have hparent := adoptLinks_parent hne p
  have hkids' := fun r hr => htree.handOver_kids hinit hproc hne hkids
    (r := r) (htable.isProc.1 hr)
  refine ⟨fun r hr => (hkids' r hr).1, fun r hr => (hkids' r hr).2.1,
    fun r hr q => ?_, fun q hq => ?_, fun q hq hz hnot => ?_, ?_⟩
  · rw [htable.procList, hparent]
    exact (hkids' r hr).2.2 q
  · rw [hparent]
    by_cases hqp : q = p
    · rw [if_pos hqp]
      exact ⟨s.initproc, rfl, hqp ▸ hpinit,
        htable.isProc.2 (.inr hinit.listed)⟩
    · rw [if_neg hqp]
      obtain ⟨r, hr, hrq, hrproc⟩ := htree.parent q (htable.procList ▸ hq)
      exact ⟨r, hr, hrq, htable.isProc.2 hrproc⟩
  · rw [((SameSched.adoptLinks hne p).own q).state] at hz
    have hqi : q ≠ s.initproc := fun heq => hinit.alive (heq ▸ hz)
    have hqc : q ≠ s.current := fun heq => hnot (heq ▸ rfl)
    rw [handOver_other hqc hqi]
    exact htree.childless q (htable.procList ▸ hq) hz hnot
  · have hpmem : p ∈ kids s.current := hkids ▸ List.mem_cons_self
    have hidle : s.idleproc ≠ p := by
      rintro rfl
      have hparent := ((htree.mem _ hproc _).1 hpmem).2
      rw [htree.root] at hparent
      exact Option.some_ne_none _ hparent.symm
    rw [htable.idleproc, hparent, if_neg hidle]
    exact htree.root

end HandOver

/-- The init process is not the one handed over, so it stays as it is. -/
theorem Init.adoptLinks (h : s.Init) (hne : s.current ≠ s.initproc)
    (hp : p ≠ s.initproc) : (s.adoptLinks p).Init := by
  have htable := SameTable.adoptLinks hne p
  have hsched := SameSched.adoptLinks hne p
  refine ⟨?_, ?_, ?_⟩
  · rw [hsched.initproc, htable.procList]
    exact h.listed
  · rw [hsched.initproc, adoptLinks_parent hne, if_neg hp.symm,
      htable.idleproc]
    exact h.parent
  · rw [hsched.initproc, (hsched.own _).state]
    exact h.alive

-- ===== reaping

section Reap

variable (htree : s.Tree kids none) (htable : s.PidTable)
  (hp : p ∈ s.procList) {c : Nat} (hparent : (s.proc p).parent = some c)
  (hc : s.IsProc c)

theorem reap_parent (s : Procs) (p q : Nat) :
    ((s.reap p).proc q).parent = (s.proc q).parent := by
  rw [reap_eq]
  rfl

theorem reap_procList (s : Procs) (p : Nat) :
    (s.reap p).procList = s.procList.erase p := by
  rw [reap_eq]

include htable in
theorem PidTable.mem_reap : q ∈ (s.reap p).procList ↔
    q ≠ p ∧ q ∈ s.procList := by
  rw [reap_procList]
  exact htable.nodup.mem_erase_iff

include htable hp in
/-- Reaping removes one process and no other. -/
theorem PidTable.isProc_reap : (s.reap p).IsProc q ↔ q ≠ p ∧ s.IsProc q := by
  rw [IsProc, htable.mem_reap, (SameSched.reap s p).idleproc]
  constructor
  · rintro (hidle | ⟨hne, hin⟩)
    · refine ⟨fun heq => htable.idle ?_, .inl hidle⟩
      rw [← hidle, heq]
      exact hp
    · exact ⟨hne, .inr hin⟩
  · rintro ⟨hne, hidle | hin⟩
    · exact .inl hidle
    · exact .inr ⟨hne, hin⟩

include htree hp hparent hc

/-- The chain of the parent closes over the reaped child. -/
theorem Tree.reap_chain_parent :
    (s.reap p).Chain none c ((kids c).erase p) := by
  obtain ⟨before, hbefore, hchain⟩ := htree.chain c hc
  obtain rfl := hbefore (Option.some_ne_none c).symm
  have hpin : p ∈ kids c := (htree.mem c hc p).2 ⟨hp, hparent⟩
  have hnone : ∀ z ∈ kids c, (none : Option Nat) ≠ some z :=
    fun z _ => (Option.some_ne_none z).symm
  have hnodup := htree.nodup c hc
  have hcptr : ((s.reap p).proc c).cptr =
      if (s.proc c).cptr = some p then (s.proc p).optr
      else (s.proc c).cptr := by
    have hiff : (s.proc p).yptr = none ↔ (s.proc c).cptr = some p :=
      hchain.prev_eq_none_iff hpin
    simp only [reap_eq, Proc.relink, hiff, hparent, and_true]
  rw [Chain, hcptr]
  refine hchain.erase hnodup hpin hnone (fun z hz _ => ?_) fun z hz _ => ?_
  · simp only [reap_eq, Proc.relink, hchain.prev_eq_iff hnodup hpin hz hnone]
  · simp only [reap_eq, Proc.relink, hchain.prev_eq_iff hnodup hz hpin hnone]

/-- The chain of any other process does not change. -/
theorem Tree.reap_chain_other {r : Nat} (hr : s.IsProc r) (hrc : r ≠ c) :
    (s.reap p).Chain none r (kids r) := by
  obtain ⟨before, hbefore, hchain⟩ := htree.chain c hc
  obtain rfl := hbefore (Option.some_ne_none c).symm
  obtain ⟨before, hbefore, hchain'⟩ := htree.chain r hr
  obtain rfl := hbefore (Option.some_ne_none r).symm
  have hpin : p ∈ kids c := (htree.mem c hc p).2 ⟨hp, hparent⟩
  have hcptr : ((s.reap p).proc r).cptr = (s.proc r).cptr := by
    simp only [reap_eq, Proc.relink, hparent]
    exact if_neg fun hboth => hrc (Option.some.inj hboth.2).symm
  rw [Chain, hcptr]
  refine hchain'.congr (fun z hz => ?_) fun z hz => ?_
  · -- the one before `p`, if any, is another child of `c`
    simp only [reap_eq, Proc.relink]
    refine if_neg fun heq => ?_
    have hfirst : (s.proc c).cptr ≠ some p := fun hfirst => by
      rw [(hchain.prev_eq_none_iff hpin).2 hfirst] at heq
      cases heq
    obtain ⟨y, hy, hback⟩ := hchain.prev_mem hpin hfirst
    cases hback.symm.trans heq
    exact hrc (htree.disjoint hr hc hz hy)
  · simp only [reap_eq, Proc.relink]
    exact if_neg fun heq =>
      hrc (htree.disjoint hr hc hz (hchain.next_mem hpin heq))

include htable in
/-- Reaping a zombie, which has no children, keeps the tree: its parent
has one child less. -/
theorem Tree.reap (hzombie : (s.proc p).state = .zombie) :
    (s.reap p).Tree (update kids c ((kids c).erase p)) none := by
  have hpin : p ∈ kids c := (htree.mem c hc p).2 ⟨hp, hparent⟩
  have hnokids : kids p = [] :=
    htree.childless p hp hzombie (Option.some_ne_none p).symm
  refine ⟨fun r hr => ?_, fun r hr => ?_, fun r hr q => ?_, fun q hq => ?_,
    fun q hq hz _ => ?_, ?_⟩
  · obtain ⟨-, hr⟩ := (htable.isProc_reap hp).1 hr
    refine ⟨none, fun _ => rfl, ?_⟩
    by_cases hrc : r = c
    · subst hrc
      rw [update_self]
      exact htree.reap_chain_parent hp hparent hc
    · rw [update_of_ne hrc]
      exact htree.reap_chain_other hp hparent hc hr hrc
  · obtain ⟨-, hr⟩ := (htable.isProc_reap hp).1 hr
    by_cases hrc : r = c
    · subst hrc
      rw [update_self]
      exact (htree.nodup r hr).erase p
    · rw [update_of_ne hrc]
      exact htree.nodup r hr
  · obtain ⟨-, hr⟩ := (htable.isProc_reap hp).1 hr
    rw [htable.mem_reap, reap_parent, and_assoc, ← htree.mem r hr]
    by_cases hrc : r = c
    · subst hrc
      rw [update_self]
      exact (htree.nodup r hr).mem_erase_iff
    · rw [update_of_ne hrc]
      refine (and_iff_right_of_imp fun hq heq => hrc ?_).symm
      exact htree.disjoint hr hc (heq ▸ hq) hpin
  · rw [htable.mem_reap] at hq
    obtain ⟨r, hr, hrq, hrproc⟩ := htree.parent q hq.2
    rw [reap_parent]
    refine ⟨r, hr, hrq, (htable.isProc_reap hp).2 ⟨?_, hrproc⟩⟩
    rintro rfl
    have hin : q ∈ kids r := (htree.mem r hrproc q).2 ⟨hq.2, hr⟩
    rw [hnokids] at hin
    exact absurd hin List.not_mem_nil
  · rw [htable.mem_reap] at hq
    rw [((SameSched.reap s p).own q).state] at hz
    have hnone := htree.childless q hq.2 hz (Option.some_ne_none q).symm
    by_cases hqc : q = c
    · subst hqc
      rw [update_self, hnone, List.erase_nil]
    · rw [update_of_ne hqc]
      exact hnone
  · rw [(SameSched.reap s p).idleproc, reap_parent]
    exact htree.root

omit htree hparent hc in
include htable in
/-- Reaping takes the process off the list and out of its bucket. -/
theorem PidTable.reap : (s.reap p).PidTable := by
  have hown := (SameSched.reap s p).own
  have hpid : ∀ q, ((s.reap p).proc q).pid = (s.proc q).pid :=
    fun q => (hown q).pid
  have hmem : ∀ q, q ∈ (s.reap p).procList ↔ q ≠ p ∧ q ∈ s.procList :=
    fun q => htable.mem_reap
  have hhash : ∀ b, (s.reap p).hashList b = (s.hashList b).erase p := by
    intro b
    rw [reap_eq]
  refine ⟨?_, ?_, fun b q => ?_, fun b => ?_, ?_, fun q hq => ?_,
    fun q hq r hr heq => ?_, ?_, ?_, ?_, ?_⟩
  · rw [(SameSched.reap s p).idleproc, hmem]
    exact fun hboth => htable.idle hboth.2
  · rw [reap_procList]
    exact htable.nodup.erase p
  · rw [hhash, (htable.bucketNodup b).mem_erase_iff, htable.bucket, hmem,
      hpid, and_assoc]
  · rw [hhash]
    exact (htable.bucketNodup b).erase p
  · rw [(SameSched.reap s p).idleproc, hpid]
    exact htable.idlePid
  · rw [hpid]
    exact htable.pid q ((hmem q).1 hq).2
  · rw [hpid, hpid] at heq
    exact htable.inj q ((hmem q).1 hq).2 r ((hmem r).1 hr).2 heq
  · have hlen := List.length_erase_of_mem hp
    have hpos := List.length_pos_of_mem hp
    have hcount := htable.count
    rw [reap_eq]
    change s.nrProcess - 1 = (s.procList.erase p).length + 1
    omega
  · rw [reap_eq]
    exact htable.lastPid
  · rw [reap_eq]
    exact htable.nextSafe
  · intro x hx
    obtain ⟨q, hq, rfl⟩ := List.mem_map.1 hx
    have hx' : ((s.reap p).proc q).pid ∈ s.pids := by
      rw [hpid]
      exact List.mem_map_of_mem ((hmem q).1 hq).2
    rw [reap_eq] at hx' ⊢
    exact htable.gap _ hx'

omit htree hp hparent hc in
/-- The init process is not a zombie, so it is never reaped. -/
theorem Init.reap (h : s.Init) (htable : s.PidTable)
    (hzombie : (s.proc p).state = .zombie) : (s.reap p).Init := by
  have hsame := SameSched.reap s p
  refine ⟨?_, ?_, ?_⟩
  · rw [hsame.initproc, htable.mem_reap]
    exact ⟨fun heq => h.alive (heq ▸ hzombie), h.listed⟩
  · rw [hsame.initproc, reap_parent, hsame.idleproc]
    exact h.parent
  · rw [hsame.initproc, (hsame.own _).state]
    exact h.alive

end Reap

-- ===== a birth

/-- What `do_fork` has made of a `proc_struct` when it enters it. -/
def newProc (s : Procs) (kstack : Nat) (mm fs : Option Nat) (pid : Int) :
    Proc :=
  { Proc.alloc with
    parent := some s.current, kstack := kstack, mm := mm, fs := fs
    pid := pid }

/-- The process `x` at `p` has been entered. -/
def born (s : Procs) (p : Nat) (x : Proc) (last safe : Int) : Procs :=
  ({ s with lastPid := last, nextSafe := safe }.setProc p
    fun _ => x).hashProc p |>.setLinks p

theorem setProc_setProc (s : Procs) (p : Nat) (f g : Proc → Proc) :
    (s.setProc p f).setProc p g = s.setProc p fun x => g (f x) := by
  simp only [setProc, update_self, update_idem]

/-- `do_fork` finds no room, or a pid nobody has for the new process. -/
theorem PidTable.doFork_eq (htable : s.PidTable) (hp : ¬s.IsProc p)
    (kstack : Nat) (mm fs : Option Nat) :
    s.doFork p kstack mm fs = some (s, -eNoFreeProc) ∨
      ∃ pid safe, Fresh s.pids pid safe ∧ s.doFork p kstack mm fs =
        ((s.born p (s.newProc kstack mm fs pid) pid safe).wakeupProc p).map
          fun t => (t, pid) := by
  rw [doFork]
  by_cases hfull : maxProcess ≤ s.nrProcess
  · exact .inl (if_pos hfull)
  rw [if_neg hfull]
  refine .inr ?_
  change ∃ pid safe, _ ∧
    (s.setProc p fun _ => s.newProc kstack mm fs (-1)).addProc p = _
  set u := s.setProc p fun _ => s.newProc kstack mm fs (-1) with hu
  have hpids : u.pids = s.pids := by
    refine List.map_congr_left fun q hq => ?_
    rw [setProc_of_ne]
    exact fun heq => hp (.inr (heq ▸ hq))
  have hfew : u.procList.length < 8191 := by
    have hcount := htable.count
    unfold maxProcess at hfull
    rw [setProc_procList]
    omega
  obtain ⟨last, safe, hget, hfresh⟩ := getPid_spec hfew htable.lastPid
    (hpids ▸ htable.gap) htable.nextSafe
  refine ⟨last, safe, hpids ▸ hfresh, ?_⟩
  rw [addProc, hget]
  have hentered : { u with lastPid := last, nextSafe := safe }.setProc p
        (fun x => { x with pid := last }) =
      { s with lastPid := last, nextSafe := safe }.setProc p
        fun _ => s.newProc kstack mm fs last :=
    setProc_setProc { s with lastPid := last, nextSafe := safe } p
      (fun _ => s.newProc kstack mm fs (-1)) fun x => { x with pid := last }
  exact congrArg (fun v : Procs =>
    (((v.hashProc p).setLinks p).wakeupProc p).map fun t => (t, last)) hentered

section Born

variable {x : Proc} {last safe : Int} {c : Nat}
  (hparent : x.parent = some c) (hne : c ≠ p)

section
include hparent

/-- The new process is the youngest child of its parent. -/
theorem born_eq : s.born p x last safe = { s with
    proc := fun q => (if q = p then x else s.proc q).relink
      (if q = p then some c else (s.proc q).parent)
      (if q = c then some p else if q = p then x.cptr else (s.proc q).cptr)
      (if (if c = p then x else s.proc c).cptr = some q then some p
        else if q = p then none else (s.proc q).yptr)
      (if q = p then (if c = p then x else s.proc c).cptr
        else (s.proc q).optr)
    procList := p :: s.procList
    hashList := update s.hashList (pidHashfn x.pid)
      (p :: s.hashList (pidHashfn x.pid))
    nrProcess := s.nrProcess + 1, lastPid := last, nextSafe := safe } := by
  have hx : ((({ s with lastPid := last, nextSafe := safe }.setProc p
      fun _ => x).hashProc p).proc p).parent = some c := by
    rw [hashProc, setProc_self, hparent]
  rw [born, setLinks_eq hx]
  simp only [hashProc, setProc_eq, if_true]
  congr 1
  funext q
  split_ifs <;> simp_all [Proc.relink]

/-- A birth does not touch the scheduler. -/
theorem SameSched.born :
    SameSched (s.setProc p fun _ => x) (s.born p x last safe) := by
  rw [born_eq hparent]
  refine ⟨rfl, rfl, rfl, rfl, rfl, rfl, fun q => ?_⟩
  rw [setProc_proc]
  exact .relink _ _ _ _ _

theorem born_own (q : Nat) : (if q = p then x else s.proc q).SameOwn
    ((s.born p x last safe).proc q) := by
  rw [born_eq hparent]
  exact .relink _ _ _ _ _

theorem born_cptr (q : Nat) : ((s.born p x last safe).proc q).cptr =
    if q = c then some p else if q = p then x.cptr else (s.proc q).cptr := by
  rw [born_eq hparent]
  rfl

theorem born_parent (q : Nat) : ((s.born p x last safe).proc q).parent =
    if q = p then some c else (s.proc q).parent := by
  rw [born_eq hparent]
  rfl

theorem mem_born : q ∈ (s.born p x last safe).procList ↔
    q = p ∨ q ∈ s.procList := by
  rw [born_eq hparent]
  exact List.mem_cons

/-- A birth adds one process and no other. -/
theorem isProc_born : (s.born p x last safe).IsProc q ↔
    q = p ∨ s.IsProc q := by
  have hidle : (s.born p x last safe).idleproc = s.idleproc :=
    (SameSched.born hparent).idleproc
  rw [IsProc, mem_born hparent, hidle, or_left_comm]
  rfl

include hne

theorem born_optr (q : Nat) : ((s.born p x last safe).proc q).optr =
    if q = p then (s.proc c).cptr else (s.proc q).optr := by
  simp only [born_eq hparent, if_neg hne, Proc.relink]

theorem born_yptr (q : Nat) : ((s.born p x last safe).proc q).yptr =
    if (s.proc c).cptr = some q then some p
    else if q = p then none else (s.proc q).yptr := by
  simp only [born_eq hparent, if_neg hne, Proc.relink]

variable (htree : s.Tree kids none) (hc : s.IsProc c) (hp : ¬s.IsProc p)
include htree hc hp

/-- The children of each process when `p` has been born. -/
theorem Tree.born_kids (hx : x.cptr = none) (r : Nat)
    (hr : (s.born p x last safe).IsProc r) :
    (s.born p x last safe).Chain none r
      (update (update kids c (p :: kids c)) p [] r) ∧
    (update (update kids c (p :: kids c)) p [] r).Nodup ∧
    ∀ q, q ∈ update (update kids c (p :: kids c)) p [] r ↔
      (q = p ∨ q ∈ s.procList) ∧
        (if q = p then some c else (s.proc q).parent) = some r := by
  rw [isProc_born hparent] at hr
  by_cases hrp : r = p
  · subst hrp
    rw [update_self, Chain, born_cptr hparent, if_neg hne.symm, if_pos rfl]
    refine ⟨hx, List.nodup_nil, fun q => iff_of_false List.not_mem_nil ?_⟩
    -- nobody has the new process as its parent
    rintro ⟨hq, hpar⟩
    by_cases hqr : q = r
    · rw [if_pos hqr] at hpar
      exact hne (Option.some.inj hpar)
    · rw [if_neg hqr] at hpar
      obtain ⟨r', hr', -, hproc⟩ := htree.parent q (hq.resolve_left hqr)
      cases hpar.symm.trans hr'
      exact hp hproc
  have hrs : s.IsProc r := hr.resolve_left hrp
  have hpr : p ∉ kids r := fun hin => hp (.inr ((htree.mem r hrs p).1 hin).1)
  rw [update_of_ne hrp]
  by_cases hrc : r = c
  · subst hrc
    rw [update_self]
    refine ⟨htree.push_chain hc hpr (born_optr hparent hne)
      (born_yptr hparent hne) ?_, List.nodup_cons.2 ⟨hpr, htree.nodup r hc⟩,
      fun q => ?_⟩
    · rw [born_cptr hparent, if_pos rfl]
    · rw [List.mem_cons]
      by_cases hqp : q = p
      · rw [if_pos hqp]
        exact iff_of_true (.inl hqp) ⟨.inl hqp, rfl⟩
      · rw [if_neg hqp, or_iff_right hqp, or_iff_right hqp, htree.mem r hrs]
  · rw [update_of_ne hrc]
    obtain ⟨before, hbefore, hchain⟩ := htree.chain r hrs
    obtain rfl := hbefore (Option.some_ne_none r).symm
    refine ⟨htree.other_chain hc ?_ (fun q hq => ⟨?_, ?_⟩)
      (born_optr hparent hne) (born_yptr hparent hne), htree.nodup r hrs,
      fun q => ?_⟩
    · rw [born_cptr hparent, if_neg hrc, if_neg hrp]
      exact hchain
    · exact fun hin => hrc (htree.disjoint hrs hc hq hin)
    · exact fun heq => hpr (heq ▸ hq)
    · by_cases hqp : q = p
      · rw [if_pos hqp, hqp]
        exact iff_of_false hpr fun hboth => hrc (Option.some.inj hboth.2).symm
      · rw [if_neg hqp, or_iff_right hqp, htree.mem r hrs]

/-- The new process is the first child of the one that forked. -/
theorem Tree.born (hx : x.cptr = none) (hfresh : x.state ≠ .zombie)
    (hlive : (s.proc c).state ≠ .zombie) : (s.born p x last safe).Tree
      (update (update kids c (p :: kids c)) p []) none := by
  have hkids := @htree.born_kids _ _ _ _ last safe _ hparent hne hc hp hx
  refine ⟨fun r hr => ⟨none, fun _ => rfl, (hkids r hr).1⟩,
    fun r hr => (hkids r hr).2.1, fun r hr q => ?_, fun q hq => ?_,
    fun q hq hz _ => ?_, ?_⟩
  · rw [mem_born hparent, born_parent hparent]
    exact (hkids r hr).2.2 q
  · rw [mem_born hparent] at hq
    rw [born_parent hparent]
    by_cases hqp : q = p
    · rw [if_pos hqp]
      exact ⟨c, rfl, hqp ▸ hne, (isProc_born hparent).2 (.inr hc)⟩
    · rw [if_neg hqp]
      obtain ⟨r, hr, hrq, hrproc⟩ := htree.parent q (hq.resolve_left hqp)
      exact ⟨r, hr, hrq, (isProc_born hparent).2 (.inr hrproc)⟩
  · rw [mem_born hparent] at hq
    rw [(born_own hparent q).state] at hz
    by_cases hqp : q = p
    · rw [if_pos hqp] at hz
      exact absurd hz hfresh
    · rw [if_neg hqp] at hz
      have hqc : q ≠ c := fun heq => hlive (heq ▸ hz)
      rw [update_of_ne hqp, update_of_ne hqc]
      exact htree.childless q (hq.resolve_left hqp) hz
        (Option.some_ne_none q).symm
  · rw [(SameSched.born hparent).idleproc, born_parent hparent]
    rw [if_neg fun heq => hp (.inl heq.symm)]
    exact htree.root

end

section
variable (htable : s.PidTable) (hp : ¬s.IsProc p)
include hparent htable hp

theorem PidTable.born_bucket (b q : Nat) :
    q ∈ (s.born p x last safe).hashList b ↔
      q ∈ (s.born p x last safe).procList ∧
        pidHashfn ((s.born p x last safe).proc q).pid = b := by
  have hpbucket : ∀ b, p ∉ s.hashList b := fun b hin =>
    hp (.inr ((htable.bucket b p).1 hin).1)
  rw [(born_own hparent q).pid, born_eq hparent]
  change q ∈ update s.hashList (pidHashfn x.pid)
    (p :: s.hashList (pidHashfn x.pid)) b ↔ q ∈ p :: s.procList ∧ _
  rw [List.mem_cons]
  by_cases hqp : q = p
  · subst hqp
    rw [if_pos rfl]
    by_cases hb : b = pidHashfn x.pid
    · subst hb
      rw [update_self]
      exact iff_of_true List.mem_cons_self ⟨.inl rfl, rfl⟩
    · rw [update_of_ne hb]
      exact iff_of_false (hpbucket b) fun hboth => hb hboth.2.symm
  · rw [if_neg hqp, or_iff_right hqp, ← htable.bucket]
    by_cases hb : b = pidHashfn x.pid
    · subst hb
      rw [update_self, List.mem_cons, or_iff_right hqp]
    · rw [update_of_ne hb]

theorem PidTable.born_bucketNodup (b : Nat) :
    ((s.born p x last safe).hashList b).Nodup := by
  rw [born_eq hparent]
  change (update s.hashList (pidHashfn x.pid)
    (p :: s.hashList (pidHashfn x.pid)) b).Nodup
  by_cases hb : b = pidHashfn x.pid
  · subst hb
    rw [update_self]
    exact List.nodup_cons.2 ⟨fun hin =>
      hp (.inr ((htable.bucket _ p).1 hin).1), htable.bucketNodup _⟩
  · rw [update_of_ne hb]
    exact htable.bucketNodup b

omit htable in
/-- The pids in use, and the new one. -/
theorem PidTable.born_pids :
    (s.born p x last safe).pids = x.pid :: s.pids := by
  have hlist : (s.born p x last safe).procList = p :: s.procList := by
    rw [born_eq hparent]
  rw [pids, hlist, List.map_cons, (born_own hparent p).pid, if_pos rfl]
  refine congrArg (x.pid :: ·) (List.map_congr_left fun q hq => ?_)
  rw [(born_own hparent q).pid, if_neg]
  exact fun heq => hp (.inr (heq ▸ hq))

/-- A fresh pid goes into the bucket of its hash, so the table stays
sound. -/
theorem PidTable.born (hfresh : Fresh s.pids x.pid safe) :
    (s.born p x x.pid safe).PidTable := by
  have hidle : (s.born p x x.pid safe).idleproc = s.idleproc :=
    (SameSched.born hparent).idleproc
  have hmem : ∀ {q}, q ∈ (s.born p x x.pid safe).procList ↔
      q = p ∨ q ∈ s.procList := mem_born hparent
  have hpid : ∀ q, ((s.born p x x.pid safe).proc q).pid =
      if q = p then x.pid else (s.proc q).pid := by
    intro q
    rw [(born_own hparent q).pid, apply_ite Proc.pid]
  have hnew : ∀ q ∈ s.procList, (s.proc q).pid ≠ x.pid := fun q hq heq =>
    hfresh.notMem (heq ▸ List.mem_map_of_mem hq)
  refine ⟨?_, ?_, htable.born_bucket hparent hp,
    htable.born_bucketNodup hparent hp, ?_, fun q hq => ?_,
    fun q hq r hr heq => ?_, ?_, ?_, ?_, ?_⟩
  · rw [hidle, hmem]
    rintro (heq | hin)
    · exact hp (.inl heq.symm)
    · exact htable.idle hin
  · rw [born_eq hparent]
    exact List.nodup_cons.2 ⟨fun hin => hp (.inr hin), htable.nodup⟩
  · rw [hidle, hpid, if_neg fun heq => hp (.inl heq.symm)]
    exact htable.idlePid
  · rw [hpid]
    by_cases hqp : q = p
    · rw [if_pos hqp]
      exact ⟨hfresh.pos, hfresh.lt⟩
    · rw [if_neg hqp]
      exact htable.pid q ((hmem.1 hq).resolve_left hqp)
  · rw [hpid, hpid] at heq
    by_cases hqp : q = p
    · by_cases hrp : r = p
      · rw [hqp, hrp]
      · rw [if_pos hqp, if_neg hrp] at heq
        exact absurd heq.symm (hnew r ((hmem.1 hr).resolve_left hrp))
    · by_cases hrp : r = p
      · rw [if_neg hqp, if_pos hrp] at heq
        exact absurd heq (hnew q ((hmem.1 hq).resolve_left hqp))
      · rw [if_neg hqp, if_neg hrp] at heq
        exact htable.inj q ((hmem.1 hq).resolve_left hqp) r
          ((hmem.1 hr).resolve_left hrp) heq
  · rw [born_eq hparent]
    change s.nrProcess + 1 = s.procList.length + 1 + 1
    rw [htable.count]
  · rw [born_eq hparent]
    exact hfresh.pos
  · rw [born_eq hparent]
    exact hfresh.safeLe
  · rw [PidTable.born_pids hparent hp]
    rw [born_eq hparent]
    intro y hy hgt
    rcases List.mem_cons.1 hy with rfl | hy
    · exact absurd hgt (lt_irrefl _)
    · exact hfresh.gap y hy hgt

end

include hparent in
/-- A birth never replaces the init process. -/
theorem Init.born (h : s.Init) (hp : ¬s.IsProc p) :
    (s.born p x last safe).Init := by
  have hinit : (s.born p x last safe).initproc = s.initproc :=
    (SameSched.born hparent).initproc
  have hidle : (s.born p x last safe).idleproc = s.idleproc :=
    (SameSched.born hparent).idleproc
  have hne' : s.initproc ≠ p := fun heq => hp (.inr (heq ▸ h.listed))
  refine ⟨?_, ?_, ?_⟩
  · rw [hinit, mem_born hparent]
    exact .inr h.listed
  · rw [hinit, born_parent hparent, if_neg hne', hidle]
    exact h.parent
  · rw [hinit, (born_own hparent _).state, if_neg hne']
    exact h.alive

end Born

end Procs

end MipsUcore.Kern
