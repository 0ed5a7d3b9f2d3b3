/-
The tree and the table together, and how they get through an exit.

`do_exit` makes `current` a zombie first and gives its children away one by
one afterwards, and in between it may wake a process. `Leaving` is what
holds all the while.
-/
import MipsUcore.Kern.Proofs.ProcTree

namespace MipsUcore.Kern

namespace Procs

variable {s t : Procs} {kids : Nat → List Nat}
  {p q : Nat}
  {l : List Nat}

-- ===== tree and table

structure Family (s : Procs) : Prop where
  tree : ∃ kids, s.Tree kids none
  table : s.PidTable

theorem Family.same (h : s.Family) (hst : SameTree s t) : t.Family := by
  obtain ⟨kids, htree⟩ := h.tree
  exact ⟨⟨kids, htree.same hst⟩, h.table.same hst.table⟩

/-- The parent of a process is a process. -/
theorem Family.parent (h : s.Family) (hp : p ∈ s.procList) :
    ∃ c, (s.proc p).parent = some c ∧ c ≠ p ∧ s.IsProc c := by
  obtain ⟨kids, htree⟩ := h.tree
  exact htree.parent p hp

/-- Reaping a zombie keeps the family. -/
theorem Family.reap (h : s.Family) (hp : p ∈ s.procList)
    (hzombie : (s.proc p).state = .zombie) : (s.reap p).Family := by
  obtain ⟨kids, htree⟩ := h.tree
  obtain ⟨c, hparent, -, hc⟩ := htree.parent p hp
  exact ⟨⟨_, htree.reap h.table hp hparent hc hzombie⟩, h.table.reap hp⟩

/-- So does the birth of a child of a living process. -/
theorem Family.born (h : s.Family) {kstack : Nat} {mm fs : Option Nat}
    {pid safe : Int} (hcur : s.IsProc s.current)
    (hlive : (s.proc s.current).state ≠ .zombie) (hp : ¬s.IsProc p)
    (hfresh : Fresh s.pids pid safe) :
    (s.born p (s.newProc kstack mm fs pid) pid safe).Family := by
  obtain ⟨kids, htree⟩ := h.tree
  have hne : s.current ≠ p := fun heq => hp (heq ▸ hcur)
  have hfirst : (s.newProc kstack mm fs pid).state ≠ .zombie := by
    change ProcState.uninit ≠ .zombie
    decide
  exact ⟨⟨_, htree.born rfl hne hcur hp rfl hfirst hlive⟩,
    h.table.born rfl hp hfresh⟩

/-- `current` gives its children away; `l` are left. -/
structure Leaving (s : Procs) (l : List Nat) : Prop where
  tree : ∃ kids, s.Tree kids (some s.current) ∧ kids s.current = l
  table : s.PidTable
  init : s.Init
  listed : s.current ∈ s.procList
  notInit : s.current ≠ s.initproc

theorem Leaving.notIdle (h : s.Leaving l) :
    s.current ≠ s.idleproc := fun heq => h.table.idle (heq ▸ h.listed)

theorem Leaving.cptr (h : s.Leaving l) :
    (s.proc s.current).cptr = l.head? := by
  obtain ⟨kids, htree, rfl⟩ := h.tree
  obtain ⟨before, -, hchain⟩ := htree.chain _ (.inr h.listed)
  exact hchain.head_eq

/-- The first child left is still a child of the one that exits. -/
theorem Leaving.child (h : s.Leaving (p :: l)) :
    (s.proc p).parent = some s.current := by
  obtain ⟨kids, htree, hkids⟩ := h.tree
  have hin : p ∈ kids s.current := hkids ▸ List.mem_cons_self
  exact ((htree.mem _ (.inr h.listed) p).1 hin).2

/-- A hand-over keeps everything but the one link. -/
theorem Leaving.adoptLinks (h : s.Leaving (p :: l)) :
    (s.adoptLinks p).Leaving l := by
  obtain ⟨kids, htree, hkids⟩ := h.tree
  have hproc : s.IsProc s.current := .inr h.listed
  have hpmem : p ∈ kids s.current := hkids ▸ List.mem_cons_self
  have hpinit : s.initproc ≠ p := by
    rintro rfl
    obtain ⟨-, hparent⟩ := (htree.mem _ hproc _).1 hpmem
    rw [h.init.parent] at hparent
    exact h.notIdle (Option.some.inj hparent).symm
  have hsched := SameSched.adoptLinks h.notInit p
  have htable := SameTable.adoptLinks h.notInit p
  refine ⟨⟨handOver kids s.current s.initproc p l, ?_, ?_⟩,
    h.table.same htable, h.init.adoptLinks h.notInit hpinit.symm, ?_, ?_⟩
  · rw [hsched.current]
    exact htree.adoptLinks h.init hproc h.notInit hkids hpinit
  · rw [hsched.current]
    exact handOver_current h.notInit ..
  · rw [hsched.current, htable.procList]
    exact h.listed
  · rw [hsched.current, hsched.initproc]
    exact h.notInit

theorem Leaving.same (h : s.Leaving l) (hst : SameTree s t)
    (hcur : t.current = s.current) : t.Leaving l := by
  obtain ⟨kids, htree, hkids⟩ := h.tree
  refine ⟨⟨kids, ?_, ?_⟩, h.table.same hst.table, h.init.same hst, ?_, ?_⟩
  · rw [hcur]
    exact htree.same hst
  · rw [hcur]
    exact hkids
  · rw [hcur, hst.procList]
    exact h.listed
  · rw [hcur, hst.initproc]
    exact h.notInit

/-- With its last child gone the process is a zombie like any other. -/
theorem Leaving.done (h : s.Leaving []) : s.Family := by
  obtain ⟨kids, htree, hnil⟩ := h.tree
  refine ⟨⟨kids, fun p hp => ?_, htree.nodup, htree.mem, htree.parent,
    fun q hq hz _ => ?_, htree.root⟩, h.table⟩
  · by_cases hpc : p = s.current
    · refine ⟨none, fun _ => rfl, ?_⟩
      rw [hpc, hnil]
      exact h.cptr
    · obtain ⟨before, hbefore, hchain⟩ := htree.chain p hp
      exact ⟨before, fun _ =>
        hbefore fun heq => hpc (Option.some.inj heq).symm, hchain⟩
  · by_cases hqc : q = s.current
    · rw [hqc]
      exact hnil
    · exact htree.childless q hq hz fun heq => hqc (Option.some.inj heq).symm

/-- Only `current` may be dead and have children. -/
theorem Leaving.parent_alive (h : s.Leaving l) {c : Nat}
    (hq : q ∈ s.procList) (hparent : (s.proc q).parent = some c)
    (hc : c ∈ s.procList) (hne : c ≠ s.current) :
    (s.proc c).state ≠ .zombie := by
  obtain ⟨kids, htree, -⟩ := h.tree
  intro hz
  have hnil := htree.childless c hc hz fun heq =>
    hne (Option.some.inj heq).symm
  have hin := (htree.mem c (.inr hc) q).2 ⟨hq, hparent⟩
  rw [hnil] at hin
  exact absurd hin List.not_mem_nil

/-- `current` has set itself to `PROC_ZOMBIE`. -/
def died (s : Procs) (errorCode : Int) : Procs :=
  s.setProc s.current fun x =>
    { x with mm := none, state := .zombie, exitCode := errorCode }

/-- A process that dies leaves a list of children to hand over. -/
theorem Family.died (h : s.Family) (hi : s.Init)
    (hlisted : s.current ∈ s.procList)
    (hinit : s.current ≠ s.initproc) (errorCode : Int) :
    ∃ l, l.length ≤ s.procList.length ∧ (s.died errorCode).Leaving l := by
  obtain ⟨kids, htree⟩ := h.tree
  have hproc : s.IsProc s.current := .inr hlisted
  have hshort : (kids s.current).length ≤ s.procList.length :=
    ((htree.nodup _ hproc).subperm fun q hq =>
      ((htree.mem _ hproc q).1 hq).1).length_le
  have hlinks : ∀ q, ((s.died errorCode).proc q).links = (s.proc q).links := by
    intro q
    rw [Procs.died, setProc_field Proc.links]
    exact ite_self _
  have hstate : ∀ q, q ≠ s.current →
      ((s.died errorCode).proc q).state = (s.proc q).state :=
    fun q hq => congrArg Proc.state (setProc_of_ne _ _ hq)
  have hparent : ∀ q, ((s.died errorCode).proc q).parent =
      (s.proc q).parent := fun q => congrArg (·.2.2.1) (hlinks q)
  refine ⟨kids s.current, hshort, ⟨kids, ⟨fun p hp => ?_, htree.nodup,
    fun p hp q => ?_, fun q hq => ?_, fun q hq hz hnot => ?_, ?_⟩, rfl⟩,
    h.table.same ?_, ?_, hlisted, hinit⟩
  · obtain ⟨before, hbefore, hchain⟩ := htree.chain p hp
    obtain rfl := hbefore (Option.some_ne_none p).symm
    refine ⟨none, fun _ => rfl, ?_⟩
    have hcptr : ((s.died errorCode).proc p).cptr = (s.proc p).cptr :=
      congrArg (·.2.2.2.1) (hlinks p)
    rw [Chain, hcptr]
    exact hchain.congr (fun q _ => congrArg (·.2.2.2.2.2) (hlinks q))
      fun q _ => congrArg (·.2.2.2.2.1) (hlinks q)
  · rw [hparent]
    exact htree.mem p hp q
  · rw [hparent]
    exact htree.parent q hq
  · have hqc : q ≠ s.current := fun heq => hnot (heq ▸ rfl)
    rw [hstate q hqc] at hz
    exact htree.childless q hq hz (Option.some_ne_none q).symm
  · exact (hparent s.idleproc).trans htree.root
  · exact ⟨rfl, rfl, rfl, rfl, rfl, rfl, fun q => congrArg (·.1) (hlinks q)⟩
  · refine ⟨hi.listed, ?_, ?_⟩
    · exact (hparent s.initproc).trans hi.parent
    · have hsame := hstate s.initproc hinit.symm
      exact fun hz => hi.alive (hsame.symm.trans hz)

end Procs

end MipsUcore.Kern
