/-
Where a system call returns to.

A system call returns behind the instruction, unless that stands in the
delay slot of a taken branch. The processor then leaves the address of the
branch in `epc` and says so in the `BD` bit of `cause`; `trap_dispatch`
adds 4 without looking at it, which is the address of the `syscall` again,
this time as an instruction of its own: the call is made a second time, and
the branch is forgotten.

`syscall_returns_iff` says that this is the only way to miss the place, and
`delay_slot_calls_twice` is a run of the processor that takes it.
-/
import MipsUcore.Kern.Trap
import MipsUcore.Cpu.Proofs.PreciseException
import Mathlib.Tactic.IntervalCases

namespace MipsUcore.Cpu

open Machine

-- ===== straight on

/-- Outside of a delay slot the next word is next. -/
def Flow.Straight (f : Flow) : Prop :=
  f.isInDelaySlot = false → f.npc = f.pc + 4

theorem Flow.straight_start (pc : Word) : (Flow.start pc).Straight :=
  fun _ => rfl

theorem BranchOut.when_consistent (c : Bool) (target : Word) :
    (BranchOut.when c target).branchFlag =
      (BranchOut.when c target).nextInstructionInDelaySlot := by
  cases c with
  | false => rfl
  | true => rfl

/-- A branch is taken exactly if the decoder announces a delay slot. -/
theorem branch_consistent (pc w register1 register2 : Word) :
    (branch pc w register1 register2).branchFlag =
      (branch pc w register1 register2).nextInstructionInDelaySlot := by
  unfold branch
  repeat' split
  all_goals first | exact BranchOut.when_consistent _ _ | rfl

/-- A branch moves the flow only behind its delay slot. -/
theorem Flow.straight_advance (f : Flow) (x : Inst) :
    (f.advance x.branchOut).Straight := by
  intro hslot
  have hflag : x.branchOut.branchFlag = false :=
    (branch_consistent ..).trans hslot
  change (if x.branchOut.branchFlag then _ else f.npc + 4) = f.npc + 4
  rw [hflag]
  rfl

theorem Arch.straight_apply (a : Arch) (e : Event) :
    (a.apply e).flow.Straight := by
  cases e with
  | retire x load => exact a.flow.straight_advance x
  | trap m t => exact Flow.straight_start _
  | eret m => exact Flow.straight_start _

/-- Whatever runs, the flow stays straight. -/
theorem Arch.straight_run (events : List Event) :
    (run Arch.apply .boot events).flow.Straight := by
  rcases List.eq_nil_or_concat events with rfl | ⟨es, e, rfl⟩
  · exact Flow.straight_start _
  · rw [List.concat_eq_append, run_append, run_cons]
    exact Arch.straight_apply _ e

end MipsUcore.Cpu

namespace MipsUcore.Kern

open Cpu Machine

namespace TrapKernel

variable {κ : Type*} (K : TrapKernel κ) {a : Arch} {k : Called κ}

-- ===== one round trip

/-- The trapframe as `syscall` finds it. -/
def frame (a : Arch) : TrapFrame :=
  { TrapFrame.save (a.enter .syscall).regs with epc := a.epc + 4 }

/-- The system call that the registers ask for comes back with `ret`, in the
same program, and the process is not killed on its way out. -/
structure Returns (a : Arch) (k : Called κ) (ret : Word) (s s' : κ) :
    Prop where
  num : (a.regs.gpr regV0).toInt - syscallBase ∈ syscallNumbers
  sys : K.sys ((a.regs.gpr regV0).toInt - syscallBase)
    (fun i => (frame a).reg (regA0 + BitVec.ofNat 5 i)) (frame a) k.state =
      some (.value ret s)
  back : K.back s = some s'

theorem causeExcode_append (x : BitVec 25) :
    causeExcode (x ++ (8#5 ++ 0#2)) = exSys := by
  unfold causeExcode exSys
  refine BitVec.eq_of_getLsbD_eq fun i hi => ?_
  rw [BitVec.getLsbD_ushiftRight, BitVec.getLsbD_and, BitVec.getLsbD_append]
  interval_cases i <;> simp

/-- A trap out of user mode is not taken for one of the kernel. -/
theorem trapInKernel_enter (t : Trap)
    (huser : inUserMode (a.regs.cp .status12) = true) :
    trapInKernel (.save (a.enter t).regs) = false := by
  have hbit : (a.regs.cp .status12).getLsbD 4 = true := by
    exact (Bool.and_eq_true_iff.1 huser).1
  refine decide_eq_false fun hzero => ?_
  change (a.regs.cp .status12 ||| 2) &&& ksuUser = 0 at hzero
  have hfour := congrArg (BitVec.getLsbD · 4) hzero
  simp only [ksuUser, BitVec.getLsbD_and, BitVec.getLsbD_or, hbit] at hfour
  exact Bool.noConfusion hfour

/-- The round trip as one equation: the frame comes back with the
result in `v0`, and the call has been counted. -/
theorem roundTrip_eq {ret : Word} {s s' : κ}
    (huser : inUserMode (a.regs.cp .status12) = true)
    (h : K.Returns a k ret s s') : K.roundTrip a .syscall k =
      some (Arch.eret ⟨({ frame a with
        reg := Function.update (frame a).reg regV0 ret } : TrapFrame).restore
          (K.left s'), (a.enter .syscall).flow⟩, ⟨s', k.calls + 1⟩) := by
  have hcause : causeExcode (TrapFrame.save (a.enter .syscall).regs).cause =
      exSys := causeExcode_append _
  have hsyscall : K.syscall (frame a) k =
      some ({ frame a with reg := Function.update (frame a).reg regV0 ret },
        ⟨s, k.calls + 1⟩) := by
    unfold TrapKernel.syscall
    have hnum : (frame a).reg regV0 = a.regs.gpr regV0 := rfl
    rw [hnum, if_pos h.num, h.sys]
    rfl
  have hdispatch : K.trapDispatch (.save (a.enter .syscall).regs) k =
      some ({ frame a with reg := Function.update (frame a).reg regV0 ret },
        ⟨s, k.calls + 1⟩) := by
    rw [TrapKernel.trapDispatch, if_pos hcause]
    exact hsyscall
  rw [TrapKernel.roundTrip, TrapKernel.mipsTrap, hdispatch, Option.bind_some,
    trapInKernel_enter .syscall huser, if_neg Bool.false_ne_true, h.back]
  rfl

theorem epc_add_four (a : Arch) : a.epc + 4 =
    if a.flow.isInDelaySlot then a.flow.pc else a.flow.pc + 4 := by
  unfold Arch.epc
  cases a.flow.isInDelaySlot with
  | false => rfl
  | true => exact BitVec.sub_add_cancel _ _

/-- At any point of an execution: a `syscall` instruction calls the kernel
once, and execution goes on behind it as behind any other instruction that
does not branch, unless it stands in the delay slot of a taken branch to
elsewhere. -/
theorem syscall_returns_iff {events : List Event}
    (huser : inUserMode ((run Arch.apply .boot events).regs.cp .status12) =
      true) {ret : Word} {s s' : κ}
    (h : K.Returns (run Arch.apply .boot events) k ret s s') :
    let a := run Arch.apply .boot events
    ∃ b, K.roundTrip a .syscall k = some (b, ⟨s', k.calls + 1⟩) ∧
      (b.flow = a.flow.advance .notTaken ↔
        (a.flow.isInDelaySlot = true → a.flow.npc = a.flow.pc)) := by
  intro a
  refine ⟨_, K.roundTrip_eq huser h, ?_⟩
  change Flow.start (a.epc + 4) = Flow.start a.flow.npc ↔ _
  have hstart : ∀ x y : Word, Flow.start x = Flow.start y ↔ x = y :=
    fun x y => ⟨fun heq => congrArg Flow.pc heq, fun heq => heq ▸ rfl⟩
  rw [hstart, epc_add_four]
  cases hslot : a.flow.isInDelaySlot with
  | false =>
    have hnpc : a.flow.npc = a.flow.pc + 4 := Arch.straight_run events hslot
    simp [hnpc]
  | true => simp [eq_comm]

/-- A kernel whose system calls return `0x92` and do nothing. -/
def quiet : TrapKernel Unit where
  sys _ _ _ _ := some (.value 0x92 ())
  other tf k := some (tf, k)
  back k := some k
  left _ := Arch.boot.regs

/-- Up to user mode as in `kernelStoreProgram`, with the number of `getpid`
in `v0`; at address 0 `beq $0,$0,0xc`, and `syscall` in its delay slot. -/
def delaySlotProgram : List Word :=
  [0, 0x24020092, 0x24080002, 0x40881000, 0x42000002, 0x240a0012, 0x408a6000,
    0x42000018, 0, 0, 0, 0, 0x10000002, 0x0000000c, 0, 0]

/-- The same with the `syscall` before the branch. -/
def straightProgram : List Word :=
  [0, 0x24020092, 0x24080002, 0x40881000, 0x42000002, 0x240a0012, 0x408a6000,
    0x42000018, 0, 0, 0, 0, 0x0000000c, 0x10000002, 0]

/-- What the sequential machine has done when the processor has run. -/
def executed (program : List Word) : Arch :=
  run Arch.apply .boot
    (trace Pipe.step Pipe.events (.boot .zero false) (ticks program))

theorem syscall_returns_straight : ∃ b,
    quiet.roundTrip (executed straightProgram) .syscall ⟨(), 0⟩ =
      some (b, ⟨(), 1⟩) ∧
    b.flow = (executed straightProgram).flow.advance .notTaken := by
  have huser : inUserMode ((executed straightProgram).regs.cp .status12) =
      true := by decide +kernel
  have hslot : (executed straightProgram).flow.isInDelaySlot = false := by
    decide +kernel
  have hnum : ((executed straightProgram).regs.gpr regV0).toInt - syscallBase ∈
      syscallNumbers := by decide +kernel
  obtain ⟨b, hb, hflow⟩ := quiet.syscall_returns_iff (k := ⟨(), 0⟩) huser
    ⟨hnum, rfl, rfl⟩
  refine ⟨b, hb, hflow.2 fun htrue => ?_⟩
  cases hslot.symm.trans htrue

/-- The processor takes the exception for the `syscall` in the delay slot;
the kernel returns to the `syscall`, and behind the second call to the word
after it, not to `0xc`. -/
theorem delay_slot_calls_twice :
    let p := run Pipe.step (.boot .zero false) (ticks delaySlotProgram)
    let a := executed delaySlotProgram
    Along Pipe.step Pipe.Follows (.boot .zero false) (ticks delaySlotProgram) ∧
      (p.events ⟨true, true, 0, false⟩).map (fun
        | .trap m t => (m.map (·.inst.word), some t)
        | _ => (none, none)) = [(some 0x0000000c, some .syscall)] ∧
      inUserMode (a.regs.cp .status12) = true ∧ a.flow = ⟨4, 0xc, true⟩ ∧
      (quiet.roundTrip a .syscall ⟨(), 0⟩).map
        (fun r => (r.1.flow, r.2.calls)) = some (.start 4, 1) ∧
      ((quiet.roundTrip a .syscall ⟨(), 0⟩).bind fun r =>
        quiet.roundTrip r.1 .syscall r.2).map
          (fun r => (r.1.flow, r.2.calls)) = some (.start 8, 2) := by
  intro p a
  exact ⟨by decide +kernel, by decide +kernel, by decide +kernel,
    by decide +kernel, by decide +kernel, by decide +kernel⟩

end TrapKernel

end MipsUcore.Kern
