/-
Runs of the processor.

A run starts with one clock edge in reset, from registers that hold
anything, and goes on for any list of inputs: any bus answers, any
wait states, any interrupt timing, further resets included. `State.boot`
is the state after that first edge. It is not a constant, because the
two interrupt latches have no reset branch and survive it.
-/
import MipsUcore.Lib.Machine
import MipsUcore.Cpu.Top

namespace MipsUcore.Cpu

open Machine

/-- The state after one clock edge in reset. -/
def State.boot (u : State) (serialInterrupt : Bool) : State :=
  u.resetEdge ⟨false, true, 0, serialInterrupt⟩

/-- The state after booting and taking the inputs. -/
def State.reached (u : State) (serialInterrupt : Bool) (is : List Input) :
    State :=
  run State.step (u.boot serialInterrupt) is

/-- The input of a clock edge out of reset. -/
def Input.Live (i : Input) : Prop := i.reset = true

instance (i : Input) : Decidable i.Live :=
  inferInstanceAs (Decidable (i.reset = true))

theorem State.step_live (s : State) {i : Input} (h : i.Live) :
    s.step i = s.clock i := by
  unfold step
  rw [h, if_pos rfl]

-- ===== concrete runs

/-- The all-zero power-up state, with no interrupt latched. -/
def State.zero : State where
  pcRegister := .reset
  ifId := .reset
  idEx := .reset
  exMem := .reset
  memWb := .reset
  regfile := .reset
  hilo := .reset
  cp := ⟨fun _ => 0, 0, false⟩
  control := ⟨false, 0, false, false, false⟩
  tlb := .reset

/-- Ready cycles with the given bus answers and no serial request. -/
def ticks (answers : List Word) : List Input :=
  answers.map fun w => ⟨true, true, w, false⟩

end MipsUcore.Cpu
