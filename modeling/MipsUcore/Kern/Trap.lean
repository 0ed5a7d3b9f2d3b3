/-
A system call, from the instruction into the kernel and back:
`exception.S`, `mips_trap` and `trap_dispatch` of `trap.c`, and
`syscall.c`.

# The processor's part

An exception is entered (`Arch.enter`) and returned from (`Arch.eret`) as
by the sequential machine, which the processor executes (`pipe_executes`).

# The handler

`exception.S` saves the registers in a trapframe and restores them; it
leaves the address to return to in `k0`, and `k1` as the kernel had it.
What the kernel does in between is `mips_trap` on that trapframe.

# The rest of the kernel

What a system call does, what other exceptions do, whether the process
has been killed when it is about to return, and which registers the kernel
leaves behind do not matter here; they are the parameters of `TrapKernel`. A
call that does not come back (an exit, a panic) is `none`. Only `exec`
changes the trapframe of the process.
-/
import MipsUcore.Cpu.Sequential

namespace MipsUcore.Kern

open Cpu

-- ===== mips_trapframe.h

/-- `struct trapframe`; `reg n` is `reg_r[n - 1]`, the register `n`. -/
structure TrapFrame where
  vaddr : Word
  status : Word
  cause : Word
  lo : Word
  hi : Word
  ra : Word
  reg : RegAddr → Word
  epc : Word

def exSys : Word := 8

/-- `GET_CAUSE_EXCODE`. -/
def causeExcode (cause : Word) : Word := (cause &&& 0x7c) >>> 2

def ksuUser : Word := 0x10

def regV0 : RegAddr := 2

def regA0 : RegAddr := 4

def regSp : RegAddr := 29

-- ===== exception.S

/-- What `common_exception` saves. The slots of `k0` and `k1` hold the cause
and the stack pointer. -/
def TrapFrame.save (r : Regs) : TrapFrame where
  vaddr := r.cp .badaddr8
  status := r.cp .status12
  cause := r.cp .cause13
  lo := r.lo
  hi := r.hi
  ra := r.gpr 31
  reg n :=
    if n = 26 then r.cp .cause13
    else if n = 27 then r.gpr regSp
    else r.gpr n
  epc := r.cp .epc14

/-- What `exception_return` restores, over the registers of the kernel. -/
def TrapFrame.restore (tf : TrapFrame) (r : Regs) : Regs where
  gpr n :=
    if n = 26 then tf.epc
    else if n = 27 then r.gpr 27
    else if n = 31 then tf.ra
    else tf.reg n
  hi := tf.hi
  lo := tf.lo
  cp
    | .status12 => tf.status ||| 2
    | .epc14 => tf.epc
    | c => r.cp c

-- ===== syscall.c

def syscallBase : Int := 0x80

/-- The numbers `syscalls` has a function for. -/
def syscallNumbers : List Int :=
  [1, 2, 3, 4, 10, 12, 18, 30, 31, 45, 17, 11, 100, 101, 102, 103, 104, 110,
    111, 121, 128, 130]

/-- How a system call comes back. -/
inductive SysReturn (κ : Type*)
  | value (ret : Word) (state : κ)
  | exec (tf : TrapFrame) (ret : Word) (state : κ)

/-- The kernel around the system calls. -/
structure TrapKernel (κ : Type*) where
  /-- `syscalls[num](arg)`. -/
  sys : Int → (Fin 4 → Word) → TrapFrame → κ → Option (SysReturn κ)
  /-- The other cases of `trap_dispatch`. -/
  other : TrapFrame → κ → Option (TrapFrame × κ)
  /-- The end of `mips_trap`: the process is killed or other ones run. -/
  back : κ → Option κ
  /-- The registers at `exception_return`. -/
  left : κ → Regs

/-- The state of the kernel, and how often `syscall` has been called. -/
structure Called (κ : Type*) where
  state : κ
  calls : Nat

namespace TrapKernel

variable {κ : Type*} (K : TrapKernel κ)

/-- `syscall`, with the call counted. -/
def syscall (tf : TrapFrame) (k : Called κ) : Option (TrapFrame × Called κ) :=
  let num := (tf.reg regV0).toInt - syscallBase
  let setV0 (tf : TrapFrame) (ret : Word) : TrapFrame :=
    { tf with reg := Function.update tf.reg regV0 ret }
  if num ∈ syscallNumbers then
    (K.sys num (fun i => tf.reg (regA0 + BitVec.ofNat 5 i)) tf k.state).map
      fun
      | .value ret s => (setV0 tf ret, ⟨s, k.calls + 1⟩)
      | .exec tf' ret s => (setV0 tf' ret, ⟨s, k.calls + 1⟩)
  else none

-- ===== trap.c

def trapInKernel (tf : TrapFrame) : Bool := tf.status &&& ksuUser = 0

def trapDispatch (tf : TrapFrame) (k : Called κ) :
    Option (TrapFrame × Called κ) :=
  if causeExcode tf.cause = exSys then
    K.syscall { tf with epc := tf.epc + 4 } k
  else
    (K.other tf k.state).map fun r => (r.1, ⟨r.2, k.calls⟩)

def mipsTrap (tf : TrapFrame) (k : Called κ) :
    Option (TrapFrame × Called κ) :=
  (K.trapDispatch tf k).bind fun r =>
    if trapInKernel tf then some r
    else (K.back r.2.state).map fun s => (r.1, ⟨s, r.2.calls⟩)

/-- An exception is entered, handled and returned from. -/
def roundTrip (a : Arch) (t : Trap) (k : Called κ) :
    Option (Arch × Called κ) :=
  (K.mipsTrap (.save (a.enter t).regs) k).map fun r =>
    (Arch.eret ⟨r.1.restore (K.left r.2.state), (a.enter t).flow⟩, r.2)

end TrapKernel

end MipsUcore.Kern
