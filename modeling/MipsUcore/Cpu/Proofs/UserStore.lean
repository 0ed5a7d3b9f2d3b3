/-
Stores in user mode.

The TLB grants a user-mode store page by page, and a store it does not
grant never reaches the bus. The kernel half of the address space is
different: its unmapped segment always translates, and the privilege
check on the address is made one stage later, in MEM, on an access the
bus multiplexer has already sent out of EX. So a user-mode store to a
kernel address does write, and raises its address error afterwards
(`user_mode_store_through_kernel_address`).

`user_store_isolated_iff` says that this is the only hole: along any
run, every write driven in user mode goes to a user page that some TLB
entry maps writable, if and only if no store to a translating kernel
address stands in EX while user mode is in force and nothing is being
flushed.
-/
import MipsUcore.Cpu.Run

namespace MipsUcore.Cpu

open Machine

-- ===== the bus

/-- `WriteEnable` goes up exactly for a store in EX that translates while
no flush is under way. -/
theorem busRequest_writeEnable_iff (flush : Bool) (target : Word)
    (ram : RamRequest) (t : Translation) :
    (busRequest flush target ram t).writeEnable = true ↔
      flush = false ∧ ram.ramWriteEnable = true ∧ t.validAddress = true := by
  unfold busRequest
  cases flush <;> cases t.validAddress <;> simp [BusRequest.idle]

/-- A request that writes drives the translated address. -/
theorem busRequest_address {flush : Bool} {target : Word}
    {ram : RamRequest} {t : Translation}
    (h : (busRequest flush target ram t).writeEnable = true) :
    (busRequest flush target ram t).address = t.physicalAddress := by
  obtain ⟨hf, -, hv⟩ := (busRequest_writeEnable_iff _ _ _ _).1 h
  simp [busRequest, hf, hv]

/-- While EX stores, the TLB looks at the store's address. -/
theorem State.translation_of_store {s : State} {readResult : Word}
    (h : s.ram.ramWriteEnable = true) :
    s.translation readResult = s.tlb.lookup s.ram.ramAddress true := by
  unfold translation virtualAddress tlbVirtualAddress
  rw [if_pos h, h]

-- ===== isolation

/-- A write driven in user mode is the one of a store to the user half,
to the physical address some TLB entry maps it to for writing. -/
def State.UserStoreIsolated (s : State) (i : Input) : Prop :=
  inUserMode (s.cp0 .status12) = true → (s.busOut i).writeEnable = true →
    s.ram.ramAddress.msb = false ∧
    ∃ j, (s.tlb j).Grants s.ram.ramAddress true (s.busOut i).address

/-- A store to a kernel address that translates stands in EX in user
mode, and the instruction in MEM raises nothing. -/
def State.KernelStore (s : State) (i : Input) : Prop :=
  i.Live ∧ inUserMode (s.cp0 .status12) = true ∧ s.flush = false ∧
    s.ram.ramWriteEnable = true ∧ s.ram.ramAddress.msb = true ∧
    (s.tlb.lookup s.ram.ramAddress true).validAddress = true

/-- The bus writes exactly for a translating store in EX. -/
theorem State.busOut_writeEnable_iff (s : State) (i : Input) :
    (s.busOut i).writeEnable = true ↔
      i.Live ∧ s.flush = false ∧ s.ram.ramWriteEnable = true ∧
        (s.tlb.lookup s.ram.ramAddress true).validAddress = true := by
  unfold busOut bus
  cases hr : i.reset with
  | false => simp [BusRequest.idle, Input.Live, hr]
  | true =>
    rw [if_pos rfl, busRequest_writeEnable_iff]
    constructor
    · rintro ⟨hf, hw, hv⟩
      rw [translation_of_store hw] at hv
      exact ⟨hr, hf, hw, hv⟩
    · rintro ⟨-, hf, hw, hv⟩
      rw [translation_of_store hw]
      exact ⟨hf, hw, hv⟩

/-- A driven write goes to the address the TLB answered for the store. -/
theorem State.busOut_address {s : State} {i : Input}
    (h : (s.busOut i).writeEnable = true) : (s.busOut i).address
      = (s.tlb.lookup s.ram.ramAddress true).physicalAddress := by
  obtain ⟨hr, -, hw, -⟩ := (s.busOut_writeEnable_iff i).1 h
  have hr' : i.reset = true := hr
  unfold busOut bus at h ⊢
  rw [hr', if_pos rfl] at h ⊢
  rw [busRequest_address h, translation_of_store hw]

/-- In one state: isolation fails exactly on a kernel store. -/
theorem State.userStoreIsolated_iff (s : State) (i : Input) :
    s.UserStoreIsolated i ↔ ¬ s.KernelStore i := by
  constructor
  · rintro hiso ⟨hr, hu, hf, hw, hmsb, hv⟩
    have hwrite := (s.busOut_writeEnable_iff i).2 ⟨hr, hf, hw, hv⟩
    have hlow := (hiso hu hwrite).1
    rw [hmsb] at hlow
    exact absurd hlow (by decide)
  · intro hk hu hwrite
    obtain ⟨hr, hf, hw, hv⟩ := (s.busOut_writeEnable_iff i).1 hwrite
    have hlow : s.ram.ramAddress.msb = false := by
      cases hmsb : s.ram.ramAddress.msb with
      | false => rfl
      | true => exact absurd ⟨hr, hu, hf, hw, hmsb, hv⟩ hk
    refine ⟨hlow, ?_⟩
    rw [State.busOut_address hwrite]
    obtain ⟨j, -, hj⟩ := Tlb.lookup_grants (isUnmapped_of_not_msb hlow) hv
    exact ⟨j, hj⟩

/-- Along any run from reset, user-mode writes stay inside writable user
pages if and only if no kernel store ever stands in EX. -/
theorem user_store_isolated_iff (u : State) (serial : Bool)
    (is : List Input) :
    Along State.step State.UserStoreIsolated (u.boot serial) is ↔
      Along State.step (fun s i => ¬ s.KernelStore i) (u.boot serial) is := by
  have h : State.UserStoreIsolated = fun s i => ¬ s.KernelStore i := by
    funext s i
    exact propext (s.userStoreIsolated_iff i)
  rw [h]

/-- `lui t1,0x8000`; `addiu t0,2`; `mtc0 t0,entrylo0`; `tlbwi` (map page
0 for execution); `addiu t2,0x12`; `mtc0 t2,status` (UM and EXL); `eret`
to address 0; and there, in user mode, `sw t0,0(t1)`. -/
def kernelStoreProgram : List Word :=
  [0, 0x3c098000, 0x24080002, 0x40881000, 0x42000002, 0x240a0012,
    0x408a6000, 0x42000018, 0, 0, 0, 0, 0xad280000, 0]

/-- After that program the processor is in user mode and drives a write
of 2 to physical address 0, for a store to `0x80000000`. -/
theorem user_mode_store_through_kernel_address :
    let s := State.zero.reached false (ticks kernelStoreProgram)
    let i : Input := ⟨true, true, 0, false⟩
    inUserMode (s.cp0 .status12) = true ∧
      s.ram.ramAddress = 0x80000000 ∧
      s.busOut i = ⟨0, true, true, 2⟩ ∧
      ¬ s.UserStoreIsolated i := by
  intro s i
  have hu : inUserMode (s.cp0 .status12) = true := by decide +kernel
  have ha : s.ram.ramAddress = 0x80000000 := by decide +kernel
  have hb : s.busOut i = ⟨0, true, true, 2⟩ := by decide +kernel
  refine ⟨hu, ha, hb, fun h => ?_⟩
  have hlow := (h hu (by rw [hb])).1
  rw [ha] at hlow
  exact absurd hlow (by decide)

end MipsUcore.Cpu
