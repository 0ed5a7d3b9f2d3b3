/-
Which addresses reach the bus.

The multiplexer has three legs. The translated one drives what the
translation buffer gives, and where it gives nothing the harmless fetch from
the boot ROM goes out instead. The leg of a flush drives the address of the
handler, or `epc`, as it is: a virtual address on a physical bus. Nobody uses
the word that comes back, but a device sees the read: an `eret` to the
address 0x1fd003f8 takes a character from the serial port
(`eret_reads_serial`).
-/
import MipsUcore.Cpu.Run
import MipsUcore.Soc.Bus

namespace MipsUcore.Cpu

/-- The addresses the processor asks for in a cycle: that of the access in
EX or of the next fetch, and in a flush that of the handler. -/
def State.Asks (s : State) (w : Word) (va : Word) : Prop :=
  va = s.virtualAddress w ∨ (s.flush = true ∧ va = s.flushTarget)

/-- The request is the filler, or its address is the translation of an
address the processor asks for. -/
def State.DrivesTranslated (s : State) (i : Input) : Prop :=
  ((s.busOut i).address = 0x1fc00000 ∧ (s.busOut i).writeEnable = false) ∨
  ∃ va, s.Asks i.cpuRomData va ∧
    (s.tlb.lookup va (s.busOut i).writeEnable).validAddress = true ∧
    (s.busOut i).address =
      (s.tlb.lookup va (s.busOut i).writeEnable).physicalAddress

/-- A flush goes to the filler's address, or to an address that is its own
translation or the translation of the other address of the cycle. -/
def State.TargetTranslated (s : State) (w : Word) : Prop :=
  s.flushTarget = 0x1fc00000 ∨
  ∃ va, (va = s.virtualAddress w ∨ va = s.flushTarget) ∧
    (s.tlb.lookup va false).validAddress = true ∧
    s.flushTarget = (s.tlb.lookup va false).physicalAddress

namespace State

variable {s : State} {i : Input}

theorem busOut_flush (hlive : i.Live) (hflush : s.flush = true) :
    s.busOut i = ⟨s.flushTarget, false, true, 0⟩ := by
  unfold busOut bus busRequest
  rw [hlive, hflush]
  rfl

/-- Without a flush the multiplexer drives the translation or the filler. -/
theorem drivesTranslated_of_not_flush (hlive : i.Live)
    (hflush : s.flush = false) : s.DrivesTranslated i := by
  unfold DrivesTranslated
  have hbus : s.busOut i = busRequest false s.flushTarget s.ram
      (s.translation i.cpuRomData) := by
    unfold busOut bus
    rw [hlive, hflush]
    rfl
  rw [hbus]
  unfold busRequest
  cases hvalid : (s.translation i.cpuRomData).validAddress with
  | false => exact .inl ⟨rfl, rfl⟩
  | true => exact .inr ⟨_, .inl rfl, hvalid, rfl⟩

theorem drivesTranslated_flush (hlive : i.Live) (hflush : s.flush = true) :
    s.DrivesTranslated i ↔ s.TargetTranslated i.cpuRomData := by
  unfold DrivesTranslated TargetTranslated Asks
  rw [busOut_flush hlive hflush]
  simp only [hflush, true_and, and_true]

end State

/-- Only translated addresses on the bus. In every state that is reached,
the request that the bus accepts is the filler or carries the translation
of an address the processor asks for, exactly if the cycle is no flush to an
address that is not its own translation. -/
theorem bus_address_translated (u : State) (serial : Bool)
    (is : List Input) (i : Input) :
    (u.reached serial is).DrivesTranslated i ↔
      (i.Live → (u.reached serial is).flush = true →
        (u.reached serial is).TargetTranslated i.cpuRomData) := by
  generalize u.reached serial is = s
  by_cases hlive : i.Live
  · cases hflush : s.flush with
    | false =>
      exact ⟨fun _ _ h => Bool.noConfusion h,
        fun _ => State.drivesTranslated_of_not_flush hlive hflush⟩
    | true =>
      rw [State.drivesTranslated_flush hlive hflush]
      exact ⟨fun h _ _ => h, fun h => h hlive rfl⟩
  · refine ⟨fun _ h => absurd h hlive, fun _ => .inl ?_⟩
    have hidle : s.busOut i = .idle := if_neg hlive
    rw [hidle]
    exact ⟨rfl, rfl⟩

/-- `lui`, `ori`, `mtc0` to `epc` and `eret`, from reset: the return to
0x1fd003f8 reads the data register of the serial port, though the address is
not mapped. -/
theorem eret_reads_serial :
    let s := State.reached .zero false (ticks
      [0, 0x3c011fd0, 0x342103f8, 0x40817000, 0x42000018, 0, 0])
    let i : Input := ⟨true, true, 0, false⟩
    s.flush = true ∧ s.flushTarget = 0x1fd003f8 ∧
      (s.tlb.lookup 0x1fd003f8 false).validAddress = false ∧
      (s.tlb.lookup (s.virtualAddress 0) false).physicalAddress ≠
        0x1fd003f8 ∧
      (s.busOut i).address = 0x1fd003f8 ∧
      (s.busOut i).writeEnable = false ∧
      (Soc.decode (s.busOut i)).hselect.serial = true ∧
      (Soc.decode (s.busOut i)).haddressSerial = 0 := by
  decide +kernel

end MipsUcore.Cpu
