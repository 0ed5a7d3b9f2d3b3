/-
CP0 read after write.

`Logged` is the processor with the list of all writes to its CP0
registers in program order: the `mtc0`s as they leave MEM, the updates of
exceptions and `eret`s, and reset, which writes 0 everywhere. Replaying
the list gives the value most recently written to each register.

# What holds

- The values handed to `control` and `tlb` are those values in every
  reachable state, with no condition: WB is bypassed (`Logged.current`).
- An `mfc0` of any register but one returns the most recent value, the
  writes of the two instructions in front of it in EX and MEM included.

# What does not

`cp` answers number 3 with `entryHi10`. An `mfc0` of `entrylo1` is right
only while the `mtc0` it looks for is still in EX or MEM, or if the two
registers happen to agree (`cp0_read_after_write`).
-/
import MipsUcore.Lib.Log
import MipsUcore.Lib.Bits
import MipsUcore.Cpu.Proofs.Operands

namespace MipsUcore.Cpu

open Machine

-- ===== log

/-- The CP0 writes of one edge. -/
def State.cpWrites (s : State) (i : Input) : List (CpReg × Word) :=
  Log.entries CpReg.all (if i.reset then s.cpPort i else fun _ => some 0)

/-- The CP0 write of an instruction on its way to WB. -/
def Bypass.cpWrites (b : Bypass) : List (CpReg × Word) :=
  Log.entries CpReg.all
    (mtc0Write b.writeCP b.writeCPAddress b.writeCPData)

/-- The processor with the log of its CP0 writes. -/
structure Logged where
  cpu : State
  log : List (CpReg × Word)

def Logged.boot (u : State) (serial : Bool) : Logged := ⟨u.boot serial, []⟩

def Logged.step (l : Logged) (i : Input) : Logged :=
  ⟨l.cpu.step i, l.log ++ l.cpu.cpWrites i⟩

/-- The value most recently written, 0 if there is none since reset. -/
def latest (log : List (CpReg × Word)) : CpReg → Word :=
  Log.replay (fun _ => 0) log

-- ===== values handed on

/-- What `control` and `tlb` see of CP0 is what was written last. -/
def Logged.Current (l : Logged) : Prop := l.cpu.cp0 = latest l.log

theorem State.cp0_resetEdge (s : State) (i : Input) (r : CpReg) :
    (s.resetEdge i).cp0 r = 0 := rfl

theorem Logged.current_step {l : Logged} (h : l.Current) (i : Input) :
    (l.step i).Current := by
  funext r
  show (l.cpu.step i).cp0 r = Log.replay _ (l.log ++ l.cpu.cpWrites i) r
  rw [Log.replay_append]
  unfold State.cpWrites
  rw [Log.replay_entries _ _ r.mem_all]
  have hr : l.cpu.cp0 r = Log.replay (fun _ => 0) l.log r := congrFun h r
  unfold State.step
  cases i.reset with
  | true =>
    show (l.cpu.clock i).cp0 r = _
    rw [State.cp0_clock, hr]
    rfl
  | false => exact l.cpu.cp0_resetEdge i r

-- ===== mfc0

/-- ID passes its instruction on at this edge. -/
def State.issues (s : State) (i : Input) : Bool :=
  i.reset && i.cpuBusReady && !s.flush && !s.pause

/-- ID passes an `mfc0` of number `a` on at this edge. -/
structure State.IssuesMfc0 (s : State) (i : Input) (a : RegAddr) :
    Prop where
  issues : s.issues i = true
  mfc0 : s.decoded.cpReadEnable = true
  address : s.decoded.cpAddress = a

/-- What the `mfc0` in ID is to return for `r`: the value last written in
program order, by an instruction that has left MEM, the one in MEM or the
one in EX. -/
def Logged.owed (l : Logged) (i : Input) : CpReg → Word :=
  latest (l.log ++ (l.cpu.memOut i.cpuRomData).cpWrites
    ++ l.cpu.exOut.bypass.cpWrites)

/-- An `mfc0` passed on returns what it owes: its result in EX, behind
the edge. -/
def Logged.Mfc0Right (l : Logged) (i : Input) : Prop :=
  ∀ a r, l.cpu.IssuesMfc0 i a → CpReg.ofAddress a = some r →
    (l.cpu.step i).exOut.writeData = l.owed i r

/-- An `mfc0` of `entrylo1` passed on finds its `mtc0` in EX or MEM, or
`entryhi` holds the same value. -/
def Logged.EntryLo1Near (l : Logged) (i : Input) : Prop :=
  l.cpu.IssuesMfc0 i 3 →
    l.cpu.mtc0InFlight 3 = true ∨
      l.cpu.cp0 .entryHi10 = l.cpu.cp0 .entryLo13

theorem decodeSpecial_cpRead (pc w : Word) :
    (decodeSpecial pc w (.base w)).cpReadEnable = false := by
  unfold decodeSpecial
  split <;> rfl

/-- Only the `mfc0` arm of the decoder raises the CP0 read. -/
theorem decodeCase_cpRead {pc w : Word} :
    (decodeCase pc w (.base w)).cpReadEnable = true → opcode w = 0b010000#6 ∧
      (decodeCase pc w (.base w)).aluSel = .move ∧
      (decodeCase pc w (.base w)).aluOperation = .mfc0 := by
  unfold decodeCase
  split
  case h_1 =>
    split
    · rw [decodeSpecial_cpRead]
      exact fun h => Bool.noConfusion h
    · exact fun h => Bool.noConfusion h
  case h_15 =>
    split <;> exact fun h => Bool.noConfusion h
  case h_21 hop =>
    split
    · exact fun h => Bool.noConfusion h
    · exact fun _ => ⟨hop, rfl, rfl⟩
    · exact fun h => Bool.noConfusion h
  all_goals exact fun h => Bool.noConfusion h

theorem decode_cpRead {pc w : Word} (h : (decode pc w).cpReadEnable = true) :
    (decode pc w).aluSel = .move ∧ (decode pc w).aluOperation = .mfc0 := by
  -- the whole-word matches touch none of the three outputs
  have hflags (d : Decoded) :
      (decodeEret w (decodeSyscall w (decodeTlbwi w d))).cpReadEnable
          = d.cpReadEnable ∧
        (decodeEret w (decodeSyscall w (decodeTlbwi w d))).aluSel = d.aluSel ∧
        (decodeEret w (decodeSyscall w (decodeTlbwi w d))).aluOperation
          = d.aluOperation := by
    unfold decodeEret decodeSyscall decodeTlbwi
    split <;> split <;> split <;> exact ⟨rfl, rfl, rfl⟩
  unfold decode at h ⊢
  obtain ⟨hcp, hsel, hop⟩ := hflags (decodeShift w (decodeCase pc w (.base w)))
  rw [hcp] at h
  rw [hsel, hop]
  unfold decodeShift at h ⊢
  split at h
  case isTrue hz =>
    -- a word of the shift group has opcode 0
    have hopcode : opcode w = 0#6 := by
      have := congrArg (BitVec.extractLsb' 5 6) hz
      rwa [Bits.extractLsb'_extractLsb' w (by decide)] at this
    have hcase : (decodeCase pc w (.base w)).cpReadEnable = true := by
      split at h <;> exact h
    rw [(decodeCase_cpRead hcase).1] at hopcode
    exact absurd hopcode (by decide)
  case isFalse hz =>
    rw [if_neg hz]
    exact (decodeCase_cpRead h).2

/-- The result of an `mfc0` passed on is its operand. -/
theorem State.mfc0_result {s : State} {i : Input} {a : RegAddr}
    (h : s.IssuesMfc0 i a) :
    (s.step i).exOut.writeData = s.idRegister1 i.cpuRomData := by
  have hissue := h.issues
  unfold issues at hissue
  simp only [Bool.and_eq_true, Bool.not_eq_true'] at hissue
  obtain ⟨⟨⟨hreset, hready⟩, hflush⟩, hpause⟩ := hissue
  have hnext : (s.step i).idEx = .latch s.decoded
      (s.idRegister1 i.cpuRomData) (s.idRegister2 i.cpuRomData) s.ifId.idPC
      s.ifId.isInDelaySlotOut s.ifId.pcTLBMissOut := by
    rw [step_live s hreset]
    show s.idEx.next i.cpuBusReady s.flush _ s.pause _ _ _ _ _ _ = _
    rw [hready, hflush, hpause]
    rfl
  obtain ⟨hsel, hop⟩ := decode_cpRead h.mfc0
  unfold exOut
  rw [hnext]
  show aluResult s.decoded.aluSel s.decoded.aluOperation _ _ _ = _
  unfold decoded
  rw [hsel, hop]
  rfl

/-- What an `mfc0` owes is in the registers ahead of it. -/
theorem Logged.owed_eq {l : Logged} (h : l.Current) (i : Input)
    (r : CpReg) : l.owed i r = (l.cpu.ahead i.cpuRomData).cp r := by
  have hr : latest l.log r = l.cpu.regs.cp r := (congrFun h r).symm
  unfold owed latest
  rw [Log.replay_append, Log.replay_append]
  unfold Bypass.cpWrites
  rw [Log.replay_entries _ _ r.mem_all, Log.replay_entries _ _ r.mem_all]
  unfold latest at hr
  rw [hr]
  rfl

theorem State.idRegister1_of_mfc0 {s : State} {a : RegAddr} (w : Word)
    (hc : s.decoded.cpReadEnable = true) (ha : s.decoded.cpAddress = a) :
    s.idRegister1 w =
      if s.exOut.writeCP && s.exOut.writeCPAddress == a then
        s.exOut.writeCPData
      else if s.exMem.memWriteCP && s.exMem.memWriteCPAddress == a then
        s.exMem.memWriteCPData
      else s.cp.value s.memWb.cpWrite a := by
  unfold idRegister1 register1 cpData
  rw [hc, ha]
  rfl

/-- Every register but `entrylo1` reads back. -/
theorem State.mfc0_forward {s : State} {a : RegAddr} {r : CpReg} (w : Word)
    (hc : s.decoded.cpReadEnable = true) (ha : s.decoded.cpAddress = a)
    (hr : CpReg.ofAddress a = some r) (h3 : a ≠ 3) :
    s.idRegister1 w = (s.ahead w).cp r := by
  have hforward := forward_cp (s := s) (w := w) h3 (by
    intro hnone
    rw [hr] at hnone
    cases hnone)
  rw [idRegister1_of_mfc0 w hc ha, hforward]
  unfold Regs.cpRead
  rw [hr]

/-- `entrylo1` reads back while its write is near. -/
theorem State.mfc0_entryLo1 {s : State} (w : Word)
    (hc : s.decoded.cpReadEnable = true) (ha : s.decoded.cpAddress = 3) :
    s.idRegister1 w = (s.ahead w).cp .entryLo13 ↔
      (s.mtc0InFlight 3 = true ∨ s.cp0 .entryHi10 = s.cp0 .entryLo13) := by
  have hahead : (s.ahead w).cp .entryLo13 =
      (mtc0Write s.exOut.writeCP s.exOut.writeCPAddress
        s.exOut.writeCPData .entryLo13).getD
      ((mtc0Write s.exMem.memWriteCP s.exMem.memWriteCPAddress
        s.exMem.memWriteCPData .entryLo13).getD (s.cp0 .entryLo13)) := rfl
  have hvalue : s.cp.value s.memWb.cpWrite 3 = s.cp0 .entryHi10 := rfl
  have h3 : CpReg.ofAddress 3 = some .entryLo13 := rfl
  rw [idRegister1_of_mfc0 w hc ha, hahead, hvalue, mtc0Write_eq h3,
    mtc0Write_eq h3]
  unfold mtc0InFlight
  cases s.exOut.writeCP && s.exOut.writeCPAddress == 3 <;>
    cases s.exMem.memWriteCP && s.exMem.memWriteCPAddress == 3 <;> simp

-- ===== runs

/-- In one state whose CP0 values are current. -/
theorem Logged.mfc0Right_iff {l : Logged} (h : l.Current) (i : Input) :
    l.Mfc0Right i ↔ l.EntryLo1Near i := by
  constructor
  · intro hright hissue
    have hdata := hright 3 .entryLo13 hissue rfl
    rw [State.mfc0_result hissue, owed_eq h,
      State.mfc0_entryLo1 _ hissue.mfc0 hissue.address] at hdata
    exact hdata
  · intro hnear a r hissue hr
    rw [State.mfc0_result hissue, owed_eq h]
    by_cases h3 : a = 3
    · subst h3
      cases hr
      exact (State.mfc0_entryLo1 _ hissue.mfc0 hissue.address).mpr
        (hnear hissue)
    · exact State.mfc0_forward _ hissue.mfc0 hissue.address hr h3

/-- Along every run from reset the CP0 values `control` and `tlb` see are
the ones last written; and every `mfc0` returns the value last written in
program order if and only if every `mfc0` of `entrylo1` finds the `mtc0`
in EX or MEM or the value in `entryhi`. -/
theorem cp0_read_after_write (u : State) (serial : Bool)
    (is : List Input) :
    (run Logged.step (.boot u serial) is).Current ∧
      (Along Logged.step Logged.Mfc0Right (.boot u serial) is ↔
        Along Logged.step Logged.EntryLo1Near (.boot u serial) is) := by
  have hboot : (Logged.boot u serial).Current := funext (u.cp0_resetEdge _)
  constructor
  · exact run_induction (I := Logged.Current) (P := fun _ _ => True)
      (fun l i h _ => Logged.current_step h i) hboot
      (along_input.mpr fun _ _ => trivial)
  · exact along_congr (I := Logged.Current)
      (fun l i h => Logged.current_step h i)
      (fun l i h => Logged.mfc0Right_iff h i) hboot is

/-- `ori t0,5; mtc0 t0,entrylo1; nop; nop; mfc0 t1,entrylo1`: the read
returns `entryhi`, which is 0. -/
theorem entrylo1_reads_entryhi :
    let l := run Logged.step (.boot .zero false)
      (ticks [0, 0x34080005, 0x40881800, 0, 0, 0x40091800])
    let i : Input := ⟨true, true, 0, false⟩
    l.cpu.IssuesMfc0 i 3 ∧ l.owed i .entryLo13 = 5 ∧
      (l.cpu.step i).exOut.writeData = 0 ∧ ¬ l.Mfc0Right i := by
  intro l i
  have hissue : l.cpu.IssuesMfc0 i 3 :=
    ⟨by decide +kernel, by decide +kernel, by decide +kernel⟩
  have howed : l.owed i .entryLo13 = 5 := by decide +kernel
  have hdata : (l.cpu.step i).exOut.writeData = 0 := by decide +kernel
  refine ⟨hissue, howed, hdata, fun hright => ?_⟩
  have heq := hright 3 .entryLo13 hissue rfl
  exact absurd heq (by decide)

end MipsUcore.Cpu
