/-
Serial input, from the line to the processor.

The receive buffer is a ring of sixteen bytes. One clocked block takes from
it for the bus and puts into it for the line, and of two bytes that arrive
at the same edge it puts in only the one of the UART. As long as the ring
has room, what is put in comes out in order: the unread bytes and the bytes
that arrive are the bytes that are read and the bytes that are unread at
the end (`conserved`).

So nothing is lost or doubled exactly if the two receivers never deliver at
the same edge (`serial_input_delivered_iff`).
-/
import Mathlib.Data.List.Flatten
import MipsUcore.Lib.Machine
import MipsUcore.Lib.Ring
import MipsUcore.Soc.Proofs.Ram

namespace MipsUcore.Soc

open Machine

-- ===== the ring

/-- The bytes that have not been read, the oldest first. -/
def SerialPort.unread (p : SerialPort) : List Byte :=
  Ring.contents p.incurrent p.incount p.indata

theorem SerialPort.readable_iff (p : SerialPort) :
    p.readable = true ↔ p.unread ≠ [] := by
  rw [readable, bne_iff_ne, unread, ne_eq, ne_eq, Ring.contents_eq_nil_iff]

/-- The processor reads the data register at this edge. -/
def PortInput.dataRead (i : PortInput) : Bool :=
  i.hselect && i.ready && !i.hwrite && i.haddress == 0

/-- The processor reads the status register at this edge. -/
def PortInput.statusRead (i : PortInput) : Bool :=
  i.hselect && i.ready && !i.hwrite && i.haddress != 0

namespace SerialPort

variable {p : SerialPort} {i : PortInput}

/-- The bus half takes out the oldest byte when it is read. -/
theorem access_unread (hread : i.dataRead = true → p.readable = true) :
    p.unread = (if i.dataRead then [(p.access i).receiveData] else [])
      ++ (p.access i).unread := by
  have hno (hr : i.dataRead = false) : (p.access i).unread = p.unread := by
    unfold PortInput.dataRead at hr
    unfold access
    split_ifs with h1 h2 h3 <;> simp_all [unread]
  cases hr : i.dataRead with
  | false =>
    rw [hno hr]
    rfl
  | true =>
    have hne : p.incurrent ≠ p.incount := by
      simpa [readable] using hread hr
    have hacc : (p.access i).receiveData = p.indata p.incurrent ∧
        (p.access i).unread
          = Ring.contents (p.incurrent + 1) p.incount p.indata := by
      unfold PortInput.dataRead at hr
      unfold access
      split_ifs with h1 h2 h3 <;> simp_all [unread]
    rw [hacc.1, hacc.2, unread, Ring.contents_pop hne]
    rfl

/-- The line half puts the byte that is stored behind the others. -/
theorem receive_unread (hroom : p.unread.length + i.byte.toList.length ≤ 15) :
    (p.receive i).unread = p.unread ++ i.byte.toList := by
  cases hb : i.byte with
  | none => simp [receive, hb, unread]
  | some b =>
    have hlen : (p.incount - p.incurrent).toNat + 1 < 2 ^ 4 := by
      rw [hb, unread, Ring.length_contents] at hroom
      simp only [Option.toList_some, List.length_singleton] at hroom
      omega
    simp only [receive, hb, unread, Option.toList_some]
    exact Ring.contents_push b hlen

/-- One edge out of reset. -/
theorem step_unread (hreset : i.hreset = true)
    (hread : i.dataRead = true → p.readable = true)
    (hroom : (p.access i).unread.length + i.byte.toList.length ≤ 15) :
    p.unread ++ i.byte.toList
      = (if i.dataRead then [(p.step i).receiveData] else [])
        ++ (p.step i).unread := by
  have hstep : p.step i
      = { (p.access i).receive i with txDBusyLast := i.txDBusy } :=
    if_pos hreset
  have hdata : (p.step i).receiveData = (p.access i).receiveData := by
    rw [hstep]
    unfold receive
    split <;> rfl
  have hunread : (p.step i).unread = ((p.access i).receive i).unread := by
    rw [hstep]
    rfl
  rw [hdata, hunread, receive_unread hroom, access_unread hread,
    List.append_assoc]

end SerialPort

-- ===== the board

/-- The bytes that arrive: both, if both receivers deliver one. -/
def arrivals (is : List BoardInput) : List Byte :=
  is.flatMap fun i => i.rxD.toList ++ i.kbd.toList

/-- The bytes that are put into the ring. -/
def stored (is : List BoardInput) : List Byte :=
  is.flatMap fun i => (i.rxD.or i.kbd).toList

namespace Board

variable {b : Board} {i : BoardInput} {is : List BoardInput}

theorem step_serial (b : Board) (i : BoardInput) :
    (b.step i).serial = b.serial.step (b.portInput i) := by
  unfold step
  split <;> rfl

/-- The bytes that reads of the data register return. -/
def returned (b : Board) (is : List BoardInput) : List Byte :=
  trace Board.step (fun b i =>
    if (b.portInput i).dataRead then [(b.step i).serial.receiveData] else [])
    b is

/-- Out of reset, and data is read only while status would report some. -/
def Polite (b : Board) (i : BoardInput) : Prop :=
  i.hreset = true ∧
    ((b.portInput i).dataRead = true → b.serial.readable = true)

/-- Bytes are neither lost nor doubled between the ring and the
processor. -/
theorem conserved (hrun : Along Board.step Polite b is)
    (hfits : ∀ n, b.serial.unread.length + (arrivals (is.take n)).length
      ≤ (returned b (is.take n)).length + 15) :
    b.serial.unread ++ stored is
      = returned b is ++ (run Board.step b is).serial.unread := by
  -- over the edges: each one keeps the law, and the room for the rest
  induction is generalizing b with
  | nil => simp [stored, returned]
  | cons i is ih =>
    obtain ⟨⟨hreset, hread⟩, hrest⟩ := hrun
    have hone := hfits 1
    have haccess := congrArg List.length
      (SerialPort.access_unread (p := b.serial) (i := b.portInput i) hread)
    have hbyte : (b.portInput i).byte = i.rxD.or i.kbd := rfl
    have hle : (i.rxD.or i.kbd).toList.length
        ≤ i.rxD.toList.length + i.kbd.toList.length := by
      cases i.rxD <;> cases i.kbd <;> simp
    have hret : (if (b.portInput i).dataRead then
        [((b.serial.access (b.portInput i)).receiveData)] else []).length
        = (if (b.portInput i).dataRead then
          [(b.step i).serial.receiveData] else []).length := by
      split <;> rfl
    rw [List.length_append, hret] at haccess
    simp only [arrivals, returned, List.take_succ_cons, List.take_zero,
      List.flatMap_cons, List.flatMap_nil, List.append_nil, trace_cons,
      trace_nil, List.length_append] at hone
    have hlaw := SerialPort.step_unread (p := b.serial) (i := b.portInput i)
      hreset hread (by rw [hbyte]; omega)
    rw [hbyte, ← step_serial] at hlaw
    have hlen := congrArg List.length hlaw
    rw [List.length_append, List.length_append] at hlen
    have hnext := ih hrest (by
      intro n
      have hn := hfits (n + 1)
      simp only [arrivals, returned, List.take_succ_cons, List.flatMap_cons,
        trace_cons, List.length_append] at hn ⊢
      omega)
    simp only [stored, returned, List.flatMap_cons, trace_cons] at hnext ⊢
    rw [← List.append_assoc, hlaw, List.append_assoc, hnext, List.append_assoc]
    rfl

/-- Two bytes at one edge are one byte too many. -/
theorem stored_eq_arrivals_iff :
    stored is = arrivals is ↔ ∀ i ∈ is, i.rxD = none ∨ i.kbd = none := by
  have hle (j : BoardInput) :
      (j.rxD.or j.kbd).toList.Sublist (j.rxD.toList ++ j.kbd.toList) := by
    cases j.rxD <;> cases j.kbd <;> simp
  induction is with
  | nil => simp [arrivals, stored]
  | cons j js ih =>
    simp only [stored, arrivals, List.flatMap_cons, List.forall_mem_cons]
      at ih ⊢
    constructor
    · intro heq
      have hlen := congrArg List.length heq
      have hjs := (List.Sublist.flatMap_right js fun j _ => hle j).length_le
      have hone : j.rxD = none ∨ j.kbd = none := by
        cases hr : j.rxD <;> cases hk : j.kbd <;> simp_all
      refine ⟨hone, ih.1 ?_⟩
      rcases hone with hnone | hnone <;> simpa [hnone] using heq
    · intro hboth
      obtain ⟨hone, hrest⟩ := hboth
      rw [ih.2 hrest]
      rcases hone with hnone | hnone <;> simp [hnone]

-- ===== the processor's side

/-- The answer of the port is on the bus, and it is the true status if
that was asked for. -/
structure Answered (b : Board) (i : BoardInput) : Prop where
  ready : (b.step i).ready = true
  data : ∀ rom i', (b.step i).hreaddata rom i'
    = (b.step i).serial.receiveData.setWidth 32
  status : (b.portInput i).statusRead = true →
    (b.step i).serial.receiveData
      = 0#6 ++ BitVec.ofBool b.serial.readable ++ 1#1

/-- A read is answered in the next cycle. -/
theorem answered (hreset : i.hreset = true)
    (hread : (b.portInput i).dataRead = true ∨
      (b.portInput i).statusRead = true) : b.Answered i := by
  have hstep : b.step i = b.next i := if_pos hreset
  have hbus : b.ready = true ∧ (decode i.request).hselect.serial = true ∧
      (b.portInput i).hwrite = false := by
    simp only [PortInput.dataRead, PortInput.statusRead, portInput, hreset,
      if_true, Bool.true_and, Bool.and_eq_true, Bool.not_eq_true'] at hread ⊢
    tauto
  obtain ⟨hready, hsel, hwrite⟩ := hbus
  have hin : ((b.portInput i).hselect && (b.portInput i).ready) = true := by
    simp [portInput, hreset, hsel, hready]
  have hselect : (b.next i).hselect = (decode i.request).hselect :=
    if_pos hready
  have hrom : (decode i.request).hselect.rom = false := by
    unfold decode at hsel ⊢
    split_ifs at hsel ⊢
    all_goals simp_all
  have hserial : (b.next i).serial
      = { (b.serial.access (b.portInput i)).receive (b.portInput i) with
          txDBusyLast := b.tx.busy } := by
    simp [next, SerialPort.step, portInput, hreset]
  have hreg : (b.next i).serial.hreadyReg = true := by
    rw [hserial]
    rw [SerialPort.receive_hreadyReg, SerialPort.access, if_pos hin,
      if_neg (by simp [hwrite])]
    split <;> rfl
  refine ⟨?_, ?_, ?_⟩
  · simp [hstep, Board.ready, hselect, hrom, hsel, SerialPort.hready, hreg]
  · simp [hstep, hreaddata, hselect, hrom, hsel]
  · intro hstatus
    have haddr : (b.portInput i).haddress ≠ 0 := by
      simpa [PortInput.statusRead, hin, hwrite] using hstatus
    have hdata : (b.next i).serial.receiveData
        = (b.serial.access (b.portInput i)).receiveData := by
      rw [hserial]
      unfold SerialPort.receive
      split <;> rfl
    rw [hstep, hdata, SerialPort.access, if_pos hin,
      if_neg (by simp [hwrite]), if_neg haddr]

/-- `break` stays up until the processor has had a cycle to see it. -/
theorem break_seen {a : BoardInput} {ws : List BoardInput}
    (hb : b.Responsive) (hreset : ∀ i ∈ a :: ws, i.hreset = true)
    (harrives : a.rxD ≠ none ∨ a.kbd ≠ none) (hlong : 2606 < ws.length) :
    Sometime step (fun b _ => b.ready = true ∧ b.serial.breakOut = true)
      (b.step a) ws := by
  obtain ⟨ha, hws⟩ := List.forall_mem_cons.1 hreset
  have hport (c : Board) {i : BoardInput} (hi : i.hreset = true) :
      (c.step i).serial.breakOut
        = ((i.rxD.or i.kbd).isSome || (!c.ready && c.serial.breakOut)) := by
    rw [step_serial, SerialPort.step_breakOut _ (by exact hi)]
    simp [portInput, hi, PortInput.byte]
  have hup : (b.step a).serial.breakOut = true := by
    cases hr : a.rxD <;> cases hk : a.kbd <;> simp_all
  have hresp : (b.step a).Responsive := by
    rw [step, if_pos ha]
    exact hb.next ha
  refine sometime_of_waiting (W := fun c => c.serial.breakOut = true) hup ?_
    (fun c _ hw hready => ⟨hready, hw⟩)
    (hresp.sometime_ready hws (Nat.lt_of_le_of_lt (wait_le _) hlong))
  refine along_of_inv (I := fun _ => True) (L := fun _ i => i.hreset = true)
    ?_ trivial (along_input.2 hws)
  intro c i _ hi
  refine ⟨fun hw => ?_, trivial⟩
  -- a cycle that is not ready leaves `break` up
  cases hready : c.ready with
  | true => exact .inl ⟨rfl, hw⟩
  | false => exact .inr (by simp [hport c hi, hready, hw])

end Board

/-- From a board with nothing unread, in a run that reads data only while
the status reports some and leaves at most fifteen bytes unread. The bytes
read and the bytes still in the ring are the bytes that arrived, in their
order and each once, and the status shows whether one is left, exactly if
no cycle delivers a byte of the UART together with one of the keyboard.
Every read is answered in the next cycle, and `break` is up in a ready
cycle after every arrival. -/
theorem serial_input_delivered_iff (b : Board) (is : List BoardInput)
    (hempty : b.serial.unread = []) (hb : b.Responsive)
    (hrun : Along Board.step Board.Polite b is)
    (hfits : ∀ n, (arrivals (is.take n)).length
      ≤ (b.returned (is.take n)).length + 15) :
    ((arrivals is = b.returned is ++ (run Board.step b is).serial.unread ∧
        ((run Board.step b is).serial.readable = true ↔
          (b.returned is).length < (arrivals is).length)) ↔
      ∀ i ∈ is, i.rxD = none ∨ i.kbd = none) ∧
    Along Board.step (fun c i => (c.portInput i).dataRead = true ∨
      (c.portInput i).statusRead = true → c.Answered i) b is ∧
    ∀ before a after, is = before ++ a :: after →
      a.rxD ≠ none ∨ a.kbd ≠ none → 2606 < after.length →
      Sometime Board.step
        (fun c _ => c.ready = true ∧ c.serial.breakOut = true)
        (run Board.step b (before ++ [a])) after := by
  have hreset : ∀ i ∈ is, i.hreset = true :=
    along_input.1 (along_of_inv (I := fun _ => True)
      (P := fun _ i => i.hreset = true)
      (fun _ _ _ hpolite => ⟨hpolite.1, trivial⟩) trivial hrun)
  refine ⟨?_, ?_, ?_⟩
  · have hlaw := Board.conserved hrun (by simpa [hempty] using hfits)
    rw [hempty, List.nil_append] at hlaw
    rw [← Board.stored_eq_arrivals_iff, hlaw]
    constructor
    · intro hdelivered
      exact hdelivered.1.symm
    · intro heq
      refine ⟨heq.symm, ?_⟩
      rw [SerialPort.readable_iff, ← heq, List.length_append,
        ← List.length_pos_iff]
      omega
  · refine along_of_inv (I := fun _ => True) (fun c i _ hpolite => ?_)
      trivial hrun
    exact ⟨Board.answered hpolite.1, trivial⟩
  · intro before a after heq harrives hlong
    subst heq
    rw [List.forall_mem_append] at hreset
    have hthere : (run Board.step b before).Responsive := by
      refine run_induction (P := fun _ i => i.hreset = true) ?_ hb
        (along_input.2 hreset.1)
      intro c i hc hi
      rw [Board.step, if_pos hi]
      exact hc.next hi
    rw [run_append, run_cons, run_nil]
    exact Board.break_seen hthere hreset.2 harrives hlong

/-- A cycle with a bus request and what the two receivers deliver. -/
def lineInput (address : Cpu.Word) (rxD kbd : Option Byte) : BoardInput :=
  ⟨true, ⟨address, false, false, 0⟩, 0, 0, rxD, kbd⟩

/-- Two bytes one after the other, then the status and the data are
read. -/
def twoBytes : List BoardInput :=
  [lineInput 0x1fc00000 (some 65) none, lineInput 0x1fc00000 none (some 66),
    lineInput 0x1fd003fc none none, lineInput 0x1fd003f8 none none]

/-- The first byte comes out and the second stays. -/
theorem serial_input_delivered_two_bytes :
    sampleBoard.returned twoBytes = [65] ∧
      arrivals twoBytes = sampleBoard.returned twoBytes
        ++ (run Board.step sampleBoard twoBytes).serial.unread := by
  refine ⟨by decide +kernel, ?_⟩
  have hfits (n : Nat) : (arrivals (twoBytes.take n)).length
      ≤ (sampleBoard.returned (twoBytes.take n)).length + 15 := by
    have hsub : (arrivals (twoBytes.take n)).length ≤ 2 :=
      ((List.take_sublist n twoBytes).flatMap _).length_le
    omega
  have hdelivered := serial_input_delivered_iff sampleBoard twoBytes
    (by decide) ⟨rfl, by decide⟩
    (by unfold Board.Polite; decide +kernel) hfits
  exact (hdelivered.1.2 (by decide)).1

/-- Both receivers deliver in the same cycle: the byte of the keyboard is
nowhere. -/
theorem keyboard_byte_lost :
    arrivals [lineInput 0 (some 65) (some 66)] = [65, 66] ∧
      (run Board.step sampleBoard
        [lineInput 0 (some 65) (some 66)]).serial.unread = [65] := by
  decide +kernel

end MipsUcore.Soc
