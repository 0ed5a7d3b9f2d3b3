/-
RAM through the bus is a byte-addressed little-endian memory.

# The abstract memory

`Ram` is the memory the requests describe, in the order the bus takes
them: 2^22 bytes, the request whose answer is due, and the words that
have been written but not yet stored in the chip. The bus reports a
`transfer` whenever `ready` is up — the pending request is answered and
the next one taken — and a `store` whenever the chip stores a word.
`Ram.Legal` says what may happen: a transfer owes no store and answers a
read with the bytes the memory has, and a store is the one that is owed.

# Why the board implements it

The controller overlaps the data phase of a request with the presentation
of the next. What is in flight is a function of its registers: `owes` is
the store the data phase will still make, and the chip with that store
made (`settled`) is the memory. A clock of the data phase keeps `settled`
(`perform_advance`); a clock that takes a request finds nothing owed and
changes `settled` as the request says (`perform_accept`).
-/
import MipsUcore.Lib.Machine
import MipsUcore.Soc.Proofs.Wait

namespace MipsUcore.Soc

open Cpu (Word BusRequest)
open Machine Bits Function

-- ===== the abstract memory

/-- The bytes of the RAM. -/
abbrev Bytes := BitVec 22 → Byte

/-- The word an address lies in. -/
def wordOf (a : BitVec 22) : BitVec 20 := a.extractLsb' 2 20

/-- The byte of its word an address names. -/
def laneOf (a : BitVec 22) : BitVec 2 := a.extractLsb' 0 2

namespace Bytes

/-- The four bytes of the word an address lies in, the highest first. -/
def readWord (m : Bytes) (a : BitVec 22) : Word :=
  m (wordOf a ++ 3#2) ++ m (wordOf a ++ 2#2) ++ m (wordOf a ++ 1#2)
    ++ m (wordOf a ++ 0#2)

/-- The four bytes of the word an address lies in are replaced. -/
def writeWord (m : Bytes) (a : BitVec 22) (w : Word) : Bytes :=
  fun x => if wordOf x = wordOf a then byteAt (laneOf x) w else m x

/-- A request for RAM reads the word or the zero-extended byte. -/
def read (m : Bytes) (size : Bool) (a : BitVec 22) : Word :=
  if size then m.readWord a else (m a).setWidth 32

/-- A request for RAM writes the word or exactly one byte. -/
def write (m : Bytes) (size : Bool) (a : BitVec 22) (w : Word) : Bytes :=
  if size then m.writeWord a w
  else update m a (w.extractLsb' 0 8)

end Bytes

/-- The RAM address of a request, if it is one for RAM. -/
def ramAddress (r : BusRequest) : Option (BitVec 22) :=
  if r.address.toNat < 2 ^ 22 then some (r.address.setWidth 22) else none

/-- What an observer of the bus and of the RAM's pins sees. -/
inductive BusEvent
  | transfer (answer : Word) (request : BusRequest)
  | store (address : BitVec 20)
  deriving DecidableEq

/-- The memory the requests describe. -/
structure Ram where
  bytes : Bytes
  pending : Option BusRequest
  owed : List (BitVec 20)

namespace Ram

/-- A transfer takes a request, a store settles one. -/
def apply (m : Ram) : BusEvent → Ram
  | .transfer _ r =>
    { pending := some r
      bytes := (ramAddress r).elim m.bytes fun a =>
        if r.writeEnable then m.bytes.write r.dataSize a r.writeData
        else m.bytes
      owed := (ramAddress r).elim m.owed fun a =>
        if r.writeEnable then m.owed ++ [wordOf a] else m.owed }
  | .store _ => { m with owed := m.owed.tail }

/-- A transfer finds every write stored and answers a pending read with
the bytes the memory has; a store is the one that is owed. -/
def Legal (m : Ram) : BusEvent → Prop
  | .transfer answer _ =>
    m.owed = [] ∧ ∀ r ∈ m.pending, ∀ a ∈ ramAddress r,
      r.writeEnable = false → answer = m.bytes.read r.dataSize a
  | .store a => m.owed.head? = some a

/-- Stores that are owed may happen, in the order they are owed. -/
theorem stores_legal {m : Ram} {l rest : List (BitVec 20)}
    (h : m.owed = l ++ rest) : Along apply Legal m (l.map BusEvent.store) ∧
      run apply m (l.map BusEvent.store) = { m with owed := rest } := by
  induction l generalizing m with
  | nil =>
    rw [List.nil_append] at h
    exact ⟨trivial, by rw [← h]; rfl⟩
  | cons a l ih =>
    have htail : (m.apply (.store a)).owed = l ++ rest := by
      simp [apply, h]
    obtain ⟨hlegal, hrun⟩ := ih htail
    refine ⟨⟨?_, hlegal⟩, hrun⟩
    simp [Legal, h]

end Ram

/-- The bytes the chip holds. -/
def chipBytes (chip : Chip) : Bytes :=
  fun a => byteAt (laneOf a) (chip (wordOf a))

/-- What the board reports at a clock. -/
def Board.events (rom : BitVec 7 → Word) (b : Board) (i : BoardInput) :
    List BusEvent :=
  (b.store i).toList.map (fun s => .store s.1) ++
    if b.ready then [.transfer (b.hreaddata rom i) i.request] else []

-- ===== chip and bytes

theorem wordOf_append (a : BitVec 20) (k : BitVec 2) :
    wordOf (a ++ k) = a := by
  rw [wordOf, BitVec.extractLsb'_append_eq_of_le (by decide)]
  exact BitVec.extractLsb'_eq_self

theorem laneOf_append (a : BitVec 20) (k : BitVec 2) :
    laneOf (a ++ k) = k := by
  rw [laneOf, BitVec.extractLsb'_append_eq_of_add_le (by decide)]
  exact BitVec.extractLsb'_eq_self

theorem append_laneOf (a : BitVec 22) : wordOf a ++ laneOf a = a := by
  rw [wordOf, laneOf,
    BitVec.extractLsb'_append_extractLsb'_eq_extractLsb' (by decide)]
  exact BitVec.extractLsb'_eq_self

theorem readWord_chipBytes (chip : Chip) (a : BitVec 22) :
    (chipBytes chip).readWord a = chip (wordOf a) := by
  simp only [Bytes.readWord, chipBytes, wordOf_append, laneOf_append]
  exact append_byteAt _

theorem chipBytes_update_word (chip : Chip) (a : BitVec 22) (w : Word) :
    chipBytes (update chip (wordOf a) w)
      = (chipBytes chip).writeWord a w := by
  funext x
  simp only [chipBytes, Bytes.writeWord]
  by_cases h : wordOf x = wordOf a
  · rw [h, update_self, if_pos rfl]
  · rw [update_of_ne h, if_neg h]

theorem chipBytes_update_byte (chip : Chip) (a : BitVec 22) (b : Byte) :
    chipBytes (update chip (wordOf a)
        (mergeByte (laneOf a) (chip (wordOf a)) b))
      = update (chipBytes chip) a b := by
  funext x
  by_cases hx : x = a
  · subst hx
    rw [update_self, chipBytes, update_self,
      byteAt_mergeByte_same]
  rw [update_of_ne hx]
  unfold chipBytes
  by_cases hw : wordOf x = wordOf a
  · have hl : laneOf x ≠ laneOf a := by
      intro hl
      exact hx (by rw [← append_laneOf x, ← append_laneOf a, hw, hl])
    rw [hw, update_self, byteAt_mergeByte_ne hl]
  · rw [update_of_ne hw]

-- ===== what is owed

namespace Sram

/-- The store the data phase will still make. -/
def owes (s : Sram) (chip : Chip) : Option (BitVec 20 × Word) :=
  match s.state with
  | .writeWord1 | .writeWord2 | .writeByte2 | .writeByte3 =>
    some (s.wordAddress, s.hwritedataTemp)
  | .writeByte1 =>
    some (s.wordAddress, mergeByte s.lane (chip s.wordAddress)
      (s.hwritedataTemp.extractLsb' 0 8))
  | _ => none

/-- The chip with the store made that is in flight. -/
def settled (s : Sram) (chip : Chip) : Chip := chip.perform (s.owes chip)

/-- The words the data phase will still store: none or one. -/
def owed (s : Sram) (chip : Chip) : List (BitVec 20) :=
  (s.owes chip).toList.map Prod.fst

theorem owes_of_hready {s : Sram} (h : s.hready = true) (chip : Chip) :
    s.owes chip = none := by
  unfold hready at h
  unfold owes
  cases hs : s.state <;> simp_all

theorem store_of_hready {s : Sram} (h : s.hready = true) (chip : Chip)
    (floating : Word) : s.pins.store chip floating = none := by
  unfold hready at h
  unfold pins
  cases hs : s.state <;> simp_all [SramPins.store, holdPins, readPins,
    idlePins]

/-- A controller that is not ready is in one of the five clocks of a
write before the last. -/
theorem state_of_not_hready {s : Sram} (h : s.hready = false) :
    s.state = .writeWord1 ∨ s.state = .writeWord2 ∨ s.state = .writeByte1 ∨
      s.state = .writeByte2 ∨ s.state = .writeByte3 := by
  unfold hready at h
  cases hs : s.state <;> simp_all

/-- A clock of the data phase: the store of this clock and what is owed
after it make the memory that was owed before it. -/
theorem advance_settled {s : Sram} (h : s.hready = false) (chip : Chip)
    (i : SramInput) (floating : Word) :
    (s.advance i (s.pins.data chip floating)).settled
        (chip.perform (s.pins.store chip floating)) = s.settled chip := by
  rcases state_of_not_hready h with hs | hs | hs | hs | hs <;>
    simp [advance, settled, owes, pins, hs, SramPins.store, SramPins.data,
      Chip.perform, holdPins, writePins, readPins, hreaddata, wordAddress]

/-- The store of this clock is the one that was owed. -/
theorem advance_owed {s : Sram} (h : s.hready = false) (chip : Chip)
    (i : SramInput) (floating : Word) : s.owed chip
      = (s.pins.store chip floating).toList.map Prod.fst ++
        (s.advance i (s.pins.data chip floating)).owed
          (chip.perform (s.pins.store chip floating)) := by
  rcases state_of_not_hready h with hs | hs | hs | hs | hs <;>
    simp [advance, owed, owes, pins, hs, SramPins.store, SramPins.data,
      holdPins, writePins, readPins, hreaddata, wordAddress]

/-- Taking a write changes the settled memory as the write says. -/
theorem accept_settled (i : SramInput) (chip : Chip) :
    chipBytes ((accept i).settled chip) = if i.hwrite then
          (chipBytes chip).write i.hsize i.haddress i.hwritedata
        else chipBytes chip := by
  cases hw : i.hwrite <;> cases hz : i.hsize <;>
    simp only [accept, settled, owes, hw, hz, Chip.perform, Bytes.write,
      if_true, if_false, Bool.false_eq_true]
  case true.false => exact chipBytes_update_byte chip i.haddress _
  case true.true => exact chipBytes_update_word chip i.haddress _

theorem accept_owed (i : SramInput) (chip : Chip) : (accept i).owed chip
      = if i.hwrite then [wordOf i.haddress] else [] := by
  cases hw : i.hwrite <;> cases hz : i.hsize <;>
    simp [accept, owed, owes, hw, hz, wordAddress, wordOf]

/-- A read taken at the last clock is answered at this one. -/
theorem hreaddata_accept {i : SramInput} (h : i.hwrite = false)
    (chip : Chip) (floating : Word) :
    (accept i).hreaddata ((accept i).pins.data chip floating)
      = (chipBytes chip).read i.hsize i.haddress := by
  cases hz : i.hsize
  case false =>
    simp [accept, h, hz, hreaddata, pins, readPins, SramPins.data,
      Bytes.read, chipBytes, lane, wordAddress, wordOf, laneOf]
  case true =>
    rw [Bytes.read, readWord_chipBytes]
    simp [accept, h, hz, hreaddata, pins, readPins, SramPins.data,
      wordAddress, wordOf]

end Sram

-- ===== the decoder

/-- A request for RAM is shown to the controller, and to nobody else. -/
theorem decode_ram {r : BusRequest} {a : BitVec 22}
    (h : ramAddress r = some a) : (decode r).hselect = { sram := true } ∧
      (decode r).sram = ⟨true, r.writeEnable, r.dataSize, r.writeData, a⟩ := by
  unfold ramAddress at h
  split at h
  case isFalse => cases h
  case isTrue hlt =>
    cases h
    have hrom : ¬ (0x1FC00000#32 ≤ r.address ∧ r.address ≤ 0x1FC001FF#32) := by
      simp only [BitVec.le_def, BitVec.toNat_ofNat]
      omega
    have hserial : ¬ (0x1FD003F8#32 ≤ r.address ∧
        r.address ≤ 0x1FD003FF#32) := by
      simp only [BitVec.le_def, BitVec.toNat_ofNat]
      omega
    have hram : 0x00000000#32 ≤ r.address ∧ r.address ≤ 0x003fffff#32 := by
      simp only [BitVec.le_def, BitVec.toNat_ofNat]
      omega
    have hset : r.address.extractLsb' 0 22 = r.address.setWidth 22 := by
      apply BitVec.eq_of_getLsbD_eq
      simp
    unfold decode
    rw [if_neg hrom, if_neg hserial, if_pos hram]
    exact ⟨rfl, by simp [DeviceInputs.sram, hset]⟩

theorem decode_not_ram {r : BusRequest} (h : ramAddress r = none) :
    (decode r).hselect.sram = false := by
  have hge : ¬ r.address.toNat < 2 ^ 22 := by
    intro hlt
    rw [ramAddress, if_pos hlt] at h
    cases h
  have hram : ¬ (0x00000000#32 ≤ r.address ∧ r.address ≤ 0x003fffff#32) := by
    simp only [BitVec.le_def, BitVec.toNat_ofNat]
    omega
  unfold decode
  repeat' split
  all_goals rfl

-- ===== the refinement

namespace Board

/-- The board holds the memory `m`: the settled chip has its bytes, what
is owed is in flight, the controller works only while it is selected, and
a pending read is the request the controller has just taken. -/
structure Implements (b : Board) (m : Ram) : Prop where
  bytes : chipBytes (b.sram.settled b.chip) = m.bytes
  owed : b.sram.owed b.chip = m.owed
  idle : b.hselect.sram = false → b.sram.state = .idle
  alone : b.hselect.sram = true → b.hselect = { sram := true }
  reading : ∀ r ∈ m.pending, ∀ a ∈ ramAddress r, r.writeEnable = false →
    b.hselect.sram = true ∧ b.sram = Sram.accept (decode r).sram

variable {b : Board} {m : Ram}

/-- The controller is ready whenever the bus is. -/
theorem Implements.hready (h : b.Implements m) (hr : b.ready = true) :
    b.sram.hready = true := by
  cases hsel : b.hselect.sram
  case false => simp [Sram.hready, h.idle hsel]
  case true => simpa [ready, h.alone hsel] using hr

/-- The bus waits with the controller while the controller is
selected. -/
theorem Implements.ready_eq (h : b.Implements m)
    (hsel : b.hselect.sram = true) : b.ready = b.sram.hready := by
  simp [ready, h.alone hsel]

/-- While the bus waits no read is pending: a read is ready at once. -/
theorem Implements.write_of_wait (h : b.Implements m)
    (hr : b.ready = false) {r : BusRequest} {a : BitVec 22}
    (hpend : r ∈ m.pending) (ha : a ∈ ramAddress r) :
    r.writeEnable = true := by
  by_contra hw
  obtain ⟨hs, hacc⟩ := h.reading r hpend a ha (by simpa using hw)
  have hrd : b.ready = true := by
    rw [h.ready_eq hs, hacc, (decode_ram ha).2]
    cases hz : r.dataSize <;> simp_all [Sram.accept, Sram.hready]
  rw [hrd] at hr
  cases hr

/-- A clock with `ready` down settles what it stores. -/
theorem Implements.wait_settled (h : b.Implements m) (i : BoardInput)
    (hr : b.ready = false) :
    (b.next i).sram.settled (b.next i).chip = b.sram.settled b.chip ∧
      b.sram.owed b.chip = (b.store i).toList.map Prod.fst ++
        (b.next i).sram.owed (b.next i).chip := by
  have hsram : (b.next i).sram
      = b.sram.advance (decode i.request).sram (b.ram1data i) := by
    simp [next, Sram.step, hr]
  rw [hsram]
  cases hs : b.hselect.sram
  case true =>
    have hrdy : b.sram.hready = false := by rw [← h.ready_eq hs, hr]
    exact ⟨Sram.advance_settled hrdy .., Sram.advance_owed hrdy ..⟩
  case false =>
    -- another device holds the bus: the controller stays idle
    have hrdy : b.sram.hready = true := by
      simp [Sram.hready, h.idle hs]
    have hrdy' : (b.sram.advance (decode i.request).sram
        (b.ram1data i)).hready = true := by
      simp [Sram.hready, Sram.advance, h.idle hs]
    have hstore : b.store i = none := Sram.store_of_hready hrdy _ _
    have hchip : (b.next i).chip = b.chip := by
      simp [next, hstore, Chip.perform]
    simp [Sram.settled, Sram.owed, Sram.owes_of_hready hrdy,
      Sram.owes_of_hready hrdy', hstore, hchip]

/-- A clock with `ready` down. -/
theorem Implements.wait_step (h : b.Implements m) (i : BoardInput)
    (hr : b.ready = false) (rom : BitVec 7 → Word) :
    Along Ram.apply Ram.Legal m (b.events rom i) ∧
      (b.next i).Implements (run Ram.apply m (b.events rom i)) := by
  have hsel : (b.next i).hselect = b.hselect := by simp [next, hr]
  obtain ⟨hset, howed⟩ := h.wait_settled i hr
  have hev : b.events rom i
      = ((b.store i).toList.map Prod.fst).map BusEvent.store := by
    simp [events, hr]
  obtain ⟨hlegal, hrun⟩ := Ram.stores_legal (h.owed ▸ howed)
  rw [hev, hrun]
  refine ⟨hlegal, ?_⟩
  constructor
  case bytes => rw [hset, h.bytes]
  case owed => rfl
  case idle =>
    intro hs
    rw [hsel] at hs
    simp [next, Sram.step, hr, Sram.advance, h.idle hs]
  case alone =>
    rw [hsel]
    exact h.alone
  case reading =>
    intro r hpend a ha hw
    rw [h.write_of_wait hr hpend ha] at hw
    cases hw

variable (h : b.Implements m) (i : BoardInput) (hr : b.ready = true)

section
include h i hr

/-- With `ready` up nothing is in flight: the chip has the bytes, and no
store is owed or made. -/
theorem Implements.at_rest :
    chipBytes b.chip = m.bytes ∧ m.owed = [] ∧ b.store i = none := by
  have hrdy := h.hready hr
  have howes := Sram.owes_of_hready hrdy b.chip
  refine ⟨?_, ?_, Sram.store_of_hready hrdy _ _⟩
  · rw [← h.bytes, Sram.settled, howes, Chip.perform]
  · rw [← h.owed, Sram.owed, howes]
    rfl

/-- With `ready` up a pending read gets its answer. -/
theorem Implements.answer (rom : BitVec 7 → Word) {r : BusRequest}
    {a : BitVec 22} (hpend : r ∈ m.pending) (ha : a ∈ ramAddress r)
    (hw : r.writeEnable = false) :
    b.hreaddata rom i = m.bytes.read r.dataSize a := by
  obtain ⟨hs, hacc⟩ := h.reading r hpend a ha hw
  obtain ⟨-, hin⟩ := decode_ram ha
  have hans := Sram.hreaddata_accept (i := (decode r).sram)
    (by rw [hin]; exact hw) b.chip i.floating
  rw [← hacc, (h.at_rest i hr).1, hin] at hans
  rw [← hans]
  simp [hreaddata, h.alone hs, ram1data]

/-- Taking a request for another device leaves the controller idle. -/
theorem Implements.take_other (ha : ramAddress i.request = none)
    (answer : Word) :
    (b.next i).Implements (m.apply (.transfer answer i.request)) := by
  obtain ⟨hbytes, hnone, hstore⟩ := h.at_rest i hr
  have hchip : (b.next i).chip = b.chip := by
    simp [next, hstore, Chip.perform]
  have hsel : (b.next i).hselect.sram = false := by
    simp [next, hr, decode_not_ram ha]
  have hidle : (b.next i).sram.state = .idle := by
    have hns : (decode i.request).sram.hselect = false := decode_not_ram ha
    have hrdy := h.hready hr
    unfold Sram.hready at hrdy
    simp only [next, Sram.step, hns, Bool.false_and, Bool.false_eq_true,
      if_false, Sram.advance]
    cases hst : b.sram.state <;> simp_all
  have howes : (b.next i).sram.owes b.chip = none :=
    Sram.owes_of_hready (by simp [Sram.hready, hidle]) _
  constructor
  case bytes =>
    rw [hchip, Sram.settled, howes]
    simpa [Ram.apply, ha, Chip.perform] using hbytes
  case owed =>
    rw [hchip, Sram.owed, howes]
    simp [Ram.apply, ha, hnone]
  case idle => exact fun _ => hidle
  case alone =>
    rw [hsel]
    exact fun hf => absurd hf (by decide)
  case reading =>
    intro r hpend a ha'
    cases hpend
    rw [ha] at ha'
    cases ha'

/-- Taking a request for RAM starts its data phase. -/
theorem Implements.take_ram {a : BitVec 22}
    (ha : ramAddress i.request = some a) (answer : Word) :
    (b.next i).Implements (m.apply (.transfer answer i.request)) := by
  obtain ⟨hbytes, hnone, hstore⟩ := h.at_rest i hr
  obtain ⟨hs, hin⟩ := decode_ram ha
  have hchip : (b.next i).chip = b.chip := by
    simp [next, hstore, Chip.perform]
  have hsel : (b.next i).hselect = { sram := true } := by
    simp [next, hr, hs]
  have hsram : (b.next i).sram = Sram.accept (decode i.request).sram := by
    simp [next, Sram.step, hr, hin]
  have hset := Sram.accept_settled (decode i.request).sram b.chip
  have howed := Sram.accept_owed (decode i.request).sram b.chip
  rw [← hsram, hin] at hset howed
  constructor
  case bytes =>
    rw [hchip, hset, hbytes]
    simp [Ram.apply, ha]
  case owed =>
    rw [hchip, howed]
    simp [Ram.apply, ha, hnone]
  case idle =>
    rw [hsel]
    exact fun hf => absurd hf (by decide)
  case alone => exact fun _ => hsel
  case reading =>
    intro r hpend a' ha' hw
    cases hpend
    exact ⟨by rw [hsel], hsram⟩

/-- A clock with `ready` up. -/
theorem Implements.ready_step (rom : BitVec 7 → Word) :
    Along Ram.apply Ram.Legal m (b.events rom i) ∧
      (b.next i).Implements (run Ram.apply m (b.events rom i)) := by
  obtain ⟨-, hnone, hstore⟩ := h.at_rest i hr
  have hev : b.events rom i = [.transfer (b.hreaddata rom i) i.request] := by
    simp [events, hstore, hr]
  rw [hev]
  refine ⟨⟨⟨hnone, ?_⟩, trivial⟩, ?_⟩
  · intro r hpend a ha hw
    exact h.answer i hr rom hpend ha hw
  · cases ha : ramAddress i.request with
    | none => exact h.take_other i hr ha (b.hreaddata rom i)
    | some a => exact h.take_ram i hr ha (b.hreaddata rom i)

end

/-- The board after a clock in reset holds what the chip holds. -/
theorem implements_reset (b : Board) (i : BoardInput) :
    (b.reset i).Implements ⟨chipBytes (b.reset i).chip, none, []⟩ where
  bytes := rfl
  owed := rfl
  idle := fun _ => rfl
  alone := fun hf => by cases hf
  reading := fun _ hr => by cases hr

/-- One clock edge out of reset. -/
theorem Implements.step (h : b.Implements m) {i : BoardInput}
    (hres : i.hreset = true) (rom : BitVec 7 → Word) :
    Along Ram.apply Ram.Legal m (b.events rom i) ∧
      (b.step i).Implements (run Ram.apply m (b.events rom i)) := by
  rw [Board.step, if_pos hres]
  cases hr : b.ready
  case false => exact h.wait_step i hr rom
  case true => exact h.ready_step i hr rom

theorem Implements.wait_le (h : b.Implements m)
    (hs : b.hselect.sram = true) : b.wait ≤ 3 := by
  have hle := b.sram.wait_le
  simpa [wait, h.alone hs] using hle

/-- Out of reset the board stays responsive. -/
theorem Responsive.run (h : b.Responsive) {is : List BoardInput}
    (his : ∀ i ∈ is, i.hreset = true) : (run step b is).Responsive := by
  refine run_induction (P := fun _ i => i.hreset = true) ?_ h
    (along_input.2 his)
  intro b i hb hres
  rw [step, if_pos hres]
  exact hb.next hres

end Board

-- ===== the result

/-- From a clock in reset on, whatever the master requests and whatever
the pins carry: the transfers and stores are those of a byte-addressed
memory that starts with the chip's contents; the chip has the memory's
bytes whenever `ready` is up; and `ready` comes up again within three
clocks of a RAM access and within 2606 of any other. -/
theorem ram_is_byte_memory (rom : BitVec 7 → Word) (b₀ : Board)
    (i₀ : BoardInput) (h₀ : i₀.hreset = false) (is : List BoardInput)
    (his : ∀ i ∈ is, i.hreset = true) :
    let b := run Board.step (b₀.step i₀) is
    let tr := trace Board.step (Board.events rom) (b₀.step i₀) is
    Along Ram.apply Ram.Legal ⟨chipBytes b₀.chip, none, []⟩ tr ∧
      (b.ready = true → chipBytes b.chip
        = (run Ram.apply ⟨chipBytes b₀.chip, none, []⟩ tr).bytes) ∧
      ∀ js : List BoardInput, (∀ j ∈ js, j.hreset = true) →
        (if b.hselect.sram then 3 else 2606) < js.length →
        Sometime Board.step (fun b _ => b.ready = true) b js := by
  have hreset : b₀.step i₀ = b₀.reset i₀ := by simp [Board.step, h₀]
  have hstart : (b₀.reset i₀).Implements ⟨chipBytes b₀.chip, none, []⟩ :=
    b₀.implements_reset i₀
  rw [hreset]
  intro b tr
  obtain ⟨hlegal, hend⟩ := simulation (R := Board.Implements)
    (P := fun _ (i : BoardInput) => i.hreset = true) (L := Ram.Legal)
    (fun s i m h hres => h.step hres rom) hstart
    (along_input.2 his)
  have hresp : b.Responsive := (b₀.responsive_reset i₀).run his
  refine ⟨hlegal, ?_, ?_⟩
  · intro hr
    exact (hend.at_rest i₀ hr).1
  · intro js hjs hlen
    refine hresp.sometime_ready hjs ?_
    split at hlen
    case isTrue hs => exact Nat.lt_of_le_of_lt (hend.wait_le hs) hlen
    case isFalse => exact Nat.lt_of_le_of_lt b.wait_le hlen

/-- A board whose chip holds `0x44332211` everywhere. -/
def sampleBoard : Board where
  hselect := {}
  romAddress := 0
  serial := ⟨0, 0, fun _ => 0, false, 0, false, false, false, 0⟩
  tx := ⟨0, 0, 0⟩
  sram := Sram.reset
  flash := ⟨.idle, 0, 0, 0⟩
  vga := ⟨true, fun _ => 0⟩
  chip := fun _ => 0x44332211

/-- A clock with a request and quiet pins. -/
def sampleInput (hreset : Bool) (request : BusRequest) : BoardInput :=
  ⟨hreset, request, 0, 0, none, none⟩

/-- The byte `0xab` is written to address 5; the master then presents a
word read of address 4 and holds it. -/
def sampleInputs : List BoardInput :=
  sampleInput true ⟨5, true, false, 0xab⟩ ::
    List.replicate 6 (sampleInput true ⟨4, false, true, 0⟩)

/-- The read presented behind a byte write is taken when the write is
done, once, and returns the word with the byte in it. -/
theorem ram_reads_back_merged_byte :
    (trace Board.step (Board.events fun _ => 0)
        (sampleBoard.step (sampleInput false ⟨0, false, false, 0⟩))
        sampleInputs
      = [.transfer 0 ⟨5, true, false, 0xab⟩, .store 1,
          .transfer 0 ⟨4, false, true, 0⟩,
          .transfer 0x4433ab11 ⟨4, false, true, 0⟩,
          .transfer 0x4433ab11 ⟨4, false, true, 0⟩]) ∧
      Along Ram.apply Ram.Legal ⟨chipBytes sampleBoard.chip, none, []⟩
        (trace Board.step (Board.events fun _ => 0)
          (sampleBoard.step (sampleInput false ⟨0, false, false, 0⟩))
          sampleInputs) :=
  ⟨by decide, (ram_is_byte_memory (fun _ => 0) sampleBoard
    (sampleInput false ⟨0, false, false, 0⟩) rfl sampleInputs
    (by decide)).1⟩

end MipsUcore.Soc
