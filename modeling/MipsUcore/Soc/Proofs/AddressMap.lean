/-
The address map.

`Device` and its ranges are the table of the documentation; `decode` is the
priority chain of the bus. They agree everywhere but at 0x10001000: the
chain compares the end of the screen's range with `<=` and the address after
the last one, so that address selects the screen too, and there it is
address 0 again (`decode_screen_end`).

The flash is driven with `Haddress[23:1] + 2`, which wraps within the 23
bits: two words of its range still never meet.
-/
import MipsUcore.Soc.Bus
import Mathlib.Tactic.SplitIfs

namespace MipsUcore.Soc

open Cpu (Word BusRequest)

-- ===== the table

/-- The devices of the address map. -/
inductive Device
  | rom
  | ram
  | flash
  | serial
  | vga
  deriving DecidableEq, Repr

namespace Device

/-- The first physical address of a device. -/
def base : Device → Nat
  | rom => 0x1fc00000
  | ram => 0x00000000
  | flash => 0x1e000000
  | serial => 0x1fd003f8
  | vga => 0x10000000

/-- How many physical addresses a device has. -/
def span : Device → Nat
  | rom => 0x200
  | ram => 0x400000
  | flash => 0x1000000
  | serial => 8
  | vga => 0x1000

/-- How many addresses there are inside a device. -/
def size : Device → Nat
  | flash => 0x800000
  | d => d.span

/-- The physical address is one of the device's. -/
def Maps (d : Device) (a : Word) : Prop :=
  d.base ≤ a.toNat ∧ a.toNat < d.base + d.span

instance (d : Device) (a : Word) : Decidable (d.Maps a) :=
  inferInstanceAs (Decidable (_ ∧ _))

/-- No two rows of the table overlap. -/
theorem Maps.unique {d d' : Device} {a : Word} (h : d.Maps a)
    (h' : d'.Maps a) : d = d' := by
  unfold Maps at h h'
  cases d <;> cases d' <;> first | rfl | (simp only [base, span] at h h'; omega)

end Device

/-- The select line of a device. -/
def Selects.of (s : Selects) : Device → Bool
  | .rom => s.rom
  | .ram => s.sram
  | .flash => s.flash
  | .serial => s.serial
  | .vga => s.vga

/-- The address driven to a device. -/
def DeviceInputs.address (i : DeviceInputs) : Device → Nat
  | .rom => i.haddressRom.toNat
  | .ram => i.haddressSram.toNat
  | .flash => i.haddressFlash.toNat
  | .serial => i.haddressSerial.toNat
  | .vga => i.haddressVga.toNat

-- ===== the decoder

/-- The one device the decoder selects. -/
def selected (a : Word) : Option Device :=
  if Device.rom.Maps a then some .rom
  else if Device.serial.Maps a then some .serial
  else if Device.ram.Maps a then some .ram
  else if Device.flash.Maps a then some .flash
  else if Device.vga.Maps a ∨ a = 0x10001000#32 then some .vga
  else none

/-- The local address of the selected device. -/
def localAddress (a : Word) : Device → Nat
  | .flash => (a.toNat / 2 + 2) % 2 ^ 23
  | d => a.toNat % d.size

/-- A range of the chain is a row of the table. -/
theorem range_iff (d : Device) (first last a : Word)
    (hfirst : first.toNat = d.base)
    (hlast : last.toNat + 1 = d.base + d.span) :
    (first ≤ a ∧ a ≤ last) ↔ d.Maps a := by
  unfold Device.Maps
  rw [BitVec.le_def, BitVec.le_def]
  omega

/-- The range of the screen has one address more. -/
theorem vga_range_iff (a : Word) : (0x10000000#32 ≤ a ∧ a ≤ 0x10001000#32) ↔
      (Device.vga.Maps a ∨ a = 0x10001000#32) := by
  have heq : a = 0x10001000#32 ↔ a.toNat = 0x10001000 := BitVec.toNat_inj.symm
  rw [BitVec.le_def, BitVec.le_def, heq]
  show 0x10000000 ≤ a.toNat ∧ a.toNat ≤ 0x10001000 ↔
    (0x10000000 ≤ a.toNat ∧ a.toNat < 0x10000000 + 0x1000) ∨ _
  omega

/-- The chain, with the rows of the table for its ranges. -/
theorem decode_eq (r : BusRequest) : decode r =
      if Device.rom.Maps r.address then
        { hselect.rom := true, haddressRom := r.address.extractLsb' 0 9 }
      else if Device.serial.Maps r.address then
        { hselect.serial := true
          hwriteSerial := r.writeEnable
          hwritedataSerial := r.writeData.extractLsb' 0 8
          haddressSerial := r.address.extractLsb' 0 3 }
      else if Device.ram.Maps r.address then
        { hselect.sram := true
          hsizeSram := r.dataSize
          hwriteSram := r.writeEnable
          hwritedataSram := r.writeData
          haddressSram := r.address.extractLsb' 0 22 }
      else if Device.flash.Maps r.address then
        { hselect.flash := true
          haddressFlash := r.address.extractLsb' 1 23 + 2 }
      else if Device.vga.Maps r.address ∨ r.address = 0x10001000#32 then
        { hselect.vga := true
          hsizeVga := r.dataSize
          hwriteVga := r.writeEnable
          hwritedataVga := r.writeData
          haddressVga := r.address.extractLsb' 0 12 }
      else { hselect.nodevice := true } := by
  unfold decode
  simp only [range_iff .rom 0x1FC00000#32 0x1FC001FF#32 _ rfl rfl,
    range_iff .serial 0x1FD003F8#32 0x1FD003FF#32 _ rfl rfl,
    range_iff .ram 0x00000000#32 0x003fffff#32 _ rfl rfl,
    range_iff .flash 0x1e000000#32 0x1effffff#32 _ rfl rfl, vga_range_iff]

theorem decode_selected (r : BusRequest) (d : Device) :
    (decode r).hselect.of d = true ↔ selected r.address = some d := by
  rw [decode_eq]
  unfold selected
  split_ifs <;> cases d <;> simp [Selects.of]

theorem decode_address (r : BusRequest) {d : Device}
    (h : selected r.address = some d) :
    (decode r).address d = localAddress r.address d := by
  rw [decode_eq]
  unfold selected at h
  split_ifs at h ⊢ <;> cases h <;>
    simp [DeviceInputs.address, localAddress, Device.size, Device.span,
      Nat.shiftRight_eq_div_pow]

/-- Where the table has a row the decoder selects it. -/
theorem selected_of_maps {a : Word} {d : Device} (h : d.Maps a) :
    selected a = some d := by
  have hne {d' : Device} (hd : d' ≠ d) : ¬d'.Maps a :=
    fun h' => hd (h'.unique h)
  unfold selected
  cases d with
  | rom => rw [if_pos h]
  | serial => rw [if_neg (hne (by decide)), if_pos h]
  | ram => rw [if_neg (hne (by decide)), if_neg (hne (by decide)), if_pos h]
  | flash =>
    rw [if_neg (hne (by decide)), if_neg (hne (by decide)),
      if_neg (hne (by decide)), if_pos h]
  | vga =>
    rw [if_neg (hne (by decide)), if_neg (hne (by decide)),
      if_neg (hne (by decide)), if_neg (hne (by decide)), if_pos (.inl h)]

/-- Elsewhere it selects nothing, except behind the screen. -/
theorem maps_of_selected {a : Word} {d : Device} (h : selected a = some d)
    (hne : a ≠ 0x10001000#32) : d.Maps a := by
  unfold selected at h
  split_ifs at h with h1 h2 h3 h4 h5 <;> cases h
  · exact h1
  · exact h2
  · exact h3
  · exact h4
  · exact h5.resolve_right hne

theorem localAddress_lt (a : Word) (d : Device) :
    localAddress a d < d.size := by
  cases d <;> exact Nat.mod_lt _ (by decide)

/-- Two words of a device are two cells of it. -/
theorem localAddress_inj {a b : Word} {d : Device} (ha : d.Maps a)
    (hb : d.Maps b) (ha4 : a.toNat % 4 = 0) (hb4 : b.toNat % 4 = 0)
    (h : localAddress a d = localAddress b d) : a = b := by
  refine BitVec.eq_of_toNat_eq ?_
  unfold Device.Maps at ha hb
  cases d <;>
    simp only [localAddress, Device.size, Device.span, Device.base]
      at h ha hb <;>
    omega

/-- The address map of the bus. At most one device is selected. The device
that is selected is the one of the table, and none where the table has none,
exactly at the addresses other than 0x10001000. Two words of one device are
driven to two cells inside it. -/
theorem bus_address_map (r : BusRequest) :
    (∀ d d' : Device, (decode r).hselect.of d = true →
      (decode r).hselect.of d' = true → d = d') ∧
    ((∀ d, (decode r).hselect.of d = true ↔ d.Maps r.address) ↔
      r.address ≠ 0x10001000#32) ∧
    ∀ (r' : BusRequest) (d : Device), d.Maps r.address →
      d.Maps r'.address → r.address.toNat % 4 = 0 →
      r'.address.toNat % 4 = 0 → r.address ≠ r'.address →
      (decode r).address d ≠ (decode r').address d ∧
        (decode r).address d < d.size := by
  refine ⟨?_, ?_, ?_⟩
  · intro d d' h h'
    rw [decode_selected] at h h'
    exact Option.some.inj (h.symm.trans h')
  · constructor
    · intro hall heq
      have hsel : selected r.address = some .vga := by
        rw [heq]
        decide
      have := (hall .vga).mp ((decode_selected r .vga).mpr hsel)
      rw [heq] at this
      exact absurd this (by decide)
    · intro hne d
      rw [decode_selected]
      exact ⟨fun h => maps_of_selected h hne, selected_of_maps⟩
  · intro r' d h h' h4 h4' hne
    rw [decode_address r (selected_of_maps h),
      decode_address r' (selected_of_maps h')]
    exact ⟨fun heq => hne (localAddress_inj h h' h4 h4' heq),
      localAddress_lt ..⟩

/-- The first two words of RAM. -/
theorem bus_address_map_ram :
    (decode ⟨4#32, false, false, 0⟩).address .ram ≠
      (decode ⟨8#32, false, false, 0⟩).address .ram :=
  ((bus_address_map ⟨4#32, false, false, 0⟩).2.2 ⟨8#32, false, false, 0⟩ .ram
    (by decide) (by decide) (by decide) (by decide) (by decide)).1

/-- The address behind the screen selects the screen, as its first cell. -/
theorem decode_screen_end :
    (decode ⟨0x10001000#32, false, false, 0⟩).hselect.of .vga = true ∧
      ¬Device.vga.Maps 0x10001000#32 ∧
      (decode ⟨0x10001000#32, false, false, 0⟩).address .vga =
        (decode ⟨0x10000000#32, false, false, 0⟩).address .vga := by
  decide

end MipsUcore.Soc
