/-
The translation buffer: `tlb.v`.

An entry is a 64-bit register in the source, read and written only
through the seven slices the README tabulates, so it is a structure of
those seven fields here (bit 63 is never read). The sixteen-way
comparison chain is a search over the indices in order: the lowest
matching entry wins.

A write is not qualified by `ready`: it happens at every clock edge at
which `tlbwi` stands in MEM.
-/
import MipsUcore.Cpu.Defines
import Mathlib.Logic.Function.Basic

namespace MipsUcore.Cpu

-- ===== entries

/-- One TLB entry: a pair of consecutive virtual pages. -/
structure TlbEntry where
  vpn : BitVec 19      -- [62:44]
  ppn0 : BitVec 20     -- [43:24]
  valid0 : Bool        -- [23]
  write0 : Bool        -- [22]
  ppn1 : BitVec 20     -- [21:2]
  valid1 : Bool        -- [1]
  write1 : Bool        -- [0]
  deriving DecidableEq

/-- The sixteen entries. -/
abbrev Tlb := BitVec 4 → TlbEntry

/-- `64'h4000000000000000`: the first page pair of the unmapped kernel
segment, which no lookup ever compares. -/
def TlbEntry.reset : TlbEntry := ⟨0x40000, 0, false, false, 0, false, false⟩

def Tlb.reset : Tlb := fun _ => .reset

/-- The slices `tlbwi` stores. -/
def TlbEntry.ofRegs (entryHi entryLo0 entryLo1 : Word) : TlbEntry where
  vpn := entryHi.extractLsb' 13 19
  ppn0 := entryLo0.extractLsb' 6 20
  valid0 := entryLo0.getLsbD 1
  write0 := entryLo0.getLsbD 2
  ppn1 := entryLo1.extractLsb' 6 20
  valid1 := entryLo1.getLsbD 1
  write1 := entryLo1.getLsbD 2

/-- The clocked block of `tlb`. -/
def Tlb.next (t : Tlb) (writeTLB : Bool)
    (index entryLo0 entryLo1 entryHi : Word) : Tlb :=
  if writeTLB then
    Function.update t (index.extractLsb' 0 4)
      (.ofRegs entryHi entryLo0 entryLo1)
  else t

-- ===== lookup

/-- `ValidAddress`, `isMiss` and `PhysicalAddress`. -/
structure Translation where
  validAddress : Bool
  isMiss : Bool
  physicalAddress : Word
  deriving DecidableEq

/-- `VirtualAddress[31:30] == 2'b10`: the segment that bypasses the
TLB. -/
def isUnmapped (va : Word) : Bool := va.extractLsb' 30 2 == 0b10#2

/-- `VirtualAddress[31:13]`. -/
def vpnOf (va : Word) : BitVec 19 := va.extractLsb' 13 19

/-- The indices in the order the comparison chain tries them. -/
def tlbIndices : List (BitVec 4) := (List.range 16).map (BitVec.ofNat 4)

/-- `isMatch` and `matchIndex`. -/
def Tlb.matchIndex (t : Tlb) (va : Word) : Option (BitVec 4) :=
  tlbIndices.find? fun j => vpnOf va == (t j).vpn

/-- The permission check on one of the two pages of a matching entry. -/
def translatePage (valid write : Bool) (ppn : BitVec 20) (va : Word)
    (writeEnable : Bool) : Translation :=
  if !valid then ⟨false, true, 0⟩
  else if writeEnable then
    if write then ⟨true, false, ppn ++ va.extractLsb' 0 12⟩
    else ⟨false, false, 0⟩
  else ⟨true, false, ppn ++ va.extractLsb' 0 12⟩

/-- The page of the pair that bit 12 of the address selects. -/
def TlbEntry.translate (e : TlbEntry) (va : Word) (writeEnable : Bool) :
    Translation :=
  if !va.getLsbD 12 then translatePage e.valid0 e.write0 e.ppn0 va writeEnable
  else translatePage e.valid1 e.write1 e.ppn1 va writeEnable

/-- The combinational block of `tlb`. -/
def Tlb.lookup (t : Tlb) (va : Word) (writeEnable : Bool) : Translation :=
  if isUnmapped va then ⟨true, true, va &&& 0x1fffffff⟩
  else
    match t.matchIndex va with
    | some j => (t j).translate va writeEnable
    | none => ⟨false, true, 0⟩

-- ===== what a hit means

/-- The valid bit of the page that bit 12 of the address selects. -/
def TlbEntry.validFor (e : TlbEntry) (va : Word) : Bool :=
  if !va.getLsbD 12 then e.valid0 else e.valid1

/-- The write bit of the selected page. -/
def TlbEntry.writeFor (e : TlbEntry) (va : Word) : Bool :=
  if !va.getLsbD 12 then e.write0 else e.write1

/-- The page frame of the selected page. -/
def TlbEntry.ppnFor (e : TlbEntry) (va : Word) : BitVec 20 :=
  if !va.getLsbD 12 then e.ppn0 else e.ppn1

/-- The entry maps `va` to `pa`, for a write if `writeEnable` asks for
one. -/
structure TlbEntry.Grants (e : TlbEntry) (va : Word) (writeEnable : Bool)
    (pa : Word) : Prop where
  vpn : e.vpn = vpnOf va
  valid : e.validFor va = true
  write : writeEnable = true → e.writeFor va = true
  frame : pa = e.ppnFor va ++ va.extractLsb' 0 12

theorem TlbEntry.translate_eq (e : TlbEntry) (va : Word) (we : Bool) :
    e.translate va we
      = translatePage (e.validFor va) (e.writeFor va) (e.ppnFor va) va we := by
  unfold translate validFor writeFor ppnFor
  cases va.getLsbD 12 <;> rfl

/-- A page translates exactly when it is valid and, for a write,
writable. -/
theorem translatePage_valid {valid write : Bool} {ppn : BitVec 20}
    {va : Word} {we : Bool}
    (h : (translatePage valid write ppn va we).validAddress = true) :
    valid = true ∧ (we = true → write = true) ∧
      (translatePage valid write ppn va we).physicalAddress
        = ppn ++ va.extractLsb' 0 12 := by
  revert h
  cases valid <;> cases we <;> cases write <;> simp [translatePage]

/-- The comparison chain finds an entry that carries the address's page
number. -/
theorem Tlb.matchIndex_vpn {t : Tlb} {va : Word} {j : BitVec 4}
    (h : t.matchIndex va = some j) : (t j).vpn = vpnOf va := by
  have hj := List.find?_some h
  simp only [beq_iff_eq] at hj
  exact hj.symm

/-- A translation of a mapped address comes from an entry that grants
it. -/
theorem Tlb.lookup_grants {t : Tlb} {va : Word} {we : Bool}
    (hmapped : isUnmapped va = false)
    (h : (t.lookup va we).validAddress = true) :
    ∃ j, t.matchIndex va = some j ∧
      (t j).Grants va we (t.lookup va we).physicalAddress := by
  unfold lookup at h ⊢
  rw [hmapped] at h ⊢
  cases hj : t.matchIndex va with
  | none => simp [hj] at h
  | some j =>
    simp only [hj, Bool.false_eq_true, if_false, TlbEntry.translate_eq] at h ⊢
    obtain ⟨hv, hw, hpa⟩ := translatePage_valid h
    exact ⟨j, rfl, Tlb.matchIndex_vpn hj, hv, hw, hpa⟩

/-- The unmapped segment lies in the kernel half. -/
theorem isUnmapped_of_not_msb {va : Word} (h : va.msb = false) :
    isUnmapped va = false := by
  unfold isUnmapped
  rw [beq_eq_false_iff_ne]
  intro heq
  have hbit : (va.extractLsb' 30 2).getLsbD 1 = true := by rw [heq]; rfl
  rw [BitVec.getLsbD_extractLsb'] at hbit
  rw [BitVec.msb_eq_getLsbD_last] at h
  simp_all

end MipsUcore.Cpu
