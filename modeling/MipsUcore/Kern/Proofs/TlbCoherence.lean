/-
The TLB never contradicts the page tables.

Everywhere the kernel changes an entry of a page table it empties the
TLB before anything else can look, and everywhere it fills the TLB it
copies a pair of entries of the directory in use. So one invariant holds
between any two operations: each TLB entry for the user half is the image
of the pair of page table entries for its page number (`Coherent`). What
a hardware lookup may answer, and that two entries for one page number
agree, follow from it (`tlb_coherent`).

The one place where a page table changes and the TLB is left alone is a
page fault that creates a table and then finds no page to map: the new
table is all zero, which is what an absent table reads as.
-/
import MipsUcore.Kern.Pmm
import MipsUcore.Lib.Bits

namespace MipsUcore.Kern

open Cpu Function

variable {ι : Type} [DecidableEq ι]
  {d : PageDir} {va : Word}

-- ===== invariant

/-- The TLB entry for the page pair `vpn`, as `tlb_refill` builds it. -/
def pairEntry (d : PageDir) (vpn : BitVec 19) : TlbEntry :=
  .ofRegs (vpn ++ 0#13) (pte2tlblow (d.pteAt (vpn ++ 0#13)))
    (pte2tlblow (d.pteAt (vpn ++ 0x1000#13)))

theorem pairEntry_vpn (d : PageDir) (vpn : BitVec 19) :
    (pairEntry d vpn).vpn = vpn := by
  show (vpn ++ 0#13).extractLsb' 13 19 = vpn
  rw [BitVec.extractLsb'_append_eq_of_le (by decide)]
  exact BitVec.extractLsb'_eq_self

/-- Every TLB entry for the user half is the image of its page pair. -/
def Coherent (d : PageDir) (t : Tlb) : Prop :=
  ∀ j, (t j).vpn.msb = false → t j = pairEntry d (t j).vpn

/-- No TLB entry is for the user half. -/
def KernelOnly (t : Tlb) : Prop := ∀ j, (t j).vpn.msb = true

theorem KernelOnly.coherent {t : Tlb} (h : KernelOnly t) (d : PageDir) :
    Coherent d t := by
  intro j hj
  rw [h j] at hj
  exact absurd hj (by decide)

theorem kernelOnly_reset : KernelOnly Tlb.reset := by
  intro j
  show (0x40000#19).msb = true
  decide

-- ===== flush

/-- The page numbers `tlb_invalidate_all` writes are in the kernel
half. -/
theorem invalidate_vpn : ∀ i < 128,
    (TlbEntry.ofRegs (0x80000000#32 + BitVec.ofNat 32 i <<< 20) 0 0).vpn.msb
      = true := by
  decide

theorem invalidateOne_apply (t : Tlb) (i : Nat) (j : BitVec 4) :
    invalidateOne t i j = if j = (BitVec.ofNat 32 i).extractLsb' 0 4 then
      .ofRegs (0x80000000#32 + BitVec.ofNat 32 i <<< 20) 0 0 else t j := by
  unfold invalidateOne writeOneTlb Tlb.next
  rw [if_pos rfl, update_apply]

/-- After `n` rounds the first `n` slots hold kernel entries. -/
theorem invalidate_rounds (t : Tlb) (n : Nat) (hn : n ≤ 128) (j : BitVec 4)
    (hj : j.toNat < n) :
    ((List.range n).foldl invalidateOne t j).vpn.msb = true := by
  induction n with
  | zero => omega
  | succ n ih =>
    rw [List.range_succ, List.foldl_append, List.foldl_cons, List.foldl_nil,
      invalidateOne_apply]
    by_cases hslot : j = (BitVec.ofNat 32 n).extractLsb' 0 4
    · rw [if_pos hslot]
      exact invalidate_vpn n (by omega)
    · rw [if_neg hslot]
      refine ih (by omega) ?_
      -- slot `n` itself would be the one just written
      have hne : j.toNat ≠ n := by
        intro heq
        apply hslot
        apply BitVec.eq_of_toNat_eq
        simp [BitVec.extractLsb'_toNat]
        omega
      omega

theorem kernelOnly_invalidateAll (t : Tlb) : KernelOnly (tlbInvalidateAll t) :=
  fun j => invalidate_rounds t 128 (le_refl _) j (by have := j.isLt; omega)

-- ===== refill

/-- An even page table index and the odd one behind it. -/
theorem index_pair : ∀ q : BitVec 9,
    (q ++ 1#1) - 1 = q ++ 0#1 ∧ (q ++ 0#1) + 1 = q ++ 1#1 := by
  decide +kernel

/-- The low bit of the page table index is bit 12 of the address. -/
theorem ptx_eq (la : Word) :
    ptx la = la.extractLsb' 13 9 ++ BitVec.ofBool (la.getLsbD 12) := by
  have hbit : la.extractLsb' 12 1 = BitVec.ofBool (la.getLsbD 12) := by
    ext i hi
    have hi0 : i = 0 := by omega
    subst hi0
    simp
  rw [← hbit,
    BitVec.extractLsb'_append_extractLsb'_eq_extractLsb' (by decide)]
  rfl

theorem ptx_append (vpn : BitVec 19) (y : BitVec 13) :
    ptx (vpn ++ y) = vpn.extractLsb' 0 9 ++ y.extractLsb' 12 1 := by
  have hhigh : (vpn ++ y).extractLsb' 13 9 = vpn.extractLsb' 0 9 :=
    BitVec.extractLsb'_append_eq_of_le (by decide)
  have hlow : (vpn ++ y).extractLsb' 12 1 = y.extractLsb' 12 1 :=
    BitVec.extractLsb'_append_eq_of_add_le (by decide)
  rw [← hhigh, ← hlow,
    BitVec.extractLsb'_append_extractLsb'_eq_extractLsb' (by decide)]
  rfl

theorem pdx_pair (va : Word) (y : BitVec 13) :
    pdx (vpnOf va ++ y) = pdx va := by
  rw [pdx, BitVec.extractLsb'_append_eq_of_le (by decide)]
  exact Bits.extractLsb'_extractLsb' va (by decide)

theorem ptx_pair (va : Word) (y : BitVec 13) :
    ptx (vpnOf va ++ y) = va.extractLsb' 13 9 ++ y.extractLsb' 12 1 := by
  rw [ptx_append]
  congr 1
  exact Bits.extractLsb'_extractLsb' va (by decide)

/-- `tlb_refill` writes the image of the page pair of `badaddr`. -/
theorem refill_entry {badaddr : Word} {t : PageTable}
    (ht : d (pdx badaddr) = some t) :
    let i := if badaddr &&& 1#32 <<< 12 != 0 then ptx badaddr - 1
      else ptx badaddr
    TlbEntry.ofRegs (badaddr &&& thumipsTlbEntryhVpn2Mask)
        (pte2tlblow (t i)) (pte2tlblow (t (i + 1)))
      = pairEntry d (vpnOf badaddr) := by
  intro i
  obtain ⟨hdec, hinc⟩ := index_pair (badaddr.extractLsb' 13 9)
  have hi : i = badaddr.extractLsb' 13 9 ++ 0#1 := by
    have hbit : (badaddr &&& 1#32 <<< 12 != 0) = badaddr.getLsbD 12 :=
      Bits.and_twoPow_ne_zero badaddr (by decide)
    show (if (badaddr &&& 1#32 <<< 12 != 0) = true then _ else _) = _
    rw [hbit, ptx_eq]
    cases badaddr.getLsbD 12 with
    | false => rfl
    | true => exact hdec
  have heven : d.pteAt (vpnOf badaddr ++ 0#13) = t i := by
    unfold PageDir.pteAt
    rw [pdx_pair, ht, ptx_pair, hi]
    rfl
  have hodd : d.pteAt (vpnOf badaddr ++ 0x1000#13) = t (i + 1) := by
    unfold PageDir.pteAt
    rw [pdx_pair, ht, ptx_pair, hi, hinc]
    rfl
  have hvpn : (badaddr &&& thumipsTlbEntryhVpn2Mask).extractLsb' 13 19
      = (vpnOf badaddr ++ 0#13).extractLsb' 13 19 := by
    rw [BitVec.extractLsb'_append_eq_of_le (by decide)]
    unfold vpnOf thumipsTlbEntryhVpn2Mask
    rw [Bits.extractLsb'_extractLsb' badaddr (by decide)]
    exact BitVec.extractLsb'_and.trans BitVec.and_allOnes
  unfold pairEntry TlbEntry.ofRegs
  rw [heven, hodd, hvpn]

-- ===== the packing

theorem ptepPresent_eq (pte : Word) : ptepPresent pte = pte.getLsbD 0 :=
  Bits.and_twoPow_ne_zero pte (n := 0) (by decide)

theorem ptepSWrite_eq (pte : Word) : ptepSWrite pte = pte.getLsbD 1 :=
  Bits.and_twoPow_ne_zero pte (n := 1) (by decide)

/-- The frame number `pte2tlblow` packs. -/
def frameOf (pte : Word) : BitVec 20 := pte.extractLsb' 12 20 - 0x80000#20

theorem sub_kernbase_frame (pte : Word) :
    (pte - kernbase).extractLsb' 12 20 = frameOf pte := by
  apply BitVec.eq_of_toNat_eq
  unfold frameOf kernbase
  simp only [BitVec.extractLsb'_toNat, BitVec.toNat_sub, BitVec.toNat_ofNat,
    Nat.shiftRight_eq_div_pow]
  omega

theorem pteAddr_eq (pte : Word) :
    pteAddr pte = pte.extractLsb' 12 20 ++ 0#12 := by
  apply BitVec.eq_of_getLsbD_eq
  intro n hn
  have hmask : ∀ n < 32, (~~~0xfff#32).getLsbD n = decide (12 ≤ n) := by decide
  unfold pteAddr
  rw [BitVec.getLsbD_and, hmask n hn, BitVec.getLsbD_append]
  by_cases hlow : n < 12
  · simp [hlow, Nat.not_le.mpr hlow]
  · have hge : 12 ≤ n := by omega
    have hlt : n - 12 < 20 := by omega
    simp [hlow, hge, hlt]

theorem pteAddr_sub_kernbase (pte : Word) :
    pteAddr pte - kernbase = frameOf pte ++ 0#12 := by
  rw [pteAddr_eq]
  unfold frameOf kernbase
  apply BitVec.eq_of_toNat_eq
  simp only [BitVec.toNat_append, BitVec.toNat_sub, BitVec.toNat_ofNat,
    Nat.shiftLeft_eq, Nat.zero_mod, Nat.or_zero]
  omega

theorem frame_append (q : BitVec 20) (va : Word) :
    (q ++ 0#12) ||| (va &&& 0xfff#32) = q ++ va.extractLsb' 0 12 := by
  apply BitVec.eq_of_getLsbD_eq
  intro n hn
  have hmask : ∀ n < 32, (0xfff#32).getLsbD n = decide (n < 12) := by decide
  rw [BitVec.getLsbD_or, BitVec.getLsbD_and, hmask n hn, BitVec.getLsbD_append,
    BitVec.getLsbD_append]
  by_cases hlow : n < 12
  · simp [hlow]
  · simp [hlow]

/-- The valid bit of the packed word is the present bit of the entry. -/
theorem pte2tlblow_valid (pte : Word) :
    (pte2tlblow pte).getLsbD 1 = pte.getLsbD 0 := by
  unfold pte2tlblow
  rw [ptepPresent_eq, ptepSWrite_eq]
  cases pte.getLsbD 0 <;> cases pte.getLsbD 1 <;>
    simp [thumipsTlbEntrylV, thumipsTlbEntrylG, thumipsTlbEntrylD]

/-- The dirty bit stands for present and writable. -/
theorem pte2tlblow_write (pte : Word) :
    (pte2tlblow pte).getLsbD 2 = (pte.getLsbD 0 && pte.getLsbD 1) := by
  unfold pte2tlblow
  rw [ptepPresent_eq, ptepSWrite_eq]
  cases pte.getLsbD 0 <;> cases pte.getLsbD 1 <;>
    simp [thumipsTlbEntrylV, thumipsTlbEntrylG, thumipsTlbEntrylD]

/-- The flags stay below the frame number. -/
theorem pte2tlblow_frame {pte : Word} (hp : pte.getLsbD 0 = true) :
    (pte2tlblow pte).extractLsb' 6 20 = frameOf pte := by
  rw [← sub_kernbase_frame]
  unfold pte2tlblow
  rw [ptepPresent_eq, hp]
  generalize pte - kernbase = x
  apply BitVec.eq_of_getLsbD_eq
  intro n hn
  have hflag {c : Word} (hc : c.toNat < 2 ^ 6) : c.getLsbD (6 + n) = false :=
    Nat.testBit_lt_two_pow
      (hc.trans_le (Nat.pow_le_pow_right (by decide) (by omega)))
  have hx : (x >>> 12 <<< 6).getLsbD (6 + n) = x.getLsbD (12 + n) := by
    simp
    omega
  have hV := hflag (c := thumipsTlbEntrylV) (by decide)
  have hG := hflag (c := thumipsTlbEntrylG) (by decide)
  have hC := hflag (c := 2#32 <<< 3) (by decide)
  have hD := hflag (c := thumipsTlbEntrylD) (by decide)
  rw [BitVec.getLsbD_extractLsb', BitVec.getLsbD_extractLsb']
  cases ptepSWrite pte <;>
    simp only [Bool.not_true, Bool.false_eq_true, if_false, if_true,
      BitVec.getLsbD_or, hV, hG, hC, hD, hx, Bool.or_false]
/-- The half of the pair entry that `va` selects is the image of the page
table entry of `va`. -/
theorem pairEntry_half (d : PageDir) (va : Word) :
    (pairEntry d (vpnOf va)).validFor va
        = (pte2tlblow (d.pteAt va)).getLsbD 1 ∧
      (pairEntry d (vpnOf va)).writeFor va
        = (pte2tlblow (d.pteAt va)).getLsbD 2 ∧
      (pairEntry d (vpnOf va)).ppnFor va
        = (pte2tlblow (d.pteAt va)).extractLsb' 6 20 := by
  have hhalf {y : BitVec 13}
      (hy : y.extractLsb' 12 1 = BitVec.ofBool (va.getLsbD 12)) :
      d.pteAt (vpnOf va ++ y) = d.pteAt va := by
    unfold PageDir.pteAt
    rw [pdx_pair, ptx_pair, ptx_eq, hy]
  unfold TlbEntry.validFor TlbEntry.writeFor TlbEntry.ppnFor
  cases hbit : va.getLsbD 12 with
  | false =>
    rw [← hhalf (y := 0#13) (by rw [hbit]; decide)]
    exact ⟨rfl, rfl, rfl⟩
  | true =>
    rw [← hhalf (y := 0x1000#13) (by rw [hbit]; decide)]
    exact ⟨rfl, rfl, rfl⟩

-- ===== lookups

theorem msb_of_lt_kernbase (h : va < kernbase) : va.msb = false := by
  rw [BitVec.msb_eq_false_iff_two_mul_lt]
  have hlt : va.toNat < 0x80000000 := h
  omega

theorem vpnOf_msb (h : va.msb = false) : (vpnOf va).msb = false := by
  rw [BitVec.msb_eq_getLsbD_last] at h ⊢
  unfold vpnOf
  simp_all

/-- A present entry lives in a table. -/
theorem pteAt_present (h : (d.pteAt va).getLsbD 0 = true) :
    ∃ t, d (pdx va) = some t ∧ d.pteAt va = t (ptx va) := by
  unfold PageDir.pteAt at h ⊢
  cases ht : d (pdx va) with
  | none =>
    rw [ht] at h
    have hzero : (0#32).getLsbD 0 = true := h
    exact absurd hzero (by decide)
  | some t => exact ⟨t, rfl, rfl⟩

/-- What a lookup in a coherent TLB may answer for a user address. -/
theorem Coherent.lookup {t : Tlb} {write : Bool}
    (ht : Coherent d t) (hva : va < kernbase)
    (hvalid : (t.lookup va write).validAddress = true) :
    (d.pteAt va).getLsbD 0 = true ∧
      (t.lookup va write).physicalAddress
        = (pteAddr (d.pteAt va) - kernbase) ||| (va &&& 0xfff#32) ∧
      (write = true → (d.pteAt va).getLsbD 1 = true) := by
  have hmsb := msb_of_lt_kernbase hva
  obtain ⟨j, -, hgrant⟩ := Tlb.lookup_grants (isUnmapped_of_not_msb hmsb)
    hvalid
  have hentry : t j = pairEntry d (vpnOf va) := by
    have huser : (t j).vpn.msb = false := by
      rw [hgrant.vpn]
      exact vpnOf_msb hmsb
    rw [ht j huser, hgrant.vpn]
  obtain ⟨hv, hw, hp⟩ := pairEntry_half d va
  have hpresent : (d.pteAt va).getLsbD 0 = true := by
    rw [← pte2tlblow_valid, ← hv, ← hentry]
    exact hgrant.valid
  refine ⟨hpresent, ?_, ?_⟩
  · rw [hgrant.frame, hentry, hp, pte2tlblow_frame hpresent,
      pteAddr_sub_kernbase, frame_append]
  · intro hwrite
    have hgranted := hgrant.write hwrite
    rw [hentry, hw, pte2tlblow_write, hpresent] at hgranted
    exact hgranted

-- ===== operations

/-- What every operation leaves behind: a coherent TLB. -/
def Kernel.Coherent (k : Kernel ι) : Prop :=
  Kern.Coherent (k.pgdir k.currentPgdir) k.tlb

namespace Kernel

variable {k k' : Kernel ι} {d : ι}
  {la : Word} {ok : Bool}

omit [DecidableEq ι] in
theorem coherent_invalidateAll (k : Kernel ι) : k.tlbInvalidateAll.Coherent :=
  (kernelOnly_invalidateAll k.tlb).coherent _

/-- Removing a mapping flushes the TLB, so nothing stale is left. -/
theorem coherent_pageRemovePte {ptep : PtePtr}
    (h : k.pageRemovePte d la ptep = some k') : k'.Coherent := by
  unfold pageRemovePte at h
  split_ifs at h with hp
  · simp only [Option.bind_eq_bind, Option.bind_eq_some_iff, Option.pure_def,
      Option.some.injEq] at h
    obtain ⟨page, -, rfl⟩ := h
    exact coherent_invalidateAll _
  · cases h
    exact coherent_invalidateAll k

theorem coherent_pageRemove (hk : k.Coherent)
    (h : k.pageRemove d la = some k') : k'.Coherent := by
  unfold pageRemove at h
  split at h
  · exact coherent_pageRemovePte h
  · cases h
    exact hk

/-- Creating a table changes no entry: an absent one reads as 0, a new
one is 0. -/
theorem pteAt_setPde_zero (habs : k.pgdir d (pdx la) = none)
    (e : ι) (va : Word) :
    ((k.setPde d la .zero).pgdir e).pteAt va = (k.pgdir e).pteAt va := by
  show PageDir.pteAt (update k.pgdir d _ e) va = _
  by_cases he : e = d
  · subst he
    rw [update_self]
    unfold PageDir.pteAt
    by_cases hdx : pdx va = pdx la
    · rw [hdx, update_self, habs]
      rfl
    · rw [update_of_ne hdx]
  · rw [update_of_ne he]

omit [DecidableEq ι] in
/-- Coherence depends on the entries of the directory only. -/
theorem Coherent.of_pteAt (hk : k.Coherent) (htlb : k'.tlb = k.tlb)
    (hcur : k'.currentPgdir = k.currentPgdir)
    (hpte : ∀ va, (k'.pgdir k.currentPgdir).pteAt va
      = (k.pgdir k.currentPgdir).pteAt va) : k'.Coherent := by
  intro j hj
  rw [htlb] at hj ⊢
  rw [hcur]
  refine (hk j hj).trans ?_
  unfold pairEntry
  rw [hpte, hpte]

theorem coherent_getPteCreate (hk : k.Coherent) (d : ι) (la : Word)
    (table : Option Word) : (k.getPteCreate d la table).1.Coherent := by
  unfold getPteCreate
  cases habs : k.pgdir d (pdx la) with
  | some t => exact hk
  | none =>
    cases table with
    | none => exact hk
    | some p =>
      exact hk.of_pteAt rfl rfl
        (pteAt_setPde_zero (k := k.pageRefAdd p 1) habs k.currentPgdir)

/-- Inserting a page keeps coherence: one it replaces is flushed. -/
theorem coherent_pageInsert {page perm : Word} {table : Option Word}
    (hk : k.Coherent) (h : k.pageInsert d page la perm table = some (k', ok)) :
    k'.Coherent := by
  have hcreate := coherent_getPteCreate hk d la table
  unfold pageInsert at h
  split at h
  case h_1 k₁ heq =>
    cases h
    rw [heq] at hcreate
    exact hcreate
  case h_2 k₁ ptep heq =>
    simp only [Option.bind_eq_bind, Option.bind_eq_some_iff, Option.pure_def,
      Option.some.injEq, Prod.mk.injEq] at h
    obtain ⟨k₂, -, rfl, -⟩ := h
    exact coherent_invalidateAll _

theorem coherent_pgdirAllocPage {perm : Word} {page table r : Option Word}
    (hk : k.Coherent)
    (h : k.pgdirAllocPage d la perm page table = some (k', r)) :
    k'.Coherent := by
  unfold pgdirAllocPage at h
  cases page with
  | none =>
    cases h
    exact hk
  | some p =>
    simp only [Option.bind_eq_bind, Option.bind_eq_some_iff] at h
    obtain ⟨⟨k₁, ok⟩, hins, hret⟩ := h
    have hk₁ := coherent_pageInsert hk hins
    -- giving the page back touches neither the directory nor the TLB
    cases ok <;> cases hret <;> exact hk₁

theorem coherent_doPgfault {present write : Bool} {addr : Word}
    {vma : Option Vma} {table page : Option Word} (hk : k.Coherent)
    (h : k.doPgfault d present write addr vma table page = some (k', ok)) :
    k'.Coherent := by
  unfold doPgfault at h
  cases vma with
  | none =>
    cases h
    exact hk
  | some v =>
    simp only at h
    generalize (if v.vmWrite = true then pteU ||| pteW else pteU) = perm at h
    have hcreate := coherent_getPteCreate hk d (addr &&& ~~~0xfff#32) table
    split_ifs at h
    · cases h
      exact hk
    · cases h
      exact hk
    · split at h
      case h_1 k₁ heq =>
        cases h
        rw [heq] at hcreate
        exact hcreate
      case h_2 k₁ ptep heq =>
        rw [heq] at hcreate
        split_ifs at h
        · simp only [Option.bind_eq_bind, Option.bind_eq_some_iff,
            Option.pure_def, Option.some.injEq, Prod.mk.injEq] at h
          obtain ⟨⟨k₂, r⟩, halloc, rfl, -⟩ := h
          exact coherent_pgdirAllocPage hcreate halloc
        · cases h
          exact hcreate

theorem coherent_unmapLoop {p : BitVec 20} {stop : Word} (hk : k.Coherent)
    (h : k.unmapLoop d p stop = some k') : k'.Coherent := by
  -- what the body leaves: the removal flushes, a skipped page is untouched
  have hbody {k k₁ : Kernel ι} {removed : Option (Kernel ι)} (la : Word)
      (hk : k.Coherent) (hnone : k.getPte d la = none → removed = some k)
      (hsome : ∀ ptep, k.getPte d la = some ptep → removed =
        if ptep.read ≠ 0 then k.pageRemovePte d la ptep else some k)
      (h : removed = some k₁) : k₁.Coherent := by
    cases hpte : k.getPte d la with
    | none =>
      rw [hnone hpte] at h
      cases h
      exact hk
    | some ptep =>
      rw [hsome ptep hpte] at h
      split_ifs at h
      · exact coherent_pageRemovePte h
      · cases h
        exact hk
  fun_induction unmapLoop k d p stop with
  | case1 => cases h
  | case2 k p la removed next k₁ hremoved hloop ih =>
    refine ih (hbody la hk (fun hpte => ?_) (fun ptep hpte => ?_) hremoved) h
    · simp only [removed, hpte]
    · simp only [removed, hpte, dite_eq_ite]
  | case3 k p la removed next k₁ hremoved hstop =>
    cases h
    refine hbody la hk (fun hpte => ?_) (fun ptep hpte => ?_) hremoved
    · simp only [removed, hpte]
    · simp only [removed, hpte, dite_eq_ite]

/-- The fault branch of the miss handler changes the TLB by flushes only. -/
theorem coherent_fault {m : Miss ι} {present : Bool} (hk : k.Coherent)
    (h : handleTlbmiss.fault k m present = some (k', ok)) : k'.Coherent := by
  unfold handleTlbmiss.fault at h
  simp only [Option.bind_eq_bind, Option.bind_eq_some_iff] at h
  obtain ⟨⟨k₁, r⟩, hfault, hret⟩ := h
  have hk₁ := coherent_doPgfault hk hfault
  split_ifs at hret
  · cases hret
    exact hk₁

omit [DecidableEq ι] in
/-- The refill writes one slot, with the image of the page pair missed. -/
theorem coherent_refill {m : Miss ι} {t : PageTable} (hk : k.Coherent)
    (ht : k.pgdir k.currentPgdir (pdx m.badaddr) = some t) : ({ k with
      tlb := (tlbRefill k.tlb k.refillIndex m.badaddr
        (some ⟨t, ptx m.badaddr⟩)).1
      refillIndex := (tlbRefill k.tlb k.refillIndex m.badaddr
        (some ⟨t, ptx m.badaddr⟩)).2 } : Kernel ι).Coherent := by
  intro j hj
  have hentry := refill_entry ht
  simp only [tlbRefill, writeOneTlb, Tlb.next, if_true,
    update_apply] at hj hentry ⊢
  rw [hentry] at hj ⊢
  split_ifs at hj ⊢ with hslot
  · rw [pairEntry_vpn]
  · exact hk j hj

/-- The refill writes what the tables say after the fault. -/
theorem coherent_handleTlbmiss {m : Miss ι} (hk : k.Coherent)
    (h : k.handleTlbmiss m = some (k', ok)) : k'.Coherent := by
  unfold handleTlbmiss at h
  split at h
  · exact coherent_fault hk h
  case h_2 ptep hget =>
    split_ifs at h
    · exact coherent_fault hk h
    · cases h
      exact hk
    · cases h
      exact hk
    · cases h
      obtain ⟨t, ht, rfl⟩ := Option.map_eq_some_iff.mp hget
      exact coherent_refill hk ht

omit [DecidableEq ι] in
theorem coherent_procRun (hk : k.Coherent) (same : Bool) (cr3 : ι) :
    (k.procRun same cr3).Coherent := by
  unfold procRun
  split_ifs
  · exact hk
  · exact coherent_invalidateAll _

/-- Every operation of the kernel keeps the TLB coherent. -/
theorem coherent_perform {op : Op ι} (hk : k.Coherent)
    (h : k.perform op = some k') : k'.Coherent := by
  cases op with
  | pageInsert d page la perm table =>
    obtain ⟨⟨k₁, ok⟩, hins, rfl⟩ := Option.map_eq_some_iff.mp h
    exact coherent_pageInsert hk hins
  | pageRemove d la => exact coherent_pageRemove hk h
  | unmapRange d start stop =>
    simp only [perform, unmapRange] at h
    split_ifs at h
    exact coherent_unmapLoop hk h
  | pageFault d present write addr vma table page =>
    obtain ⟨⟨k₁, ok⟩, hfault, rfl⟩ := Option.map_eq_some_iff.mp h
    exact coherent_doPgfault hk hfault
  | tlbMiss m =>
    obtain ⟨⟨k₁, ok⟩, hmiss, rfl⟩ := Option.map_eq_some_iff.mp h
    exact coherent_handleTlbmiss hk hmiss
  | procRun same cr3 =>
    cases h
    exact coherent_procRun hk same cr3

theorem coherent_performAll {ops : List (Op ι)} (hk : k.Coherent)
    (h : k.performAll ops = some k') : k'.Coherent := by
  induction ops generalizing k with
  | nil =>
    cases h
    exact hk
  | cons op ops ih =>
    obtain ⟨k₁, hop, hrest⟩ := Option.bind_eq_some_iff.mp h
    exact ih (coherent_perform hk hop) hrest

end Kernel

-- ===== runs

/-- From an empty TLB, after any operations: a lookup of a user address
that succeeds has a present page table entry behind it, answers that
entry's page, and grants a write only if the entry does; and entries for
one user page number are equal. -/
theorem tlb_coherent {k k' : Kernel ι} {ops : List (Op ι)}
    (hstart : k.tlb = Tlb.reset ∨ ∃ t, k.tlb = tlbInvalidateAll t)
    (hrun : k.performAll ops = some k') :
    (∀ (va : Word) (write : Bool), va < 0x80000000#32 →
      (k'.tlb.lookup va write).validAddress = true →
      ∃ ptep, k'.getPte k'.currentPgdir va = some ptep ∧
        ptepPresent ptep.read = true ∧
        (k'.tlb.lookup va write).physicalAddress
          = (pteAddr ptep.read - kernbase) ||| (va &&& 0xfff#32) ∧
        (write = true → ptep.read &&& pteW ≠ 0)) ∧
    ∀ i j, (k'.tlb i).vpn = (k'.tlb j).vpn →
      (k'.tlb i).vpn.msb = false → k'.tlb i = k'.tlb j := by
  have hk : k.Coherent := by
    have hempty : KernelOnly k.tlb := by
      obtain h | ⟨t, h⟩ := hstart
      · rw [h]
        exact kernelOnly_reset
      · rw [h]
        exact kernelOnly_invalidateAll t
    exact hempty.coherent _
  have hk' : k'.Coherent := Kernel.coherent_performAll hk hrun
  constructor
  · intro va write hva hvalid
    obtain ⟨hpresent, hpa, hwrite⟩ := hk'.lookup hva hvalid
    obtain ⟨t, ht, hread⟩ := pteAt_present hpresent
    rw [hread] at hpresent hpa hwrite
    refine ⟨⟨t, ptx va⟩, ?_, ?_, hpa, ?_⟩
    · unfold Kernel.getPte
      rw [ht]
      rfl
    · rw [ptepPresent_eq]
      exact hpresent
    · intro hw
      have hbit := ptepSWrite_eq (t (ptx va))
      rw [hwrite hw] at hbit
      exact bne_iff_ne.mp hbit
  · intro i j hvpn huser
    have huser' : (k'.tlb j).vpn.msb = false := hvpn ▸ huser
    rw [hk' i huser, hk' j huser', hvpn]

/-- A kernel with 16 pages and no page table. -/
def exampleKernel : Kernel Unit where
  npage := 16
  pgdir := fun _ _ => none
  ref := fun _ => 0
  freed := []
  currentPgdir := ()
  tlb := .reset
  refillIndex := 0

/-- Page 5 is mapped at `0x10001000` and a write to it misses. -/
def exampleOps : List (Op Unit) :=
  [.pageInsert () 5 0x10001000#32 (pteU ||| pteW) (some 9),
   .tlbMiss ⟨0x10001abc#32, false, true, (), none, none, none⟩]

theorem tlb_coherent_after_refill :
    ∃ k', exampleKernel.performAll exampleOps = some k' ∧
      (k'.tlb.lookup 0x10001abc#32 true).physicalAddress = 0x5abc#32 ∧
      ∃ ptep, k'.getPte k'.currentPgdir 0x10001abc#32 = some ptep ∧
        ptep.read &&& pteW ≠ 0 := by
  refine ⟨_, rfl, by decide +kernel, ?_⟩
  have hrun : exampleKernel.performAll exampleOps = some _ := rfl
  obtain ⟨ptep, hget, -, -, hw⟩ := (tlb_coherent (.inl rfl) hrun).1
    0x10001abc#32 true (by decide) (by decide +kernel)
  exact ⟨ptep, hget, hw rfl⟩

end MipsUcore.Kern
