/-
A TLB miss is handled in a bounded number of rounds.

An instruction needs at most three translations: its own page, the page of
its data, and, where an exception in a delay slot returns to the branch,
the page of the branch. A refill for one of them may evict another, and a
page fault empties the TLB. `tlb_miss_progress` says that the instruction
gets all of them nevertheless.

# The argument

Between two page faults every miss refills the slot behind the last one.
After sixteen refills nothing is left in the TLB but images of the pairs the
instruction needs; from then on a pair that misses is not among the last
sixteen refills, and there are at most three pairs to refill
(`RoundRobin.Missed`). A page fault makes an absent page present and takes
no page away, so there are at most three of them.

# The TLB to start with

Of the TLB nothing is assumed but that a valid half is the image of its page
table entry (`Agrees`). An entry with an invalid half for a page that is
present may stand in front of the right one: then the refill is repeated
until that slot's turn comes.
-/
import MipsUcore.Cpu.Proofs.Entry
import MipsUcore.Kern.Proofs.Areas
import MipsUcore.Kern.Proofs.TlbCoherence
import MipsUcore.Kern.TlbMiss
import MipsUcore.Lib.RoundRobin
import Mathlib.Data.List.Find

namespace MipsUcore

open Cpu RoundRobin Function

namespace Cpu

-- ===== hardware

/-- The miss of an access. -/
def missTrap (a : Word × Bool) : Trap :=
  if a.2 then .tlbMissStore a.1 else .tlbMissLoad a.1

namespace Inst

variable {x : Inst} {t : Tlb}

theorem seen_tlbMissRead (x : Inst) (t : Tlb) : (x.seen t).tlbMissRead =
    (!(t.lookup x.pc false).validAddress ||
      (!x.ram.ramWriteEnable && x.ram.ramReadEnable && !misaligned x.ram
        && !(t.lookup x.ram.ramAddress x.ram.ramWriteEnable).validAddress))
    := by
  show (_ || (accessFaults x.ram _).exReadTLBMiss) = _
  rw [accessFaults_eq]
  rfl

theorem seen_tlbMissWrite (x : Inst) (t : Tlb) : (x.seen t).tlbMissWrite =
    (x.ram.ramWriteEnable && !misaligned x.ram
      && !(t.lookup x.ram.ramAddress x.ram.ramWriteEnable).validAddress
      && (t.lookup x.ram.ramAddress x.ram.ramWriteEnable).isMiss) := by
  show (accessFaults x.ram _).exWriteTLBMiss = _
  rw [accessFaults_eq]

theorem seen_memBadAddress (x : Inst) (t : Tlb) : (x.seen t).memBadAddress =
      if !(t.lookup x.pc false).validAddress then x.pc
      else x.ram.ramAddress := rfl

theorem mem_accesses {a : Word × Bool} : a ∈ x.accesses ↔
    a = (x.pc, false) ∨ (x.ram.active = true ∧ misaligned x.ram = false ∧
      a = (x.ram.ramAddress, x.ram.ramWriteEnable)) := by
  unfold accesses
  cases x.ram.active <;> cases misaligned x.ram <;> simp

/-- A miss belongs to an access that is not translated. -/
theorem tlbMiss_some {trap : Trap} (h : (x.seen t).tlbMiss = some trap) :
    ∃ a ∈ x.accesses, (t.lookup a.1 a.2).validAddress = false ∧
      trap = missTrap a := by
  unfold ExMem.tlbMiss at h
  rw [seen_tlbMissRead, seen_tlbMissWrite, seen_memBadAddress] at h
  cases hfetch : (t.lookup x.pc false).validAddress with
  | false =>
    rw [hfetch] at h
    cases h
    exact ⟨_, mem_accesses.mpr (.inl rfl), hfetch, rfl⟩
  | true =>
    rw [hfetch, if_neg (show ¬ (!true) = true by decide)] at h
    refine ⟨(x.ram.ramAddress, x.ram.ramWriteEnable), ?_⟩
    split_ifs at h with hread hwrite
    · cases h
      simp only [Bool.not_true, Bool.false_or, Bool.and_eq_true,
        Bool.not_eq_true'] at hread
      obtain ⟨⟨⟨hw, hr⟩, hmis⟩, hvalid⟩ := hread
      refine ⟨mem_accesses.mpr (.inr ⟨?_, hmis, rfl⟩), hvalid, ?_⟩
      · unfold RamRequest.active
        rw [hr, Bool.true_or]
      · rw [hw]
        rfl
    · cases h
      simp only [Bool.and_eq_true, Bool.not_eq_true'] at hwrite
      obtain ⟨⟨⟨hw, hmis⟩, hvalid⟩, -⟩ := hwrite
      refine ⟨mem_accesses.mpr (.inr ⟨?_, hmis, rfl⟩), hvalid, ?_⟩
      · unfold RamRequest.active
        rw [hw, Bool.or_true]
      · rw [hw]
        rfl

/-- Without a miss an access is translated, or it is a store that the entry
refuses. -/
theorem tlbMiss_none (h : (x.seen t).tlbMiss = none) {a : Word × Bool}
    (ha : a ∈ x.accesses) : (t.lookup a.1 a.2).validAddress = true ∨
      (t.lookup a.1 a.2).isMiss = false := by
  unfold ExMem.tlbMiss at h
  rw [seen_tlbMissRead, seen_tlbMissWrite] at h
  split_ifs at h with hread hwrite
  obtain rfl | ⟨hactive, hmis, rfl⟩ := mem_accesses.mp ha
  · left
    by_contra hvalid
    rw [Bool.not_eq_true] at hvalid
    rw [hvalid] at hread
    exact hread rfl
  · unfold RamRequest.active at hactive
    rw [hmis] at hread hwrite
    revert hread hwrite hactive
    cases x.ram.ramReadEnable <;> cases x.ram.ramWriteEnable <;>
      cases (t.lookup x.ram.ramAddress _).validAddress <;> simp

end Inst

/-- The processor enters the exception for a miss, at `ebase`, with the
return address and the faulting address for the handler. -/
structure State.TakesMiss (s : State) (t : Trap) (pc : Word) : Prop where
  trap : s.trap = t
  flush : s.exc.flush = true
  target : s.exc.targetAddress = s.cp0 .ebase15
  epc : s.exc.updates.writeepcData = pc
  badaddr : some s.exc.updates.writebadaddrData = t.badaddr

/-- The priority chain takes the miss of the flags, unless an interrupt is
due. -/
theorem State.takesMiss {s : State} {trap : Trap}
    (hquiet : s.control.interruptRequest (s.cp0 .status12) = false)
    (h : s.exMem.tlbMiss = some trap) :
    s.TakesMiss trap (epcData s.exMem) := by
  have htrap : s.trap = trap ∧ ∃ code, s.exc = raise s.cp0 s.exMem code
      (some s.exMem.memBadAddress) (s.cp0 .ebase15) ∧
      trap.badaddr = some s.exMem.memBadAddress := by
    unfold ExMem.tlbMiss at h
    unfold State.trap State.exc Control.exception
    split_ifs at h with hread hwrite
    · cases h
      simp only [hquiet, hread, Bool.false_eq_true, if_false, if_true]
      exact ⟨trivial, _, rfl, rfl⟩
    · cases h
      simp only [hquiet, hread, hwrite, Bool.false_eq_true, if_false, if_true]
      exact ⟨trivial, _, rfl, rfl⟩
  obtain ⟨htrap, code, hexc, hbad⟩ := htrap
  refine ⟨htrap, ?_, ?_, ?_, ?_⟩
  · rw [hexc]
    rfl
  · rw [hexc]
    rfl
  · rw [hexc]
    rfl
  · rw [hexc, hbad]
    rfl

namespace Restart

variable {c : Restart} {t : Tlb}

/-- An exception of any of the instructions returns to the first. -/
theorem epcData_seen {x : Inst} (hx : x ∈ c.insts) :
    epcData (x.seen t) = c.epc := by
  show (if x.isInDelaySlot then x.pc - 4 else x.pc) = (c.branch.getD c.inst).pc
  obtain hb | hi := List.mem_append.mp hx
  · have hb : c.branch = some x := Option.mem_toList.mp hb
    rw [hb, c.first x hb]
    rfl
  · obtain rfl := List.mem_singleton.mp hi
    rw [c.isInDelaySlot]
    cases hbranch : c.branch with
    | none => rfl
    | some b =>
      show c.inst.pc - 4 = b.pc
      rw [c.pc b hbranch, BitVec.add_sub_cancel]

/-- The processor takes the first miss and returns to the first
instruction. -/
theorem takesMiss {trap : Trap} (h : c.tlbMiss t = some trap) :
    ∃ x ∈ c.insts, ∀ s : State, s.exMem = x.seen t →
      s.control.interruptRequest (s.cp0 .status12) = false →
      s.TakesMiss trap c.epc := by
  obtain ⟨x, hx, hmiss⟩ := List.exists_of_findSome?_eq_some h
  refine ⟨x, hx, fun s hs hquiet => ?_⟩
  rw [← epcData_seen (t := t) hx, ← hs]
  exact State.takesMiss hquiet (hs ▸ hmiss)

theorem accesses_length (c : Restart) : c.accesses.length ≤ 3 := by
  have hone (x : Inst) : x.accesses.length ≤ 2 := by
    unfold Inst.accesses
    split <;> simp
  have hinst := hone c.inst
  unfold accesses insts
  cases hb : c.branch with
  | none =>
    show (c.inst.accesses ++ []).length ≤ 3
    rw [List.append_nil]
    omega
  | some b =>
    have hbranch : b.accesses = [(b.pc, false)] := by
      unfold Inst.accesses
      rw [c.quiet b hb]
      rfl
    show (b.accesses ++ (c.inst.accesses ++ [])).length ≤ 3
    rw [hbranch, List.append_nil, List.length_append, List.length_singleton]
    omega

theorem tlbMiss_some {trap : Trap} (h : c.tlbMiss t = some trap) :
    ∃ a ∈ c.accesses, (t.lookup a.1 a.2).validAddress = false ∧
      trap = missTrap a := by
  obtain ⟨x, hx, hmiss⟩ := List.exists_of_findSome?_eq_some h
  obtain ⟨a, ha, hvalid, htrap⟩ := Inst.tlbMiss_some hmiss
  exact ⟨a, List.mem_flatMap.mpr ⟨x, hx, ha⟩, hvalid, htrap⟩

theorem tlbMiss_none (h : c.tlbMiss t = none) {a : Word × Bool}
    (ha : a ∈ c.accesses) : (t.lookup a.1 a.2).validAddress = true ∨
      (t.lookup a.1 a.2).isMiss = false := by
  obtain ⟨x, hx, hax⟩ := List.mem_flatMap.mp ha
  exact Inst.tlbMiss_none (List.findSome?_eq_none_iff.mp h x hx) hax

end Restart

end Cpu

namespace Kern

-- ===== translation

/-- A valid half of an entry for the user half is the image of its page
table entry. -/
def Agrees (d : PageDir) (t : Tlb) : Prop :=
  ∀ j va, va < kernbase → (t j).vpn = vpnOf va → (t j).validFor va = true →
    (d.pteAt va).getLsbD 0 = true ∧
      (t j).writeFor va = (d.pteAt va).getLsbD 1 ∧
      (t j).ppnFor va = frameOf (d.pteAt va)

theorem agrees_pairEntry {d : PageDir} {va : Word}
    (h : (pairEntry d (vpnOf va)).validFor va = true) :
    (d.pteAt va).getLsbD 0 = true ∧
      (pairEntry d (vpnOf va)).writeFor va = (d.pteAt va).getLsbD 1 ∧
      (pairEntry d (vpnOf va)).ppnFor va = frameOf (d.pteAt va) := by
  obtain ⟨hv, hw, hp⟩ := pairEntry_half d va
  rw [hv, pte2tlblow_valid] at h
  refine ⟨h, ?_, ?_⟩
  · rw [hw, pte2tlblow_write, h, Bool.true_and]
  · rw [hp, pte2tlblow_frame h]

theorem Coherent.agrees {d : PageDir} {t : Tlb} (h : Coherent d t) :
    Agrees d t := by
  intro j va hva hvpn hvalid
  have hentry : t j = pairEntry d (vpnOf va) := by
    rw [h j (by rw [hvpn]; exact vpnOf_msb (msb_of_lt_kernbase hva)), hvpn]
  rw [hentry] at hvalid ⊢
  exact agrees_pairEntry hvalid

theorem mem_tlbIndices : ∀ j : BitVec 4, j ∈ tlbIndices := by
  decide

/-- Where an entry has the page number, and all that have it are images of
the page pair, a present page is found. -/
theorem lookup_image {d : PageDir} {t : Tlb} {va : Word} {write : Bool}
    (hva : va < kernbase) {i : BitVec 4} (hi : (t i).vpn = vpnOf va)
    (himage : ∀ j, (t j).vpn = vpnOf va → t j = pairEntry d (vpnOf va))
    (hpresent : (d.pteAt va).getLsbD 0 = true)
    (hwrite : write = true → (d.pteAt va).getLsbD 1 = true) :
    (t.lookup va write).validAddress = true := by
  unfold Tlb.lookup
  rw [isUnmapped_of_not_msb (msb_of_lt_kernbase hva)]
  cases hj : t.matchIndex va with
  | none =>
    have hnone := List.find?_eq_none.mp hj i (mem_tlbIndices i)
    rw [hi] at hnone
    exact absurd BEq.rfl hnone
  | some j =>
    obtain ⟨hv, hw, -⟩ := pairEntry_half d va
    rw [pte2tlblow_valid, hpresent] at hv
    rw [pte2tlblow_write, hpresent] at hw
    simp only [Bool.false_eq_true, if_false, TlbEntry.translate_eq]
    rw [himage j (Tlb.matchIndex_vpn hj), hv, hw]
    cases write with
    | false => rfl
    | true =>
      rw [hwrite rfl]
      rfl

/-- The access is one that the page table entry lets a user make. -/
def Permits (pte : Word) (write : Bool) : Prop :=
  ptepPresent pte = true ∧ ptepURead pte = true ∧
    (write = true → ptepUWrite pte = true)

instance (pte : Word) (write : Bool) : Decidable (Permits pte write) :=
  inferInstanceAs (Decidable (_ ∧ _ ∧ _))

/-- The translation that a page table entry stands for. -/
def translationOf (pte va : Word) : Translation :=
  ⟨true, false, (pteAddr pte - kernbase) ||| (va &&& 0xfff#32)⟩

theorem Permits.write {pte : Word} {write : Bool} (h : Permits pte write) :
    write = true → pte.getLsbD 1 = true := by
  intro hw
  rw [← ptepSWrite_eq]
  exact (Bool.and_eq_true_iff.mp (h.2.2 hw)).2

/-- An access is translated right, or missing. -/
theorem Agrees.lookup {d : PageDir} {t : Tlb} {va : Word} {write : Bool}
    (h : Agrees d t) (hva : va < kernbase)
    (hpte : Permits (d.pteAt va) write ∨ d.pteAt va = 0) :
    (Permits (d.pteAt va) write ∧
      t.lookup va write = translationOf (d.pteAt va) va) ∨
    t.lookup va write = ⟨false, true, 0⟩ := by
  unfold Tlb.lookup
  rw [isUnmapped_of_not_msb (msb_of_lt_kernbase hva)]
  cases hj : t.matchIndex va with
  | none => exact .inr rfl
  | some j =>
    simp only [Bool.false_eq_true, if_false, TlbEntry.translate_eq]
    cases hvalid : (t j).validFor va with
    | false => exact .inr rfl
    | true =>
      obtain ⟨hpresent, hw, hp⟩ := h j va hva (Tlb.matchIndex_vpn hj) hvalid
      -- a valid half is not that of an absent entry
      obtain hpermits | hzero := hpte
      · refine .inl ⟨hpermits, ?_⟩
        unfold translationOf
        rw [pteAddr_sub_kernbase, frame_append, hw, hp]
        cases write with
        | false => rfl
        | true =>
          rw [hpermits.write rfl]
          rfl
      · rw [hzero] at hpresent
        exact absurd hpresent (by decide)

-- ===== the handler

theorem missTrap_badaddr (a : Word × Bool) :
    (missTrap a).badaddr = some a.1 := by
  unfold missTrap
  cases a.2 <;> rfl

theorem missTrap_isTlbs (a : Word × Bool) : isTlbs (missTrap a) = a.2 := by
  unfold missTrap
  cases a.2 <;> rfl

/-- Addresses are on the same page. -/
def SamePage (a b : Word) : Prop := a.extractLsb' 12 20 = b.extractLsb' 12 20

instance (a b : Word) : Decidable (SamePage a b) :=
  inferInstanceAs (Decidable (_ = _))

/-- A page is a table and an index. -/
theorem samePage_iff {a b : Word} :
    SamePage a b ↔ pdx a = pdx b ∧ ptx a = ptx b := by
  have hsplit (va : Word) : va.extractLsb' 12 20 = pdx va ++ ptx va := by
    rw [pdx, ptx,
      BitVec.extractLsb'_append_extractLsb'_eq_extractLsb' (by decide)]
  unfold SamePage
  rw [hsplit, hsplit]
  constructor
  · intro h
    have hd := congrArg (BitVec.extractLsb' 10 10) h
    have ht := congrArg (BitVec.extractLsb' 0 10) h
    rw [BitVec.extractLsb'_append_eq_left,
      BitVec.extractLsb'_append_eq_left] at hd
    rw [BitVec.extractLsb'_append_eq_right,
      BitVec.extractLsb'_append_eq_right] at ht
    exact ⟨hd, ht⟩
  · rintro ⟨hd, ht⟩
    rw [hd, ht]

theorem SamePage.pteAt {a b : Word} (h : SamePage a b) (d : PageDir) :
    d.pteAt a = d.pteAt b := by
  obtain ⟨hd, ht⟩ := samePage_iff.mp h
  unfold PageDir.pteAt
  rw [hd, ht]

namespace Kernel

variable {ι : Type} [DecidableEq ι] {k : Kernel ι} {areas : Areas}
  {pages : Word × Word} {a : Word × Bool}

/-- The directory in use. -/
def dir (k : Kernel ι) : PageDir := k.pgdir k.currentPgdir

/-- The TLB as a table that `tlb_refill` fills in turn. -/
def table (k : Kernel ι) : Carousel 4 TlbEntry :=
  ⟨k.tlb, k.refillIndex.extractLsb' 0 4⟩

theorem index_slot (index : Word) :
    (index &&& 0xf#32).extractLsb' 0 4 = index.extractLsb' 0 4 :=
  BitVec.extractLsb'_and.trans BitVec.and_allOnes

theorem index_next (index : Word) :
    (index + 1#32).extractLsb' 0 4 = index.extractLsb' 0 4 + 1#4 := by
  apply BitVec.eq_of_toNat_eq
  simp only [BitVec.extractLsb'_toNat, BitVec.toNat_add, BitVec.toNat_ofNat,
    Nat.shiftRight_zero]
  omega

omit [DecidableEq ι] in
/-- The refill is a push of the image of the page pair. -/
theorem tlbRefill_push {t : PageTable} {va : Word}
    (ht : k.dir (pdx va) = some t) :
    let r := tlbRefill k.tlb k.refillIndex va (some ⟨t, ptx va⟩)
    { k with tlb := r.1, refillIndex := r.2 : Kernel ι }.table
      = k.table.push (pairEntry k.dir (vpnOf va)) := by
  have hentry := refill_entry ht
  simp only [tlbRefill, writeOneTlb, Tlb.next, if_true] at hentry ⊢
  rw [hentry, index_slot]
  exact congrArg (Carousel.mk _) (index_next k.refillIndex)

/-- A permitted access is answered by a refill. -/
theorem handleTlbmiss_permitted (areas : Areas) (pages : Word × Word)
    (h : Permits (k.dir.pteAt a.1) a.2) :
    ∃ k', k.handleTlbmiss (k.missOf areas pages (missTrap a))
        = some (k', true) ∧
      k'.pgdir = k.pgdir ∧ k'.currentPgdir = k.currentPgdir ∧
      k'.table = k.table.push (pairEntry k.dir (vpnOf a.1)) := by
  obtain ⟨va, write⟩ := a
  obtain ⟨hpresent, hread, hwrite⟩ := h
  have hbit : (k.dir.pteAt va).getLsbD 0 = true := by
    rw [← ptepPresent_eq]
    exact hpresent
  obtain ⟨t, ht, hpte⟩ := pteAt_present hbit
  have hget : k.getPte k.currentPgdir va = some ⟨t, ptx va⟩ := by
    show (k.dir (pdx va)).map _ = _
    rw [ht]
    rfl
  have hvalid : ptepInvalid (t (ptx va)) = false := by
    rw [← hpte]
    refine beq_eq_false_iff_ne.mpr fun hzero => ?_
    rw [hzero] at hpresent
    exact absurd hpresent (by decide)
  rw [hpte] at hread hwrite
  refine ⟨{ k with
    tlb := (tlbRefill k.tlb k.refillIndex va (some ⟨t, ptx va⟩)).1
    refillIndex := (tlbRefill k.tlb k.refillIndex va (some ⟨t, ptx va⟩)).2 },
    ?_, rfl, rfl, tlbRefill_push ht⟩
  unfold handleTlbmiss missOf
  simp only [missTrap_badaddr, missTrap_isTlbs, Option.getD_some, hget,
    PtePtr.read, hvalid, hread, Bool.false_eq_true, if_false, Bool.not_true,
    Bool.not_false, Bool.and_false, Bool.true_and]
  cases write with
  | false => rfl
  | true =>
    rw [hwrite rfl]
    rfl

-- ===== the page fault

/-- `get_pte` with a page for the table changes no entry. -/
theorem getPteCreate_spec (k : Kernel ι) (d : ι) (la p : Word) :
    ∃ k' t, k.getPteCreate d la (some p) = (k', some ⟨t, ptx la⟩) ∧
      k'.pgdir d (pdx la) = some t ∧ k'.currentPgdir = k.currentPgdir ∧
      ∀ va, (k'.pgdir d).pteAt va = (k.pgdir d).pteAt va := by
  unfold getPteCreate
  cases ht : k.pgdir d (pdx la) with
  | some t => exact ⟨k, t, rfl, ht, rfl, fun _ => rfl⟩
  | none =>
    refine ⟨_, _, rfl, ?_, rfl, pteAt_setPde_zero (k := k.pageRefAdd p 1) ht d⟩
    show update k.pgdir d _ d (pdx la) = _
    rw [update_self, update_self]

theorem pteAt_setPte {d : ι} {la pte : Word} {t : PageTable}
    (ht : k.pgdir d (pdx la) = some t) (va : Word) :
    ((k.setPte d la pte).pgdir d).pteAt va
      = if SamePage va la then pte else (k.pgdir d).pteAt va := by
  unfold setPte
  simp only [ht]
  show PageDir.pteAt (update k.pgdir d _ d) va = _
  rw [update_self]
  unfold PageDir.pteAt
  by_cases hd : pdx va = pdx la
  · rw [hd, update_self, ht]
    dsimp only
    by_cases hx : ptx va = ptx la
    · rw [if_pos (samePage_iff.mpr ⟨hd, hx⟩), hx, update_self]
    · rw [if_neg fun h => hx (samePage_iff.mp h).2, update_of_ne hx]
  · rw [if_neg fun h => hd (samePage_iff.mp h).1, update_of_ne hd]

/-- The entry a page fault makes. -/
def faultPte (p : Word) (v : Vma) : Word :=
  page2pa p ||| pteP ||| if v.vmWrite then pteU ||| pteW else pteU

theorem faultPte_permits (p : Word) {v : Vma} {write : Bool}
    (h : write = true → v.vmWrite = true) : Permits (faultPte p v) write := by
  have hbit (n : Nat) (hn : n < 32) (pte : Word) :
      (pte &&& 1#32 <<< n != 0) = pte.getLsbD n :=
    Bits.and_twoPow_ne_zero pte hn
  have hP : ptepPresent (faultPte p v) = true := by
    rw [ptepPresent_eq]
    simp [faultPte, pteP]
  have hU : ptepURead (faultPte p v) = true := by
    refine (hbit 2 (by decide) _).trans ?_
    unfold faultPte
    cases v.vmWrite <;> simp [pteU, pteW]
  refine ⟨hP, hU, fun hw => ?_⟩
  refine Bool.and_eq_true_iff.mpr ⟨hU, ?_⟩
  refine (hbit 1 (by decide) _).trans ?_
  unfold faultPte
  rw [h hw]
  simp [pteU, pteW]

/-- `page_insert` where the table is there and the entry is 0. -/
theorem pageInsert_zero {d : ι} {p la perm : Word} {t : PageTable}
    (ht : k.pgdir d (pdx la) = some t) (hzero : t (ptx la) = 0) :
    k.pageInsert d p la perm none = some
      (((k.pageRefAdd p 1).setPte d la (page2pa p ||| pteP ||| perm)
        ).tlbInvalidateAll, true) := by
  have hcreate : k.getPteCreate d la none = (k, some ⟨t, ptx la⟩) := by
    unfold getPteCreate
    rw [ht]
  have hrelease : (k.pageRefAdd p 1).releaseOld d p la ⟨t, ptx la⟩
      = some (k.pageRefAdd p 1) := by
    have habsent : ptepPresent (t (ptx la)) = false := by
      rw [hzero]
      rfl
    exact if_neg (by rw [PtePtr.read, habsent]; decide)
  unfold pageInsert
  rw [hcreate]
  dsimp only
  rw [hrelease]
  rfl

/-- An absent page in an area that allows the access is made present. -/
theorem doPgfault_absent (pages : Word × Word) {d : ι} {va : Word}
    {write : Bool} {v : Vma}
    (habsent : (k.pgdir d).pteAt va = 0) (hstart : v.vmStart ≤ va)
    (hallows : v.allows false write = true) :
    ∃ k', k.doPgfault d false write va (some v) (some pages.1)
        (some pages.2) = some (k', true) ∧
      k'.currentPgdir = k.currentPgdir ∧ KernelOnly k'.tlb ∧
      ∀ b, (k'.pgdir d).pteAt b = if SamePage b va
        then faultPte pages.2 v else (k.pgdir d).pteAt b := by
  have hround : SamePage (va &&& ~~~0xfff#32) va :=
    BitVec.extractLsb'_and.trans BitVec.and_allOnes
  have hround' : ∀ b, SamePage b (va &&& ~~~0xfff#32) ↔ SamePage b va :=
    fun b => ⟨fun h => h.trans hround, fun h => h.trans hround.symm⟩
  obtain ⟨k₁, t, hcreate, ht, hcur, hpte⟩ :=
    k.getPteCreate_spec d (va &&& ~~~0xfff#32) pages.1
  have hread : t (ptx (va &&& ~~~0xfff#32)) = 0 := by
    have hat : (k₁.pgdir d).pteAt (va &&& ~~~0xfff#32)
        = t (ptx (va &&& ~~~0xfff#32)) := by
      unfold PageDir.pteAt
      rw [ht]
    rw [← hat, hpte, hround.pteAt, habsent]
  have hinsert : k₁.pageInsert d pages.2 (va &&& ~~~0xfff#32)
      (if v.vmWrite then pteU ||| pteW else pteU) none = some
        (((k₁.pageRefAdd pages.2 1).setPte d (va &&& ~~~0xfff#32)
          (faultPte pages.2 v)).tlbInvalidateAll, true) :=
    pageInsert_zero ht hread
  refine ⟨((k₁.pageRefAdd pages.2 1).setPte d (va &&& ~~~0xfff#32)
    (faultPte pages.2 v)).tlbInvalidateAll, ?_, ?_,
    kernelOnly_invalidateAll _, fun b => ?_⟩
  · unfold doPgfault
    dsimp only
    rw [if_neg (BitVec.not_lt.mpr hstart), hallows, hcreate]
    dsimp only
    have hzero : (PtePtr.mk t (ptx (va &&& ~~~0xfff#32))).read = 0 := hread
    rw [if_pos hzero]
    unfold pgdirAllocPage
    dsimp only
    rw [hinsert]
    rfl
  · unfold setPte
    split <;> exact hcur
  · refine (pteAt_setPte (k := k₁.pageRefAdd pages.2 1) ht b).trans ?_
    simp only [hround']
    split
    · rfl
    · exact hpte b

/-- An absent page is answered by a page fault. -/
theorem handleTlbmiss_absent (pages : Word × Word) {v : Vma}
    (habsent : k.dir.pteAt a.1 = 0)
    (hv : areas.find a.1 = some v) (hstart : v.vmStart ≤ a.1)
    (hallows : v.allows false a.2 = true) :
    ∃ k', k.handleTlbmiss (k.missOf areas pages (missTrap a))
        = some (k', true) ∧
      KernelOnly k'.tlb ∧ ∀ b, k'.dir.pteAt b = if SamePage b a.1
        then faultPte pages.2 v else k.dir.pteAt b := by
  obtain ⟨k', hfault, hcur, htlb, hpte⟩ :=
    doPgfault_absent pages habsent hstart hallows
  refine ⟨k', ?_, htlb, fun b => ?_⟩
  · -- no table or an empty entry, the fault is the same
    have hbranch : handleTlbmiss.fault k
        (k.missOf areas pages (missTrap a)) false = some (k', true) := by
      unfold handleTlbmiss.fault missOf
      simp only [missTrap_badaddr, missTrap_isTlbs, Option.getD_some, hv]
      rw [hfault]
      rfl
    have hbad : (k.missOf areas pages (missTrap a)).badaddr = a.1 := by
      unfold missOf
      rw [missTrap_badaddr]
      rfl
    unfold handleTlbmiss
    rw [hbad]
    unfold dir PageDir.pteAt at habsent
    unfold getPte
    cases ht : k.pgdir k.currentPgdir (pdx a.1) with
    | none => exact hbranch
    | some t =>
      rw [ht] at habsent
      have hread : (PtePtr.mk t (ptx a.1)).read = 0 := habsent
      simp only [Option.map_some, hread]
      exact hbranch
  · unfold dir
    rw [hcur]
    exact hpte b

-- ===== the retries

/-- The access can be served: the page is present and permits it, or is
absent from an area that allows it. -/
def Serves (k : Kernel ι) (areas : Areas) (a : Word × Bool) : Prop :=
  Permits (k.dir.pteAt a.1) a.2 ∨ (k.dir.pteAt a.1 = 0 ∧
    ∃ v, areas.find a.1 = some v ∧ v.vmStart ≤ a.1 ∧
      v.allows false a.2 = true)

/-- The page pairs an instruction needs. -/
def pairs (c : Restart) : Finset (BitVec 19) :=
  (c.accesses.map fun a => vpnOf a.1).toFinset

theorem pairs_card (c : Restart) : (pairs c).card ≤ 3 := by
  refine (List.toFinset_card_le _).trans ?_
  rw [List.length_map]
  exact c.accesses_length

/-- How many of the accesses find their page absent. -/
def absent (k : Kernel ι) (c : Restart) : Nat :=
  c.accesses.countP fun a => k.dir.pteAt a.1 == 0

/-- On the way: `h` are the pairs refilled since the last page fault, the
last one first. -/
structure Trying (k : Kernel ι) (c : Restart) (areas : Areas)
    (h : List (BitVec 19)) : Prop where
  agrees : Agrees k.dir k.tlb
  serves : ∀ a ∈ c.accesses, k.Serves areas a
  recent : k.table.Recent (h.map (pairEntry k.dir))
  missed : Missed 16 h
  needed : ∀ v ∈ h, v ∈ pairs c

variable {c : Restart} {h : List (BitVec 19)}

omit [DecidableEq ι] in
theorem Trying.length_le (ht : k.Trying c areas h) : h.length ≤ 19 := by
  have hcard := pairs_card c
  have hlen := ht.missed.length_le ht.needed (by omega)
  omega

omit [DecidableEq ι] in
theorem Serves.pte (hs : k.Serves areas a) :
    Permits (k.dir.pteAt a.1) a.2 ∨ k.dir.pteAt a.1 = 0 :=
  hs.imp_right And.left

omit [DecidableEq ι] in
/-- After sixteen refills a pair that misses is not among the last
sixteen. -/
theorem Trying.not_recent (ht : k.Trying c areas h) (hva : a.1 < kernbase)
    (hpermits : Permits (k.dir.pteAt a.1) a.2)
    (hmiss : (k.tlb.lookup a.1 a.2).validAddress = false)
    (hfull : 16 ≤ h.length) : vpnOf a.1 ∉ h.take 16 := by
  intro hmem
  -- every slot has been refilled
  have himage (j : BitVec 4) : k.tlb j = pairEntry k.dir (k.tlb j).vpn := by
    have hj : k.tlb j ∈ (h.map (pairEntry k.dir)).take 16 :=
      ht.recent.mem_take (by rw [List.length_map]; exact hfull) j
    rw [← List.map_take] at hj
    obtain ⟨v, -, hv⟩ := List.mem_map.mp hj
    rw [← hv, pairEntry_vpn]
  obtain ⟨n, hn, hget⟩ := List.mem_take_iff_getElem.mp hmem
  have hrecent : (h.map (pairEntry k.dir))[n]?
      = some (pairEntry k.dir (vpnOf a.1)) := by
    rw [List.getElem?_map, List.getElem?_eq_getElem (by omega), hget]
    rfl
  have hslot : k.tlb (k.table.next - 1 - BitVec.ofNat 4 n)
      = pairEntry k.dir (vpnOf a.1) := ht.recent n _ (by omega) hrecent
  have hpresent : (k.dir.pteAt a.1).getLsbD 0 = true := by
    rw [← ptepPresent_eq]
    exact hpermits.1
  have hvalid : (k.tlb.lookup a.1 a.2).validAddress = true :=
    lookup_image hva (by rw [hslot, pairEntry_vpn])
      (fun j hj => by rw [himage j, hj]) hpresent hpermits.write
  rw [hmiss] at hvalid
  cases hvalid

omit [DecidableEq ι] in
/-- The start of a run of refills. -/
theorem trying_start (hagrees : Agrees k.dir k.tlb)
    (hserves : ∀ a ∈ c.accesses, k.Serves areas a) : k.Trying c areas [] where
  agrees := hagrees
  serves := hserves
  recent := Carousel.recent_nil _
  missed := trivial
  needed := fun _ hv => absurd hv List.not_mem_nil

omit [DecidableEq ι] in
/-- A refill is one more pair. -/
theorem Trying.refill {k' : Kernel ι} (ht : k.Trying c areas h)
    (ha : a ∈ c.accesses) (hva : a.1 < kernbase)
    (hpermits : Permits (k.dir.pteAt a.1) a.2)
    (hmiss : (k.tlb.lookup a.1 a.2).validAddress = false)
    (hdir : k'.dir = k.dir)
    (htable : k'.table = k.table.push (pairEntry k.dir (vpnOf a.1))) :
    k'.Trying c areas (vpnOf a.1 :: h) where
  agrees := by
    intro j va hlow hvpn hvalid
    have htlb : k'.tlb j = update k.tlb
        (k.refillIndex.extractLsb' 0 4) (pairEntry k.dir (vpnOf a.1)) j :=
      congrFun (congrArg Carousel.slot htable) j
    rw [hdir]
    rw [htlb, update_apply] at hvpn hvalid ⊢
    split_ifs at hvpn hvalid ⊢
    · rw [pairEntry_vpn] at hvpn
      rw [hvpn] at hvalid ⊢
      exact agrees_pairEntry hvalid
    · exact ht.agrees j va hlow hvpn hvalid
  serves := by
    intro b hb
    unfold Serves
    rw [hdir]
    exact ht.serves b hb
  recent := by
    rw [htable, hdir]
    exact ht.recent.push _
  missed := ⟨ht.not_recent hva hpermits hmiss, ht.missed⟩
  needed := by
    intro v hv
    obtain rfl | hv := List.mem_cons.mp hv
    · exact List.mem_toFinset.mpr (List.mem_map.mpr ⟨a, ha, rfl⟩)
    · exact ht.needed v hv

omit [DecidableEq ι] in
/-- A page fault serves every access that was served before, and one page
less is absent. -/
theorem Trying.fault {k' : Kernel ι} {v : Vma} (ht : k.Trying c areas h)
    (ha : a ∈ c.accesses) (habsent : k.dir.pteAt a.1 = 0)
    (hv : areas.find a.1 = some v) (htlb : KernelOnly k'.tlb)
    (hpte : ∀ b, k'.dir.pteAt b = if SamePage b a.1
      then faultPte pages.2 v else k.dir.pteAt b) :
    k'.Trying c areas [] ∧ k'.absent c < k.absent c := by
  have hnew : faultPte pages.2 v ≠ 0 := by
    intro hzero
    have hp : Permits (faultPte pages.2 v) false :=
      faultPte_permits pages.2 fun hw => Bool.noConfusion hw
    rw [hzero] at hp
    exact absurd hp (by decide)
  refine ⟨trying_start (htlb.coherent _).agrees fun b hb => ?_, ?_⟩
  · unfold Serves
    rw [hpte]
    split
    case isTrue hsame =>
      -- the other access to the page, in the same area
      left
      apply faultPte_permits
      intro hw
      obtain hpermits | ⟨-, u, hu, -, hallows⟩ := ht.serves b hb
      · have hp := hpermits.1
        rw [hsame.pteAt, habsent] at hp
        exact absurd hp (by decide)
      · rw [areas.page b.1 a.1 hsame, hv] at hu
        cases hu
        rw [hw] at hallows
        exact hallows
    case isFalse => exact ht.serves b hb
  · have himp (b : Word × Bool) (hb : k'.dir.pteAt b.1 == 0) :
        k.dir.pteAt b.1 == 0 := by
      rw [hpte] at hb
      split at hb
      · exact absurd (beq_iff_eq.mp hb) hnew
      · exact hb
    have hgone : (k'.dir.pteAt a.1 == 0) = false := by
      rw [hpte, if_pos (show SamePage a.1 a.1 from rfl)]
      exact beq_eq_false_iff_ne.mpr hnew
    have hthere : (k.dir.pteAt a.1 == 0) = true := beq_iff_eq.mpr habsent
    obtain ⟨l₁, l₂, hsplit⟩ := List.append_of_mem ha
    have h₁ := List.countP_mono_left (l := l₁) fun b _ => himp b
    have h₂ := List.countP_mono_left (l := l₂) fun b _ => himp b
    unfold absent
    rw [hsplit, List.countP_append, List.countP_append, List.countP_cons,
      List.countP_cons, hgone, hthere, if_neg (by decide), if_pos rfl]
    omega

/-- Rounds left: the refills until the next page fault, and twenty for each
absent page. -/
def roundsLeft (k : Kernel ι) (c : Restart) (h : List (BitVec 19)) : Nat :=
  20 * k.absent c + (19 - h.length)

/-- One round: the instruction has its translations, or a round less is
left. -/
theorem Trying.attempt (ht : k.Trying c areas h)
    (huser : ∀ a ∈ c.accesses, a.1 < kernbase) (pages : Word × Word) :
    (c.tlbMiss k.tlb = none ∧ ∀ a ∈ c.accesses,
      k.tlb.lookup a.1 a.2 = translationOf (k.dir.pteAt a.1) a.1) ∨
    ∃ k' h', k.attempt c areas pages = some k' ∧ k'.Trying c areas h' ∧
      k'.roundsLeft c h' < k.roundsLeft c h ∧
      ((∀ a ∈ c.accesses, Permits (k.dir.pteAt a.1) a.2) →
        k'.dir = k.dir) := by
  cases hmiss : c.tlbMiss k.tlb with
  | none =>
    refine .inl ⟨rfl, fun a ha => ?_⟩
    have hlookup := ht.agrees.lookup (huser a ha) (ht.serves a ha).pte
    obtain ⟨-, htrans⟩ | hinvalid := hlookup
    · exact htrans
    · have hnone := Restart.tlbMiss_none hmiss ha
      rw [hinvalid] at hnone
      exact absurd hnone (by decide)
  | some trap =>
    right
    obtain ⟨a, ha, hvalid, rfl⟩ := Restart.tlbMiss_some hmiss
    unfold Kernel.attempt
    rw [hmiss]
    obtain hpermits | ⟨habsent, v, hv, hstart, hallows⟩ := ht.serves a ha
    · obtain ⟨k', hk', hdirs, hcur, htable⟩ :=
        handleTlbmiss_permitted areas pages hpermits
      have hdir : k'.dir = k.dir := by
        unfold dir
        rw [hdirs, hcur]
      have ht' := ht.refill ha (huser a ha) hpermits hvalid hdir htable
      have hlen' := ht'.length_le
      refine ⟨k', vpnOf a.1 :: h, ?_, ht', ?_, fun _ => hdir⟩
      · simp only [hk', Option.bind_some, if_true]
      · unfold roundsLeft absent
        rw [hdir]
        rw [List.length_cons] at hlen' ⊢
        omega
    · obtain ⟨k', hk', htlb, hpte⟩ :=
        handleTlbmiss_absent pages habsent hv hstart hallows
      obtain ⟨ht', hless⟩ := ht.fault ha habsent hv htlb hpte
      refine ⟨k', [], ?_, ht', ?_, fun hall => ?_⟩
      · simp only [hk', Option.bind_some, if_true]
      · unfold roundsLeft
        omega
      · have hp := (hall a ha).1
        rw [habsent] at hp
        exact absurd hp (by decide)

/-- All rounds. -/
theorem Trying.attempts (huser : ∀ a ∈ c.accesses, a.1 < kernbase)
    (n : Nat) (pages : Nat → Word × Word) {k : Kernel ι}
    {h : List (BitVec 19)} (ht : k.Trying c areas h)
    (hn : k.roundsLeft c h ≤ n) :
    ∃ m ≤ n, ∃ k', k.attempts c areas pages m = some k' ∧
      c.tlbMiss k'.tlb = none ∧ (∀ a ∈ c.accesses,
        k'.tlb.lookup a.1 a.2 = translationOf (k'.dir.pteAt a.1) a.1) ∧
      ((∀ a ∈ c.accesses, Permits (k.dir.pteAt a.1) a.2) →
        k'.dir = k.dir) := by
  induction n generalizing k h pages with
  | zero =>
    obtain ⟨hnone, hall⟩ | ⟨k', h', -, -, hless, -⟩ :=
      ht.attempt huser (pages 0)
    · exact ⟨0, le_refl 0, k, rfl, hnone, hall, fun _ => rfl⟩
    · omega
  | succ n ih =>
    obtain ⟨hnone, hall⟩ | ⟨k', h', hk', ht', hless, hsame⟩ :=
      ht.attempt huser (pages 0)
    · exact ⟨0, Nat.zero_le _, k, rfl, hnone, hall, fun _ => rfl⟩
    · obtain ⟨m, hm, k'', hk'', hnone, hall, hsame'⟩ :=
        ih (fun i => pages (i + 1)) ht' (by omega)
      refine ⟨m + 1, by omega, k'', ?_, hnone, hall, fun hp => ?_⟩
      · unfold Kernel.attempts
        rw [hk']
        exact hk''
      · have hdir := hsame hp
        rw [← hdir] at hp
        exact (hsame' hp).trans hdir

end Kernel

-- ===== areas

/-- An area, as far as a fault looks at it. -/
def Vma.forFault (v : Vma) : Kernel.Vma where
  vmStart := BitVec.ofNat 32 v.vmStart
  vmRead := v.vmFlags &&& vmRead != 0
  vmWrite := v.vmFlags &&& vmWrite != 0
  vmExec := v.vmFlags &&& vmExec != 0

theorem toNat_div_page (a : Word) :
    (a.extractLsb' 12 20).toNat = a.toNat / pgsize := by
  have hlt : a.toNat / 2 ^ 12 < 2 ^ 20 := by omega
  rw [BitVec.extractLsb'_toNat, Nat.shiftRight_eq_div_pow,
    Nat.mod_eq_of_lt hlt]
  rfl

/-- Both models of `do_pgfault` switch alike on `error_code & 3`, whose bits
are the two flags. -/
theorem Vma.forFault_allows (v : Vma) (present write : Bool) :
    v.forFault.allows present write
      = Vm.faultAllowed v.vmFlags (2 * write.toNat + present.toNat) := by
  have hor : (v.vmFlags &&& vmRead != 0#32 || v.vmFlags &&& vmExec != 0#32) =
      (v.vmFlags &&& (vmRead ||| vmExec) != 0#32) := by
    rw [Bool.eq_iff_iff]
    simp [BitVec.and_or_distrib_left, or_iff_not_imp_left]
  cases present <;> cases write <;>
    simp [Kernel.Vma.allows, Vm.faultAllowed, forFault, hor]

/-- The areas of a process: they begin and end at pages. -/
def Mm.areas (mm : Mm) (h : mm.Tidy) : Areas where
  find va := (mm.findVma va.toNat).1.map Vma.forFault
  page := by
    intro a b hab
    have hpage : a.toNat / pgsize = b.toNat / pgsize := by
      rw [← toNat_div_page, ← toNat_div_page, hab]
    rw [h.ordered.findVma, h.ordered.findVma]
    refine congrArg (Option.map _) (List.find?_congr fun v hv => ?_)
    have hsame : a.toNat < v.vmEnd ↔ b.toNat < v.vmEnd := by
      have hend := (h.areas v hv).2.1
      unfold pgsize at *
      omega
    simp only [hsame]

-- ===== results

variable {ι : Type} [DecidableEq ι]

/-- TLB misses make progress. For every TLB that agrees with the page table
and every refill slot: an instruction whose pages are present and permit the
access gets all its translations, the ones the page table stands for, after
at most 19 misses, and the page table stays; where pages are absent but lie
in areas that allow the access, and the allocator has pages, after at most
79. Each miss is the one the priority chain takes, and returns to the first
of the instructions. -/
theorem tlb_miss_progress (c : Restart) (areas : Areas)
    (pages : Nat → Word × Word) (k : Kernel ι)
    (hagrees : Agrees k.dir k.tlb)
    (huser : ∀ a ∈ c.accesses, a.1 < kernbase)
    (hserves : ∀ a ∈ c.accesses, k.Serves areas a) :
    ∃ n ≤ 79, ∃ k', k.attempts c areas pages n = some k' ∧
      c.tlbMiss k'.tlb = none ∧
      (∀ a ∈ c.accesses,
        k'.tlb.lookup a.1 a.2 = translationOf (k'.dir.pteAt a.1) a.1) ∧
      ((∀ a ∈ c.accesses, Permits (k.dir.pteAt a.1) a.2) →
        n ≤ 19 ∧ k'.dir = k.dir) ∧
      ∀ t trap, c.tlbMiss t = some trap →
        ∃ x ∈ c.insts, ∀ s : State, s.exMem = x.seen t →
          s.control.interruptRequest (s.cp0 .status12) = false →
          s.TakesMiss trap c.epc := by
  have ht := Kernel.trying_start hagrees hserves
  have habsent : k.absent c ≤ 3 :=
    List.countP_le_length.trans c.accesses_length
  have hrounds : k.roundsLeft c [] = 20 * k.absent c + 19 := rfl
  obtain ⟨n, hn, k', hk', hnone, hall, hsame⟩ :=
    ht.attempts huser _ pages (le_refl _)
  refine ⟨n, by omega, k', hk', hnone, hall, fun hp => ⟨?_, hsame hp⟩,
    fun t trap h => Restart.takesMiss h⟩
  -- no page is absent
  have hzero : k.absent c = 0 := by
    refine List.countP_eq_zero.mpr fun a ha hz => ?_
    have hpresent := (hp a ha).1
    rw [beq_iff_eq.mp hz] at hpresent
    exact absurd hpresent (by decide)
  omega

/-- `beq` at the end of a page and, in its delay slot on the next one, `sw`
to a third. -/
def storeInDelaySlot : Restart where
  branch := some ⟨0x10000ffc, 0x10000001, false, false, 0, 0, 0⟩
  inst := ⟨0x10001000, 0xac220000, true, false, 0x10002000, 7, 0⟩
  isInDelaySlot := rfl
  pc := by
    rintro b ⟨⟩
    decide
  first := by
    rintro b ⟨⟩
    rfl
  quiet := by
    rintro b ⟨⟩
    decide

/-- A process with nothing mapped and one area for all of its half. -/
def blankKernel : Kernel Unit where
  npage := 4096
  pgdir := fun _ _ => none
  ref := fun _ => 0
  freed := []
  currentPgdir := ()
  tlb := Tlb.reset
  refillIndex := 13

def oneArea : Areas where
  find := fun _ => some ⟨0x10000000, true, true, true⟩
  page := fun _ _ _ => rfl

/-- There the store needs three pages, and gets them. -/
theorem tlb_miss_progress_blank :
    storeInDelaySlot.accesses = [(0x10000ffc, false), (0x10001000, false),
      (0x10002000, true)] ∧
    ∃ n ≤ 79, ∃ k', blankKernel.attempts storeInDelaySlot oneArea
        (fun i => (BitVec.ofNat 32 (2 * i), BitVec.ofNat 32 (2 * i + 1))) n
        = some k' ∧
      storeInDelaySlot.tlbMiss k'.tlb = none := by
  have haccesses : storeInDelaySlot.accesses = [(0x10000ffc, false),
      (0x10001000, false), (0x10002000, true)] := by
    decide +kernel
  have hwithin (a : Word × Bool) (ha : a ∈ storeInDelaySlot.accesses) :
      0x10000000#32 ≤ a.1 ∧ a.1 < kernbase := by
    rw [haccesses] at ha
    simp only [List.mem_cons, List.not_mem_nil, or_false] at ha
    obtain rfl | rfl | rfl := ha <;> decide
  obtain ⟨n, hn, k', hk', hnone, -⟩ := tlb_miss_progress storeInDelaySlot
    oneArea (fun i => (BitVec.ofNat 32 (2 * i), BitVec.ofNat 32 (2 * i + 1)))
    blankKernel (kernelOnly_reset.coherent _).agrees
    (fun a ha => (hwithin a ha).2)
    (fun a ha => .inr ⟨rfl, _, rfl, (hwithin a ha).1, by cases a.2 <;> rfl⟩)
  exact ⟨haccesses, n, hn, k', hk', hnone⟩

/-- In a process, where an absent page lies in an area whose flags let
`do_pgfault` map it, `find_vma` finds that area, and the misses end. -/
theorem Mm.Tidy.misses_end {mm : Mm} (h : mm.Tidy) (c : Restart)
    (pages : Nat → Word × Word) (k : Kernel ι)
    (hagrees : Agrees k.dir k.tlb)
    (huser : ∀ a ∈ c.accesses, a.1 < kernbase)
    (hserves : ∀ a ∈ c.accesses, Permits (k.dir.pteAt a.1) a.2 ∨
      k.dir.pteAt a.1 = 0 ∧ ∃ v ∈ mm.mmapList, v.vmStart ≤ a.1.toNat ∧
        a.1.toNat < v.vmEnd ∧
        Vm.faultAllowed v.vmFlags (2 * a.2.toNat) = true) :
    ∃ n ≤ 79, ∃ k', k.attempts c (mm.areas h) pages n = some k' ∧
      c.tlbMiss k'.tlb = none := by
  have hserves' : ∀ a ∈ c.accesses, k.Serves (mm.areas h) a := by
    intro a ha
    refine (hserves a ha).imp_right ?_
    rintro ⟨hzero, v, hv, hlow, hhigh, hallowed⟩
    refine ⟨hzero, v.forFault, ?_, ?_, ?_⟩
    · show (mm.findVma _).1.map _ = _
      rw [h.ordered.findVma, h.ordered.firstBehind_of_mem hv hlow hhigh]
      rfl
    · have hsmall : v.vmStart < 2 ^ 32 := hlow.trans_lt a.1.isLt
      show BitVec.ofNat 32 v.vmStart ≤ a.1
      rw [BitVec.le_def, BitVec.toNat_ofNat, Nat.mod_eq_of_lt hsmall]
      exact hlow
    · rw [Vma.forFault_allows]
      exact hallowed
  obtain ⟨n, hn, k', hk', hnone, -⟩ :=
    (Kernel.trying_start hagrees hserves').attempts huser _ pages (le_refl _)
  have habsent : k.absent c ≤ 3 :=
    List.countP_le_length.trans c.accesses_length
  have hrounds : k.roundsLeft c [] = 20 * k.absent c + 19 := rfl
  exact ⟨n, by omega, k', hk', hnone⟩

end Kern

end MipsUcore
