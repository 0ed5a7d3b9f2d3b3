/-
What the pages of a segment hold after `load_icode` has mapped them.

# One invariant

The two loops and the clearing between them share `start`, `la` and `page`,
and one invariant: the pages below `la` are mapped and hold what the segment
says (`segByte`) at the addresses below `start`, and elsewhere what they held
when they were free (`Progress`). A round of a loop keeps it, and so does the
clearing of the rest of the page in which the file part ends. A round that
reaches the top of the address space wraps around and leaves no rounds, so a
run that ends has not wrapped.

# The segment

At the end `start` is the end of the segment, so its pages hold all of it
(`loadPages_loaded`), and no other entry has changed.
-/
import MipsUcore.Kern.Exec
import MipsUcore.Kern.Proofs.Vm

namespace MipsUcore.Kern

open Cpu

theorem Vm.writeFrame_self (s : Vm) (page off size : Nat)
    (bytes : Nat → BitVec 8) (o : Nat) :
    (s.writeFrame page off size bytes).frame page o =
      if off ≤ o ∧ o < off + size then bytes (o - off)
      else s.frame page o := by
  simp only [Vm.writeFrame, Vm.setFrame, Function.update_self]

namespace Loading

open Vm

variable {z n pgdir lo stop : Nat} {perm : Word}
  {fill : Nat → Nat → Option (Nat → BitVec 8)}
  {g : Nat → Option (BitVec 8)} {s : Vm} {l r : Loading}

-- ===== the invariant

/-- The page at `la` was free before; it holds `content` where that says
something, and in its other bytes what it held before. -/
def PageHolds (s t : Vm) (pgdir la : Nat) (content : Nat → Option (BitVec 8)) :
    Prop :=
  ∃ q, q ∈ s.pmm.freeSet ∧ q ∉ t.pmm.freeSet ∧ t.maps pgdir la q ∧
    ∀ o < pgsize, t.frame q o = (content (la + o)).getD (s.frame q o)

/-- The page at `la` that was made for a segment: it holds `g` below `stop`,
and is the last one if `last`. -/
structure Made (pgdir la stop : Nat) (perm : Word)
    (g : Nat → Option (BitVec 8)) (s : Vm) (l : Loading) (q : Nat) :
    Prop where
  free : q ∈ s.pmm.freeSet
  taken : q ∉ l.vm.pmm.freeSet
  entry : l.vm.entry pgdir la = page2pa q ||| pteP ||| perm
  last : l.page = some q ↔ la + pgsize = l.la
  frame : ∀ o < pgsize, l.vm.frame q o =
    (if la + o < stop then g (la + o) else none).getD (s.frame q o)

/-- The pages from `lo` to `l.la` are mapped, and hold `g` up to `l.start`;
`s` is the memory before. -/
structure Progress (z n pgdir lo : Nat) (perm : Word)
    (g : Nat → Option (BitVec 8)) (s : Vm) (l : Loading) : Prop where
  grows : Grows z n s l.vm
  aligned : l.la % pgsize = 0
  entry : ∀ d la, la % pgsize = 0 → la < 2 ^ 32 →
    ¬(d = pgdir ∧ lo ≤ la ∧ la < l.la) → l.vm.entry d la = s.entry d la
  page : ∀ la, la % pgsize = 0 → lo ≤ la → la < l.la →
    ∃ q, Made pgdir la l.start perm g s l q
  other : ∀ p ∈ l.vm.pmm.freeSet, l.vm.frame p = s.frame p

/-- Before the first round. -/
theorem Progress.start (hgood : s.pmm.Good z n) (hlo : lo % pgsize = 0)
    (start offset : Nat) :
    Progress z n pgdir lo perm g s ⟨s, none, start, lo, offset⟩ where
  grows := .refl hgood
  aligned := hlo
  entry _ _ _ _ _ := rfl
  page _ _ h1 h2 := absurd h1 (Nat.not_le.2 h2)
  other _ _ := rfl

-- ===== one round

/-- A round either wraps around or goes on to the next page. -/
theorem Progress.round (h : Progress z n pgdir lo perm g s l)
    (hlo : lo ≤ l.la) (hla : l.la ≤ l.start) (hpage : l.start < l.la + pgsize)
    (hbound : l.la < 2 ^ 32) (hlt : l.start < stop) (hstop : stop < 2 ^ 32)
    (hnew : ¬s.present pgdir l.la)
    (hbefore : ∀ x < l.start, l.la ≤ x → g x = none)
    (hfill : ∀ size bytes, fill l.offset size = some bytes →
      ∀ i, l.start + i < stop → g (l.start + i) = some (bytes i))
    (hrun : mapRound pgdir perm stop fill l = some (r, true)) :
    r.start = 0 ∧ stop ≤ l.la + pgsize ∨
      l.la + pgsize < 2 ^ 32 ∧ r.la = l.la + pgsize ∧
        r.start = min (l.la + pgsize) stop ∧
        r.offset = l.offset + (r.start - l.start) ∧
        Progress z n pgdir lo perm g s r := by
  have halign := h.aligned
  have hnp : ¬l.vm.present pgdir l.la := by
    rw [present, h.entry pgdir l.la halign hbound (by omega)]
    exact hnew
  obtain ⟨⟨t, result⟩, halloc, hrun⟩ := Option.map_eq_some_iff.1 hrun
  cases result with
  | none => cases hrun
  | some q =>
  have hq := pgdirAllocPage_spec h.grows.good hnp halloc
  by_cases htop : l.la + pgsize = 2 ^ 32
  · -- the last page of the address space
    left
    have hsize : ¬stop < (l.la + pgsize) % 2 ^ 32 := by omega
    simp only [if_neg hsize] at hrun
    cases hf : fill l.offset (pgsize - (l.start - l.la)) with
    | none =>
      rw [hf] at hrun
      cases hrun
    | some bytes =>
      rw [hf] at hrun
      cases hrun
      refine ⟨?_, by omega⟩
      have hsum : l.start + (pgsize - (l.start - l.la)) = 2 ^ 32 := by omega
      rw [hsum]
      exact Nat.mod_self _
  right
  have hnext : l.la + pgsize < 2 ^ 32 ∧
      (l.la + pgsize) % 2 ^ 32 = l.la + pgsize := by
    unfold pgsize at *
    omega
  -- the size that is filled
  have hsize : (if stop < l.la + pgsize then
      pgsize - (l.start - l.la) - (l.la + pgsize - stop)
      else pgsize - (l.start - l.la))
      = min (l.la + pgsize) stop - l.start := by
    split <;> omega
  simp only [hnext.2, hsize] at hrun
  cases hf : fill l.offset (min (l.la + pgsize) stop - l.start) with
  | none =>
    rw [hf] at hrun
    cases hrun
  | some bytes =>
  rw [hf] at hrun
  have hstart : (l.start + (min (l.la + pgsize) stop - l.start)) % 2 ^ 32
      = min (l.la + pgsize) stop := by omega
  rw [hstart] at hrun
  cases hrun
  refine ⟨hnext.1, rfl, rfl, rfl, ?_⟩
  have hother : ∀ p, p ≠ q →
      (t.writeFrame q (l.start - l.la) (min (l.la + pgsize) stop - l.start)
        bytes).frame p = l.vm.frame p := by
    intro p hp
    rw [← hq.frame]
    exact Function.update_of_ne hp _ _
  have hfree := h.grows.free hq.free
  constructor
  case grows =>
    refine h.grows.trans ⟨hq.grows.good, hq.grows.free, fun p hp => ?_,
      hq.grows.ref⟩
    exact hother p fun heq => hp (heq ▸ hq.free)
  case aligned =>
    rw [Nat.add_mod_right]
    exact halign
  case entry =>
    intro d la hal hlt' hout
    have hout' : ¬(d = pgdir ∧ lo ≤ la ∧ la < l.la + pgsize) := hout
    have hent : t.entry d la = l.vm.entry d la := by
      rw [hq.entry, if_neg]
      rintro ⟨hd, hpd, hpt⟩
      have hthis := same_page hal halign hlt' hbound hpd hpt
      exact hout' ⟨hd, by omega, by omega⟩
    exact hent.trans (h.entry d la hal hlt' fun hin =>
      hout' ⟨hin.1, hin.2.1, by omega⟩)
  case page =>
    intro la hal hge hla'
    have hla' : la < l.la + pgsize := hla'
    by_cases hthis : la = l.la
    · subst hthis
      refine ⟨q, hfree, hq.taken, ?_, iff_of_true rfl rfl, fun o ho => ?_⟩
      · exact (hq.entry pgdir l.la).trans (if_pos ⟨rfl, rfl, rfl⟩)
      · refine (t.writeFrame_self q _ _ bytes o).trans ?_
        rw [hq.frame, h.other q hq.free]
        dsimp only
        by_cases hin : l.start ≤ l.la + o ∧ l.la + o < stop
        · have hbyte := hfill _ _ hf (o - (l.start - l.la)) (by omega)
          have hx : l.start + (o - (l.start - l.la)) = l.la + o := by omega
          rw [hx] at hbyte
          rw [if_pos (by omega), if_pos (by omega), hbyte, Option.getD_some]
        · rw [if_neg (by omega)]
          split
          · rw [hbefore _ (by omega) (by omega), Option.getD_none]
          · rfl
    · have hold : la < l.la := by
        unfold pgsize at *
        omega
      obtain ⟨p, hp⟩ := h.page la hal hge hold
      have hne : p ≠ q := fun heq => hp.taken (heq ▸ hq.free)
      refine ⟨p, hp.free, fun hin => hp.taken (hq.grows.free hin), ?_, ?_, ?_⟩
      · refine Eq.trans ?_ hp.entry
        refine (hq.entry pgdir la).trans (if_neg ?_)
        rintro ⟨-, hpd, hpt⟩
        exact hthis (same_page hal halign (by omega) hbound hpd hpt)
      · refine iff_of_false (fun heq => hne (Option.some.inj heq).symm)
          fun heq => ?_
        have heq' : la + pgsize = l.la + pgsize := heq
        omega
      · intro o ho
        refine (congrFun (hother p hne) o).trans ((hp.frame o ho).trans ?_)
        have hin : la + o < l.la := by
          unfold pgsize at *
          omega
        rw [if_pos (by omega)]
        dsimp only
        rw [if_pos (by omega)]
  case other =>
    intro p hp
    have hp' : p ∈ t.pmm.freeSet := hp
    have hne : p ≠ q := fun heq => hq.taken (heq ▸ hp')
    exact (hother p hne).trans (h.other p (hq.grows.free hp'))

theorem rounds_stop {round : Loading → Option (Loading × Bool)} (fuel : Nat)
    (h : stop ≤ l.start) : rounds round stop fuel l = some (l, true) := by
  cases fuel with
  | zero => exact if_neg (by omega)
  | succ fuel => exact if_neg (by omega)

/-- A loop with a round for each page. -/
theorem Progress.rounds (h : Progress z n pgdir lo perm g s l) {fuel : Nat}
    (hfuel : fuel = pagesTo l.la stop) (hlo : lo ≤ l.la)
    (hla : l.la ≤ l.start) (hpage : l.start < l.la + pgsize)
    (hbound : l.la < 2 ^ 32) (hlt : l.start < stop) (hstop : stop < 2 ^ 32)
    (hnew : ∀ la, la % pgsize = 0 → l.la ≤ la → la < stop →
      ¬s.present pgdir la)
    (hbefore : ∀ x < l.start, l.la ≤ x → g x = none)
    (hfill : ∀ k size bytes, fill (l.offset + k) size = some bytes →
      ∀ i, l.start + k + i < stop → g (l.start + k + i) = some (bytes i))
    (hrun : rounds (mapRound pgdir perm stop fill) stop fuel l
      = some (r, true)) :
    r.start = stop ∧ stop ≤ r.la ∧ r.la < stop + pgsize ∧
      Progress z n pgdir lo perm g s r := by
  induction fuel generalizing l with
  | zero =>
    unfold pagesTo pgsize at hfuel
    omega
  | succ fuel ih =>
    rw [Loading.rounds, if_pos hlt] at hrun
    obtain ⟨⟨m, ok⟩, hround, hrun⟩ := Option.bind_eq_some_iff.1 hrun
    cases ok with
    | false => cases hrun
    | true =>
    dsimp only [if_pos] at hrun
    rcases h.round hlo hla hpage hbound hlt hstop
        (hnew l.la h.aligned (Nat.le_refl _) (by omega)) hbefore
        (fun size bytes => hfill 0 size bytes) hround with
      ⟨hzero, hlast⟩ | ⟨hlt32, hla', hstart, hoffset, hm⟩
    · -- wrapped around, and no round is left
      have hnone : fuel = 0 := by
        unfold pagesTo pgsize at *
        omega
      have hm : m.start < stop := by omega
      rw [hnone, Loading.rounds, if_pos hm] at hrun
      cases hrun
    by_cases hmore : m.start < stop
    · have hnext : fuel = pagesTo m.la stop := by
        unfold pagesTo pgsize at *
        omega
      refine ih hm hnext (by omega) (by omega) (by omega) (by omega) hmore
        (fun la h1 h2 h3 => hnew la h1 (by omega) h3)
        (fun x h1 h2 => absurd h2 (by omega)) ?_ hrun
      intro k size bytes hb i hi
      have hx : l.start + (m.start - l.start + k) + i = m.start + k + i := by
        omega
      rw [hoffset, Nat.add_assoc] at hb
      rw [← hx] at hi ⊢
      exact hfill _ size bytes hb i hi
    · -- the last page
      rw [rounds_stop fuel (by omega)] at hrun
      obtain rfl : m = r := (Prod.mk.inj (Option.some.inj hrun)).1
      exact ⟨by omega, by omega, by omega, hm⟩

-- ===== the rest of the last page

/-- The rest of the page in which the file part ends is cleared; the
assertion holds. -/
theorem Progress.clearRest (h : Progress z n pgdir lo perm g s l) (stop : Nat)
    (hlo : lo + pgsize ≤ l.la) (hle : l.start ≤ l.la)
    (hlt : l.la < l.start + pgsize)
    (hzero : ∀ x, l.start ≤ x → x < stop → g x = some 0) :
    ∃ r, l.clearRest stop = some r ∧ Progress z n pgdir lo perm g s r ∧
      r.la = l.la ∧ r.start = max l.start (min l.la stop) := by
  by_cases hin : l.start < l.la ∧ l.start < stop
  swap
  · exact ⟨l, if_neg hin, h, rfl, by omega⟩
  have halign := h.aligned
  obtain ⟨q, hq⟩ := h.page (l.la - pgsize) (by unfold pgsize at *; omega)
    (by omega) (by unfold pgsize at *; omega)
  have hsize : (if stop < l.la then
      pgsize - (l.start + pgsize - l.la) - (l.la - stop)
      else pgsize - (l.start + pgsize - l.la))
      = min l.la stop - l.start := by
    split <;> omega
  have hsum : l.start + (min l.la stop - l.start) = min l.la stop := by omega
  refine ⟨{ l with
    vm := l.vm.writeFrame q (l.start + pgsize - l.la)
      (min l.la stop - l.start) fun _ => 0
    start := min l.la stop }, ?_, ?_, rfl, ?_⟩
  · rw [Loading.clearRest, if_pos hin, hq.last.2 (by omega)]
    simp only [hsize, hsum]
    exact if_pos (by omega)
  swap
  · show min l.la stop = _
    omega
  have hother : ∀ p, p ≠ q → (l.vm.writeFrame q (l.start + pgsize - l.la)
      (min l.la stop - l.start) fun _ => 0).frame p = l.vm.frame p :=
    fun p hp => Function.update_of_ne hp _ _
  constructor
  case grows =>
    refine ⟨h.grows.good, h.grows.free, fun p hp => ?_, h.grows.ref⟩
    exact (hother p fun heq => hp (heq ▸ hq.free)).trans (h.grows.frame p hp)
  case aligned => exact halign
  case entry => exact h.entry
  case page =>
    intro la hal hge hla
    obtain ⟨p, hp⟩ := h.page la hal hge hla
    refine ⟨p, hp.free, hp.taken, hp.entry, hp.last, fun o ho => ?_⟩
    dsimp only
    by_cases hthis : la + pgsize = l.la
    · obtain rfl : p = q := Option.some.inj
        ((hp.last.2 hthis).symm.trans (hq.last.2 (by omega)))
      rw [l.vm.writeFrame_self, hp.frame o ho]
      by_cases hx : l.start ≤ la + o ∧ la + o < stop
      · rw [if_pos (by omega), if_pos (by omega), hzero _ hx.1 hx.2,
          Option.getD_some]
      · rw [if_neg (by omega)]
        by_cases hx' : la + o < l.start
        · rw [if_pos hx', if_pos (by omega)]
        · rw [if_neg hx', if_neg (by omega)]
    · have hne : p ≠ q := by
        rintro rfl
        exact hthis (hp.last.1 (hq.last.2 (by omega)))
      have hfar : la + o < l.start := by
        have hla' : la < l.la := hla
        unfold pgsize at *
        omega
      rw [hother p hne, hp.frame o ho, if_pos hfar, if_pos (by omega)]
  case other =>
    intro p hp
    exact (hother p fun heq => hq.taken (heq ▸ hp)).trans (h.other p hp)

/-- The same from an earlier state. -/
theorem PageHolds.earlier {s s' t : Vm} {la : Nat}
    {g : Nat → Option (BitVec 8)} (h : PageHolds s t pgdir la g)
    (hfree : s.pmm.freeSet ⊆ s'.pmm.freeSet)
    (hframe : ∀ p, p ∈ s.pmm.freeSet → s.frame p = s'.frame p) :
    PageHolds s' t pgdir la g := by
  obtain ⟨q, hq, htaken, hmaps, hval⟩ := h
  refine ⟨q, hfree hq, htaken, hmaps, fun o ho => ?_⟩
  rw [hval o ho, hframe q hq]

end Loading

namespace ProgHdr

/-- What is written at the address `x`. -/
def segByte (ph : ProgHdr) (image : Image) (x : Nat) : Option (BitVec 8) :=
  if ph.pVa ≤ x ∧ x < ph.fileEnd then
    some (image.byte (ph.pOffset + (x - ph.pVa)))
  else if ph.pVa ≤ x ∧ x < ph.memEnd then some 0
  else none

/-- The pages that are mapped for a segment. -/
def pages (ph : ProgHdr) : Set Nat :=
  {la | la % pgsize = 0 ∧ Vm.roundDown ph.pVa Vm.pgshift ≤ la ∧
    ph.pVa < max ph.fileEnd ph.memEnd ∧ la < max ph.fileEnd ph.memEnd}

end ProgHdr

namespace Vm

open Loading

variable {z n pgdir : Nat} {perm : Word} {s t : Vm} {image : Image}
  {ph : ProgHdr}

theorem roundDown_page (a : Nat) :
    roundDown a pgshift = a / pgsize * pgsize := by
  rw [roundDown, Nat.shiftRight_eq_div_pow, Nat.shiftLeft_eq]
  rfl

/-- The variables at the beginning. -/
def loadStart (s : Vm) (ph : ProgHdr) : Loading :=
  ⟨s, none, ph.pVa, roundDown ph.pVa pgshift, ph.pOffset⟩

/-- The three parts of a run that succeeds. -/
theorem loadPages_inv
    (hrun : s.loadPages pgdir perm image ph = some (t, true)) :
    ∃ f l r, rounds (fileRound pgdir perm image ph.fileEnd) ph.fileEnd
        (pagesTo (roundDown ph.pVa pgshift) ph.fileEnd) (s.loadStart ph)
          = some (f, true) ∧
      f.clearRest ph.memEnd = some l ∧
      rounds (zeroRound pgdir perm ph.memEnd) ph.memEnd
        (pagesTo l.la ph.memEnd) l = some (r, true) ∧ t = r.vm := by
  obtain ⟨⟨f, ok⟩, hfile, hrun⟩ := Option.bind_eq_some_iff.1 hrun
  cases ok with
  | false => cases hrun
  | true =>
    obtain ⟨l, hclear, hrun⟩ := Option.bind_eq_some_iff.1 hrun
    obtain ⟨⟨r, ok⟩, hzero, heq⟩ := Option.map_eq_some_iff.1 hrun
    cases heq
    exact ⟨f, l, r, hfile, hclear, hzero, rfl⟩

/-- What is left by the file part and the clearing behind it; the assertion
in between holds. -/
theorem filePart_spec {f : Loading} (hgood : s.pmm.Good z n)
    (hva : ph.pVa < 2 ^ 32) (hfresh : ∀ la ∈ ph.pages, ¬s.present pgdir la)
    (hfile : rounds (fileRound pgdir perm image ph.fileEnd) ph.fileEnd
      (pagesTo (roundDown ph.pVa pgshift) ph.fileEnd) (s.loadStart ph)
        = some (f, true)) :
    ∃ l, f.clearRest ph.memEnd = some l ∧
      Progress z n pgdir (roundDown ph.pVa pgshift) perm (ph.segByte image)
        s l ∧
      (ph.pVa < ph.fileEnd ∧ ph.fileEnd ≤ l.la ∧ l.la < ph.fileEnd + pgsize ∧
          l.start = max ph.fileEnd (min l.la ph.memEnd) ∨
        ph.fileEnd ≤ ph.pVa ∧ l = s.loadStart ph) := by
  have hround := roundDown_page ph.pVa
  have h0 : Progress z n pgdir (roundDown ph.pVa pgshift) perm
      (ph.segByte image) s (s.loadStart ph) :=
    .start hgood (by unfold pgsize at *; omega) _ _
  have hle : roundDown ph.pVa pgshift ≤ ph.pVa ∧
      ph.pVa < roundDown ph.pVa pgshift + pgsize := by
    unfold pgsize at *
    omega
  by_cases hlt : ph.pVa < ph.fileEnd
  · have hF : ph.fileEnd < 2 ^ 32 := Nat.mod_lt _ (by decide)
    obtain ⟨hstart, hla, hlast, hf⟩ := h0.rounds rfl (Nat.le_refl _) hle.1
      hle.2 (Nat.lt_of_le_of_lt hle.1 hva) hlt hF
      (fun la h1 h2 h3 => hfresh la ⟨h1, h2, by omega, by omega⟩)
      (fun x hx _ => by
        have hx : x < ph.pVa := hx
        rw [ProgHdr.segByte, if_neg (by omega), if_neg (by omega)])
      (fun k size bytes hb i hi => by
        have hoff : ph.pVa + k + i - ph.pVa = k + i := by omega
        split at hb
        · rw [← Option.some.inj hb]
          show ph.segByte image (ph.pVa + k + i) = _
          rw [ProgHdr.segByte, if_pos ⟨by omega, hi⟩, hoff, ← Nat.add_assoc]
          rfl
        · cases hb) hfile
    have halign := hf.aligned
    obtain ⟨l, hclear, hl, hlla, hlstart⟩ := hf.clearRest ph.memEnd
      (by unfold pgsize at *; omega) (by omega) (by omega)
      (fun x h1 h2 => by
        rw [ProgHdr.segByte, if_neg (by omega), if_pos (by omega)])
    exact ⟨l, hclear, hl, .inl ⟨hlt, by omega, by omega,
      by rw [hlstart, hstart, hlla]⟩⟩
  · -- nothing is read, and `start` is not below `la`
    rw [rounds_stop _ (Nat.le_of_not_lt hlt)] at hfile
    obtain rfl : s.loadStart ph = f := (Prod.mk.inj (Option.some.inj hfile)).1
    exact ⟨_, if_neg fun h => absurd h.1 (Nat.not_lt.2 hle.1), h0,
      .inr ⟨by omega, rfl⟩⟩

/-- A segment has been loaded: its pages hold it, and the other entries are
as they were. -/
structure Loaded (z n pgdir : Nat) (perm : Word) (image : Image)
    (ph : ProgHdr) (s t : Vm) : Prop where
  grows : Grows z n s t
  entry : ∀ d la, la % pgsize = 0 → la < 2 ^ 32 →
    ¬(d = pgdir ∧ la ∈ ph.pages) → t.entry d la = s.entry d la
  page : ∀ la ∈ ph.pages, ∃ q, q ∈ s.pmm.freeSet ∧ q ∉ t.pmm.freeSet ∧
    t.entry pgdir la = page2pa q ||| pteP ||| perm ∧
    ∀ o < pgsize, t.frame q o =
      (ph.segByte image (la + o)).getD (s.frame q o)

theorem loadPages_loaded (hgood : s.pmm.Good z n) (hva : ph.pVa < 2 ^ 32)
    (hfresh : ∀ la ∈ ph.pages, ¬s.present pgdir la)
    (hrun : s.loadPages pgdir perm image ph = some (t, true)) :
    Loaded z n pgdir perm image ph s t := by
  obtain ⟨f, l, r, hfile, hclear, hzero, rfl⟩ := loadPages_inv hrun
  obtain ⟨l', hclear', hl, hcase⟩ := filePart_spec hgood hva hfresh hfile
  obtain rfl : l' = l := Option.some.inj (hclear'.symm.trans hclear)
  have hM : ph.memEnd < 2 ^ 32 := Nat.mod_lt _ (by decide)
  have hround := roundDown_page ph.pVa
  have hlo : roundDown ph.pVa pgshift ≤ l'.la := by
    rcases hcase with h | h
    · unfold pgsize at *
      omega
    · rw [h.2]
      exact Nat.le_refl _
  -- where the loops end
  have hend : Progress z n pgdir (roundDown ph.pVa pgshift) perm
      (ph.segByte image) s r ∧
      (ph.pVa < max ph.fileEnd ph.memEnd ∧ r.start = max ph.fileEnd ph.memEnd ∧
          max ph.fileEnd ph.memEnd ≤ r.la ∧
          r.la < max ph.fileEnd ph.memEnd + pgsize ∨
        max ph.fileEnd ph.memEnd ≤ ph.pVa ∧
          r.la = roundDown ph.pVa pgshift) := by
    by_cases hmore : l'.start < ph.memEnd
    · have hat : l'.la ≤ l'.start ∧ l'.start < l'.la + pgsize ∧
          ph.pVa ≤ l'.start ∧ ph.fileEnd ≤ l'.start ∧
          (l'.la = l'.start ∨ l'.start = ph.pVa) := by
        rcases hcase with h | h
        · omega
        · obtain ⟨h, rfl⟩ := h
          dsimp only [loadStart] at *
          unfold pgsize at *
          omega
      obtain ⟨hstart, hla, hlast, hr⟩ := hl.rounds rfl hlo hat.1 hat.2.1
        (by omega) hmore hM
        (fun la h1 h2 h3 => hfresh la ⟨h1, by omega, by omega, by omega⟩)
        (fun x h1 h2 => by
          rw [ProgHdr.segByte, if_neg (by omega), if_neg (by omega)])
        (fun k size bytes hb i hi => by
          rw [ProgHdr.segByte, if_neg (by omega), if_pos (by omega),
            ← Option.some.inj hb]) hzero
      exact ⟨hr, .inl (by omega)⟩
    · rw [rounds_stop _ (Nat.le_of_not_lt hmore)] at hzero
      obtain rfl : l' = r := (Prod.mk.inj (Option.some.inj hzero)).1
      refine ⟨hl, ?_⟩
      rcases hcase with h | h
      · exact .inl (by omega)
      · obtain ⟨h, rfl⟩ := h
        dsimp only [loadStart] at hmore
        exact .inr ⟨by omega, rfl⟩
  obtain ⟨hr, hend⟩ := hend
  refine ⟨hr.grows, fun d la hal hlt hout => hr.entry d la hal hlt ?_, ?_⟩
  · rintro ⟨hd, h1, h2⟩
    have halign := hr.aligned
    refine hout ⟨hd, hal, h1, ?_⟩
    unfold pgsize at *
    omega
  · rintro la ⟨hal, hge, hsome, hlt⟩
    obtain ⟨q, hq⟩ := hr.page la hal hge (by omega)
    refine ⟨q, hq.free, hq.taken, hq.entry, fun o ho => ?_⟩
    rw [hq.frame o ho]
    by_cases hx : la + o < r.start
    · rw [if_pos hx]
    · rw [if_neg hx, ProgHdr.segByte, if_neg (by omega), if_neg (by omega)]

/-- What the pages of a segment hold: what is written, and otherwise what
the page held when it was free. -/
theorem loadPages_spec (hgood : s.pmm.Good z n) (hmem : z + n ≤ 2 ^ 19)
    (hperm : perm &&& ~~~0xfff#32 = 0) (hva : ph.pVa < 2 ^ 32)
    (hfresh : ∀ la ∈ ph.pages, ¬s.present pgdir la)
    (hrun : s.loadPages pgdir perm image ph = some (t, true)) {la : Nat}
    (hla : la ∈ ph.pages) : PageHolds s t pgdir la (ph.segByte image) := by
  obtain ⟨q, hfree, htaken, hentry, hframe⟩ :=
    (loadPages_loaded hgood hva hfresh hrun).page la hla
  have hq : z ≤ q ∧ q < z + n := hgood.freeSet_subset hfree
  have hmaps : t.maps pgdir la q := by
    rw [maps, present, hentry]
    exact ⟨mkPte_present q perm, mkPte_target (by omega) hperm⟩
  exact ⟨q, hfree, htaken, hmaps, hframe⟩

end Vm

end MipsUcore.Kern
