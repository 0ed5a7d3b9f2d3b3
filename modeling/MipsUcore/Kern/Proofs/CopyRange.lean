/-
What `copy_range` copies.

# The jump

Where the source has no table, the loop goes ahead by the size of a table
and rounds down to a page, not to a table. From an address inside a table
it lands at the same place inside the next one, and the entries before
that place are never looked at (`Jumped`). It happens at most once: a table
that is there is walked to its end, and the walk is aligned from then on.
So what is missed depends on the range and the source's tables alone, and
the copy is complete exactly when nothing present is missed
(`copy_range_complete_iff`).

# The induction

Over the rounds of the loop, from an arbitrary place on: what the loop does
to the rest of the range (`Walk`) is the round's own entry and what the rest
of the loop does from the next place. The next place misses what this one
misses, and nothing else of what lies ahead (`jumped_next`).
-/
import MipsUcore.Kern.Proofs.Vm

namespace MipsUcore.Kern

open Cpu

namespace Vm

variable {z n : Nat} {s t : Vm} {dst src start stop : Nat}

-- ===== what is missed

/-- The loop of `copy_range` from `start` jumps over `la`: no table up to
the one of `la`, which comes after the one of `start`, and `la` is less far
inside it than `start` is inside its own. -/
def Jumped (d : Dir) (start la : Nat) : Prop :=
  pdx start < pdx la ∧ (∀ i, pdx start ≤ i → i < pdx la → d i = none) ∧
    ptx la < ptx start

/-- From an address with a table nothing is missed. -/
theorem not_jumped_of_table {d : Dir} {la : Nat} (h : d (pdx start) ≠ none) :
    ¬Jumped d start la :=
  fun hj => h (hj.2.1 _ (Nat.le_refl _) hj.1)

/-- The next page, below the end of the user range. -/
theorem copyNext_some (hlt : start < 2 ^ 31)
    (h : (s.getPte src start).isSome) :
    s.copyNext src start = start + pgsize := by
  rw [copyNext, if_pos h]
  unfold pgsize
  omega

/-- As far ahead as a table is large. -/
theorem copyNext_none (hal : start % pgsize = 0) (hlt : start < 2 ^ 31)
    (h : s.getPte src start = none) :
    s.copyNext src start = start + ptsize := by
  rw [copyNext, h, if_neg (by decide), roundDown]
  unfold pgshift ptsize pgsize at *
  omega

/-- Where the loop goes next; it stays on pages. -/
theorem copyNext_bounds (s : Vm) (src : Nat) (hal : start % pgsize = 0)
    (hlt : start < 2 ^ 31) : start + pgsize ≤ s.copyNext src start ∧
      s.copyNext src start % pgsize = 0 := by
  cases h : s.getPte src start with
  | none =>
    rw [copyNext_none hal hlt h]
    unfold ptsize pgsize at *
    omega
  | some pte =>
    rw [copyNext_some hlt (by rw [h]; rfl)]
    unfold pgsize at *
    omega

theorem getPte_eq_none {d la : Nat} :
    s.getPte d la = none ↔ s.dir d (pdx la) = none := by
  rw [getPte, Option.map_eq_none_iff]

/-- Past the next place the same is missed from there as from here. -/
theorem jumped_next {la : Nat} (hal : start % pgsize = 0)
    (hlt : start < 2 ^ 31) (hla : la % pgsize = 0) (hla' : la < 2 ^ 31)
    (hge : s.copyNext src start ≤ la) :
    Jumped (s.dir src) (s.copyNext src start) la ↔
      Jumped (s.dir src) start la := by
  cases h : s.getPte src start with
  | some pte =>
    have htable : s.dir src (pdx start) ≠ none := by
      rw [Ne, ← getPte_eq_none, h]
      exact Option.some_ne_none _
    refine ⟨fun hj => absurd hj ?_, fun hj =>
      absurd hj (not_jumped_of_table htable)⟩
    rw [copyNext_some hlt (by rw [h]; rfl)]
    by_cases hsame : pdx (start + pgsize) = pdx start
    · refine not_jumped_of_table ?_
      rw [hsame]
      exact htable
    · -- the next table, from its first entry on
      rintro ⟨-, -, hx⟩
      rw [ptx_eq, ptx_eq] at hx
      rw [pdx_eq, pdx_eq] at hsame
      unfold pgsize at *
      omega
  | none =>
    rw [copyNext_none hal hlt h] at hge ⊢
    have hempty : s.dir src (pdx start) = none := getPte_eq_none.1 h
    have hpd : pdx (start + ptsize) = pdx start + 1 := by
      rw [pdx_eq, pdx_eq]
      unfold ptsize pgsize
      omega
    have hpt : ptx (start + ptsize) = ptx start := by
      rw [ptx_eq, ptx_eq]
      unfold ptsize pgsize
      omega
    unfold Jumped
    rw [hpt]
    constructor
    · rintro ⟨hlt', hnone, hx⟩
      refine ⟨by omega, fun i hi hi' => ?_, hx⟩
      by_cases heq : i = pdx start
      · rw [heq]
        exact hempty
      · exact hnone i (by omega) hi'
    · rintro ⟨hlt', hnone, hx⟩
      refine ⟨?_, fun i hi hi' => hnone i (by omega) hi', hx⟩
      -- in the very next table `la` would be past the place we land at
      by_contra hcon
      have heq : pdx la = pdx start + 1 := by omega
      rw [pdx_eq, pdx_eq] at heq
      rw [ptx_eq, ptx_eq] at hx
      unfold ptsize pgsize at *
      omega

/-- Between here and the next place everything in a table is missed. -/
theorem jumped_between {la : Nat} (hal : start % pgsize = 0)
    (hlt : start < 2 ^ 31) (hla : la % pgsize = 0) (hla' : la < 2 ^ 31)
    (hgt : start < la) (hle : la < s.copyNext src start)
    (htable : s.dir src (pdx la) ≠ none) : Jumped (s.dir src) start la := by
  cases h : s.getPte src start with
  | some pte =>
    rw [copyNext_some hlt (by rw [h]; rfl)] at hle
    unfold pgsize at *
    omega
  | none =>
    rw [copyNext_none hal hlt h] at hle
    have hempty : s.dir src (pdx start) = none := getPte_eq_none.1 h
    have hne : pdx la ≠ pdx start := by
      intro heq
      rw [heq] at htable
      exact htable hempty
    have hpd : pdx la = pdx start + 1 := by
      rw [pdx_eq, pdx_eq] at hne ⊢
      unfold ptsize pgsize at *
      omega
    refine ⟨by omega, fun i hi hi' => ?_, ?_⟩
    · obtain rfl : i = pdx start := by omega
      exact hempty
    · rw [pdx_eq, pdx_eq] at hpd
      rw [ptx_eq, ptx_eq]
      unfold ptsize pgsize at *
      omega

-- ===== one page

/-- The page a present entry maps. -/
def target (s : Vm) (d la : Nat) : Nat := (ppn (pteAddr (s.entry d la))).toNat

/-- A present entry of the source is copied into an entry that is not
present: a page that was free is mapped there, and nowhere else. -/
structure CopiedPage (z n : Nat) (dst la : Nat) (pte : Word) (s t : Vm)
    (q : Nat) : Prop where
  grows : Grows z n s t
  free : q ∈ s.pmm.freeSet
  taken : q ∉ t.pmm.freeSet
  frame : t.frame q = s.frame (ppn (pteAddr pte)).toNat
  ref : (t.pmm.page q).ref = 1
  entry : ∀ d' la', t.entry d' la' =
    if d' = dst ∧ pdx la' = pdx la ∧ ptx la' = ptx la then
      page2pa q ||| pteP ||| pte &&& pteUser
    else s.entry d' la'
  dirs : ∀ d', d' ≠ dst → t.dir d' = s.dir d'

theorem copyPage_spec (h : s.pmm.Good z n) {la : Nat} {pte : Word}
    (hnp : ¬s.present dst la) (hrun : s.copyPage dst la pte = some (t, true)) :
    ∃ q, CopiedPage z n dst la pte s t q := by
  rcases getPteCreate_spec h dst la with hnone |
    ⟨u, hcreate, hgrows, htable, hframe, hentry, hdirs⟩
  · rw [copyPage, hnone] at hrun
    simp at hrun
  · rw [copyPage, hcreate, Option.bind_some] at hrun
    cases hpage : u.pte2page pte with
    | none =>
      rw [hpage] at hrun
      simp at hrun
    | some page =>
      have hnum : page = (ppn (pteAddr pte)).toNat := by
        unfold pte2page pa2page at hpage
        split at hpage
        · split at hpage
          · exact (Option.some.inj hpage).symm
          · cases hpage
        · cases hpage
      rw [hpage, Option.bind_some] at hrun
      rcases allocPages_one hgrows.good with halloc |
        ⟨v, q, halloc, hgrows', hin, hout, href, hdirs', hframe'⟩
      · rw [halloc] at hrun
        simp at hrun
      · have htable' : ((v.setFrame q (v.frame page)).dir dst
            (pdx la)).isSome := by
          show (v.dir dst (pdx la)).isSome
          rw [hdirs']
          exact htable
        have hsame : ∀ d' la', (v.setFrame q (v.frame page)).entry d' la'
            = s.entry d' la' := by
          intro d' la'
          rw [← hentry d' la']
          exact entry_congr (congrFun hdirs' d')
        have hnp' : ¬(v.setFrame q (v.frame page)).present dst la := by
          rw [present, hsame]
          exact hnp
        rw [halloc, Option.bind_some, Option.bind_some,
          pageInsert_eq htable' hnp'] at hrun
        cases hrun
        have hfree : q ∈ s.pmm.freeSet := hgrows.free hin
        have hbase : Grows z n s (v.setFrame q (v.frame page)) := by
          have hboth := hgrows.trans hgrows'
          refine ⟨hboth.good, hboth.free, fun p hp => ?_, hboth.ref⟩
          have hne : p ≠ q := fun heq => hp (heq ▸ hfree)
          rw [← hboth.frame p hp]
          exact Function.update_of_ne hne _ _
        refine ⟨q, ?_, hfree, ?_, ?_, ?_, fun d' la' => ?_, fun d' hd => ?_⟩
        · exact (hbase.pageRefAdd hfree hout 1).of_dir (setPte_kmem _ _ _ _)
            (setPte_frame _ _ _ _)
        · rw [pmm, setPte_kmem]
          exact hout
        · rw [setPte_frame]
          show Function.update v.frame q (v.frame page) q = _
          rw [Function.update_self, hframe', hframe, hnum]
        · rw [pmm, setPte_kmem]
          have hcount := pageRefAdd_ref (v.setFrame q (v.frame page)) q 1
          have hzero : ((v.setFrame q (v.frame page)).pmm.page q).ref = 0 :=
            href
          rw [hzero] at hcount
          exact hcount
        · rw [entry_insert htable', hsame]
        · rw [setPte_dir_ne _ _ _ hd]
          show v.dir d' = s.dir d'
          rw [hdirs', hdirs d' hd]

-- ===== the walk

/-- What the loop does to the rest of the range, from `start` on. -/
structure Walk (z n dst src start stop : Nat) (s t : Vm) : Prop where
  grows : Grows z n s t
  dirs : ∀ d, d ≠ dst → t.dir d = s.dir d
  kept : ∀ la, la % pgsize = 0 → la < 2 ^ 32 →
    ¬(start ≤ la ∧ la < stop ∧ s.present src la ∧
      ¬Jumped (s.dir src) start la) → t.entry dst la = s.entry dst la
  copied : ∀ la, la % pgsize = 0 → start ≤ la → la < stop →
    s.present src la → ¬Jumped (s.dir src) start la →
    ∃ q, q ∈ s.pmm.freeSet ∧ q ∉ t.pmm.freeSet ∧
      t.entry dst la = page2pa q ||| pteP ||| s.entry src la &&& pteUser ∧
      t.frame q = s.frame (s.target src la) ∧ (t.pmm.page q).ref = 1 ∧
      ∀ d' la', la' % pgsize = 0 → la' < 2 ^ 32 → t.maps d' la' q →
        d' = dst ∧ la' = la

/-- What the loop starts from: no page of the rest is present in the
destination, and no mapped page is free. -/
structure Ready (z n dst start stop : Nat) (s : Vm) : Prop where
  good : s.pmm.Good z n
  absent : ∀ la, la % pgsize = 0 → start ≤ la → la < stop →
    ¬s.present dst la
  inUse : ∀ d la q, s.maps d la q → q ∉ s.pmm.freeSet

theorem Walk.done (h : s.pmm.Good z n) (hle : stop ≤ start) :
    Walk z n dst src start stop s s where
  grows := .refl h
  dirs _ _ := rfl
  kept _ _ _ _ := rfl
  copied la _ hge hlt := absurd hge (by omega)

/-- A round that copies nothing. -/
theorem Walk.skip (hal : start % pgsize = 0) (hlt : start < 2 ^ 31)
    (hstop : stop ≤ 2 ^ 31) (hnp : ¬s.present src start)
    (h : Walk z n dst src (s.copyNext src start) stop s t) :
    Walk z n dst src start stop s t := by
  obtain ⟨hnext, -⟩ := s.copyNext_bounds src hal hlt
  -- a place that is copied later
  have hlater : ∀ la, la % pgsize = 0 → start ≤ la → la < stop →
      s.present src la → ¬Jumped (s.dir src) start la →
      s.copyNext src start ≤ la := by
    intro la hla hge hlt' hp hj
    by_contra hcon
    have hne : la ≠ start := by
      rintro rfl
      exact hnp hp
    refine hj (jumped_between hal hlt hla (by omega) (by omega) (by omega) ?_)
    rw [Ne, ← getPte_eq_none, getPte_of_present hp]
    exact Option.some_ne_none _
  refine ⟨h.grows, h.dirs, ?_, ?_⟩
  · intro la hla hla' hnot
    refine h.kept la hla hla' ?_
    rintro ⟨hge, hlt', hp, hj⟩
    refine hnot ⟨by omega, hlt', hp, fun hj' => hj ?_⟩
    exact (jumped_next hal hlt hla (by omega) hge).2 hj'
  · intro la hla hge hlt' hp hj
    have hge' := hlater la hla hge hlt' hp hj
    refine h.copied la hla hge' hlt' hp fun hj' => hj ?_
    exact (jumped_next hal hlt hla (by omega) hge').1 hj'

/-- What is ready stays ready when a page has been copied. -/
theorem CopiedPage.ready {u : Vm} {q : Nat} {pte : Word}
    (hmem : z + n ≤ 2 ^ 19)
    (hpte : ptepPresent pte = true) (hr : Ready z n dst start stop s)
    (h : CopiedPage z n dst start pte s u q) (hal : start % pgsize = 0)
    (hstop : stop ≤ 2 ^ 31) : Ready z n dst (start + pgsize) stop u where
  good := h.grows.good
  absent la hla hge hlt := by
    rw [present, h.entry, if_neg]
    · exact hr.absent la hla (by omega) hlt
    · rintro ⟨-, hd, ht⟩
      have heq := same_page hla hal (by omega) (by omega) hd ht
      unfold pgsize at hge
      omega
  inUse d la q' hm hin := by
    have hq : q < 2 ^ 19 := by
      have := hr.good.freeSet_subset h.free
      exact Nat.lt_of_lt_of_le this.2 hmem
    rw [maps, present, h.entry] at hm
    split at hm
    · rw [(mkPte_spec hq hpte).2.1] at hm
      exact h.taken (hm.2 ▸ hin)
    · exact hr.inUse d la q' hm (h.grows.free hin)

/-- A round that copies a page. -/
theorem Walk.copy {u : Vm} {q : Nat} (hmem : z + n ≤ 2 ^ 19)
    (hal : start % pgsize = 0) (hlt : start < stop) (hstop : stop ≤ 2 ^ 31)
    (hr : Ready z n dst start stop s) (hp : s.present src start)
    (hc : CopiedPage z n dst start (s.entry src start) s u q)
    (h : Walk z n dst src (start + pgsize) stop u t) :
    Walk z n dst src start stop s t := by
  have hne : src ≠ dst := by
    rintro rfl
    exact hr.absent start hal (Nat.le_refl _) hlt hp
  have hdir : u.dir src = s.dir src := hc.dirs src hne
  have hentry : ∀ la, u.entry src la = s.entry src la :=
    fun la => entry_congr hdir
  have hpresent : ∀ la, u.present src la ↔ s.present src la := by
    intro la
    rw [present, present, hentry]
  have hnext : s.copyNext src start = start + pgsize :=
    copyNext_some (by omega) (by rw [getPte_of_present hp]; rfl)
  have hjump : ∀ la, la % pgsize = 0 → la < stop → start + pgsize ≤ la →
      (Jumped (u.dir src) (start + pgsize) la ↔
        Jumped (s.dir src) start la) := by
    intro la hla hlt' hge
    rw [hdir, ← hnext]
    refine jumped_next hal (by omega) hla (by omega) ?_
    rw [hnext]
    exact hge
  have hpg : 0 < pgsize := by decide
  -- the entry that was just written, and the others
  have hself : u.entry dst start
      = page2pa q ||| pteP ||| s.entry src start &&& pteUser := by
    rw [hc.entry, if_pos ⟨rfl, rfl, rfl⟩]
  have hother : ∀ la, la % pgsize = 0 → la < 2 ^ 32 → la ≠ start →
      u.entry dst la = s.entry dst la := by
    intro la hla hla' hne'
    rw [hc.entry, if_neg]
    rintro ⟨-, hd, ht⟩
    exact hne' (same_page hla hal hla' (by omega) hd ht)
  have hlaterkept : ∀ la, la % pgsize = 0 → la < 2 ^ 32 →
      ¬(start + pgsize ≤ la ∧ la < stop ∧ s.present src la ∧
        ¬Jumped (s.dir src) start la) → t.entry dst la = u.entry dst la := by
    intro la hla hla' hnot
    refine h.kept la hla hla' ?_
    rintro ⟨hge, hlt', hp', hj⟩
    exact hnot ⟨hge, hlt', (hpresent la).1 hp', fun hj' =>
      hj ((hjump la hla hlt' hge).2 hj')⟩
  -- pages start to start, so nothing lies between
  have hstep : ∀ la, la % pgsize = 0 → start ≤ la → la ≠ start →
      start + pgsize ≤ la := by
    intro la hla hge hne'
    unfold pgsize at *
    omega
  refine ⟨hc.grows.trans h.grows,
    fun d hd => (h.dirs d hd).trans (hc.dirs d hd), ?_, ?_⟩
  · intro la hla hla' hnot
    have hne' : la ≠ start := by
      rintro rfl
      exact hnot ⟨Nat.le_refl _, hlt, hp, fun hj => Nat.lt_irrefl _ hj.1⟩
    rw [hlaterkept la hla hla' fun hall => hnot ⟨by omega, hall.2⟩]
    exact hother la hla hla' hne'
  · intro la hla hge hlt' hp' hj
    by_cases heq : la = start
    · subst heq
      refine ⟨q, hc.free, fun hin => hc.taken (h.grows.free hin),
        ?_, ?_, ?_, ?_⟩
      · rw [hlaterkept la hla (by omega) fun hall => by omega]
        exact hself
      · rw [h.grows.frame q hc.taken]
        exact hc.frame
      · rw [h.grows.ref q hc.taken]
        exact hc.ref
      · intro d' la' hla' hlt'' hm
        by_cases hd : d' = dst
        · subst hd
          refine ⟨rfl, ?_⟩
          by_contra hne'
          by_cases hin : la + pgsize ≤ la' ∧ la' < stop ∧ s.present src la' ∧
              ¬Jumped (s.dir src) la la'
          · obtain ⟨hge', hlt3, hp3, hj3⟩ := hin
            obtain ⟨q', hfree', -, hent, -⟩ := h.copied la' hla' hge' hlt3
              ((hpresent la').2 hp3)
              fun hj' => hj3 ((hjump la' hla' hlt3 hge').1 hj')
            have hq' : q' < 2 ^ 19 := by
              have := hc.grows.good.freeSet_subset hfree'
              exact Nat.lt_of_lt_of_le this.2 hmem
            rw [maps, hent, hentry, (mkPte_spec hq' hp3).2.1] at hm
            exact hc.taken (hm.2 ▸ hfree')
          · rw [maps, present, hlaterkept la' hla' hlt'' hin,
              hother la' hla' hlt'' hne'] at hm
            exact hr.inUse d' la' q hm hc.free
        · rw [maps, present, entry_congr (h.dirs d' hd),
            entry_congr (hc.dirs d' hd)] at hm
          exact absurd hc.free (hr.inUse d' la' q hm)
    · have hge' := hstep la hla hge heq
      obtain ⟨q', hfree', htaken, hent, hframe, href, huniq⟩ :=
        h.copied la hla hge' hlt' ((hpresent la).2 hp')
          fun hj' => hj ((hjump la hla hlt' hge').1 hj')
      refine ⟨q', hc.grows.free hfree', htaken, ?_, ?_, href, huniq⟩
      · rw [hent, hentry]
      · rw [hframe, target, hentry]
        exact hc.grows.frame _ (hr.inUse src la _ ⟨hp', rfl⟩)

/-- The loop of `copy_range`, when it ends with 0. -/
theorem copyLoop_walk (hmem : z + n ≤ 2 ^ 19) (hstop : stop ≤ 2 ^ 31)
    {fuel : Nat} (hal : start % pgsize = 0) (hlt : start < stop)
    (hr : Ready z n dst start stop s)
    (hrun : copyLoop dst src stop fuel s start = some (t, true)) :
    Walk z n dst src start stop s t := by
  induction fuel generalizing s start with
  | zero => cases hrun
  | succ fuel ih =>
    obtain ⟨hnext, hal'⟩ := s.copyNext_bounds src hal (by omega)
    have hpos : s.copyNext src start ≠ 0 := by
      have : 0 < pgsize := by decide
      omega
    -- the rest of the loop, from a state that is ready for it
    have hrest : ∀ u : Vm, Ready z n dst (s.copyNext src start) stop u →
        (if s.copyNext src start ≠ 0 ∧ s.copyNext src start < stop then
          copyLoop dst src stop fuel u (s.copyNext src start)
        else some (u, true)) = some (t, true) →
        Walk z n dst src (s.copyNext src start) stop u t := by
      intro u hu hru
      by_cases hmore : s.copyNext src start < stop
      · rw [if_pos ⟨hpos, hmore⟩] at hru
        exact ih hal' hmore hu hru
      · rw [if_neg fun hall => hmore hall.2] at hru
        cases hru
        exact .done hu.good (by omega)
    rw [copyLoop] at hrun
    by_cases hp : s.present src start
    · have hget := getPte_of_present hp
      have hstep : s.copyStep dst src start
          = s.copyPage dst start (s.entry src start) := by
        rw [copyStep, hget]
        exact if_pos hp
      rw [hstep] at hrun
      cases hcopy : s.copyPage dst start (s.entry src start) with
      | none =>
        rw [hcopy] at hrun
        cases hrun
      | some r =>
        obtain ⟨u, ok⟩ := r
        rw [hcopy] at hrun
        cases ok with
        | false =>
          cases hrun
        | true =>
          obtain ⟨q, hc⟩ := copyPage_spec hr.good
            (hr.absent start hal (Nat.le_refl _) hlt) hcopy
          have heq : s.copyNext src start = start + pgsize :=
            copyNext_some (by omega) (by rw [hget]; rfl)
          have hu := hc.ready hmem hp hr hal hstop
          refine .copy hmem hal hlt hstop hr hp hc ?_
          rw [← heq] at hu ⊢
          exact hrest u hu hrun
    · have hstep : s.copyStep dst src start = some (s, true) := by
        rw [copyStep]
        cases hget : s.getPte src start with
        | none => rfl
        | some pte =>
          rw [Option.elim_some, if_neg]
          rw [present, entry_of_getPte hget] at hp
          exact hp
      rw [hstep, Option.bind_some] at hrun
      refine .skip hal (by omega) hstop hp
        (hrest s ⟨hr.good, ?_, hr.inUse⟩ hrun)
      exact fun la hla hge hlt' => hr.absent la hla (by omega) hlt'

-- ===== copy_range

/-- The address range of `src` is copied to `dst`: the same pages are
present, with the same user bits, on new pages of their own with the same
contents; everything else is as it was. -/
structure Copied (dst src start stop : Nat) (s t : Vm) : Prop where
  present_iff : ∀ la, la % pgsize = 0 → start ≤ la → la < stop →
    (t.present dst la ↔ s.present src la)
  copy : ∀ la, la % pgsize = 0 → start ≤ la → la < stop →
    s.present src la → ∃ q, t.maps dst la q ∧
      t.entry dst la &&& pteUser = s.entry src la &&& pteUser ∧
      q ∈ s.pmm.freeSet ∧ (t.pmm.page q).ref = 1 ∧
      (∀ d' la', la' % pgsize = 0 → la' < 2 ^ 32 → t.maps d' la' q →
        d' = dst ∧ la' = la) ∧
      ∀ o < pgsize, t.frame q o = s.frame (s.target src la) o
  source : ∀ la, la % pgsize = 0 → la < 2 ^ 32 →
    t.entry src la = s.entry src la
  sourcePages : ∀ la, s.present src la →
    t.frame (s.target src la) = s.frame (s.target src la)
  outside : ∀ la, la % pgsize = 0 → la < 2 ^ 32 →
    ¬(start ≤ la ∧ la < stop) → t.entry dst la = s.entry dst la

/-- When `copy_range` returns 0 it has copied the range, exactly if the loop
jumps over no present page of the source. Memory is at most 2 GB, as the
kernel segment is; `KMEMSIZE` is 4 MB on the board and 32 MB elsewhere. -/
theorem copy_range_complete_iff (hgood : s.pmm.Good z n)
    (hmem : z + n ≤ 2 ^ 19)
    (hinUse : ∀ d la q, s.maps d la q → q ∉ s.pmm.freeSet)
    (habsent : ∀ la, la % pgsize = 0 → start ≤ la → la < stop →
      ¬s.present dst la) (share : Bool)
    (hrun : s.copyRange dst src start stop share = some (t, true)) :
    Copied dst src start stop s t ↔
      ∀ la, la % pgsize = 0 → start ≤ la → la < stop → s.present src la →
        ¬Jumped (s.dir src) start la := by
  unfold copyRange at hrun
  split at hrun
  case isFalse => cases hrun
  case isTrue hcheck =>
  obtain ⟨hal, -, -, hlt, hstop⟩ := hcheck
  have hwalk := copyLoop_walk hmem hstop hal hlt ⟨hgood, habsent, hinUse⟩ hrun
  constructor
  · intro h la hla hge hlt' hp hj
    have hkept := hwalk.kept la hla (by omega) fun hall => hall.2.2.2 hj
    refine habsent la hla hge hlt' ?_
    rw [present, ← hkept]
    exact (h.present_iff la hla hge hlt').2 hp
  · intro hnone
    have hcopied : ∀ la, la % pgsize = 0 → start ≤ la → la < stop →
        s.present src la → ∃ q, q < 2 ^ 19 ∧ q ∈ s.pmm.freeSet ∧
          t.entry dst la = page2pa q ||| pteP ||| s.entry src la &&& pteUser ∧
          t.frame q = s.frame (s.target src la) ∧ (t.pmm.page q).ref = 1 ∧
          ∀ d' la', la' % pgsize = 0 → la' < 2 ^ 32 → t.maps d' la' q →
            d' = dst ∧ la' = la := by
      intro la hla hge hlt' hp
      obtain ⟨q, hfree, -, hrest⟩ :=
        hwalk.copied la hla hge hlt' hp (hnone la hla hge hlt' hp)
      have hin := hgood.freeSet_subset hfree
      exact ⟨q, Nat.lt_of_lt_of_le hin.2 hmem, hfree, hrest⟩
    constructor
    case present_iff =>
      intro la hla hge hlt'
      constructor
      · intro hp
        by_contra hnp
        rw [present, hwalk.kept la hla (by omega) fun hall => hnp hall.2.2.1]
          at hp
        exact habsent la hla hge hlt' hp
      · intro hp
        obtain ⟨q, hq, -, hent, -⟩ := hcopied la hla hge hlt' hp
        rw [present, hent]
        exact (mkPte_spec hq hp).1
    case copy =>
      intro la hla hge hlt' hp
      obtain ⟨q, hq, hfree, hent, hframe, href, huniq⟩ :=
        hcopied la hla hge hlt' hp
      obtain ⟨hpres, hppn, huser⟩ := mkPte_spec hq hp
      refine ⟨q, ⟨?_, ?_⟩, ?_, hfree, href, huniq, ?_⟩
      · rw [present, hent]
        exact hpres
      · rw [hent]
        exact hppn
      · rw [hent]
        exact huser
      · intro o _
        rw [hframe]
    case source =>
      intro la hla hla'
      by_cases hd : src = dst
      · subst hd
        refine hwalk.kept la hla hla' ?_
        rintro ⟨hge, hlt', hp, -⟩
        exact habsent la hla hge hlt' hp
      · exact entry_congr (hwalk.dirs src hd)
    case sourcePages =>
      intro la hp
      exact hwalk.grows.frame _ (hinUse src la _ ⟨hp, rfl⟩)
    case outside =>
      intro la hla hla' hout
      exact hwalk.kept la hla hla' fun hall => hout ⟨hall.1, hall.2.1⟩

-- ===== an example

/-- Eleven free pages from page 5 on; the directory in page 3 maps page 2
at `0x10400000`, through a table in page 1. -/
def sampleVm : Vm where
  kmem :=
    { pmm := (Buddy.samplePages.boot.initMemmap 5 11).getD Buddy.samplePages
      config := fun _ => ⟨0, 0, 0, 0, false, 0, 0⟩
      slabsFull := fun _ => []
      slabsNotfull := fun _ => []
      slab := fun _ => ⟨0, 0, 0, 0, id⟩
      pageCache := fun _ => 0
      pageSlab := fun _ => 0 }
  frame page o := BitVec.ofNat 8 (page + o)
  dir d i :=
    if d = 3 ∧ i = 65 then
      some (1, fun j => if j = 0 then page2pa 2 ||| pteUser else 0)
    else none

theorem sampleVm_good : sampleVm.pmm.Good 5 11 := by
  obtain ⟨b, hb, hf⟩ := Buddy.initMemmap_spec (z := 5) (n := 11)
    Buddy.samplePages rfl (by decide) (by decide)
  have hpmm : sampleVm.pmm = b := by
    show (Buddy.samplePages.boot.initMemmap 5 11).getD Buddy.samplePages = b
    rw [hb, Option.getD_some]
  rw [hpmm]
  exact hf.good

theorem sampleVm_entry (d la : Nat) : sampleVm.entry d la =
    if d = 3 ∧ pdx la = 65 ∧ ptx la = 0 then page2pa 2 ||| pteUser else 0 := by
  unfold entry getPte sampleVm
  by_cases hd : d = 3 ∧ pdx la = 65
  · by_cases ht : ptx la = 0
    · simp [hd, ht]
    · simp [hd, ht]
  · have hall : ¬(d = 3 ∧ pdx la = 65 ∧ ptx la = 0) := fun h => hd ⟨h.1, h.2.1⟩
    simp [hd, hall]

theorem sampleVm_present (d la : Nat) :
    sampleVm.present d la ↔ d = 3 ∧ pdx la = 65 ∧ ptx la = 0 := by
  rw [present, sampleVm_entry]
  by_cases h : d = 3 ∧ pdx la = 65 ∧ ptx la = 0
  · simp only [h, and_self, iff_true]
    decide
  · simp only [h, iff_false]
    decide

theorem sampleVm_inUse (d la q : Nat) (h : sampleVm.maps d la q) :
    q ∉ sampleVm.pmm.freeSet := by
  obtain ⟨hp, hq⟩ := h
  rw [sampleVm_entry, if_pos ((sampleVm_present d la).1 hp)] at hq
  have htwo : (ppn (pteAddr (page2pa 2 ||| pteUser))).toNat = 2 := by decide
  intro hin
  have hlo : 5 ≤ q := (sampleVm_good.freeSet_subset hin).1
  omega

theorem sampleVm_absent (start stop la : Nat) (_ : la % pgsize = 0)
    (_ : start ≤ la) (_ : la < stop) : ¬sampleVm.present 4 la := by
  rw [sampleVm_present]
  exact fun h => absurd h.1 (by decide)

/-- One page is copied. -/
theorem copy_range_complete_one :
    ∃ t, sampleVm.copyRange 4 3 0x10400000 0x10402000 false
        = some (t, true) ∧
      Copied 4 3 0x10400000 0x10402000 sampleVm t := by
  refine ⟨_, rfl, ?_⟩
  refine (copy_range_complete_iff sampleVm_good (by decide) sampleVm_inUse
    (sampleVm_absent _ _) false rfl).2 ?_
  intro la _ _ _ _ hj
  exact Nat.not_lt_zero _ hj.2.2

/-- From `0x10001000`, which has no table, the loop goes to `0x10401000`:
the page at `0x10400000` is not copied. -/
theorem copy_range_misses_page :
    sampleVm.pmm.Good 5 11 ∧
      (∀ d la q, sampleVm.maps d la q → q ∉ sampleVm.pmm.freeSet) ∧
      (∀ la, la % pgsize = 0 → 0x10001000 ≤ la → la < 0x10402000 →
        ¬sampleVm.present 4 la) ∧
      sampleVm.copyRange 4 3 0x10001000 0x10402000 false
        = some (sampleVm, true) ∧
      sampleVm.present 3 0x10400000 ∧
      ¬Copied 4 3 0x10001000 0x10402000 sampleVm sampleVm := by
  have hp : sampleVm.present 3 0x10400000 :=
    (sampleVm_present _ _).2 (by decide)
  refine ⟨sampleVm_good, sampleVm_inUse, sampleVm_absent _ _, rfl, hp, ?_⟩
  intro h
  have hcopy := (h.present_iff 0x10400000 (by decide) (by decide)
    (by decide)).2 hp
  rw [sampleVm_present] at hcopy
  exact absurd hcopy.1 (by decide)

end Vm

end MipsUcore.Kern
