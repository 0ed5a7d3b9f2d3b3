/-
A fetched word and its address stay together.

# Requests

The bus is pipelined: a request that is on it at a ready edge is accepted,
and the word at the next ready edge answers it. `Fetching` writes down the
request whose answer is still to come and the last one that was answered,
each with the address it was made for and the contents of the translation
buffer at the time.

# The pair

The address in PC is the one the request in flight was made for, and PC's
mark says whether it was translated (`Fetching.Paired`). An access in EX
takes the bus for one request. The word that answers the fetch in that
cycle is kept in `LastResult`, while PC stays, and is passed on in the next
one. Behind a flush the request in flight is for nobody; the word that
answers it is replaced by the empty word, and PC is presented again.

# Order

In front of ID stands the next instruction of the program, as the branches
passed on so far say; each instruction that ID passes on is that one
(`Pipe.latches_in_order`).
-/
import MipsUcore.Cpu.Proofs.InOrder
import MipsUcore.Cpu.System
import MipsUcore.Soc.Bus

namespace MipsUcore.Cpu

open Machine

-- ===== requests

/-- A request that the bus accepted: the virtual address, the translation
buffer at the time, and what was driven. -/
structure Presented where
  virtualAddress : Word
  isFetch : Bool
  tlb : Tlb
  request : BusRequest

/-- The request of a ready edge out of reset. -/
def State.presented (s : State) (i : Input) : Presented where
  virtualAddress := s.virtualAddress i.cpuRomData
  isFetch := !s.flush && !s.ram.active
  tlb := s.tlb
  request := s.busOut i

/-- The processor with the requests on the bus. `pending` is not answered
yet, `answered` is the one before, with its word. In reset the bus has
accepted nothing. -/
structure Fetching where
  pipe : Pipe
  pending : Option Presented
  answered : Option (Presented × Word)

namespace Fetching

def boot (u : State) (serial : Bool) : Fetching :=
  ⟨.boot u serial, none, none⟩

def next (q : Fetching) (i : Input) : Fetching where
  pipe := q.pipe.next i
  pending :=
    if i.cpuBusReady then some (q.pipe.cpu.presented i) else q.pending
  answered :=
    if i.cpuBusReady then q.pending.map fun r => (r, i.cpuRomData)
    else q.answered

def step (q : Fetching) (i : Input) : Fetching :=
  if i.reset then q.next i else ⟨q.pipe.step i, none, none⟩

/-- The requests that are answered when the bus is ready: the one in flight
by the word on the bus now, and the one before. -/
def Answer (q : Fetching) (i : Input) (r : Presented) (w : Word) : Prop :=
  (q.pending = some r ∧ w = i.cpuRomData) ∨ q.answered = some (r, w)

end Fetching

/-- The request fetches the instruction at `pc`, whose translation is
`miss`ing or not. -/
structure Presented.Fetches (r : Presented) (pc : Word) (miss : Bool) :
    Prop where
  isFetch : r.isFetch = true
  virtualAddress : r.virtualAddress = pc
  miss : miss = !(r.tlb.lookup pc false).validAddress
  request : r.request = r.tlb.fetch pc

-- ===== the pair

/-- PC belongs to the request in flight, or to the one that was answered
while an access had the bus. -/
structure Fetching.Paired (q : Fetching) : Prop where
  tracks : q.pipe.Tracks
  fetch : q.pipe.cpu.control.isFlush = false →
    q.pipe.cpu.control.isLoadStore = false → ∀ r, q.pending = some r →
    r.Fetches q.pipe.cpu.pcRegister.pc q.pipe.cpu.pcRegister.pcTLBMissOut
  kept : q.pipe.cpu.control.isLoadStore = true →
    ∃ r, q.answered = some (r, q.pipe.cpu.control.lastResult) ∧
      r.Fetches q.pipe.cpu.pcRegister.pc q.pipe.cpu.pcRegister.pcTLBMissOut
  reset : q.pending = none → q.pipe.idLive = false

namespace Fetching

variable {q : Fetching} {i : Input}

theorem paired_empty {p : Pipe} (ht : p.Tracks) (hid : p.idLive = false)
    (hls : p.cpu.control.isLoadStore = false) :
    (⟨p, none, none⟩ : Fetching).Paired where
  tracks := ht
  fetch _ _ r hr := by cases hr
  kept h := by
    rw [hls] at h
    cases h
  reset _ := hid

theorem Paired.wait (h : q.Paired) (hready : i.cpuBusReady = false) :
    (q.next i).Paired := by
  have hw := State.waited (s := q.pipe.cpu) hready
  have hnext : q.next i = ⟨q.pipe.next i, q.pending, q.answered⟩ := by
    simp [next, hready]
  rw [hnext]
  refine ⟨h.tracks.next i, ?_, ?_, ?_⟩
  · show (q.pipe.cpu.clock i).control.isFlush = false →
      (q.pipe.cpu.clock i).control.isLoadStore = false →
      ∀ r : Presented, _ →
      r.Fetches (q.pipe.cpu.clock i).pcRegister.pc
        (q.pipe.cpu.clock i).pcRegister.pcTLBMissOut
    rw [hw.isFlush, hw.isLoadStore, hw.pcRegister]
    exact h.fetch
  · show (q.pipe.cpu.clock i).control.isLoadStore = true →
      ∃ r : Presented, _ = some (r, (q.pipe.cpu.clock i).control.lastResult) ∧
      r.Fetches (q.pipe.cpu.clock i).pcRegister.pc
        (q.pipe.cpu.clock i).pcRegister.pcTLBMissOut
    rw [hw.isLoadStore, hw.lastResult, hw.pcRegister]
    exact h.kept
  · intro hr
    rw [Pipe.next_wait hready]
    exact h.reset hr

theorem Paired.flush (h : q.Paired) (hready : i.cpuBusReady = true)
    (hflush : q.pipe.cpu.flush = true) : (q.next i).Paired := by
  have hf := State.flushed hready hflush
  refine ⟨h.tracks.next i, ?_, ?_, ?_⟩
  · intro hn
    have : (q.pipe.cpu.clock i).control.isFlush = false := hn
    rw [hf.isFlush] at this
    cases this
  · intro hn
    have : (q.pipe.cpu.clock i).control.isLoadStore = true := hn
    rw [hf.isLoadStore] at this
    cases this
  · intro _
    show (q.pipe.next i).idLive = false
    rw [Pipe.next_flush hready hflush]

/-- An access takes the bus: the word of the fetch is kept. -/
theorem Paired.stall (h : q.Paired) (hready : i.cpuBusReady = true)
    (hflush : q.pipe.cpu.flush = false)
    (hpause : q.pipe.cpu.pause = true) : (q.next i).Paired := by
  have hs := State.stalled hready hflush hpause
  obtain ⟨hex, hlive⟩ := h.tracks.pause_live hpause
  have hls : q.pipe.cpu.control.isLoadStore = false := by
    -- the instruction in EX has no access in front of it
    rw [h.tracks.isLoadStore]
    cases hm : q.pipe.mem with
    | none => rfl
    | some m =>
      cases hactive : m.inst.ram.active with
      | false => exact hactive
      | true =>
        rw [h.tracks.alone m hm hactive] at hex
        cases hex
  obtain ⟨r, hr⟩ : ∃ r, q.pending = some r := by
    cases hr : q.pending with
    | some r => exact ⟨r, rfl⟩
    | none =>
      rw [h.reset hr] at hlive
      cases hlive
  have hfetch := h.fetch (h.tracks.idLive hlive) hls r hr
  refine ⟨h.tracks.next i, ?_, ?_, ?_⟩
  · intro _ hn
    have : (q.pipe.cpu.clock i).control.isLoadStore = false := hn
    rw [hs.isLoadStore, ← State.pause_eq, hpause] at this
    cases this
  · intro _
    refine ⟨r, ?_, ?_⟩
    · show (if i.cpuBusReady then q.pending.map fun r => (r, i.cpuRomData)
        else q.answered) = some (r, (q.pipe.cpu.clock i).control.lastResult)
      rw [if_pos hready, hr, hs.lastResult]
      rfl
    · show r.Fetches (q.pipe.cpu.clock i).pcRegister.pc
        (q.pipe.cpu.clock i).pcRegister.pcTLBMissOut
      rw [hs.pcRegister]
      exact hfetch
  · intro hn
    change (if i.cpuBusReady then _ else _) = none at hn
    rw [if_pos hready] at hn
    cases hn

end Fetching

/-- Without an access the request is a fetch of the address that goes to
PC. -/
theorem State.presented_fetches {s : State} {i : Input} (hlive : i.Live)
    (hflush : s.flush = false) (hram : s.ram.active = false) {pc : Word}
    (hpc : s.virtualAddress i.cpuRomData = pc) :
    (s.presented i).Fetches pc (s.pcTLBMiss i.cpuRomData) := by
  obtain ⟨hr, hw⟩ := Bool.or_eq_false_iff.mp hram
  have htr : s.translation i.cpuRomData = s.tlb.lookup pc false := by
    unfold translation
    rw [hpc, hw]
  refine ⟨?_, hpc, ?_, ?_⟩
  · show (!s.flush && !s.ram.active) = true
    rw [hflush, hram]
    rfl
  · show pcReadTLBMiss s.ram _ = _
    unfold pcReadTLBMiss
    rw [hw, hr, htr]
    rfl
  · show s.busOut i = _
    unfold busOut bus Tlb.fetch busRequest
    rw [hlive, hflush, htr]
    simp only [tempDataSize, hw, hr]
    rfl

namespace Fetching

variable {q : Fetching} {i : Input}

theorem Paired.advance (h : q.Paired) (hlive : i.Live)
    (hready : i.cpuBusReady = true) (hflush : q.pipe.cpu.flush = false)
    (hpause : q.pipe.cpu.pause = false) : (q.next i).Paired := by
  have ha := State.advanced hready hflush hpause
  have hram : q.pipe.cpu.ram.active = false := by
    rw [← State.pause_eq]
    exact hpause
  have hls : (q.pipe.cpu.clock i).control.isLoadStore = false := by
    rw [ha.isLoadStore]
    exact hram
  have hsome : (q.next i).pending = some (q.pipe.cpu.presented i) :=
    if_pos hready
  refine ⟨h.tracks.next i, ?_, ?_, ?_⟩
  · intro _ _ r hr
    rw [hsome] at hr
    cases hr
    show (q.pipe.cpu.presented i).Fetches (q.pipe.cpu.clock i).pcRegister.pc
      (q.pipe.cpu.clock i).pcRegister.pcTLBMissOut
    obtain ⟨hread, hwrite⟩ := Bool.or_eq_false_iff.mp hram
    rw [ha.pcRegister]
    cases hb : (q.pipe.cpu.branchOut i.cpuRomData).branchFlag with
    | true | false =>
      refine State.presented_fetches hlive hflush hram ?_
      unfold State.virtualAddress tlbVirtualAddress
      rw [hwrite, hread, hb]
      rfl
  · intro hn
    change (q.pipe.cpu.clock i).control.isLoadStore = true at hn
    rw [hls] at hn
    cases hn
  · intro hn
    rw [hsome] at hn
    cases hn

theorem Paired.step (h : q.Paired) (i : Input) : (q.step i).Paired := by
  unfold Fetching.step
  cases hlive : i.reset with
  | false =>
    have hpipe : q.pipe.step i = .empty (q.pipe.cpu.resetEdge i) := by
      simp [Pipe.step, hlive]
    rw [hpipe]
    exact paired_empty (Pipe.tracks_empty rfl rfl rfl rfl rfl rfl) rfl rfl
  | true =>
    cases hready : i.cpuBusReady with
    | false => exact h.wait hready
    | true =>
      cases hflush : q.pipe.cpu.flush with
      | true => exact h.flush hready hflush
      | false =>
        cases hpause : q.pipe.cpu.pause with
        | true => exact h.stall hready hflush hpause
        | false => exact h.advance hlive hready hflush hpause

theorem paired_run (u : State) (serial : Bool) (is : List Input) :
    (run step (boot u serial) is).Paired :=
  run_induction (P := fun _ _ => True) (fun _ i h _ => h.step i)
    (paired_empty (Pipe.tracks_boot u serial) rfl rfl)
    (along_input.mpr fun _ _ => trivial)

/-- The pipe in the instrumented run is the processor's. -/
theorem run_cpu (u : State) (serial : Bool) (is : List Input) :
    (run step (boot u serial) is).pipe.cpu = u.reached serial is := by
  have hstep (q : Fetching) (i : Input) :
      (q.step i).pipe.cpu = q.pipe.cpu.step i := by
    rw [← Pipe.step_cpu]
    unfold step Pipe.step
    split <;> rfl
  exact run_map (fun q : Fetching => q.pipe.cpu) hstep _ _

/-- The word that `if_id` takes answers a fetch of the address it takes. -/
theorem Paired.latched (h : q.Paired) (hflush : q.pipe.cpu.flush = false)
    (hbubble : q.pipe.cpu.control.isFlush = false)
    (hreset : q.pending ≠ none) : ∃ r w, q.Answer i r w ∧
      r.Fetches q.pipe.cpu.pcRegister.pc q.pipe.cpu.pcRegister.pcTLBMissOut ∧
      q.pipe.cpu.instructionResult i.cpuRomData = w := by
  unfold State.instructionResult Control.instructionResult
  rw [hflush, hbubble]
  cases hls : q.pipe.cpu.control.isLoadStore with
  | false =>
    obtain ⟨r, hr⟩ := Option.ne_none_iff_exists'.mp hreset
    exact ⟨r, _, .inl ⟨hr, rfl⟩, h.fetch hbubble hls r hr, rfl⟩
  | true =>
    obtain ⟨r, hr, hfetch⟩ := h.kept hls
    exact ⟨r, _, .inr hr, hfetch, rfl⟩

end Fetching

-- ===== order

/-- What happens in front of EX: the program goes on at an address, or ID
passes on an instruction. -/
inductive FetchEvent
  | redirect (target : Word)
  | latch (x : Inst)

/-- The program goes on behind the event. -/
def Flow.follow (f : Flow) : FetchEvent → Flow
  | .redirect target => .start target
  | .latch x => f.advance x.branchOut

/-- The instruction is the next one. -/
def Flow.Due (f : Flow) : FetchEvent → Prop
  | .redirect _ => True
  | .latch x => x.pc = f.pc ∧ x.isInDelaySlot = f.isInDelaySlot

namespace Pipe

variable {p : Pipe} {i : Input}

/-- The events of an edge. -/
def latches (p : Pipe) (i : Input) : List FetchEvent :=
  if !i.reset then [.redirect 0xbfbffffc]
  else if !i.cpuBusReady then []
  else if p.cpu.flush then [.redirect p.cpu.flushTarget]
  else if p.cpu.pause || !p.idLive then []
  else [.latch (p.cpu.issued i.cpuRomData)]

/-- `f` stands in front of ID. -/
def Fronts (p : Pipe) (f : Flow) : Prop :=
  p.Tracks ∧ ∃ g, p.Flows g ∧ p.flowId g = f

theorem fronts_next {f : Flow} (h : p.Fronts f) (hlive : i.Live) :
    Along Flow.follow Flow.Due f (p.latches i) ∧
      (p.next i).Fronts (run Flow.follow f (p.latches i)) := by
  obtain ⟨ht, g, hg, rfl⟩ := h
  have hl : (!i.reset) = false := by rw [hlive]; rfl
  cases hready : i.cpuBusReady with
  | false =>
    have hnone : p.latches i = [] := by simp [latches, hl, hready]
    rw [hnone]
    refine ⟨trivial, ht.next i, g, hg.wait hready, ?_⟩
    rw [next_wait hready]
    rfl
  | true =>
    cases hflush : p.cpu.flush with
    | true =>
      have hone : p.latches i = [.redirect p.cpu.flushTarget] := by
        simp [latches, hl, hready, hflush]
      rw [hone]
      refine ⟨⟨trivial, trivial⟩, ht.next i, _, flows_flush hready hflush, ?_⟩
      rw [next_flush hready hflush]
      rfl
    | false =>
      cases hpause : p.cpu.pause with
      | true =>
        have hnone : p.latches i = [] := by
          simp [latches, hl, hready, hflush, hpause]
        rw [hnone]
        refine ⟨trivial, ht.next i, _, hg.stall ht hready hflush hpause, ?_⟩
        rw [flowId_next hready hflush, next_stall hready hflush hpause]
        rfl
      | false =>
        have hflow := flowId_next (p := p) hready hflush g
        rw [next_advance hready hflush hpause] at hflow
        refine ⟨?_, ht.next i, _, hg.advance ht hready hflush hpause, ?_⟩
        · cases hid : p.idLive with
          | false => simp [latches, hl, hready, hflush, hpause, hid]
          | true =>
            have hone : p.latches i =
                [.latch (p.cpu.issued i.cpuRomData)] := by
              simp [latches, hl, hready, hflush, hpause, hid]
            rw [hone]
            exact ⟨hg.id (hg.idFresh hid), trivial⟩
        · rw [next_advance hready hflush hpause, hflow]
          cases hid : p.idLive with
          | false =>
            simp [latches, hl, hready, hflush, hpause, hid, Flow.after]
          | true =>
            simp [latches, hl, hready, hflush, hpause, hid, Flow.after,
              Flow.follow]

theorem fronts_step {f : Flow} (h : p.Fronts f) (i : Input) :
    Along Flow.follow Flow.Due f (p.latches i) ∧
      (p.step i).Fronts (run Flow.follow f (p.latches i)) := by
  cases hlive : i.reset with
  | true =>
    have hstep : p.step i = p.next i := by simp [step, hlive]
    rw [hstep]
    exact fronts_next h hlive
  | false =>
    have hone : p.latches i = [.redirect 0xbfbffffc] := by
      simp [latches, hlive]
    have hstep : p.step i = .empty (p.cpu.resetEdge i) := by
      simp [step, hlive]
    rw [hone, hstep]
    exact ⟨⟨trivial, trivial⟩, tracks_empty rfl rfl rfl rfl rfl rfl, _,
      flows_empty, rfl⟩

/-- ID passes the instructions on in program order, each once. -/
theorem latches_in_order (u : State) (serial : Bool) (is : List Input) :
    Along Flow.follow Flow.Due (.start 0xbfbffffc)
      (trace step latches (boot u serial) is) :=
  (simulation (P := fun _ _ => True) (R := Fronts)
    (fun _ i _ h _ => fronts_step h i)
    ⟨tracks_boot u serial, _, flows_empty, rfl⟩
    (along_input.mpr fun _ _ => trivial)).1

end Pipe

-- ===== results

/-- A fetched word and its address. In every state that is reached, when
`if_id` takes a word that is not marked as a TLB miss and is no bubble of a
flush or of reset, the word answers a request whose address was the physical
address the translation buffer gave, when it was presented, for the address
that `if_id` takes with the word. The bubble of reset is the empty word: a
bus that was reset answers 0. ID passes the instructions on in program
order, none twice and none left out. -/
theorem fetch_paired (u : State) (serial : Bool) (is : List Input) :
    (run Fetching.step (.boot u serial) is).pipe.cpu
      = u.reached serial is ∧
    (∀ (q : Fetching) (i : Input),
      q = run Fetching.step (.boot u serial) is → i.Live →
      i.cpuBusReady = true → q.pipe.cpu.flush = false →
      q.pipe.cpu.pause = false → q.pipe.cpu.control.isFlush = false →
      q.pending ≠ none → q.pipe.cpu.pcRegister.pcTLBMissOut = false →
      ∃ r w, q.Answer i r w ∧ r.isFetch = true ∧
        r.virtualAddress = (q.pipe.cpu.clock i).ifId.idPC ∧
        w = (q.pipe.cpu.clock i).ifId.idInstruction ∧
        (r.tlb.lookup r.virtualAddress false).validAddress = true ∧
        r.request.writeEnable = false ∧ r.request.address =
          (r.tlb.lookup r.virtualAddress false).physicalAddress) ∧
    (∀ (rom : BitVec 7 → Word) (b : Soc.Board) (i j : Soc.BoardInput),
      (b.reset i).hreaddata rom j = 0) ∧
    Along Flow.follow Flow.Due (.start 0xbfbffffc)
      (trace Pipe.step Pipe.latches (.boot u serial) is) := by
  refine ⟨Fetching.run_cpu u serial is, ?_, fun _ _ _ _ => rfl,
    Pipe.latches_in_order u serial is⟩
  rintro q i rfl hlive hready hflush hpause hbubble hreset hmiss
  obtain ⟨r, w, hanswer, hfetch, hw⟩ :=
    (Fetching.paired_run u serial is).latched (i := i) hflush hbubble hreset
  have ha := State.advanced hready hflush hpause
  have hvalid := hfetch.miss
  rw [hmiss] at hvalid
  have hvalid : (r.tlb.lookup r.virtualAddress false).validAddress = true := by
    rw [hfetch.virtualAddress]
    simpa using hvalid.symm
  refine ⟨r, w, hanswer, hfetch.isFetch, ?_, ?_, hvalid, ?_, ?_⟩
  · rw [ha.ifId]
    exact hfetch.virtualAddress
  · rw [ha.ifId]
    exact hw.symm
  · rw [hfetch.request, ← hfetch.virtualAddress]
    unfold Tlb.fetch busRequest
    rw [hvalid]
    rfl
  · rw [hfetch.request, ← hfetch.virtualAddress]
    unfold Tlb.fetch busRequest
    rw [hvalid]
    rfl

/-- The second word after reset is the one at the reset address. -/
theorem fetch_paired_boot :
    ∃ r w, (run Fetching.step (.boot .zero false) (ticks [0])).Answer
        ⟨true, true, 0x3c011fd0, false⟩ r w ∧
      r.virtualAddress = 0xbfc00000 ∧ w = 0x3c011fd0 := by
  obtain ⟨r, w, hanswer, -, hpc, hw, -⟩ :=
    (fetch_paired .zero false (ticks [0])).2.1 _
      ⟨true, true, 0x3c011fd0, false⟩ rfl rfl rfl (by decide +kernel)
      (by decide +kernel) (by decide +kernel) (Option.some_ne_none _)
      (by decide +kernel)
  refine ⟨r, w, hanswer, hpc.trans ?_, hw.trans ?_⟩
  · decide +kernel
  · decide +kernel

end MipsUcore.Cpu
