import WgTcp.Stream.Segmentation
import WgTcp.Stream.Handoff

/-!
# Failed allocations of the reader

Two allocations of `wg_tcp_read_worker` may fail without the buffered bytes being
given up: that of the read buffer, and that of the buffer for what follows a
complete record. The first leaves the parser as it is. The second strikes when
the record header has already been taken off the buffer, and the next pass looks
for a header where the payload begins.
-/

namespace WgTcp

open FrameScan

inductive FaultyAction where
  /-- A step of the reader in which no allocation fails. -/
  | reader (a : ReaderAction)
  /-- A pass in which the allocation of the read buffer and that of the leftover buffer have the
  given outcomes. -/
  | pass (choice : RecvChoice) (partialAlloc leftoverAlloc : Bool)
deriving Repr, DecidableEq

def faultyOutcome (partialAlloc leftoverAlloc : Bool) : ReadOutcome :=
  { ReadOutcome.ok with partialAlloc, leftoverAlloc }

def faultyStep (A : SkbAllocator) (s : ReaderState) : FaultyAction → Option ReaderState
  | .reader a => readerStep A s a
  | .pass choice partialAlloc leftoverAlloc =>
      match s.pc with
      | .looping n =>
          if choice.terminal then none
          else
            let it := readIteration A (faultyOutcome partialAlloc leftoverAlloc)
              (kernelRecvmsg s.receiveQueue choice) s.parser
            some { s with
              parser := it.parser
              receiveQueue := s.receiveQueue.drop it.taken.length
              pc := nextReaderPc n it.flow
              delivered := s.delivered ++ it.record.toList }
      | _ => none

/-- The allocation of the leftover buffer succeeds. -/
def LeftoverAllocated (_ : ReaderState) : FaultyAction → Prop
  | .reader _ => True
  | .pass _ _ leftoverAlloc => leftoverAlloc = true

instance (s : ReaderState) (a : FaultyAction) : Decidable (LeftoverAllocated s a) := by
  cases a <;> (unfold LeftoverAllocated; infer_instance)

/-! ## A failed read buffer -/

/-- Without a read buffer the pass does nothing; with one, its allocation is not attempted. -/
theorem readIteration_partialAlloc (A : SkbAllocator) (recv : Nat → RecvResult) (p : Parser) :
    readIteration A (faultyOutcome false true) recv p =
      if p.partialSkb = none then ⟨p, none, none, .stop⟩ else readIteration A .ok recv p := by
  cases hskb : p.partialSkb with
  | none => simp [readIteration, openPartial, hskb, faultyOutcome]
  | some skb =>
    have hopen : ∀ o, openPartial A o p = .ok ⟨skb, p.expectedLen, p.receivedLen⟩ := by
      intro o
      rw [openPartial, hskb]
    simp only [readIteration, hopen]
    rfl

theorem Parser.Ok.settled_of_none {p : Parser} (hok : p.Ok) (h : p.partialSkb = none) :
    p.Settled :=
  hok.settled (by simp [Parser.mayHoldRecord, h])

section Step

variable {A : SkbAllocator} {stream : Bytes} {s t : ReaderState} {a : FaultyAction}

/-- A pass is one without failures, or one that found no read buffer and got none. -/
theorem faultyStep_cases (hcond : LeftoverAllocated s a) (h : faultyStep A s a = some t) :
    (∃ b, readerStep A s b = some t) ∨
      (∃ n, s.pc = .looping n ∧ s.parser.partialSkb = none ∧
        t = { s with pc := .leaving false }) := by
  cases a with
  | reader b => exact .inl ⟨b, h⟩
  | pass choice partialAlloc leftoverAlloc =>
    obtain rfl : leftoverAlloc = true := hcond
    simp only [faultyStep] at h
    split at h
    · rename_i n hpc
      split at h
      · cases h
      rename_i hchoice
      have hpass : readIteration A (faultyOutcome partialAlloc true)
            (kernelRecvmsg s.receiveQueue choice) s.parser =
          passOn A s.receiveQueue choice s.parser → ∃ b, readerStep A s b = some t := by
        intro heq
        refine ⟨.pass choice, ?_⟩
        rw [heq] at h
        simp only [readerStep, hpc]
        rw [if_neg hchoice]
        exact h
      cases partialAlloc with
      | true => exact .inl (hpass rfl)
      | false =>
        rw [readIteration_partialAlloc] at h hpass
        by_cases hskb : s.parser.partialSkb = none
        · rw [if_pos hskb] at h
          refine .inr ⟨n, hpc, hskb, ?_⟩
          simpa [Iteration.taken, nextReaderPc] using h.symm
        · rw [if_neg hskb] at hpass
          exact .inl (hpass rfl)
    · cases h

theorem faultyStep_inv (hinv : ReaderInv stream s) (hcond : LeftoverAllocated s a)
    (h : faultyStep A s a = some t) : ReaderInv stream t := by
  rcases faultyStep_cases hcond h with ⟨b, hstep⟩ | ⟨n, hpc, hskb, rfl⟩
  · exact readerStep_inv hinv hstep
  · refine ⟨⟨hinv.stream.ok, hinv.stream.advances⟩, ?_, ?_⟩
    · intro _
      exact hinv.stream.ok.settled_of_none hskb
    · intro hidle
      cases hidle

end Step

/-! ## Results -/

/-- As long as every leftover buffer is allocated, failures only delay: at every point the bytes
the parser holds, those queued and those under way are what is left of the stream behind the
records delivered; and once allocations succeed again, the reader can come to rest, and at rest it
has delivered what any execution without failures delivers. -/
theorem alloc_failures_only_delay (A : SkbAllocator) (stream : Bytes) (as : List FaultyAction)
    (s : ReaderState) (hrun : Transition.run (faultyStep A) (.init stream) as = some s)
    (hcond : Transition.Meets (faultyStep A) LeftoverAllocated (.init stream) as) :
    (∃ out : List Bytes, s.delivered = out.map Record.ofFrame ∧
      wireFormat.Advances stream out (s.parser.bytes ++ s.receiveQueue ++ s.underWay)) ∧
    (∃ more u, Transition.run (readerStep A) s more = some u ∧ u.AtRest) ∧
    ∀ more u, Transition.run (readerStep A) s more = some u → u.AtRest →
      ∀ B bs t, Transition.run (readerStep B) (.init stream) bs = some t → t.AtRest →
        u.delivered = t.delivered := by
  have hinv : ReaderInv stream s :=
    Transition.run_invariant_of_meets (fun _ _ _ => faultyStep_inv) (readerInv_init stream)
      hcond hrun
  refine ⟨hinv.stream.advances, exists_run_to_rest hinv, ?_⟩
  intro more u hmore hu B bs t hbs ht
  have hinvu : ReaderInv stream u :=
    Transition.run_invariant (fun _ _ _ => readerStep_inv) hinv hmore
  have hresult := (hinvu.result_eq hu).trans ((readerRun_inv hbs).result_eq ht).symm
  exact congrArg Decoded.records hresult

/-- Three records of forty bytes. -/
def threeRecords : List Record :=
  [sampleRecord, ⟨List.replicate 32 2, FragInfo.none⟩, ⟨List.replicate 32 3, FragInfo.none⟩]

def threeFrames : Bytes := (threeRecords.map Record.frame).flatten

/-- The read buffer is refused once; then everything is read. -/
def delayedRun : List FaultyAction :=
  [.reader (.arrive 120), .reader .start, .pass (.take 119) false true, .reader .finish,
    .reader .start, .reader (.pass (.take 119)), .reader (.pass .again), .reader (.pass .again),
    .reader (.pass .again), .reader .finish]

theorem alloc_failures_only_delay_once :
    ∃ s, Transition.run (faultyStep exactAllocator) (.init threeFrames) delayedRun = some s ∧
      ∃ more u, Transition.run (readerStep exactAllocator) s more = some u ∧ u.AtRest := by
  obtain ⟨s, hrun, -⟩ := Transition.exists_run_of_any
    (by decide +kernel : (Transition.run (faultyStep exactAllocator) (.init threeFrames)
      delayedRun).any (fun s => s.delivered == threeRecords) = true)
  exact ⟨s, hrun, (alloc_failures_only_delay _ _ _ s hrun (by decide +kernel)).2.1⟩

/-- The leftover buffer behind the first record is refused, and succeeds ever after. -/
def leftoverRefused : List FaultyAction :=
  [.reader (.arrive 80), .reader .start, .pass (.take 79) true false, .reader .finish,
    .reader (.arrive 40), .reader .start, .reader (.pass .again), .reader (.pass (.take 39)),
    .reader (.pass .again), .reader .finish]

def ReaderState.atRest (s : ReaderState) : Bool :=
  s.underWay.isEmpty && s.pc == .idle && !s.scheduled

theorem ReaderState.atRest_iff {s : ReaderState} : s.atRest = true ↔ s.AtRest := by
  simp only [ReaderState.atRest, Bool.and_eq_true, beq_iff_eq, List.isEmpty_iff,
    Bool.not_eq_eq_eq_not, Bool.not_true]
  constructor
  · rintro ⟨⟨hway, hpc⟩, hsched⟩
    exact ⟨hway, hpc, hsched⟩
  · rintro ⟨hway, hpc, hsched⟩
    exact ⟨⟨hway, hpc⟩, hsched⟩

/-- The record whose leftover buffer was refused is never delivered: its header is gone, its
payload is searched for headers, and the reader goes on with the record behind it. -/
theorem leftover_failure_loses_record :
    ∃ s, Transition.run (faultyStep exactAllocator) (.init threeFrames) leftoverRefused =
        some s ∧ s.AtRest ∧
      s.delivered = threeRecords.tail ∧ (decodeStream threeFrames).records = threeRecords := by
  obtain ⟨s, hrun, hcheck⟩ := Transition.exists_run_of_any
    (by decide +kernel : (Transition.run (faultyStep exactAllocator) (.init threeFrames)
      leftoverRefused).any (fun s => s.atRest && s.delivered == threeRecords.tail) = true)
  simp only [Bool.and_eq_true, beq_iff_eq] at hcheck
  exact ⟨s, hrun, ReaderState.atRest_iff.mp hcheck.1, hcheck.2, by decide +kernel⟩

end WgTcp
