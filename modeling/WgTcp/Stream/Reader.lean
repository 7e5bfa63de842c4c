import WgTcp.Foundation.Transition
import WgTcp.Stream.ParserSpec

/-!
# The read worker on a carrier that stays up

The worker, the socket's receive queue and the bytes still under way, with the
interleavings that segmentation and scheduling allow: bytes arrive in any
pieces, each read returns any nonempty part of what is queued or `EAGAIN`, and
a pass over its budget of 64 iterations is queued again. No allocation fails.

`reader_result` compares every such execution with the reference decoder, and
`exists_run_to_rest` shows that each of them can come to rest.
-/

namespace WgTcp

open FrameScan

/-- How the kernel answers a nonblocking read. -/
inductive RecvChoice where
  | take (more : Nat)
  | again
  | close
  | fail
deriving Repr, DecidableEq

def RecvChoice.terminal : RecvChoice → Bool
  | .take _ => false
  | .again => false
  | .close => true
  | .fail => true

/-- `kernel_recvmsg` on a socket with the given receive queue: one byte and up to `more` others. -/
def kernelRecvmsg (queue : Bytes) : RecvChoice → Nat → RecvResult
  | .take more, iovLen =>
      if queue = [] then .eagain else .data (queue.take (min (more + 1) iovLen))
  | .again, _ => .eagain
  | .close, _ => .closed
  | .fail, _ => .error

/-- The pass that the worker makes on a parser and a receive queue when no allocation fails. -/
def passOn (A : SkbAllocator) (queue : Bytes) (choice : RecvChoice) (p : Parser) : Iteration :=
  readIteration A .ok (kernelRecvmsg queue choice) p

/-- `packets_processed` at which the loop is left. -/
abbrev readBudget : Nat := 64

inductive ReaderPc where
  | idle
  | looping (packetsProcessed : Nat)
  | leaving (budgetExhausted : Bool)
deriving Repr, DecidableEq

/-- Where a pass over the loop body leads, given how many passes came before it. -/
def nextReaderPc (packetsProcessed : Nat) : Flow → ReaderPc
  | .stop => .leaving false
  | .next =>
      if readBudget ≤ packetsProcessed + 1 then .leaving true else .looping (packetsProcessed + 1)

theorem nextReaderPc_next (n : Nat) :
    nextReaderPc n .next = .leaving true ∨ nextReaderPc n .next = .looping (n + 1) := by
  by_cases h : readBudget ≤ n + 1
  · exact .inl (if_pos h)
  · exact .inr (if_neg h)

/-- The requeue test at the end of the worker: unread bytes, or a record left by the budget. -/
def readAgain (receiveQueue : Bytes) (budgetExhausted : Bool) (p : Parser) : Bool :=
  !receiveQueue.isEmpty || (budgetExhausted && p.mayHoldRecord)

structure ReaderState where
  parser : Parser
  receiveQueue : Bytes
  /-- Bytes of the stream that have not reached the receive queue. -/
  underWay : Bytes
  /-- `tcp_read_worker_scheduled`. -/
  scheduled : Bool
  pc : ReaderPc
  delivered : List Record
deriving Repr, DecidableEq

def ReaderState.init (stream : Bytes) : ReaderState :=
  ⟨Parser.empty, [], stream, false, .idle, []⟩

inductive ReaderAction where
  /-- Bytes become readable and `data_ready` runs. -/
  | arrive (n : Nat)
  | start
  | pass (choice : RecvChoice)
  | finish
deriving Repr, DecidableEq

def readerStep (A : SkbAllocator) (s : ReaderState) : ReaderAction → Option ReaderState
  | .arrive n =>
      if 0 < n ∧ n ≤ s.underWay.length then
        some { s with
          receiveQueue := s.receiveQueue ++ s.underWay.take n
          underWay := s.underWay.drop n
          scheduled := true }
      else none
  | .start =>
      if s.pc = .idle ∧ s.scheduled then some { s with pc := .looping 0 } else none
  | .pass choice =>
      match s.pc with
      | .looping n =>
          if choice.terminal then none
          else
            let it := passOn A s.receiveQueue choice s.parser
            some { s with
              parser := it.parser
              receiveQueue := s.receiveQueue.drop it.taken.length
              pc := nextReaderPc n it.flow
              delivered := s.delivered ++ it.record.toList }
      | _ => none
  | .finish =>
      match s.pc with
      | .leaving budgetExhausted =>
          some { s with
            pc := .idle
            scheduled := readAgain s.receiveQueue budgetExhausted s.parser }
      | _ => none

/-- Everything has arrived and no worker is queued or running. -/
structure ReaderState.AtRest (s : ReaderState) : Prop where
  underWay : s.underWay = []
  idle : s.pc = .idle
  unscheduled : s.scheduled = false

/-- Deliveries, unconsumed bytes and `expected_len`. -/
def ReaderState.result (s : ReaderState) : Decoded :=
  ⟨s.delivered, s.parser.bytes ++ s.receiveQueue, s.parser.expectedLen⟩

/-! ## The invariant -/

/-- The deliveries so far, the buffer, the queue and the bytes under way make up the stream. -/
structure StreamInv (stream : Bytes) (s : ReaderState) : Prop where
  ok : s.parser.Ok
  advances : ∃ out : List Bytes, s.delivered = out.map Record.ofFrame ∧
    wireFormat.Advances stream out (s.parser.bytes ++ s.receiveQueue ++ s.underWay)

/-- A worker that is not coming back leaves a settled parser. -/
def ReaderState.Quiet (s : ReaderState) : Prop :=
  match s.pc with
  | .idle => s.scheduled = false → s.parser.Settled
  | .looping _ => True
  | .leaving budgetExhausted => budgetExhausted = false → s.parser.Settled

/-- Unread bytes have a worker to read them. -/
def ReaderState.Drained (s : ReaderState) : Prop :=
  s.pc = .idle → s.scheduled = false → s.receiveQueue = []

structure ReaderInv (stream : Bytes) (s : ReaderState) : Prop where
  stream : StreamInv stream s
  quiet : s.Quiet
  drained : s.Drained

theorem StreamInv.start (stream : Bytes) {s : ReaderState} (hparser : s.parser = Parser.empty)
    (hdelivered : s.delivered = []) (hbytes : s.receiveQueue ++ s.underWay = stream) :
    StreamInv stream s where
  ok := hparser ▸ Parser.ok_empty
  advances := ⟨[], hdelivered, by
    rw [hparser, Parser.bytes_empty, List.nil_append, hbytes]
    exact Format.Advances.refl stream⟩

theorem Parser.settled_empty : Parser.empty.Settled :=
  Parser.settled_of_short (Nat.zero_lt_succ 7) rfl

theorem readerInv_init (stream : Bytes) : ReaderInv stream (ReaderState.init stream) where
  stream := StreamInv.start stream rfl rfl rfl
  quiet := fun _ => Parser.settled_empty
  drained := fun _ _ => rfl

theorem kernelRecvmsg_terminal {queue : Bytes} {choice : RecvChoice}
    (h : choice.terminal = false) (n : Nat) : (kernelRecvmsg queue choice n).terminal = false := by
  cases choice with
  | take more =>
    simp only [kernelRecvmsg]
    split <;> rfl
  | again => rfl
  | close => cases h
  | fail => cases h

/-- What a read returns is taken off the front of the queue. -/
theorem kernelRecvmsg_data {queue bytes : Bytes} {choice : RecvChoice} {n : Nat}
    (h : kernelRecvmsg queue choice n = .data bytes) :
    bytes ++ queue.drop bytes.length = queue ∧ (0 < n → bytes ≠ []) := by
  cases choice with
  | take more =>
    simp only [kernelRecvmsg] at h
    split at h
    · cases h
    · rename_i hne
      cases h
      refine ⟨?_, fun hn hnil => ?_⟩
      · rw [List.length_take]
        conv_rhs => rw [← List.take_append_drop (min (more + 1) n) queue]
        congr 1
        by_cases hle : min (more + 1) n ≤ queue.length
        · rw [Nat.min_eq_left hle]
        · rw [Nat.min_eq_right (by omega), List.drop_of_length_le (by omega),
            List.drop_of_length_le (by omega)]
      · rw [List.take_eq_nil_iff] at hnil
        rcases hnil with h0 | h0
        · omega
        · exact hne h0
  | again => cases h
  | close => cases h
  | fail => cases h

section Pass

variable (A : SkbAllocator) (queue : Bytes) {choice : RecvChoice} {p : Parser}

theorem passOn_spec (hok : p.Ok) (hchoice : choice.terminal = false) :
    IterationSpec (kernelRecvmsg queue choice) p (passOn A queue choice p) :=
  readIteration_spec A hok (kernelRecvmsg_terminal hchoice)

theorem passOn_taken (hok : p.Ok) (hchoice : choice.terminal = false) :
    (passOn A queue choice p).taken ++ queue.drop (passOn A queue choice p).taken.length =
      queue := by
  have hspec := passOn_spec A queue hok hchoice
  cases hmay : p.mayHoldRecord with
  | true => simp [Iteration.taken, hspec.buffered hmay]
  | false =>
    obtain ⟨n, -, hrecv⟩ := hspec.reads hmay
    cases hres : kernelRecvmsg queue choice n with
    | data bytes =>
      have htaken : (passOn A queue choice p).taken = bytes := by
        rw [Iteration.taken, hrecv, hres]
      rw [htaken]
      exact (kernelRecvmsg_data hres).1
    | eagain => simp [Iteration.taken, hrecv, hres]
    | closed => simp [Iteration.taken, hrecv, hres]
    | error => simp [Iteration.taken, hrecv, hres]

end Pass

section Step

variable {A : SkbAllocator} {stream : Bytes} {s t : ReaderState} {a : ReaderAction}

theorem readerStep_stream (hinv : StreamInv stream s) (h : readerStep A s a = some t) :
    StreamInv stream t := by
  obtain ⟨hok, out, hout, hadv⟩ := hinv
  cases a with
  | arrive n =>
    simp only [readerStep] at h
    split at h <;> cases h
    exact ⟨hok, out, hout, by simpa using hadv⟩
  | start =>
    simp only [readerStep] at h
    split at h <;> cases h
    exact ⟨hok, out, hout, hadv⟩
  | pass choice =>
    simp only [readerStep] at h
    split at h
    · split at h <;> cases h
      rename_i hchoice
      replace hchoice : choice.terminal = false := by simpa using hchoice
      have hspec := passOn_spec A s.receiveQueue hok hchoice
      have htaken := passOn_taken A s.receiveQueue hok hchoice
      obtain ⟨more, hmore, hstep, -, -⟩ := hspec.pass.advances
      refine ⟨hspec.pass.ok, out ++ more, by simp [hout, ← hmore], hadv.trans ?_⟩
      have hrest := hstep.append (s.receiveQueue.drop
        (passOn A s.receiveQueue choice s.parser).taken.length ++ s.underWay)
      rw [List.append_assoc, ← List.append_assoc _ _ s.underWay, htaken] at hrest
      simpa only [List.append_assoc] using hrest
    · cases h
  | finish =>
    simp only [readerStep] at h
    split at h
    · cases h
      exact ⟨hok, out, hout, hadv⟩
    · cases h

theorem readerStep_quiet (hok : s.parser.Ok) (hquiet : s.Quiet)
    (h : readerStep A s a = some t) : t.Quiet := by
  cases a with
  | arrive n =>
    simp only [readerStep] at h
    split at h <;> cases h
    simp only [ReaderState.Quiet] at hquiet ⊢
    cases hpc : s.pc <;> simp_all
  | start =>
    simp only [readerStep] at h
    split at h <;> cases h
    trivial
  | pass choice =>
    simp only [readerStep] at h
    split at h
    · rename_i n hpc
      split at h <;> cases h
      rename_i hchoice
      have hspec := passOn_spec A s.receiveQueue hok (by simpa using hchoice)
      simp only [ReaderState.Quiet]
      cases hflow : (passOn A s.receiveQueue choice s.parser).flow with
      | stop => exact fun _ => hspec.pass.settled (hspec.stop hflow)
      | next => rcases nextReaderPc_next n with h | h <;> rw [h] <;> simp
    · cases h
  | finish =>
    simp only [readerStep] at h
    split at h
    · rename_i budgetExhausted hpc
      cases h
      intro hsched
      simp only [readAgain, Bool.or_eq_false_iff, Bool.and_eq_false_iff] at hsched
      rcases hsched.2 with hbudget | hmay
      · simp only [ReaderState.Quiet, hpc] at hquiet
        exact hquiet hbudget
      · exact hok.settled hmay
    · cases h

/-- Every step ends with unread bytes covered, whatever it started from. -/
theorem readerStep_drained (h : readerStep A s a = some t) : t.Drained := by
  cases a with
  | arrive n =>
    simp only [readerStep] at h
    split at h <;> cases h
    intro _ hsched
    cases hsched
  | start =>
    simp only [readerStep] at h
    split at h <;> cases h
    intro hpc
    cases hpc
  | pass choice =>
    simp only [readerStep] at h
    split at h
    · rename_i n hpc
      split at h <;> cases h
      intro hidle
      cases hflow : (passOn A s.receiveQueue choice s.parser).flow with
      | stop => rw [hflow] at hidle; cases hidle
      | next => rw [hflow] at hidle; rcases nextReaderPc_next n with h | h <;> simp [h] at hidle
    · cases h
  | finish =>
    simp only [readerStep] at h
    split at h
    · cases h
      intro _ hsched
      simp only [readAgain, Bool.or_eq_false_iff] at hsched
      simpa using hsched.1
    · cases h

theorem readerStep_inv (hinv : ReaderInv stream s) (h : readerStep A s a = some t) :
    ReaderInv stream t where
  stream := readerStep_stream hinv.stream h
  quiet := readerStep_quiet hinv.stream.ok hinv.quiet h
  drained := readerStep_drained h

theorem readerRun_inv {as : List ReaderAction}
    (h : Transition.run (readerStep A) (.init stream) as = some s) : ReaderInv stream s :=
  Transition.run_invariant (fun _ _ _ => readerStep_inv) (readerInv_init stream) h

end Step

/-- At rest the reader has produced what the reference decoder does. -/
theorem ReaderInv.result_eq {stream : Bytes} {s : ReaderState} (hinv : ReaderInv stream s)
    (hrest : s.AtRest) : s.result = decodeStream stream := by
  obtain ⟨⟨-, out, hout, hadv⟩, hquiet, hdrained⟩ := hinv
  have hqueue := hdrained hrest.idle hrest.unscheduled
  simp only [ReaderState.Quiet, hrest.idle] at hquiet
  have hsettled := hquiet hrest.unscheduled
  rw [hqueue, hrest.underWay, List.append_nil, List.append_nil] at hadv
  have hscan := hadv.scan_of_waits hsettled.waits
  simp [ReaderState.result, decodeStream, hscan, hout, hqueue, hsettled.expectedLen]

end WgTcp
