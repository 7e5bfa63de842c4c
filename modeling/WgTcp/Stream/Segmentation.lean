import WgTcp.Stream.Reader

/-!
# Segmentation does not matter

Every execution of the reader comes to rest unless the kernel keeps answering
`EAGAIN` for data it has, and at rest it has delivered what the reference
decoder finds in the stream, however the stream was cut. For a stream of built
frames between junk these are the framed records.
-/

namespace WgTcp

open FrameScan

/-! ## Coming to rest -/

/-- Work that a buffered candidate record stands for. -/
def Parser.readyWork (p : Parser) : Nat := if p.mayHoldRecord then p.bytes.length + 1 else 0

/-- A byte counts down on its way from the wire to the queue, the buffer and a record. -/
def ReaderState.work (s : ReaderState) : Nat :=
  3 * s.underWay.length + 2 * s.receiveQueue.length + s.parser.readyWork

/-- Steps the worker can still make without touching a byte. -/
def ReaderState.rank (s : ReaderState) : Nat :=
  match s.pc with
  | .idle => if s.scheduled then 3 else 0
  | .looping _ => 2
  | .leaving budgetExhausted =>
      if readAgain s.receiveQueue budgetExhausted s.parser then 4 else 1

def ReaderState.measure (s : ReaderState) : Nat := 5 * s.work + s.rank

theorem ReaderState.rank_le (s : ReaderState) : s.rank ≤ 4 := by
  unfold ReaderState.rank
  split
  · split <;> omega
  · omega
  · split <;> omega

theorem Parser.readyWork_le (p : Parser) : p.readyWork ≤ p.bytes.length + 1 := by
  unfold Parser.readyWork
  split <;> omega

theorem Parser.Settled.readyWork {p : Parser} (hok : p.Ok) (h : p.Settled) : p.readyWork = 0 := by
  simp [Parser.readyWork, h.mayHoldRecord hok]

/-- A delivered record shrinks the buffer, and an undelivered pass settles it. -/
theorem PassSpec.readyWork_lt {before : Bytes} {record : Option Record} {p : Parser}
    (h : PassSpec before record p) : p.readyWork < before.length + 1 := by
  obtain ⟨out, hout, -, hlong, hle⟩ := h.advances
  cases record with
  | none =>
    rw [(h.settled rfl).readyWork h.ok]
    omega
  | some r =>
    obtain ⟨raw, rfl⟩ : ∃ raw, out = [raw] := by
      cases out with
      | nil => cases hout
      | cons raw rest =>
        cases rest with
        | nil => exact ⟨raw, rfl⟩
        | cons _ _ => simp at hout
    have hraw := hlong raw (by simp)
    have hready := p.readyWork_le
    simp only [List.flatten_cons, List.flatten_nil, List.append_nil] at hle
    omega

/-- After a read of `bytes` behind a settled buffer, only part of those bytes is left to work on. -/
theorem PassSpec.readyWork_le_read {p q : Parser} {bytes : Bytes} {record : Option Record}
    (hsettled : p.Settled) (hne : bytes ≠ []) (h : PassSpec (p.bytes ++ bytes) record q) :
    q.readyWork ≤ bytes.length := by
  have hpos := List.length_pos_iff.mpr hne
  obtain ⟨out, hout, hadv, hlong, hle⟩ := h.advances
  cases record with
  | none =>
    rw [(h.settled rfl).readyWork h.ok]
    omega
  | some r =>
    cases out with
    | nil => cases hout
    | cons raw rest =>
      have hlt := hsettled.waits.length_lt hadv (Nat.le_of_lt (hlong raw (by simp)))
      have hready := q.readyWork_le
      simp only [List.flatten_cons, List.length_append] at hle
      omega

/-- A pass that is not answered `EAGAIN` for queued data either makes headway or finds nothing. -/
theorem passOn_progress (A : SkbAllocator) (queue : Bytes) {p : Parser} (more : Nat) (hok : p.Ok) :
    let it := passOn A queue (.take more) p
    2 * (queue.drop it.taken.length).length + it.parser.readyWork <
        2 * queue.length + p.readyWork ∨
      (queue = [] ∧ it.flow = .stop ∧ it.taken = [] ∧ it.parser.readyWork = 0) := by
  have hchoice : (RecvChoice.take more).terminal = false := rfl
  have hspec := passOn_spec A queue hok hchoice
  cases hmay : p.mayHoldRecord with
  | true =>
    have htaken : (passOn A queue (.take more) p).taken = [] := by
      rw [Iteration.taken, hspec.buffered hmay]
    have hlt := hspec.pass.readyWork_lt
    rw [htaken, List.append_nil] at hlt
    refine .inl ?_
    simp only [htaken, List.length_nil, List.drop_zero, Parser.readyWork, hmay, if_true] at hlt ⊢
    omega
  | false =>
    obtain ⟨n, hn, hrecv⟩ := hspec.reads hmay
    by_cases hq : queue = []
    · have hagain : kernelRecvmsg queue (.take more) n = .eagain := by simp [kernelRecvmsg, hq]
      rw [hagain] at hrecv
      have hstop := hspec.eagain hrecv
      refine .inr ⟨hq, hstop, by rw [Iteration.taken, hrecv], ?_⟩
      exact (hspec.pass.settled (hspec.stop hstop)).readyWork hspec.pass.ok
    · obtain ⟨bytes, hbytes⟩ : ∃ bytes, kernelRecvmsg queue (.take more) n = .data bytes := by
        simp [kernelRecvmsg, hq]
      obtain ⟨hsplit, hne⟩ := kernelRecvmsg_data hbytes
      rw [hbytes] at hrecv
      have htaken : (passOn A queue (.take more) p).taken = bytes := by
        rw [Iteration.taken, hrecv]
      have hpass := hspec.pass
      rw [htaken] at hpass
      have hready := hpass.readyWork_le_read (hok.settled hmay) (hne hn)
      have hpos := List.length_pos_iff.mpr (hne hn)
      have hlen := congrArg List.length hsplit
      rw [List.length_append] at hlen
      refine .inl ?_
      simp only [htaken]
      omega

/-- The kernel does not answer `EAGAIN` when bytes are queued. -/
def PromptRead (_ : ReaderState) (a : ReaderAction) : Prop := a ≠ .pass .again

theorem readerStep_measure {A : SkbAllocator} {stream : Bytes} {s t : ReaderState}
    {a : ReaderAction} (hinv : ReaderInv stream s) (hprompt : PromptRead s a)
    (h : readerStep A s a = some t) : t.measure < s.measure := by
  have hrank := t.rank_le
  cases a with
  | arrive n =>
    simp only [readerStep] at h
    split at h <;> cases h
    rename_i hn
    simp only [ReaderState.measure, ReaderState.work, List.length_append, List.length_take,
      List.length_drop] at hrank ⊢
    omega
  | start =>
    simp only [readerStep] at h
    split at h <;> cases h
    rename_i hpc
    simp [ReaderState.measure, ReaderState.work, ReaderState.rank, hpc.1, hpc.2]
  | pass choice =>
    simp only [readerStep] at h
    split at h
    · rename_i n hpc
      split at h <;> cases h
      rename_i hchoice
      cases choice with
      | take more =>
        rcases passOn_progress A s.receiveQueue more hinv.stream.ok with
          hlt | ⟨hq, hflow, htaken, hzero⟩
        · simp only [ReaderState.measure, ReaderState.work] at hrank ⊢
          omega
        · -- The queue is empty: the worker leaves the loop with nothing to come back for.
          have hpc' : nextReaderPc n (passOn A s.receiveQueue (.take more) s.parser).flow =
              .leaving false := by rw [hflow]; rfl
          simp only [ReaderState.measure, ReaderState.work, ReaderState.rank, hpc, hpc', htaken,
            hzero, readAgain]
          simp [hq]
      | again => exact absurd rfl hprompt
      | close => simp [RecvChoice.terminal] at hchoice
      | fail => simp [RecvChoice.terminal] at hchoice
    · cases h
  | finish =>
    simp only [readerStep] at h
    split at h
    · rename_i budgetExhausted hpc
      cases h
      simp only [ReaderState.measure, ReaderState.work, ReaderState.rank, hpc]
      cases readAgain s.receiveQueue budgetExhausted s.parser <;> simp
    · cases h

/-- Runs with prompt reads are bounded by the bytes of the stream. -/
theorem readerRun_length_le {A : SkbAllocator} {stream : Bytes} {s : ReaderState}
    {as : List ReaderAction}
    (hprompt : Transition.Meets (readerStep A) PromptRead (.init stream) as)
    (h : Transition.run (readerStep A) (.init stream) as = some s) :
    as.length ≤ 15 * stream.length := by
  have hle : as.length + s.measure ≤ (ReaderState.init stream).measure :=
    Transition.length_add_measure_le (fun _ _ _ => readerStep_inv)
      (fun _ _ _ => readerStep_measure) (readerInv_init stream) hprompt h
  simp [ReaderState.measure, ReaderState.work, ReaderState.rank, ReaderState.init,
    Parser.readyWork, Parser.mayHoldRecord, Parser.empty] at hle
  omega

/-- Every execution can be continued until it is at rest. -/
theorem exists_run_to_rest {A : SkbAllocator} {stream : Bytes} {s : ReaderState}
    (hinv : ReaderInv stream s) :
    ∃ as t, Transition.run (readerStep A) s as = some t ∧ t.AtRest := by
  refine Transition.exists_run_of_measure (μ := ReaderState.measure)
    (fun _ _ _ => readerStep_inv) (fun s hinv hbusy => ?_) s hinv
  -- Whatever keeps the system from rest has a step of its own.
  suffices h : ∃ a, PromptRead s a ∧ (readerStep A s a).isSome by
    obtain ⟨a, hprompt, henabled⟩ := h
    obtain ⟨t, hstep⟩ := Option.isSome_iff_exists.mp henabled
    exact ⟨a, t, hstep, readerStep_measure hinv hprompt hstep⟩
  by_cases hway : s.underWay = []
  · cases hpc : s.pc with
    | idle =>
      have hsched : s.scheduled = true := by
        by_contra hfalse
        exact hbusy ⟨hway, hpc, by simpa using hfalse⟩
      exact ⟨.start, by simp [PromptRead], by simp [readerStep, hpc, hsched]⟩
    | looping n =>
      exact ⟨.pass (.take 0), by simp [PromptRead], by simp [readerStep, hpc, RecvChoice.terminal]⟩
    | leaving b => exact ⟨.finish, by simp [PromptRead], by simp [readerStep, hpc]⟩
  · have hpos := List.length_pos_iff.mpr hway
    exact ⟨.arrive 1, by simp [PromptRead], by simp [readerStep]; omega⟩

/-! ## Any two segmentations agree -/

/-- Two executions on one byte string, valid or not, end with the same deliveries, the same
unconsumed bytes and the same `expected_len`, namely those of the reference decoder; and every
execution can be carried to its end. -/
theorem segmentation_independence (stream : Bytes) (A B : SkbAllocator)
    (as bs : List ReaderAction) (s t : ReaderState)
    (hs : Transition.run (readerStep A) (.init stream) as = some s)
    (ht : Transition.run (readerStep B) (.init stream) bs = some t) :
    (∃ more u, Transition.run (readerStep A) s more = some u ∧ u.AtRest) ∧
      (s.AtRest → t.AtRest → s.result = t.result ∧ s.result = decodeStream stream) := by
  refine ⟨exists_run_to_rest (readerRun_inv hs), fun hsr htr => ?_⟩
  have hsres := (readerRun_inv hs).result_eq hsr
  exact ⟨hsres.trans ((readerRun_inv ht).result_eq htr).symm, hsres⟩

/-- Nine bytes without a header leave the seven that a header could begin in. -/
theorem segmentation_independence_nine_bytes :
    ∃ as s, Transition.run (readerStep exactAllocator) (.init [0, 1, 2, 3, 4, 5, 6, 7, 8]) as =
        some s ∧ s.AtRest ∧ s.result = ⟨[], [2, 3, 4, 5, 6, 7, 8], 0⟩ := by
  have h := segmentation_independence [0, 1, 2, 3, 4, 5, 6, 7, 8] exactAllocator exactAllocator
  obtain ⟨⟨as, s, hrun, hrest⟩, -⟩ := h [] [] _ _ rfl rfl
  have hres := ((h as as s s hrun hrun).2 hrest hrest).2
  exact ⟨as, s, hrun, hrest, hres.trans (by decide)⟩

/-! ## Framed records come out as they went in -/

theorem framable_of_bounds {r : Record} (hmin : 32 ≤ r.payload.length)
    (hmax : r.payload.length ≤ if r.frag.fragOff ≠ 0 then 65531 else 65535) : Framable r := by
  refine ⟨hmin, ?_⟩
  by_cases hf : r.frag.fragOff = 0
  · have hfrag : r.frag.fragmented = false := by simp [FragInfo.fragmented, hf]
    rw [hfrag]
    rwa [if_neg (by simpa using hf)] at hmax
  · have hfrag : r.frag.fragmented = true := by simp [FragInfo.fragmented, hf]
    rw [hfrag]
    rwa [if_pos hf] at hmax

theorem map_ofFrame_frame {blocks : List (Bytes × Record)} (h : ∀ b ∈ blocks, Framable b.2) :
    (blocks.map (·.2.frame)).map Record.ofFrame = blocks.map (·.2.received) := by
  rw [List.map_map]
  exact List.map_congr_left fun b hb => Record.ofFrame_frame (h b hb)

/-- Records framed by `wgTcpBuildFrame`, with junk before, between and after them that holds no
header, are delivered in order and unchanged by every execution that comes to rest, and every
execution can. At most seven bytes of the last junk block are left. -/
theorem framing_round_trip (A : SkbAllocator) (blocks : List (Bytes × Record)) (last : Bytes)
    (hlen : ∀ b ∈ blocks, 32 ≤ b.2.payload.length ∧
      b.2.payload.length ≤ if b.2.frag.fragOff ≠ 0 then 65531 else 65535)
    (hjunk : NoHeaderInJunk blocks last) (as : List ReaderAction) (s : ReaderState)
    (hrun : Transition.run (readerStep A) (.init (junkStream blocks last)) as = some s) :
    (∀ b ∈ blocks, wgTcpBuildFrame true b.2.payload b.2.frag = .ok b.2.frame) ∧
      (∃ more t, Transition.run (readerStep A) s more = some t ∧ t.AtRest) ∧
      (s.AtRest →
        s.delivered = blocks.map (fun b =>
          ⟨b.2.payload, if b.2.frag.fragOff ≠ 0 then b.2.frag else ⟨0, 0⟩⟩) ∧
        (s.parser.bytes ++ s.receiveQueue).length ≤ 7) := by
  have hf : ∀ b ∈ blocks, Framable b.2 := fun b hb =>
    framable_of_bounds (hlen b hb).1 (hlen b hb).2
  refine ⟨fun b hb => wgTcpBuildFrame_of_framable (hf b hb),
    exists_run_to_rest (readerRun_inv hrun), fun hrest => ?_⟩
  have hres := (readerRun_inv hrun).result_eq hrest
  obtain ⟨hrecords, hshort⟩ := scan_junkStream hf hjunk
  constructor
  · have hdel := congrArg Decoded.records hres
    simp only [decodeStream, hrecords, map_ofFrame_frame hf, ReaderState.result] at hdel
    rw [hdel]
    refine List.map_congr_left fun b _ => ?_
    by_cases hz : b.2.frag.fragOff = 0 <;>
      simp [Record.received, FragInfo.fragmented, FragInfo.none, hz]
  · have hrest' := congrArg Decoded.rest hres
    simp only [decodeStream, ReaderState.result] at hrest'
    rw [hrest']
    exact hshort

/-- A fragment between junk bytes. -/
theorem framing_round_trip_fragment :
    ∃ as s, Transition.run (readerStep exactAllocator)
        (.init (junkStream [([7, 7, 7], ⟨List.replicate 32 1, ⟨9, 185⟩⟩)] [5])) as = some s ∧
      s.AtRest ∧ s.delivered = [⟨List.replicate 32 1, ⟨9, 185⟩⟩] := by
  have hjunk : NoHeaderInJunk [([7, 7, 7], ⟨List.replicate 32 1, ⟨9, 185⟩⟩)] [5] := by
    simp only [NoHeaderInJunk]
    decide
  have h := framing_round_trip exactAllocator [([7, 7, 7], ⟨List.replicate 32 1, ⟨9, 185⟩⟩)] [5]
    (by simp) hjunk
  obtain ⟨-, ⟨as, s, hrun, hrest⟩, -⟩ := h [] _ rfl
  exact ⟨as, s, hrun, hrest, ((h as s hrun).2.2 hrest).1⟩

end WgTcp
