import WgTcp.Stream.ParserSpec

/-!
# The buffer of the reader

What holds of `partial_skb` and the two lengths at every loop head of
`wg_tcp_read_worker`, whatever the bytes and however they are read, when no
allocation fails. A pass over junk or over a record moves data, headroom and
tailroom around: pulls add to the headroom, and an expanded copy keeps it. A pull
is followed by a record, and a record by a fresh buffer, so that the headroom is
bounded by what one read can bring; the tailroom is up to the allocator.
-/

namespace WgTcp

open FrameScan

/-! ## Loop heads -/

/-- A read that returns data returns some, and no more than was asked for. -/
def Answers (recv : Nat → RecvResult) : Prop :=
  ∀ n bytes, recv n = .data bytes → bytes ≠ [] ∧ bytes.length ≤ n

/-- No read returns more than `N` bytes. -/
def ReadsAtMost (N : Nat) (recv : Nat → RecvResult) : Prop :=
  ∀ n bytes, recv n = .data bytes → bytes.length ≤ N

/-- The outcomes of a pass in which every allocation succeeds. -/
def allocated (fakeHeaders : Bool) : ReadOutcome := { ReadOutcome.ok with fakeHeaders }

/-- The parser states at the loop heads of a peer's readers: the state of a new peer, and what a
pass leaves behind, to the next pass or to the next activation of the worker. -/
inductive LoopHead (A : SkbAllocator) (reads : (Nat → RecvResult) → Prop) : Parser → Prop
  | start : LoopHead A reads Parser.empty
  | pass {p : Parser} (fakeHeaders : Bool) (recv : Nat → RecvResult) (hanswers : Answers recv)
      (hreads : reads recv) (h : LoopHead A reads p) :
      LoopHead A reads (readIteration A (allocated fakeHeaders) recv p).parser

/-- What `kernel_recvmsg` is offered in a pass, if it is called. -/
def offered (A : SkbAllocator) (p : Parser) : Option Nat :=
  match openPartial A .ok p with
  | .error _ => none
  | .ok b =>
      if recordReady b then none
      else
        match makeRoom A .ok b with
        | .error _ => none
        | .ok b => some b.skb.tailroom

/-! ## Headers that fail, reads that end the stream -/

theorem deliverRecord_fakeHeaders (A : SkbAllocator) (fakeHeaders : Bool) (header : EncapHeader)
    (b : Buffer) :
    deliverRecord A (allocated fakeHeaders) header b = deliverRecord A .ok header b ∨
      deliverRecord A (allocated fakeHeaders) header b = .error Parser.empty := by
  cases fakeHeaders with
  | true => exact .inl rfl
  | false =>
    -- Only the branches that end in a delivery ask for the headers.
    unfold deliverRecord
    by_cases hdone : b.expectedLen ≤ b.receivedLen ∧ wgTcpEncapHdrLen < b.receivedLen
    · rw [if_pos hdone, if_pos hdone]
      simp only [allocated, ReadOutcome.ok, Bool.not_true, Bool.false_eq_true, if_false, if_true]
      generalize (if hasFragHeader header.flags = true then _ else _ : FragInfo) = frag
      split_ifs
      · exact .inl rfl
      all_goals exact .inr rfl
    · rw [if_neg hdone, if_neg hdone]
      exact .inl rfl

theorem processBuffer_fakeHeaders (A : SkbAllocator) (fakeHeaders : Bool) (b : Buffer) :
    processBuffer A (allocated fakeHeaders) b = processBuffer A .ok b ∨
      processBuffer A (allocated fakeHeaders) b = .error Parser.empty := by
  unfold processBuffer
  cases checkHeader b with
  | error p =>
    left
    simp only [bind, Except.bind]
  | ok found =>
    have hgrow : growRecord A (allocated fakeHeaders) found.2 = growRecord A .ok found.2 := rfl
    simp only [bind, Except.bind, hgrow]
    cases growRecord A .ok found.2 with
    | error p => exact .inl rfl
    | ok b' => exact deliverRecord_fakeHeaders A fakeHeaders found.1 b'

/-- The read without the answers that end the stream. -/
def masked (recv : Nat → RecvResult) (n : Nat) : RecvResult :=
  if (recv n).terminal then .eagain else recv n

theorem masked_data {recv : Nat → RecvResult} {n : Nat} {bytes : Bytes}
    (h : masked recv n = .data bytes) : recv n = .data bytes := by
  unfold masked at h
  split at h
  · cases h
  · exact h

theorem masked_terminal (recv : Nat → RecvResult) (n : Nat) :
    (masked recv n).terminal = false := by
  unfold masked
  split
  · rfl
  · rename_i h
    simpa using h

/-- A pass leaves what it leaves without failing headers and without an end of the stream, or it
discards the buffer. -/
theorem readIteration_cases (A : SkbAllocator) (fakeHeaders : Bool) (recv : Nat → RecvResult)
    (p : Parser) :
    (readIteration A (allocated fakeHeaders) recv p).parser = Parser.empty ∨
      (readIteration A (allocated fakeHeaders) recv p).parser =
        (readIteration A .ok (masked recv) p).parser := by
  have hopen : openPartial A (allocated fakeHeaders) p = openPartial A .ok p := rfl
  unfold readIteration
  rw [hopen]
  cases openPartial A .ok p with
  | error q => exact .inr rfl
  | ok b =>
    have hprocess : ∀ b recv, (finishPass recv (processBuffer A (allocated fakeHeaders) b)).parser =
          Parser.empty ∨
        (finishPass recv (processBuffer A (allocated fakeHeaders) b)).parser =
          (finishPass recv (processBuffer A .ok b)).parser := by
      intro b recv
      rcases processBuffer_fakeHeaders A fakeHeaders b with h | h
      · exact .inr (by rw [h])
      · exact .inl (by rw [h]; rfl)
    have hroom : makeRoom A (allocated fakeHeaders) b = makeRoom A .ok b := rfl
    simp only [hroom]
    split
    · exact hprocess b none
    · cases makeRoom A .ok b with
      | error q => exact .inr rfl
      | ok b' =>
        simp only
        split
        · exact .inr rfl
        · cases hrecv : recv b'.skb.tailroom with
          | data bytes =>
            have hmask : masked recv b'.skb.tailroom = .data bytes := by
              simp [masked, hrecv, RecvResult.terminal]
            rw [hmask]
            exact hprocess _ _
          | eagain =>
            have hmask : masked recv b'.skb.tailroom = .eagain := by
              simp [masked, hrecv, RecvResult.terminal]
            rw [hmask]
            exact .inr rfl
          | closed => exact .inl rfl
          | error => exact .inl rfl

theorem LoopHead.ok {A : SkbAllocator} {reads : (Nat → RecvResult) → Prop} {p : Parser}
    (h : LoopHead A reads p) : p.Ok := by
  induction h with
  | start => exact Parser.ok_empty
  | pass fakeHeaders recv _ _ _ ih =>
    rcases readIteration_cases A fakeHeaders recv _ with hempty | hsame
    · rw [hempty]
      exact Parser.ok_empty
    · rw [hsame]
      exact (readIteration_spec A ih (masked_terminal recv)).pass.ok

/-! ## Headroom and allocations -/

/-- The headroom of a fresh buffer. -/
def reserved (A : SkbAllocator) : Nat := wgTcpReservedHeaderSize + A.netIpAlign

/-- The largest request when no read returns more than `N` bytes: headroom behind a pull, the
longest record, and a fresh read area. -/
def allocBound (A : SkbAllocator) (N : Nat) : Nat :=
  reserved A + (N + 7) + wgMaxPacketSize + (wgTcpSkbReadAllocSize + reserved A)

/-- The buffer was obtained by a request of at most `allocBound`, and its headroom is at least that
of a fresh buffer and at most one read larger. -/
structure Skb.Bounded (A : SkbAllocator) (N : Nat) (skb : Skb) : Prop where
  low : reserved A ≤ skb.headroom
  high : skb.headroom ≤ reserved A + (N + 7)
  sized : ∃ size ≤ allocBound A N,
    skb.headroom + skb.data.length + skb.tailroom = A.capacity size

/-- Before a header is found nothing has been pulled, and the buffer holds at most one read. -/
structure Skb.Fits (A : SkbAllocator) (N expectedLen : Nat) (skb : Skb) : Prop
    extends Skb.Bounded A N skb where
  fresh : expectedLen = 0 → skb.headroom = reserved A ∧ skb.data.length ≤ N + 7

def Parser.Fits (A : SkbAllocator) (N : Nat) (p : Parser) : Prop :=
  ∀ skb, p.partialSkb = some skb → skb.Fits A N p.expectedLen

/-- The buffer when its bytes are about to be looked at. -/
structure Buffer.Filled (A : SkbAllocator) (N : Nat) (b : Buffer) : Prop where
  fits : b.skb.Fits A N b.expectedLen
  received : b.receivedLen = b.skb.data.length
  begun : b.expectedLen ≠ 0 → wireFormat.header b.skb.data = some b.expectedLen ∧
    b.skb.data.length ≤ b.expectedLen + (N + 7)

/-- The buffer when the record it begins with is known. -/
structure Buffer.Headed (A : SkbAllocator) (N : Nat) (b : Buffer) : Prop where
  bounded : b.skb.Bounded A N
  received : b.receivedLen = b.skb.data.length
  front : wireFormat.header b.skb.data = some b.expectedLen
  length_le : b.skb.data.length ≤ b.expectedLen + (N + 7)

section Geometry

variable {A : SkbAllocator} {N : Nat}

theorem Parser.fits_empty : Parser.empty.Fits A N := by
  intro skb h
  cases h

theorem Skb.Fits.mono {M expectedLen : Nat} {skb : Skb} (h : skb.Fits A N expectedLen)
    (hle : N ≤ M) : skb.Fits A M expectedLen := by
  obtain ⟨size, hsize, hcap⟩ := h.sized
  refine ⟨⟨h.low, h.high.trans (by omega), size, hsize.trans ?_, hcap⟩, ?_⟩
  · unfold allocBound
    omega
  · intro hzero
    exact ⟨(h.fresh hzero).1, (h.fresh hzero).2.trans (by omega)⟩

/-- A buffer of the given headroom and bytes from the allocator. -/
theorem Skb.capacity_sum (A : SkbAllocator) {headroom size : Nat} {data : Bytes}
    (h : headroom + data.length ≤ size) :
    headroom + data.length + (A.capacity size - (headroom + data.length)) = A.capacity size := by
  have := A.le_capacity size
  omega

theorem Skb.Bounded.copyExpand {skb : Skb} (h : skb.Bounded A N) {room : Nat}
    (hroom : skb.headroom + skb.data.length + room ≤ allocBound A N) :
    (skb.copyExpand A skb.headroom room).Bounded A N :=
  ⟨h.low, h.high, _, hroom, Skb.capacity_sum A (Nat.le_add_right _ _)⟩

theorem header_le_max {data : Bytes} {n : Nat} (h : wireFormat.header data = some n) :
    n ≤ wgMaxPacketSize := by
  obtain ⟨hvalid, rfl⟩ := wireFormat_header_eq_some.mp h
  exact (wgCheckPotentialHeaderValidity_iff.mp hvalid).2.2.2.2.2

/-- A fresh buffer with its first bytes. -/
theorem Skb.fits_alloc {n : Nat} {bytes : Bytes} (hn : bytes.length ≤ n)
    (hsize : n + reserved A ≤ allocBound A N) (hbytes : bytes.length ≤ N + 7) :
    ((Skb.alloc A (n + reserved A) (reserved A)).put bytes).Fits A N 0 := by
  have hcap := A.le_capacity (n + reserved A)
  refine ⟨⟨le_rfl, Nat.le_add_right _ _, n + reserved A, hsize, ?_⟩, fun _ => ⟨rfl, hbytes⟩⟩
  simp only [Skb.put, Skb.alloc, List.nil_append]
  omega

theorem openPartial_fits {p : Parser} {b : Buffer} (h : p.Fits A N)
    (hopen : openPartial A .ok p = .ok b) : b.skb.Fits A N b.expectedLen := by
  unfold openPartial at hopen
  cases hskb : p.partialSkb with
  | some skb =>
    rw [hskb] at hopen
    cases hopen
    exact h skb hskb
  | none =>
    rw [hskb] at hopen
    cases hopen
    apply @Skb.fits_alloc A N wgTcpSkbReadAllocSize [] (Nat.zero_le _) _ (Nat.zero_le _)
    unfold allocBound
    omega

/-- Not ready means short of a header, or short of the record. -/
theorem length_lt_of_not_ready {b : Buffer} (hok : b.toParser.Ok)
    (hready : recordReady b = false) :
    (b.expectedLen = 0 ∧ b.skb.data.length < 8) ∨
      (wireFormat.header b.skb.data = some b.expectedLen ∧
        b.skb.data.length < b.expectedLen ∧ b.expectedLen ≠ 0) := by
  have hreceived : b.receivedLen = b.skb.data.length := hok.received
  by_cases hexp : b.expectedLen = 0
  · left
    refine ⟨hexp, ?_⟩
    simpa [recordReady, hexp, hreceived, wgTcpEncapHdrLen] using hready
  · right
    obtain ⟨hheader, hlt⟩ := hok.expected hexp
    exact ⟨hheader, hreceived ▸ hlt, hexp⟩

theorem makeRoom_fits {b b' : Buffer} (h : b.skb.Fits A N b.expectedLen) (hok : b.toParser.Ok)
    (hready : recordReady b = false) (hroom : makeRoom A .ok b = .ok b') :
    b'.skb.Fits A N b'.expectedLen := by
  have hlen : b.skb.data.length ≤ wgMaxPacketSize := by
    rcases length_lt_of_not_ready hok hready with ⟨-, hlt⟩ | ⟨hheader, hlt, -⟩
    · simp only [wgMaxPacketSize]
      omega
    · exact hlt.le.trans (header_le_max hheader)
  unfold makeRoom at hroom
  split at hroom
  · cases hroom
    refine ⟨h.toBounded.copyExpand ?_, h.fresh⟩
    have hhigh := h.high
    unfold allocBound reserved at *
    omega
  · cases hroom
    exact h

/-- A read of at most `N` bytes behind the bytes of an unready buffer. -/
theorem Buffer.Filled.append {b : Buffer} (h : b.skb.Fits A N b.expectedLen)
    (hok : b.toParser.Ok) (hready : recordReady b = false) {bytes : Bytes}
    (hroom : bytes.length ≤ b.skb.tailroom) (hbytes : bytes.length ≤ N) :
    (b.append bytes).Filled A N := by
  have hreceived : b.receivedLen = b.skb.data.length := hok.received
  have hunready := length_lt_of_not_ready hok hready
  have hdata : (b.append bytes).skb.data = b.skb.data ++ bytes := rfl
  obtain ⟨size, hsize, hcap⟩ := h.sized
  refine ⟨⟨⟨h.low, h.high, size, hsize, ?_⟩, ?_⟩, ?_, ?_⟩
  · simp only [Buffer.append, Skb.put, List.length_append]
    omega
  · intro hzero
    refine ⟨(h.fresh hzero).1, ?_⟩
    rw [hdata, List.length_append]
    rcases hunready with ⟨-, hlt⟩ | ⟨-, -, hne⟩
    · omega
    · exact absurd hzero hne
  · rw [hdata, List.length_append, ← hreceived]
    rfl
  · intro hne
    rcases hunready with ⟨hzero, -⟩ | ⟨hheader, hlt, -⟩
    · exact absurd hzero hne
    · refine ⟨?_, ?_⟩
      · rw [hdata, wireFormat.header_append (wireFormat.width_le_length_of_header hheader)]
        exact hheader
      · rw [hdata, List.length_append]
        exact Nat.add_le_add hlt.le (by omega)

/-- A buffer that is ready before a read has no header yet. -/
theorem Buffer.Filled.of_ready {b : Buffer} (h : b.skb.Fits A N b.expectedLen)
    (hok : b.toParser.Ok) (hready : recordReady b = true) : b.Filled A N := by
  refine ⟨h, hok.received, ?_⟩
  intro hne
  have hlt : b.receivedLen < b.expectedLen := (hok.expected hne).2
  simp [recordReady, hne] at hready
  omega

theorem Skb.Bounded.pull {skb : Skb} (h : skb.Bounded A N) (hfresh : skb.headroom = reserved A)
    {i : Nat} (hi : i ≤ skb.data.length) (hN : i ≤ N + 7) : (skb.pull i).Bounded A N := by
  obtain ⟨size, hsize, hcap⟩ := h.sized
  refine ⟨h.low.trans (Nat.le_add_right _ _), ?_, size, hsize, ?_⟩
  · simp only [Skb.pull, hfresh]
    omega
  · simp only [Skb.pull, List.length_drop]
    omega

theorem Skb.Bounded.keepSuffix {skb : Skb} (h : skb.Bounded A N) {n : Nat}
    (hn : n ≤ skb.data.length) : (skb.keepSuffix n).Bounded A N := by
  obtain ⟨size, hsize, hcap⟩ := h.sized
  refine ⟨h.low, h.high, size, hsize, ?_⟩
  simp only [Skb.keepSuffix, List.length_drop]
  omega

theorem wgSyncHeader_skb {b b' : Buffer} {found : Bool}
    (hb : b.receivedLen = b.skb.data.length) (hlong : 8 ≤ b.receivedLen)
    (h : wgSyncHeader b = (found, b')) :
    (found = true ∧ ∃ i ≤ b.skb.data.length, b'.skb = b.skb.pull i) ∨
      (found = false ∧ b'.skb = b.skb.keepSuffix 7) := by
  have h8 : wgTcpEncapHdrLen = 8 := rfl
  unfold wgSyncHeader at h
  rw [if_neg (by omega), hb] at h
  split at h
  · rename_i i hi
    obtain ⟨-, hlt, -, -⟩ := syncFrom_eq_some hi
    cases h
    exact .inl ⟨rfl, i, by omega, rfl⟩
  · cases h
    have hmin : min b.skb.data.length (wgTcpEncapHdrLen - 1) = 7 := by omega
    exact .inr ⟨rfl, by rw [hmin]⟩

theorem checkHeader_fits {b : Buffer} (h : b.Filled A N) :
    match checkHeader b with
    | .error p => p.Fits A N
    | .ok (_, b') => b'.Headed A N := by
  have h8 : wgTcpEncapHdrLen = 8 := rfl
  have hself : b.toParser.Fits A N := by
    rintro skb ⟨⟩
    exact h.fits
  unfold checkHeader
  by_cases hshort : b.receivedLen < wgTcpEncapHdrLen
  · rw [if_pos hshort]
    exact hself
  rw [if_neg hshort]
  by_cases hv : wgCheckPotentialHeaderValidity (EncapHeader.ofBytes b.skb.data) b.receivedLen
  · simp only [hv, if_true]
    rw [h.received] at hv
    have hfront := wireFormat_header_eq_some.mpr ⟨hv, rfl⟩
    refine ⟨h.fits.toBounded, h.received, hfront, ?_⟩
    by_cases hzero : b.expectedLen = 0
    · exact (h.fits.fresh hzero).2.trans (Nat.le_add_left _ _)
    · obtain ⟨hheader, hle⟩ := h.begun hzero
      rw [hfront, Option.some.injEq] at hheader
      rw [hheader]
      exact hle
  -- An announced record begins with a valid header, so that nothing has been announced.
  have hzero : b.expectedLen = 0 := by
    by_contra hne
    apply hv
    rw [h.received]
    exact (wireFormat_header_eq_some.mp (h.begun hne).1).1
  obtain ⟨hheadroom, hlen⟩ := h.fits.fresh hzero
  simp only [hv]
  cases hsync : wgSyncHeader b with
  | mk found b' =>
    rcases wgSyncHeader_skb h.received (Nat.le_of_not_lt hshort) hsync with
      ⟨rfl, i, hi, hskb⟩ | ⟨rfl, hskb⟩
    · obtain ⟨hreceived, hheader, -, hle⟩ := wgSyncHeader_true h.received hsync
      have hbounded : b'.skb.Bounded A N := by
        rw [hskb]
        exact h.fits.toBounded.pull hheadroom hi (hi.trans hlen)
      have hlong := wireFormat.width_le_length_of_header hheader
      rw [wireFormat_width] at hlong
      have hv' := (wireFormat_header_eq_some.mp hheader).1
      rw [← hreceived] at hv'
      simp only [Bool.false_eq_true, if_false, hv', if_true]
      rw [if_neg (by omega)]
      exact ⟨hbounded, hreceived, hheader, (hle.trans hlen).trans (Nat.le_add_left _ _)⟩
    · obtain ⟨hreceived, hseven, hzero', -⟩ :=
        wgSyncHeader_false h.received (Nat.le_of_not_lt hshort) hsync
      simp only [hseven, Bool.false_eq_true, if_false]
      rintro skb ⟨⟩
      have hdata : 7 ≤ b.skb.data.length := by
        rw [← h.received]
        omega
      refine ⟨?_, fun _ => ⟨by rw [hskb]; exact hheadroom, by omega⟩⟩
      rw [hskb]
      exact h.fits.toBounded.keepSuffix hdata

theorem growRecord_fits {b b' : Buffer} (h : b.Headed A N) (hgrow : growRecord A .ok b = .ok b') :
    b'.Headed A N := by
  simp only [growRecord, ReadOutcome.ok, if_true] at hgrow
  split at hgrow
  · rename_i hneeds
    cases hgrow
    refine ⟨h.bounded.copyExpand ?_, h.received, h.front, h.length_le⟩
    have hhigh := h.bounded.high
    have hmax := header_le_max h.front
    have hreceived := h.received
    have hlt := hneeds.1
    unfold allocBound
    omega
  · cases hgrow
    exact h

/-- A record that is not complete stays in its buffer; behind a complete one there is nothing, or
a fresh buffer with at most one read. -/
theorem deliverRecord_fits {b : Buffer} {header : EncapHeader} (h : b.Headed A N) :
    match deliverRecord A .ok header b with
    | .error p => p.Fits A N
    | .ok (_, p) => p.Fits A N := by
  have hself : b.toParser.Fits A N := by
    rintro skb ⟨⟩
    have hpos := wireFormat.header_pos h.front
    refine ⟨h.bounded, fun hzero => ?_⟩
    have : b.expectedLen = 0 := hzero
    omega
  have hleft : ∀ k, b.receivedLen - k - (b.expectedLen - k) ≤ N + 7 := by
    intro k
    have hlen := h.length_le
    rw [← h.received] at hlen
    omega
  unfold deliverRecord
  simp only [ReadOutcome.ok, Bool.not_true, Bool.false_eq_true, if_false, if_true]
  by_cases hdone : b.expectedLen ≤ b.receivedLen ∧ wgTcpEncapHdrLen < b.receivedLen
  · rw [if_pos hdone]
    by_cases hfrag : hasFragHeader header.flags = true ∧
        b.receivedLen < wgTcpEncapHdrLen + wgTcpFragHdrLen
    · rw [if_pos hfrag]
      exact hself
    rw [if_neg hfrag]
    -- Which fragment information the record carries does not matter to its buffer.
    generalize (if hasFragHeader header.flags = true then _ else _ : FragInfo) = frag
    split_ifs
    · exact Parser.fits_empty
    · exact Parser.fits_empty
    · exact Parser.fits_empty
    · rintro skb ⟨⟩
      apply Skb.fits_alloc (List.length_take_le _ _)
      · have := hleft (headerLen (hasFragHeader header.flags))
        unfold allocBound
        omega
      · exact (List.length_take_le _ _).trans (hleft _)
  · rw [if_neg hdone]
    exact hself

theorem processBuffer_fits {b : Buffer} (h : b.Filled A N) (recv : Option RecvResult) :
    (finishPass recv (processBuffer A .ok b)).parser.Fits A N := by
  have hcheck := checkHeader_fits h
  unfold processBuffer
  cases hc : checkHeader b with
  | error p =>
    rw [hc] at hcheck
    exact hcheck
  | ok found =>
    rw [hc] at hcheck
    simp only [bind, Except.bind]
    cases hg : growRecord A .ok found.2 with
    | error p => simp [growRecord, ReadOutcome.ok] at hg; split at hg <;> cases hg
    | ok b' =>
      have hdeliver := @deliverRecord_fits A N b' found.1 (growRecord_fits hcheck hg)
      simp only
      cases hd : deliverRecord A .ok found.1 b' with
      | error p =>
        rw [hd] at hdeliver
        exact hdeliver
      | ok result =>
        rw [hd] at hdeliver
        exact hdeliver

/-- A pass keeps the bounds when its read, if there is one, returns at most `N` bytes. -/
theorem readIteration_fits {p : Parser} (h : p.Fits A N) (hok : p.Ok) {recv : Nat → RecvResult}
    (hread : ∀ n bytes, offered A p = some n → recv n = .data bytes →
      bytes.length ≤ n ∧ bytes.length ≤ N) :
    (readIteration A .ok recv p).parser.Fits A N := by
  obtain ⟨b, hopen, hbok, -, -⟩ := openPartial_spec A hok
  have hb := openPartial_fits h hopen
  unfold offered at hread
  unfold readIteration
  rw [hopen] at hread ⊢
  simp only at hread ⊢
  cases hready : recordReady b with
  | true =>
    rw [if_pos rfl]
    exact processBuffer_fits (.of_ready hb hbok hready) none
  | false =>
    rw [hready] at hread
    rw [if_neg Bool.false_ne_true] at hread ⊢
    obtain ⟨b', hroom, hdata, hexp, hreceived, htail⟩ := makeRoom_spec A b
    have hb' := makeRoom_fits hb hbok hready hroom
    rw [hroom] at hread ⊢
    simp only at hread ⊢
    rw [if_neg (by simp only [wgTcpEncapHdrLen] at htail; omega)]
    have hbok' : b'.toParser.Ok := by
      refine ⟨?_, fun hne => ?_⟩
      · show b'.receivedLen = b'.skb.data.length
        rw [hreceived, hdata]
        exact hbok.received
      · have := hbok.expected (by simpa [Buffer.toParser, hexp] using hne)
        simpa [Buffer.toParser, Parser.bytes, hexp, hreceived, hdata] using this
    have hready' : recordReady b' = false := by
      rw [← hready]
      simp only [recordReady, hexp, hreceived]
    cases hrecv : recv b'.skb.tailroom with
    | data bytes =>
      obtain ⟨hfits, hN⟩ := hread _ bytes rfl hrecv
      exact processBuffer_fits (.append hb' hbok' hready' hfits hN) _
    | eagain =>
      rintro skb ⟨⟩
      exact hb'
    | closed => exact Parser.fits_empty
    | error => exact Parser.fits_empty

end Geometry

/-! ## Every loop head -/

section LoopHeads

variable {A : SkbAllocator} {reads : (Nat → RecvResult) → Prop}

theorem LoopHead.pass_fits {N : Nat} {p : Parser} (h : LoopHead A reads p) (hfits : p.Fits A N)
    (fakeHeaders : Bool) {recv : Nat → RecvResult} (hanswers : Answers recv)
    (hread : ∀ n bytes, offered A p = some n → recv n = .data bytes → bytes.length ≤ N) :
    (readIteration A (allocated fakeHeaders) recv p).parser.Fits A N := by
  rcases readIteration_cases A fakeHeaders recv p with hempty | hsame
  · rw [hempty]
    exact Parser.fits_empty
  · rw [hsame]
    apply readIteration_fits hfits h.ok
    intro n bytes hoffered hmasked
    have hrecv := masked_data hmasked
    exact ⟨(hanswers n bytes hrecv).2, hread n bytes hoffered hrecv⟩

theorem LoopHead.fits {N : Nat} {p : Parser} (h : LoopHead A reads p)
    (hreads : ∀ recv, reads recv → ReadsAtMost N recv) : p.Fits A N := by
  induction h with
  | start => exact Parser.fits_empty
  | pass fakeHeaders recv hanswers hrecv h ih =>
    exact h.pass_fits ih fakeHeaders hanswers fun n bytes _ hdata => hreads recv hrecv n bytes hdata

/-- Whatever the reads, finitely many passes have read finitely many bytes. -/
theorem LoopHead.exists_fits {p : Parser} (h : LoopHead A reads p) : ∃ N, p.Fits A N := by
  induction h with
  | start => exact ⟨0, Parser.fits_empty⟩
  | @pass p fakeHeaders recv hanswers _ h ih =>
    obtain ⟨N, hN⟩ := ih
    let M := max N ((offered A p).getD 0)
    have hM : p.Fits A M := fun skb hskb => (hN skb hskb).mono (Nat.le_max_left _ _)
    refine ⟨M, h.pass_fits hM fakeHeaders hanswers ?_⟩
    intro n bytes hoffered hdata
    have hle := (hanswers n bytes hdata).2
    have hn : (offered A p).getD 0 = n := by rw [hoffered]; rfl
    exact hle.trans (hn ▸ Nat.le_max_right _ _)

theorem finishPass_recv (recv : Option RecvResult)
    (result : Except Parser (Option Record × Parser)) : (finishPass recv result).recv = recv := by
  cases result <;> rfl

/-- The room a pass reads into is never empty. -/
theorem offered_pos {p : Parser} {n : Nat} (h : offered A p = some n) : 1 ≤ n := by
  have h8 : wgTcpEncapHdrLen = 8 := rfl
  unfold offered at h
  cases hopen : openPartial A .ok p with
  | error q => simp [hopen] at h
  | ok b =>
    obtain ⟨b', hroom, -, -, -, htail⟩ := makeRoom_spec A b
    simp only [hopen, hroom] at h
    split at h
    · cases h
    · cases h
      omega

theorem readIteration_recv (fakeHeaders : Bool) (recv : Nat → RecvResult) (p : Parser) :
    (readIteration A (allocated fakeHeaders) recv p).recv = (offered A p).map recv := by
  have hopen : openPartial A (allocated fakeHeaders) p = openPartial A .ok p := rfl
  unfold readIteration offered
  rw [hopen]
  cases openPartial A .ok p with
  | error q => rfl
  | ok b =>
    have hsame : makeRoom A (allocated fakeHeaders) b = makeRoom A .ok b := rfl
    obtain ⟨b', hroom, -, -, -, htail⟩ := makeRoom_spec A b
    simp only [hsame, hroom]
    split
    · exact finishPass_recv _ _
    · rw [if_neg (by simp only [wgTcpEncapHdrLen] at htail; omega)]
      cases hrecv : recv b'.skb.tailroom with
      | data bytes => simp [finishPass_recv, hrecv]
      | eagain => simp [hrecv]
      | closed => simp [hrecv]
      | error => simp [hrecv]

/-- The invariant of the buffer at every loop head, for all streams and all ways to read them:
the lengths agree with the buffer, an announced record is incomplete and begins with its valid
header, there is headroom for synthetic headers, and a read is never offered an empty buffer.
If no read returns more than `N` bytes, the request for the buffer was at most `allocBound`. -/
theorem parser_buffer_bounds (A : SkbAllocator) (reads : (Nat → RecvResult) → Prop) (p : Parser)
    (h : LoopHead A reads p) :
    (p.partialSkb = none → p.receivedLen = 0) ∧
    (∀ skb, p.partialSkb = some skb → p.receivedLen = skb.data.length ∧ 128 ≤ skb.headroom) ∧
    (p.expectedLen ≠ 0 → ∃ skb, p.partialSkb = some skb ∧ 8 ≤ p.receivedLen ∧
      wgCheckPotentialHeaderValidity (EncapHeader.ofBytes skb.data) p.receivedLen = true ∧
      (EncapHeader.ofBytes skb.data).length = p.expectedLen ∧ p.receivedLen < p.expectedLen) ∧
    (∀ fakeHeaders recv,
      (readIteration A (allocated fakeHeaders) recv p).recv = (offered A p).map recv) ∧
    (∀ n, offered A p = some n → 1 ≤ n) ∧
    ∀ N, (∀ recv, reads recv → ReadsAtMost N recv) → ∀ skb, p.partialSkb = some skb →
      ∃ size ≤ allocBound A N, skb.headroom + skb.data.length + skb.tailroom = A.capacity size := by
  have hok := h.ok
  obtain ⟨M, hM⟩ := h.exists_fits
  refine ⟨?_, ?_, ?_, fun fakeHeaders recv => readIteration_recv fakeHeaders recv p,
    fun n => offered_pos, ?_⟩
  · intro hnone
    simpa [Parser.bytes, hnone] using hok.received
  · intro skb hskb
    refine ⟨by simpa [Parser.bytes, hskb] using hok.received, ?_⟩
    exact (Nat.le_add_right _ _).trans (hM skb hskb).low
  · intro hne
    obtain ⟨hheader, hlt⟩ := hok.expected hne
    have hlong := wireFormat.width_le_length_of_header hheader
    cases hskb : p.partialSkb with
    | none =>
      simp [Parser.bytes, hskb] at hlong
    | some skb =>
      have hbytes : p.bytes = skb.data := by simp [Parser.bytes, hskb]
      rw [hbytes] at hheader hlong
      have hreceived : p.receivedLen = skb.data.length := by rw [hok.received, hbytes]
      obtain ⟨hvalid, hlength⟩ := wireFormat_header_eq_some.mp hheader
      rw [← hreceived] at hvalid hlong
      exact ⟨skb, rfl, hlong, hvalid, hlength, hlt⟩
  · intro N hreads skb hskb
    exact (h.fits hreads skb hskb).sized

end LoopHeads

/-- A read that answers with the given bytes where they fit. -/
def answer (bytes : Bytes) (n : Nat) : RecvResult :=
  if bytes.length ≤ n then .data bytes else .eagain

theorem answers_answer {bytes : Bytes} (h : bytes ≠ []) : Answers (answer bytes) := by
  intro n data hdata
  unfold answer at hdata
  split at hdata
  · cases hdata
    exact ⟨h, by assumption⟩
  · cases hdata

theorem parser_buffer_bounds_three_bytes :
    let p := (readIteration exactAllocator (allocated true) (answer [1, 2, 3]) Parser.empty).parser
    p.partialSkb = some ⟨128, [1, 2, 3], 24573⟩ ∧ p.receivedLen = 3 ∧
      ∃ size ≤ allocBound exactAllocator 3, 24704 = exactAllocator.capacity size := by
  intro p
  have hskb : p.partialSkb = some ⟨128, [1, 2, 3], 24573⟩ := by decide
  have h : LoopHead exactAllocator (fun recv => recv = answer [1, 2, 3]) p :=
    .pass true _ (answers_answer (by decide)) rfl .start
  obtain ⟨-, hlen, -, -, -, hsize⟩ := parser_buffer_bounds _ _ p h
  refine ⟨hskb, (hlen _ hskb).1, hsize 3 ?_ _ hskb⟩
  rintro recv rfl n bytes hdata
  unfold answer at hdata
  split at hdata
  · cases hdata
    decide
  · cases hdata

/-! ## A buffer that doubles

The usable size of a buffer is what the page allocator returned, a power of two,
less the shared info behind it. A header at the very end of a full buffer turns
the whole buffer into headroom, the copy that makes room for its record is twice
as large, a read that fills it leaves a leftover that needs as much again, and
junk in the leftover frees the buffer for the next round. -/

section Doubling

/-- The size of `struct skb_shared_info`. -/
def sharedInfoSize : Nat := 320

def pageAllocator : SkbAllocator where
  capacity n := 2 ^ Nat.clog 2 (n + sharedInfoSize) - sharedInfoSize
  le_capacity n := by
    have := Nat.le_pow_clog Nat.one_lt_two (n + sharedInfoSize)
    omega
  netIpAlign := 0

theorem clog_two_eq {m k : Nat} (hlow : 2 ^ k < m) (hhigh : m ≤ 2 ^ (k + 1)) :
    Nat.clog 2 m = k + 1 := by
  apply Nat.le_antisymm
  · exact Nat.clog_le_of_le_pow hhigh
  · exact (Nat.lt_clog_iff_pow_lt Nat.one_lt_two).mpr hlow

theorem pageAllocator_capacity {n k : Nat} (hlow : 2 ^ k < n + sharedInfoSize)
    (hhigh : n + sharedInfoSize ≤ 2 ^ (k + 1)) :
    pageAllocator.capacity n = 2 ^ (k + 1) - sharedInfoSize := by
  show 2 ^ Nat.clog 2 (n + sharedInfoSize) - sharedInfoSize = _
  rw [clog_two_eq hlow hhigh]

def zeros (n : Nat) : Bytes := List.replicate n 0

/-- The header of a record of forty bytes. -/
def shortHeader : Bytes := (frameHeader FragInfo.none 32).toBytes

theorem header_shortHeader (rest : Bytes) : wireFormat.header (shortHeader ++ rest) = some 40 := by
  rw [wireFormat.header_append (by decide)]
  decide +kernel

/-- A window whose length field is zero is no header. -/
theorem header_of_zeros {data : Bytes} (h : data.take 4 = zeros 4) :
    wireFormat.header data = none := by
  cases hheader : wireFormat.header data with
  | none => rfl
  | some n =>
    obtain ⟨hvalid, -⟩ := wireFormat_header_eq_some.mp hheader
    obtain ⟨-, -, -, -, hmin, -⟩ := wgCheckPotentialHeaderValidity_iff.mp hvalid
    have hzero : (EncapHeader.ofBytes data).length = 0 := by
      simp only [EncapHeader.ofBytes, h]
      decide
    rw [hzero] at hmin
    simp [minimumLen] at hmin

theorem take_drop_zeros {m k : Nat} (h : k + 4 ≤ m) (rest : Bytes) :
    ((zeros m ++ rest).drop k).take 4 = zeros 4 := by
  rw [List.drop_append_of_le_length (by simp [zeros]; omega)]
  rw [List.take_append_of_le_length (by simp [zeros]; omega)]
  simp only [zeros, List.drop_replicate, List.take_replicate]
  congr 1
  omega

theorem shortHeader_eq : shortHeader = zeros 3 ++ shortHeader.drop 3 := by decide

/-- Behind zeros, the first window that is a header is the header. -/
theorem header_drop_zeros {m k : Nat} (h : k < m) :
    wireFormat.header ((zeros m ++ shortHeader).drop k) = none := by
  apply header_of_zeros
  rw [shortHeader_eq, ← List.append_assoc, zeros, zeros, List.replicate_append_replicate]
  exact take_drop_zeros (by omega) _

theorem checkHeader_front {b : Buffer} (hb : b.receivedLen = b.skb.data.length) {n : Nat}
    (hheader : wireFormat.header b.skb.data = some n) :
    checkHeader b = .ok (EncapHeader.ofBytes b.skb.data, { b with expectedLen := n }) := by
  obtain ⟨hvalid, hlength⟩ := wireFormat_header_eq_some.mp hheader
  have hlong := wireFormat.width_le_length_of_header hheader
  rw [wireFormat_width] at hlong
  unfold checkHeader
  rw [← hb] at hvalid hlong
  rw [if_neg (Nat.not_lt.mpr hlong)]
  simp only [hvalid, if_true, hlength]

/-- Junk in front of a header is pulled. -/
theorem checkHeader_behind {b : Buffer} (hb : b.receivedLen = b.skb.data.length) {i n : Nat}
    (hi : 0 < i) (hheader : wireFormat.header (b.skb.data.drop i) = some n)
    (hjunk : ∀ k < i, wireFormat.header (b.skb.data.drop k) = none) :
    checkHeader b = .ok (EncapHeader.ofBytes (b.skb.data.drop i),
      ⟨b.skb.pull i, n, b.receivedLen - i⟩) := by
  have hlong := wireFormat.width_le_length_of_header hheader
  rw [wireFormat_width, List.length_drop, ← hb] at hlong
  have hfront := wireFormat_header_eq_none.mp (hjunk 0 hi)
  rw [List.drop_zero, ← hb] at hfront
  obtain ⟨hvalid, hlength⟩ := wireFormat_header_eq_some.mp hheader
  rw [List.length_drop, ← hb] at hvalid
  have hsync : wgSyncHeader b = (true, ⟨b.skb.pull i, n, b.receivedLen - i⟩) := by
    unfold wgSyncHeader
    rw [if_neg (by simp only [wgTcpEncapHdrLen]; omega), hb]
    cases hfrom : syncFrom b.skb.data b.skb.data.length
        (b.skb.data.length - wgTcpEncapHdrLen + 1) 0 with
    | none =>
      have hnone := syncFrom_eq_none hfrom i (Nat.zero_le _)
        (by simp only [wgTcpEncapHdrLen]; omega)
      rw [hheader] at hnone
      cases hnone
    | some j =>
      obtain ⟨-, -, hj, hbefore⟩ := syncFrom_eq_some hfrom
      have hji : j = i := by
        rcases Nat.lt_trichotomy j i with hlt | heq | hgt
        · rw [hjunk j hlt] at hj
          cases hj
        · exact heq
        · rw [hbefore i (Nat.zero_le _) hgt] at hheader
          cases hheader
      subst hji
      simp only [hlength]
  unfold checkHeader
  rw [if_neg (by simp only [wgTcpEncapHdrLen]; omega)]
  simp only [hfront, Bool.false_eq_true, if_false, hsync]
  rw [if_neg (by simp only [wgTcpEncapHdrLen]; omega)]
  simp only [Skb.pull, hvalid, if_true, hlength]

/-- Junk alone is dropped up to its last seven bytes. -/
theorem checkHeader_junk {b : Buffer} (hb : b.receivedLen = b.skb.data.length)
    (hlong : 8 ≤ b.receivedLen) (hjunk : ∀ k, wireFormat.header (b.skb.data.drop k) = none) :
    checkHeader b = .error ⟨some (b.skb.keepSuffix 7), 0, 7⟩ := by
  have hfront := wireFormat_header_eq_none.mp (hjunk 0)
  rw [List.drop_zero, ← hb] at hfront
  unfold checkHeader
  rw [if_neg (Nat.not_lt.mpr hlong)]
  simp only [hfront, Bool.false_eq_true, if_false]
  cases hsync : wgSyncHeader b with
  | mk found b' =>
    rcases wgSyncHeader_skb hb hlong hsync with ⟨rfl, i, -, hskb⟩ | ⟨rfl, hskb⟩
    · obtain ⟨-, hheader, -, -⟩ := wgSyncHeader_true hb hsync
      rw [hskb, Skb.pull, hjunk i] at hheader
      cases hheader
    · obtain ⟨-, hseven, hzero, -⟩ := wgSyncHeader_false hb hlong hsync
      simp only [hseven, Buffer.toParser, hskb, hzero]
      rfl

variable {A : SkbAllocator}

/-- A pass that reads bytes into the room behind the bytes it holds. -/
theorem readIteration_answer {b : Buffer} {bytes : Bytes} (hready : recordReady b = false)
    (hroom : 8 ≤ b.skb.tailroom) (hfits : bytes.length ≤ b.skb.tailroom) :
    readIteration A .ok (answer bytes) b.toParser =
      finishPass (some (.data bytes)) (processBuffer A .ok (b.append bytes)) := by
  have hmake : makeRoom A .ok b = .ok b := if_neg (Nat.not_lt.mpr hroom)
  have hrecv : answer bytes b.skb.tailroom = .data bytes := if_pos hfits
  simp only [readIteration, openPartial, Buffer.toParser, hready, hmake, hrecv,
    Bool.false_eq_true, if_false]
  rw [if_neg (by omega)]

/-- Seven bytes of junk in a buffer of the given size. -/
def waiting (size : Nat) : Buffer := ⟨⟨128, zeros 7, size - 135⟩, 0, 7⟩

/-- A header where a buffer of the first size ended, in a buffer of the second. -/
def headed (size larger : Nat) : Buffer := ⟨⟨size - 8, shortHeader, larger - size⟩, 40, 8⟩

/-- Junk left over behind a record. -/
def spilled (n size : Nat) : Buffer := ⟨⟨128, zeros n, size - (128 + n)⟩, 0, n⟩

theorem length_shortHeader : shortHeader.length = 8 := by decide

theorem pass_to_headed {size larger : Nat} (hsize : 1000 ≤ size)
    (hcap : A.capacity (size + 32) = larger) :
    (readIteration A .ok (answer (zeros (size - 143) ++ shortHeader))
      (waiting size).toParser).parser = (headed size larger).toParser := by
  obtain ⟨m, rfl⟩ : ∃ m, size = m + 143 := ⟨size - 143, by omega⟩
  rw [Nat.add_sub_cancel]
  have hlen : (zeros m ++ shortHeader).length = m + 8 := by
    rw [List.length_append, length_shortHeader, zeros, List.length_replicate]
  have hroom : (waiting (m + 143)).skb.tailroom = m + 8 := Nat.add_sub_cancel (m + 8) 135
  have hfill : (waiting (m + 143)).append (zeros m ++ shortHeader) =
      ⟨⟨128, zeros (m + 7) ++ shortHeader, 0⟩, 0, m + 15⟩ := by
    simp only [Buffer.append, Skb.put, hlen, hroom, Nat.sub_self]
    simp only [waiting, zeros, ← List.append_assoc, List.replicate_append_replicate]
    rw [Nat.add_comm 7 m, show 7 + (m + 8) = m + 15 by omega]
  rw [readIteration_answer (by rfl) (by omega) (by omega), hfill]
  have hfront : (zeros (m + 7) ++ shortHeader).drop (m + 7) = shortHeader :=
    List.drop_left' (List.length_replicate ..)
  have hcheck := @checkHeader_behind ⟨⟨128, zeros (m + 7) ++ shortHeader, 0⟩, 0, m + 15⟩
    (by simp only [List.length_append, length_shortHeader, zeros, List.length_replicate])
    (m + 7) 40 (by omega)
    (by rw [hfront, ← List.append_nil shortHeader]; exact header_shortHeader [])
    (fun k hk => header_drop_zeros hk)
  rw [hfront] at hcheck
  have hpull : Skb.pull ⟨128, zeros (m + 7) ++ shortHeader, 0⟩ (m + 7) =
      ⟨m + 135, shortHeader, 0⟩ := by
    simp only [Skb.pull, hfront]
    rw [show 128 + (m + 7) = m + 135 by omega]
  rw [hpull, show m + 15 - (m + 7) = 8 by omega] at hcheck
  have hgrow : growRecord A .ok ⟨⟨m + 135, shortHeader, 0⟩, 40, 8⟩ =
      .ok (headed (m + 143) larger) := by
    simp only [growRecord, ReadOutcome.ok, Skb.copyExpand, length_shortHeader, headed, ← hcap]
    rfl
  simp only [processBuffer, hcheck, bind, Except.bind, hgrow]
  rfl

theorem deliverRecord_short {m larger headroom tailroom : Nat} (halign : A.netIpAlign = 0)
    (hm : 0 < m) (hcap : A.capacity (m + 128) = larger) :
    deliverRecord A .ok (frameHeader FragInfo.none 32)
        ⟨⟨headroom, shortHeader ++ zeros (m + 32), tailroom⟩, 40, m + 40⟩ =
      .ok (some ⟨zeros 32, FragInfo.none⟩, (spilled m larger).toParser) := by
  have hdrop : (shortHeader ++ zeros (m + 32)).drop (headerLen false) = zeros (m + 32) :=
    List.drop_left' length_shortHeader
  have hflags : hasFragHeader (frameHeader FragInfo.none 32).flags = false := rfl
  have htake : (zeros (m + 32)).take 32 = zeros 32 := by
    simp only [zeros, List.take_replicate]
    rw [Nat.min_eq_left (by omega)]
  have hleft : ((zeros (m + 32)).drop 32).take m = zeros m := by
    simp only [zeros, List.drop_replicate, List.take_replicate]
    rw [Nat.add_sub_cancel, Nat.min_self]
  have hexpected : 40 - headerLen false = 32 := rfl
  have hreceived : m + 40 - headerLen false = m + 32 := Nat.add_sub_cancel (m + 32) 8
  have hlen : (zeros (m + 32)).length = m + 32 := List.length_replicate ..
  have hcap' : A.capacity (m + wgTcpReservedHeaderSize) = larger := hcap
  have hdone : 40 ≤ m + 40 ∧ wgTcpEncapHdrLen < m + 40 := by
    simp only [wgTcpEncapHdrLen]
    omega
  unfold deliverRecord
  rw [if_pos hdone]
  simp only [hflags, Bool.false_eq_true, false_and, if_false, Skb.pull, hdrop, hexpected,
    hreceived, hlen, Nat.add_sub_cancel]
  rw [if_neg (by omega), if_neg (by omega), if_neg (by decide), if_neg (by omega)]
  simp only [ReadOutcome.ok, if_true, htake, hleft, Skb.put, Skb.alloc, halign, Nat.add_zero,
    hcap', spilled, Buffer.toParser, List.nil_append]
  simp only [zeros, List.length_replicate, Nat.sub_sub]

theorem pass_to_spilled {size larger : Nat} (halign : A.netIpAlign = 0)
    (hroom : 40 < larger - size) (hcap : A.capacity (larger - size + 96) = larger) :
    (readIteration A .ok (answer (zeros (larger - size))) (headed size larger).toParser).parser =
      (spilled (larger - size - 32) larger).toParser := by
  obtain ⟨m, hm⟩ : ∃ m, larger - size = m + 32 := ⟨larger - size - 32, by omega⟩
  have hlen : (zeros (m + 32)).length = m + 32 := List.length_replicate ..
  have hfill : (headed size larger).append (zeros (m + 32)) =
      ⟨⟨size - 8, shortHeader ++ zeros (m + 32), 0⟩, 40, m + 40⟩ := by
    simp only [Buffer.append, Skb.put, headed, hlen, hm, Nat.sub_self]
    rw [show 8 + (m + 32) = m + 40 by omega]
  have hcheck := @checkHeader_front ⟨⟨size - 8, shortHeader ++ zeros (m + 32), 0⟩, 40, m + 40⟩
    (by rw [List.length_append, length_shortHeader, hlen, Nat.add_comm 8]) 40 (header_shortHeader _)
  rw [show EncapHeader.ofBytes (shortHeader ++ zeros (m + 32)) = frameHeader FragInfo.none 32 from
    EncapHeader.ofBytes_toBytes _ (by decide) _] at hcheck
  have hgrow : growRecord A .ok ⟨⟨size - 8, shortHeader ++ zeros (m + 32), 0⟩, 40, m + 40⟩ =
      .ok ⟨⟨size - 8, shortHeader ++ zeros (m + 32), 0⟩, 40, m + 40⟩ := by
    unfold growRecord
    exact if_neg (by simp only; omega)
  rw [readIteration_answer (by rfl) (by simp only [headed]; omega)
    (by simp only [headed, zeros, List.length_replicate]; omega), hm, hfill]
  simp only [processBuffer, hcheck, bind, Except.bind, hgrow]
  rw [hm] at hcap
  rw [deliverRecord_short halign (by omega) hcap, Nat.add_sub_cancel]
  rfl

theorem header_zeros (n k : Nat) : wireFormat.header ((zeros n).drop k) = none := by
  by_cases hk : k + 4 ≤ n
  · apply header_of_zeros
    simpa using take_drop_zeros hk []
  · apply wireFormat.header_of_short
    simp only [zeros, List.length_drop, List.length_replicate, wireFormat_width]
    omega

theorem pass_to_waiting {n size : Nat} (hn : 8 ≤ n) (hsize : 128 + n ≤ size)
    (recv : Nat → RecvResult) :
    (readIteration A .ok recv (spilled n size).toParser).parser = (waiting size).toParser := by
  have hready : recordReady (spilled n size) = true := by
    simp [recordReady, spilled, wgTcpEncapHdrLen, hn]
  have hcheck := @checkHeader_junk (spilled n size) (by simp [spilled, zeros]) hn
    (fun k => header_zeros n k)
  have hpass : readIteration A .ok recv (spilled n size).toParser =
      finishPass none (processBuffer A .ok (spilled n size)) := by
    simp only [readIteration, openPartial, Buffer.toParser]
    exact if_pos hready
  rw [hpass]
  simp only [processBuffer, hcheck, bind, Except.bind, finishPass]
  simp only [Skb.keepSuffix, spilled, waiting, Buffer.toParser, zeros, List.length_replicate,
    List.drop_replicate]
  rw [show n - (n - 7) = 7 by omega, show size - (128 + n) + (n - 7) = size - 135 by omega]

/-- One round, in three passes. -/
theorem LoopHead.doubles {k : Nat} (hk : 15 ≤ k)
    (h : LoopHead pageAllocator (fun _ => True) (waiting (2 ^ k - sharedInfoSize)).toParser) :
    LoopHead pageAllocator (fun _ => True) (waiting (2 ^ (k + 1) - sharedInfoSize)).toParser := by
  have hinfo : sharedInfoSize = 320 := rfl
  have hpow : 2 ^ 15 ≤ 2 ^ k := Nat.pow_le_pow_right (by decide) hk
  have hsucc : 2 ^ (k + 1) = 2 ^ k + 2 ^ k := by rw [Nat.pow_succ]; omega
  set size := 2 ^ k - sharedInfoSize with hsize
  set larger := 2 ^ (k + 1) - sharedInfoSize with hlarger
  have hgrowth : larger - size = 2 ^ k := by omega
  have hzeros : zeros (larger - size) ≠ [] := by
    rw [Ne, ← List.length_eq_zero_iff, zeros, List.length_replicate]
    omega
  have hheaded := h.pass true (answer (zeros (size - 143) ++ shortHeader))
    (answers_answer (List.append_ne_nil_of_right_ne_nil _ (by decide))) trivial
  rw [show allocated true = ReadOutcome.ok from rfl, pass_to_headed (by omega)
    (@pageAllocator_capacity _ k (by omega) (by omega))] at hheaded
  have hspilled := hheaded.pass true (answer (zeros (larger - size))) (answers_answer hzeros)
    trivial
  rw [show allocated true = ReadOutcome.ok from rfl, pass_to_spilled rfl (by omega)
    (@pageAllocator_capacity _ k (by omega) (by omega))] at hspilled
  have hwaiting := hspilled.pass true (answer [0]) (answers_answer (by decide)) trivial
  rwa [show allocated true = ReadOutcome.ok from rfl, pass_to_waiting (by omega) (by omega)]
    at hwaiting

/-- Without a buffer a pass begins with a fresh one. -/
theorem readIteration_empty (recv : Nat → RecvResult) :
    readIteration A .ok recv Parser.empty = readIteration A .ok recv (Buffer.toParser
      ⟨Skb.alloc A (wgTcpSkbReadAllocSize + reserved A) (reserved A), 0, 0⟩) := rfl

theorem LoopHead.waiting_first :
    LoopHead pageAllocator (fun _ => True) (waiting (2 ^ 15 - sharedInfoSize)).toParser := by
  have hinfo : sharedInfoSize = 320 := rfl
  have hread : wgTcpSkbReadAllocSize = 24576 := rfl
  have halloc : Skb.alloc pageAllocator (wgTcpSkbReadAllocSize + 128) 128 =
      ⟨128, [], 2 ^ 15 - sharedInfoSize - 128⟩ := by
    rw [Skb.alloc, @pageAllocator_capacity _ 14 (by omega) (by omega)]
  have h := (@LoopHead.start pageAllocator (fun _ => True)).pass true (answer (zeros 7))
    (answers_answer (by decide)) trivial
  rw [show allocated true = ReadOutcome.ok from rfl, readIteration_empty,
    show reserved pageAllocator = 128 from rfl, halloc,
    readIteration_answer (by rfl) (by simp only; omega)
      (by simp only [zeros, List.length_replicate]; omega)] at h
  have hshort (room : Nat) : (finishPass (some (.data (zeros 7))) (processBuffer pageAllocator .ok
      (Buffer.append ⟨⟨128, [], room⟩, 0, 0⟩ (zeros 7)))).parser =
        ⟨some ⟨128, zeros 7, room - 7⟩, 0, 7⟩ := rfl
  rw [hshort, Nat.sub_sub _ 128 7] at h
  exact h

theorem LoopHead.waiting_pow {k : Nat} (hk : 15 ≤ k) :
    LoopHead pageAllocator (fun _ => True) (waiting (2 ^ k - sharedInfoSize)).toParser := by
  induction k, hk using Nat.le_induction with
  | base => exact LoopHead.waiting_first
  | succ k hk ih => exact ih.doubles hk

/-- Reads that return all they are offered make the buffer as large as one likes. -/
theorem buffer_outgrows_every_bound : ¬ ∃ bound, ∀ p skb,
    LoopHead pageAllocator (fun _ => True) p → p.partialSkb = some skb →
      skb.headroom + skb.data.length + skb.tailroom ≤ bound := by
  rintro ⟨bound, hbound⟩
  have hinfo : sharedInfoSize = 320 := rfl
  have hpow : bound < 2 ^ bound := Nat.lt_two_pow_self
  have hsplit : 2 ^ (15 + bound) = 2 ^ 15 * 2 ^ bound := Nat.pow_add 2 15 bound
  have hle := hbound _ _ (LoopHead.waiting_pow (Nat.le_add_right 15 bound)) rfl
  simp only [waiting, zeros, List.length_replicate] at hle
  omega

end Doubling

end WgTcp
