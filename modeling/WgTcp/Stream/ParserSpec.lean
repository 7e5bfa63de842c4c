import WgTcp.Stream.Parser

/-!
# What a pass of the reader does to the stream

The parser holds a piece of the byte stream. When no allocation fails, a pass
of the loop advances the reference decoder by the records it delivers
(`readIteration_spec`), and a pass that leaves the loop has nothing left to
decide (`Parser.Settled`).
-/

namespace WgTcp

open FrameScan

def Parser.bytes (p : Parser) : Bytes :=
  match p.partialSkb with
  | none => []
  | some skb => skb.data

@[simp] theorem Parser.bytes_empty : Parser.empty.bytes = [] := rfl

@[simp] theorem Buffer.bytes_toParser (b : Buffer) : b.toParser.bytes = b.skb.data := rfl

/-- `received_len` counts the buffered bytes, and a nonzero `expected_len` is the length of the
incomplete record they begin with. -/
structure Parser.Ok (p : Parser) : Prop where
  received : p.receivedLen = p.bytes.length
  expected : p.expectedLen ≠ 0 →
    wireFormat.header p.bytes = some p.expectedLen ∧ p.receivedLen < p.expectedLen

/-- Nothing to do before more bytes arrive. -/
structure Parser.Settled (p : Parser) : Prop where
  waits : wireFormat.Waits p.bytes
  expectedLen : p.expectedLen = (wireFormat.header p.bytes).getD 0

/-- A buffered record may be complete: the condition under which a worker that ran out of budget
queues itself again. -/
def Parser.mayHoldRecord (p : Parser) : Bool :=
  p.partialSkb.isSome && p.expectedLen == 0 && decide (wgTcpEncapHdrLen ≤ p.receivedLen)

theorem Parser.mayHoldRecord_iff {p : Parser} :
    p.mayHoldRecord = true ↔ p.partialSkb.isSome ∧ p.expectedLen = 0 ∧ 8 ≤ p.receivedLen := by
  simp [Parser.mayHoldRecord, and_assoc]

theorem Parser.ok_empty : Parser.empty.Ok := ⟨rfl, fun h => absurd rfl h⟩

theorem Parser.settled_of_short {p : Parser} (hlen : p.bytes.length < 8)
    (hexp : p.expectedLen = 0) : p.Settled where
  waits := Format.waits_of_short hlen
  expectedLen := by rw [hexp, Format.header_of_short _ hlen]; rfl

theorem Parser.settled_of_expected {p : Parser} (hok : p.Ok) (hexp : p.expectedLen ≠ 0) :
    p.Settled := by
  obtain ⟨hheader, hlt⟩ := hok.expected hexp
  rw [hok.received] at hlt
  exact ⟨Format.waits_of_wait hheader hlt, by rw [hheader]; rfl⟩

/-- A well-formed parser that holds no candidate record is settled. -/
theorem Parser.Ok.settled {p : Parser} (hok : p.Ok) (h : p.mayHoldRecord = false) :
    p.Settled := by
  by_cases hexp : p.expectedLen = 0
  · refine Parser.settled_of_short ?_ hexp
    cases hskb : p.partialSkb with
    | none => simp [Parser.bytes, hskb]
    | some skb =>
      rw [← hok.received]
      simpa [Parser.mayHoldRecord, hskb, hexp, wgTcpEncapHdrLen] using h
  · exact Parser.settled_of_expected hok hexp

theorem Parser.Settled.mayHoldRecord {p : Parser} (hok : p.Ok) (h : p.Settled) :
    p.mayHoldRecord = false := by
  -- A zero `expected_len` of a settled parser means that its bytes begin no header.
  by_contra hready
  obtain ⟨-, hexp, hlen⟩ := Parser.mayHoldRecord_iff.mp (by simpa using hready)
  rw [hok.received] at hlen
  obtain ⟨n, hheader, hlt⟩ := h.waits.header hlen
  rw [h.expectedLen, hheader, Option.getD_some] at hexp
  omega

/-! ## Resynchronisation -/

/-- The header test of the source at an offset of a buffer is the format's. -/
theorem valid_drop_iff (data : Bytes) (i : Nat) :
    wgCheckPotentialHeaderValidity (EncapHeader.ofBytes (data.drop i)) (data.length - i) = true ↔
      wireFormat.header (data.drop i) = some (EncapHeader.ofBytes (data.drop i)).length := by
  rw [wireFormat_header_eq_some, List.length_drop]
  simp

theorem invalid_drop_iff (data : Bytes) (i : Nat) :
    wgCheckPotentialHeaderValidity (EncapHeader.ofBytes (data.drop i)) (data.length - i) = false ↔
      wireFormat.header (data.drop i) = none := by
  rw [wireFormat_header_eq_none, List.length_drop]

theorem syncFrom_eq_some {data : Bytes} {fuel i j : Nat}
    (h : syncFrom data data.length fuel i = some j) :
    i ≤ j ∧ j < i + fuel ∧
      wireFormat.header (data.drop j) = some (EncapHeader.ofBytes (data.drop j)).length ∧
      ∀ k, i ≤ k → k < j → wireFormat.header (data.drop k) = none := by
  induction fuel generalizing i with
  | zero => simp [syncFrom] at h
  | succ fuel ih =>
    rw [syncFrom] at h
    split at h
    · rename_i hv
      cases h
      exact ⟨Nat.le_refl _, by omega, (valid_drop_iff _ _).mp hv, fun k hk hlt => by omega⟩
    · rename_i hv
      obtain ⟨hle, hlt, hvalid, hnone⟩ := ih h
      refine ⟨by omega, by omega, hvalid, fun k hk hkj => ?_⟩
      by_cases hki : k = i
      · rw [hki]
        exact (invalid_drop_iff _ _).mp (by simpa using hv)
      · exact hnone k (by omega) hkj

theorem syncFrom_eq_none {data : Bytes} {fuel i : Nat}
    (h : syncFrom data data.length fuel i = none) :
    ∀ k, i ≤ k → k < i + fuel → wireFormat.header (data.drop k) = none := by
  induction fuel generalizing i with
  | zero =>
    intro k hk hlt
    omega
  | succ fuel ih =>
    rw [syncFrom] at h
    split at h
    · cases h
    · rename_i hv
      intro k hk hlt
      by_cases hki : k = i
      · rw [hki]
        exact (invalid_drop_iff _ _).mp (by simpa using hv)
      · exact ih h k (by omega) (by omega)

theorem wgSyncHeader_true {b b' : Buffer} (hb : b.receivedLen = b.skb.data.length)
    (h : wgSyncHeader b = (true, b')) :
    b'.receivedLen = b'.skb.data.length ∧
      wireFormat.header b'.skb.data = some (EncapHeader.ofBytes b'.skb.data).length ∧
      wireFormat.Advances b.skb.data [] b'.skb.data ∧
      b'.skb.data.length ≤ b.skb.data.length := by
  have h8 : wgTcpEncapHdrLen = 8 := rfl
  unfold wgSyncHeader at h
  split at h
  · cases h
  rename_i hlen
  rw [hb] at h hlen
  split at h
  · rename_i i hi
    obtain ⟨-, hlt, hvalid, hnone⟩ := syncFrom_eq_some hi
    cases h
    refine ⟨by simp [Skb.pull], hvalid, ?_, by simp [Skb.pull]⟩
    exact Format.Advances.drop i fun k hk => ⟨by simp; omega, hnone k (by omega) hk⟩
  · cases h

theorem wgSyncHeader_false {b b' : Buffer} (hb : b.receivedLen = b.skb.data.length)
    (hlong : 8 ≤ b.receivedLen) (h : wgSyncHeader b = (false, b')) :
    b'.receivedLen = b'.skb.data.length ∧ b'.receivedLen = 7 ∧ b'.expectedLen = 0 ∧
      wireFormat.Advances b.skb.data [] b'.skb.data := by
  have h8 : wgTcpEncapHdrLen = 8 := rfl
  unfold wgSyncHeader at h
  rw [if_neg (by omega), hb] at h
  rw [hb] at hlong
  split at h
  · cases h
  · rename_i hnone
    cases h
    have hall := syncFrom_eq_none hnone
    refine ⟨by simp [Skb.keepSuffix]; omega, by simp; omega, rfl, ?_⟩
    exact Format.Advances.drop _ fun k hk => ⟨by simp; omega, hall k (by omega) (by omega)⟩

/-! ## The loop body -/

/-- The buffer begins with the record whose header was read. -/
structure Buffer.AtRecord (b : Buffer) (header : EncapHeader) : Prop where
  received : b.receivedLen = b.skb.data.length
  header_eq : header = EncapHeader.ofBytes b.skb.data
  front : wireFormat.header b.skb.data = some b.expectedLen

/-- A pass that turned the bytes `before` into `record` and the parser `after`. -/
structure PassSpec (before : Bytes) (record : Option Record) (after : Parser) : Prop where
  ok : after.Ok
  advances : ∃ out : List Bytes, record.toList = out.map Record.ofFrame ∧
    wireFormat.Advances before out after.bytes ∧ (∀ raw ∈ out, 8 < raw.length) ∧
    out.flatten.length + after.bytes.length ≤ before.length
  settled : record = none → after.Settled

theorem PassSpec.of_quiet {before : Bytes} {p : Parser} (hok : p.Ok) (hs : p.Settled)
    (hadv : wireFormat.Advances before [] p.bytes) (hlen : p.bytes.length ≤ before.length) :
    PassSpec before none p where
  ok := hok
  advances := ⟨[], rfl, hadv, by simp, by simpa using hlen⟩
  settled _ := hs

/-- A header at the front of a short-enough buffer is one of at least eight bytes. -/
theorem Parser.Ok.expectedLen_of_short {p : Parser} (h : p.Ok) (hlen : p.receivedLen < 8) :
    p.expectedLen = 0 := by
  by_contra hexp
  have := wireFormat.width_le_length_of_header (h.expected hexp).1
  rw [← h.received, wireFormat_width] at this
  omega

theorem checkHeader_spec {b : Buffer} (hb : b.receivedLen = b.skb.data.length)
    (hexp : b.receivedLen < 8 → b.expectedLen = 0) :
    match checkHeader b with
    | .error p => PassSpec b.skb.data none p
    | .ok (header, b') => b'.AtRecord header ∧ wireFormat.Advances b.skb.data [] b'.skb.data ∧
        b'.skb.data.length ≤ b.skb.data.length := by
  have h8 : wgTcpEncapHdrLen = 8 := rfl
  unfold checkHeader
  by_cases hshort : b.receivedLen < wgTcpEncapHdrLen
  · rw [if_pos hshort]
    have hzero := hexp hshort
    exact PassSpec.of_quiet ⟨hb, fun h => absurd hzero h⟩
      (Parser.settled_of_short (by simpa [← hb] using hshort) hzero)
      (Format.Advances.refl _) (Nat.le_refl _)
  rw [if_neg hshort]
  by_cases hv : wgCheckPotentialHeaderValidity (EncapHeader.ofBytes b.skb.data) b.receivedLen
  · simp only [hv, if_true]
    rw [hb] at hv
    exact ⟨⟨hb, rfl, wireFormat_header_eq_some.mpr ⟨hv, rfl⟩⟩, Format.Advances.refl _,
      Nat.le_refl _⟩
  simp only [hv]
  cases hsync : wgSyncHeader b with
  | mk found b' =>
    cases found with
    | false =>
      obtain ⟨hlen, hseven, hzero, hadv⟩ :=
        wgSyncHeader_false hb (Nat.le_of_not_lt hshort) hsync
      rw [hb] at hshort
      simp only [hseven, Bool.false_eq_true, if_false]
      exact PassSpec.of_quiet ⟨hlen, fun h => absurd hzero h⟩
        (Parser.settled_of_short (by simp [← hlen, hseven]) hzero) hadv
        (by simp [← hlen, hseven] at hshort ⊢; omega)
    | true =>
      obtain ⟨hlen, hheader, hadv, hle⟩ := wgSyncHeader_true hb hsync
      have hlong := wireFormat.width_le_length_of_header hheader
      rw [wireFormat_width] at hlong
      have hv' := (wireFormat_header_eq_some.mp hheader).1
      rw [← hlen] at hv'
      simp only [Bool.false_eq_true, if_false, hv', if_true]
      rw [if_neg (by omega)]
      exact ⟨⟨hlen, rfl, hheader⟩, hadv, hle⟩

theorem growRecord_spec (A : SkbAllocator) {b : Buffer} {header : EncapHeader}
    (h : b.AtRecord header) :
    ∃ b', growRecord A .ok b = .ok b' ∧ b'.AtRecord header ∧ b'.skb.data = b.skb.data := by
  simp only [growRecord, ReadOutcome.ok, if_true]
  split
  · exact ⟨_, rfl, ⟨h.received, h.header_eq, h.front⟩, rfl⟩
  · exact ⟨b, rfl, h, rfl⟩

theorem FragInfo.ofBytes_take (buf : Bytes) {n : Nat} (h : 4 ≤ n) :
    FragInfo.ofBytes (buf.take n) = FragInfo.ofBytes buf := by
  simp only [FragInfo.ofBytes, List.take_take, List.drop_take]
  rw [Nat.min_eq_left (by omega), Nat.min_eq_left (by omega)]

/-- The record taken off the front, in the form the reader assembles it. -/
theorem Record.ofFrame_take {data : Bytes} {n : Nat} (h : wireFormat.header data = some n) :
    let fragmented := hasFragHeader (EncapHeader.ofBytes data).flags
    headerLen fragmented < n ∧
    Record.ofFrame (data.take n) =
      ⟨(data.drop (headerLen fragmented)).take (n - headerLen fragmented),
        if fragmented then FragInfo.ofBytes (data.drop wgTcpEncapHdrLen) else FragInfo.none⟩ := by
  obtain ⟨hvalid, hlen⟩ := wireFormat_header_eq_some.mp h
  obtain ⟨-, -, -, -, hmin, -⟩ := wgCheckPotentialHeaderValidity_iff.mp hvalid
  have hbounds := headerLen_bounds (hasFragHeader (EncapHeader.ofBytes data).flags)
  simp only [minimumLen, messageMinimumLength] at hmin
  have hfrag : FragInfo.ofBytes ((data.drop wgTcpEncapHdrLen).take (n - wgTcpEncapHdrLen)) =
      FragInfo.ofBytes (data.drop wgTcpEncapHdrLen) :=
    FragInfo.ofBytes_take _ (by simp only [wgTcpEncapHdrLen]; omega)
  refine ⟨by omega, ?_⟩
  simp only [Record.ofFrame, ofBytes_take data (n := n) (by omega), List.drop_take, hfrag]

/-- A complete record is delivered, and the bytes behind it become the next buffer. -/
theorem deliverRecord_complete (A : SkbAllocator) {b : Buffer} {header : EncapHeader}
    (h : b.AtRecord header) (hdone : b.expectedLen ≤ b.receivedLen) :
    ∃ p, deliverRecord A .ok header b =
        .ok (some (Record.ofFrame (b.skb.data.take b.expectedLen)), p) ∧
      p.bytes = b.skb.data.drop b.expectedLen ∧ p.receivedLen = p.bytes.length ∧
      p.expectedLen = 0 := by
  obtain ⟨hlen, rfl, hfront⟩ := h
  obtain ⟨hgt, hrec⟩ := Record.ofFrame_take hfront
  -- Lengths with the headers removed; `hl` is how many bytes of headers there are.
  generalize hfrag : hasFragHeader (EncapHeader.ofBytes b.skb.data).flags = fragmented at hgt hrec
  have hbounds := headerLen_bounds fragmented
  have hlong : wgTcpEncapHdrLen < b.receivedLen := by simp only [wgTcpEncapHdrLen]; omega
  have henough : ¬ (fragmented = true ∧ b.receivedLen < wgTcpEncapHdrLen + wgTcpFragHdrLen) := by
    rintro ⟨rfl, hlt⟩
    have hl : headerLen true = wgTcpEncapHdrLen + wgTcpFragHdrLen := rfl
    omega
  have hbody : b.skb.data.length - headerLen fragmented ≠ 0 := by omega
  have hleft : b.receivedLen - headerLen fragmented - (b.expectedLen - headerLen fragmented) =
      b.receivedLen - b.expectedLen := by omega
  have hdrop : headerLen fragmented + (b.expectedLen - headerLen fragmented) = b.expectedLen := by
    omega
  unfold deliverRecord
  simp only [hfrag, hdone, hlong, true_and, if_true, if_neg henough, Skb.pull, List.length_drop,
    if_neg hbody, hleft, ReadOutcome.ok, hrec, Bool.not_true, Bool.false_eq_true, if_false,
    List.drop_drop, hdrop]
  split
  · rename_i hzero
    refine ⟨Parser.empty, ?_, ?_, rfl, rfl⟩
    · rw [List.take_of_length_le (by simp; omega)]
    · rw [Parser.bytes_empty, List.drop_of_length_le (by omega)]
  · rw [if_neg (by omega)]
    refine ⟨_, rfl, ?_, ?_, rfl⟩
    · simp only [Parser.bytes, Skb.put, Skb.alloc, List.nil_append]
      exact List.take_of_length_le (by simp; omega)
    · simp only [Parser.bytes, Skb.put, Skb.alloc, List.nil_append, List.length_take,
        List.length_drop]
      omega

theorem deliverRecord_spec (A : SkbAllocator) {b : Buffer} {header : EncapHeader}
    (h : b.AtRecord header) :
    ∃ record p, deliverRecord A .ok header b = .ok (record, p) ∧
      PassSpec b.skb.data record p := by
  by_cases hdone : b.expectedLen ≤ b.receivedLen
  · obtain ⟨p, hp, hbytes, hlen, hexp⟩ := deliverRecord_complete A h hdone
    refine ⟨_, p, hp, ⟨hlen, fun hne => absurd hexp hne⟩, ?_, by simp⟩
    rw [h.received] at hdone
    have hgt := (Record.ofFrame_take h.front).1
    have hbounds := headerLen_bounds (hasFragHeader (EncapHeader.ofBytes b.skb.data).flags)
    refine ⟨[b.skb.data.take b.expectedLen], rfl, ?_, ?_, ?_⟩
    · rw [hbytes]
      exact Format.Advances.record h.front hdone
    · simp
      omega
    · simp [hbytes]
      omega
  · have hok : b.toParser.Ok := ⟨h.received, fun _ => ⟨h.front, Nat.lt_of_not_le hdone⟩⟩
    have hpos := wireFormat.header_pos h.front
    refine ⟨none, b.toParser, by simp [deliverRecord, hdone], ?_⟩
    exact PassSpec.of_quiet hok
      (Parser.settled_of_expected hok (by simp only [Buffer.toParser]; omega))
      (Format.Advances.refl _) (Nat.le_refl _)

/-- A quiet advance in front of a pass. -/
theorem PassSpec.after_skip {before mid : Bytes} {record : Option Record} {p : Parser}
    (h : PassSpec mid record p) (hadv : wireFormat.Advances before [] mid)
    (hlen : mid.length ≤ before.length) : PassSpec before record p := by
  obtain ⟨out, hout, hstep, hlong, hle⟩ := h.advances
  exact ⟨h.ok, ⟨out, hout, hadv.trans hstep, hlong, by omega⟩, h.settled⟩

theorem processBuffer_spec (A : SkbAllocator) {b : Buffer}
    (hb : b.receivedLen = b.skb.data.length) (hexp : b.receivedLen < 8 → b.expectedLen = 0)
    (recv : Option RecvResult) :
    let it := finishPass recv (processBuffer A .ok b)
    it.recv = recv ∧ PassSpec b.skb.data it.record it.parser ∧
      (it.flow = .stop → it.record = none) := by
  have hcheck := checkHeader_spec hb hexp
  unfold processBuffer
  cases hc : checkHeader b with
  | error p =>
    rw [hc] at hcheck
    exact ⟨rfl, hcheck, fun _ => rfl⟩
  | ok found =>
    obtain ⟨header, b'⟩ := found
    rw [hc] at hcheck
    obtain ⟨hat, hadv, hle⟩ := hcheck
    obtain ⟨b'', hgrow, hat', hdata⟩ := growRecord_spec A hat
    obtain ⟨record, p, hdel, hspec⟩ := deliverRecord_spec A hat'
    simp only [bind, Except.bind, hgrow, hdel]
    rw [hdata] at hspec
    exact ⟨rfl, hspec.after_skip hadv hle, fun h => by cases h⟩

/-! ## A pass -/

theorem Buffer.mayHoldRecord_iff {b : Buffer} :
    b.toParser.mayHoldRecord = true ↔ b.expectedLen = 0 ∧ 8 ≤ b.receivedLen := by
  simp [Parser.mayHoldRecord_iff, Buffer.toParser]

theorem Buffer.recordReady_eq {b : Buffer} (h : b.toParser.Ok) :
    recordReady b = b.toParser.mayHoldRecord := by
  rw [Bool.eq_iff_iff, Buffer.mayHoldRecord_iff]
  by_cases hexp : b.expectedLen = 0
  · simp [recordReady, hexp]
  · have hlt : b.receivedLen < b.expectedLen := (h.expected hexp).2
    simp [recordReady, hexp, hlt]

theorem openPartial_spec (A : SkbAllocator) {p : Parser} (hok : p.Ok) :
    ∃ b, openPartial A .ok p = .ok b ∧ b.toParser.Ok ∧ b.skb.data = p.bytes ∧
      b.toParser.mayHoldRecord = p.mayHoldRecord := by
  cases hskb : p.partialSkb with
  | none =>
    have hbytes : p.bytes = [] := by simp [Parser.bytes, hskb]
    have hrecv : p.receivedLen = 0 := by simp [hok.received, hbytes]
    refine ⟨_, by rw [openPartial, hskb]; rfl, ?_, ?_, ?_⟩
    · exact ⟨by simp [Buffer.toParser, Parser.bytes, Skb.alloc, hrecv], fun h => absurd rfl h⟩
    · simp [Skb.alloc, hbytes]
    · simp [Buffer.toParser, Parser.mayHoldRecord, hskb, hrecv]
  | some skb =>
    have hp : (⟨skb, p.expectedLen, p.receivedLen⟩ : Buffer).toParser = p := by
      simp [Buffer.toParser, ← hskb]
    refine ⟨⟨skb, p.expectedLen, p.receivedLen⟩, by rw [openPartial, hskb], ?_, ?_, ?_⟩
    · rwa [hp]
    · simp [Parser.bytes, hskb]
    · rw [hp]

theorem makeRoom_spec (A : SkbAllocator) (b : Buffer) :
    ∃ b', makeRoom A .ok b = .ok b' ∧ b'.skb.data = b.skb.data ∧
      b'.expectedLen = b.expectedLen ∧ b'.receivedLen = b.receivedLen ∧
      wgTcpEncapHdrLen ≤ b'.skb.tailroom := by
  unfold makeRoom
  split
  · refine ⟨_, rfl, rfl, rfl, rfl, ?_⟩
    have hcap := A.le_capacity (b.skb.headroom + b.skb.data.length +
      (wgTcpSkbReadAllocSize + wgTcpReservedHeaderSize + A.netIpAlign))
    simp only [Skb.copyExpand, wgTcpEncapHdrLen, wgTcpSkbReadAllocSize] at hcap ⊢
    omega
  · exact ⟨b, rfl, rfl, rfl, rfl, by omega⟩

/-- What one pass does when every allocation succeeds and the read, if there is one, is neither
an end of stream nor a hard error. -/
structure IterationSpec (recv : Nat → RecvResult) (p : Parser) (it : Iteration) : Prop where
  pass : PassSpec (p.bytes ++ it.taken) it.record it.parser
  stop : it.flow = .stop → it.record = none
  /-- A pass that may find a buffered record does not read. -/
  buffered : p.mayHoldRecord = true → it.recv = none
  reads : p.mayHoldRecord = false → ∃ n, 0 < n ∧ it.recv = some (recv n)
  eagain : it.recv = some .eagain → it.flow = .stop

theorem readIteration_spec (A : SkbAllocator) {recv : Nat → RecvResult} {p : Parser}
    (hok : p.Ok) (hrecv : ∀ n, (recv n).terminal = false) :
    IterationSpec recv p (readIteration A .ok recv p) := by
  obtain ⟨b, hopen, hbok, hdata, hmayb⟩ := openPartial_spec A hok
  have hready := (Buffer.recordReady_eq hbok).trans hmayb
  have hshort : b.receivedLen < 8 → b.expectedLen = 0 := hbok.expectedLen_of_short
  unfold readIteration
  rw [hopen]
  simp only [hready]
  by_cases hmay : p.mayHoldRecord = true
  · obtain ⟨hr, hspec, hstop⟩ := processBuffer_spec A hbok.received hshort none
    rw [if_pos hmay]
    refine ⟨?_, hstop, fun _ => hr, fun h => by simp [hmay] at h, fun h => ?_⟩
    · simpa only [Iteration.taken, hr, List.append_nil, ← hdata] using hspec
    · rw [hr] at h
      cases h
  rw [if_neg hmay]
  obtain ⟨b', hroom, hdata', hexp', hrecv', htail⟩ := makeRoom_spec A b
  have hnonzero : b'.skb.tailroom ≠ 0 := by simp only [wgTcpEncapHdrLen] at htail; omega
  have hlen' : b'.receivedLen = b'.skb.data.length := by
    rw [hrecv', hdata']
    exact hbok.received
  simp only [hroom, if_neg hnonzero]
  have hreads (it : Iteration) (h : it.recv = some (recv b'.skb.tailroom)) :
      p.mayHoldRecord = false → ∃ n, 0 < n ∧ it.recv = some (recv n) := fun _ =>
    ⟨_, Nat.pos_of_ne_zero hnonzero, h⟩
  cases hres : recv b'.skb.tailroom with
  | data bytes =>
    have happ : (b'.append bytes).receivedLen = (b'.append bytes).skb.data.length := by
      simp [Buffer.append, Skb.put, hlen']
    have hzero : (b'.append bytes).receivedLen < 8 → (b'.append bytes).expectedLen = 0 := by
      intro h
      simp only [Buffer.append] at h ⊢
      rw [hexp']
      exact hshort (by omega)
    obtain ⟨hr, hspec, hstop⟩ := processBuffer_spec A happ hzero (some (.data bytes))
    refine ⟨?_, hstop, fun h => absurd h hmay, hreads _ (by rw [hres]; exact hr), fun h => ?_⟩
    · have htaken : (p.bytes ++ bytes) = (b'.append bytes).skb.data := by
        simp [Buffer.append, Skb.put, hdata', hdata]
      simpa only [Iteration.taken, hr, htaken] using hspec
    · rw [hr] at h
      cases h
  | eagain =>
    have hokb' : b'.toParser.Ok := by
      refine ⟨hlen', fun hne => ?_⟩
      have := hbok.expected (by simpa [Buffer.toParser, hexp'] using hne)
      simpa [Buffer.toParser, Parser.bytes, hexp', hrecv', hdata'] using this
    have hsettled : b'.toParser.Settled := by
      refine hokb'.settled ?_
      have : b'.toParser.mayHoldRecord = b.toParser.mayHoldRecord := by
        rw [Bool.eq_iff_iff, Buffer.mayHoldRecord_iff, Buffer.mayHoldRecord_iff, hexp', hrecv']
      rw [this, hmayb]
      simpa using hmay
    refine ⟨?_, fun _ => rfl, fun h => absurd h hmay, hreads _ (by rw [hres]), fun _ => rfl⟩
    simp only [Iteration.taken, List.append_nil]
    have hsame : b'.toParser.bytes = p.bytes := hdata'.trans hdata
    rw [← hsame]
    exact PassSpec.of_quiet hokb' hsettled (Format.Advances.refl _) (Nat.le_refl _)
  | closed => simpa [hres, RecvResult.terminal] using hrecv b'.skb.tailroom
  | error => simpa [hres, RecvResult.terminal] using hrecv b'.skb.tailroom

end WgTcp
