import WgTcp.Foundation.FrameScan
import WgTcp.Wire.Header

/-!
# Records on the wire

`wgTcpBuildFrame` puts a WireGuard message behind a record header. The record
format it produces is an instance of `FrameScan.Format`; `decodeStream` is the
reference decoder of a whole byte stream, against which the stream reader is
compared.
-/

namespace WgTcp

open FrameScan

/-- What the receive path is handed: the message and its `PACKET_CB` fragment fields. -/
structure Record where
  payload : Bytes
  frag : FragInfo
deriving Repr, DecidableEq

inductive BuildError where
  | einval
  | emsgsize
  | enomem
deriving Repr, DecidableEq

/-- The fragment header is sent only for a nonzero offset word. -/
def FragInfo.fragmented (frag : FragInfo) : Bool := frag.fragOff != 0

def frameFlags (fragmented : Bool) : UInt8 := if fragmented then wgTcpFragFlag else 0

def frameHeader (frag : FragInfo) (payloadLen : Nat) : EncapHeader :=
  let length := headerLen frag.fragmented + payloadLen
  let flags := frameFlags frag.fragmented
  ⟨length, wgTcpRecordData, flags, wgHeaderChecksum length wgTcpRecordData flags⟩

/-- Cleartext in front of the message: record header and optional fragment header. -/
def framePreamble (frag : FragInfo) (payloadLen : Nat) : Bytes :=
  (frameHeader frag payloadLen).toBytes ++ if frag.fragmented then frag.toBytes else []

/-- `alloc` is the outcome of the frame allocation. -/
def wgTcpBuildFrame (alloc : Bool) (payload : Bytes) (frag : FragInfo) :
    Except BuildError Bytes :=
  if payload.length < messageMinimumLength then .error .einval
  else if payload.length > wgMaxPacketSize - headerLen frag.fragmented then .error .emsgsize
  else if !alloc then .error .enomem
  else .ok (framePreamble frag payload.length ++ payload)

/-- The payload lengths that fit a record with the given fragment fields. -/
def Framable (r : Record) : Prop :=
  messageMinimumLength ≤ r.payload.length ∧
    r.payload.length ≤ wgMaxPacketSize - headerLen r.frag.fragmented

instance (r : Record) : Decidable (Framable r) := by unfold Framable; infer_instance

/-- The frame of a record when its allocation succeeds. -/
def Record.frame (r : Record) : Bytes := framePreamble r.frag r.payload.length ++ r.payload

theorem wgTcpBuildFrame_of_framable {r : Record} (h : Framable r) :
    wgTcpBuildFrame true r.payload r.frag = .ok r.frame := by
  obtain ⟨hmin, hmax⟩ := h
  simp [wgTcpBuildFrame, Record.frame, Nat.not_lt.mpr hmin, Nat.not_lt.mpr hmax]

/-- Header windows of eight bytes; the announced length counts the headers. -/
def wireFormat : Format UInt8 where
  width := wgTcpEncapHdrLen
  check window :=
    let hdr := EncapHeader.ofBytes window
    if wgCheckPotentialHeaderValidity hdr wgTcpEncapHdrLen then some hdr.length else none
  width_pos := by decide
  width_le := by
    intro window n h
    simp only at h
    split at h
    · rename_i hv
      obtain ⟨-, -, -, -, hmin, -⟩ := wgCheckPotentialHeaderValidity_iff.mp hv
      cases h
      have := headerLen_bounds (hasFragHeader (EncapHeader.ofBytes window).flags)
      simp only [minimumLen, wgTcpEncapHdrLen] at hmin ⊢
      omega
    · cases h

@[simp] theorem wireFormat_width : wireFormat.width = 8 := rfl

theorem ofBytes_take (buf : Bytes) {n : Nat} (h : 8 ≤ n) :
    EncapHeader.ofBytes (buf.take n) = EncapHeader.ofBytes buf := by
  have hget (i : Nat) (hi : i < n) : (buf.take n).getD i 0 = buf.getD i 0 := by
    simp [List.getD_eq_getElem?_getD, List.getElem?_take_of_lt hi]
  ext1
  · simp only [EncapHeader.ofBytes, List.take_take]
    rw [Nat.min_eq_left (by omega)]
  · exact hget 4 (by omega)
  · exact hget 5 (by omega)
  · simp only [EncapHeader.ofBytes, List.drop_take, List.take_take]
    rw [Nat.min_eq_left (by omega)]

/-- The format's header is the header test of the source applied to a buffer. -/
theorem wireFormat_header (buf : Bytes) :
    wireFormat.header buf =
      if wgCheckPotentialHeaderValidity (EncapHeader.ofBytes buf) buf.length then
        some (EncapHeader.ofBytes buf).length else none := by
  by_cases h : buf.length < 8
  · rw [Format.header_of_short _ h]
    simp [wgCheckPotentialHeaderValidity, wgTcpEncapHdrLen, h]
  · rw [Format.header, if_neg (by simpa using h)]
    simp only [wireFormat, ofBytes_take buf (n := wgTcpEncapHdrLen) (by decide)]
    rw [wgCheckPotentialHeaderValidity_congr (m := wgTcpEncapHdrLen) (n := buf.length)
      (by decide) (by simp only [wgTcpEncapHdrLen]; omega)]

theorem wireFormat_header_eq_some {buf : Bytes} {n : Nat} :
    wireFormat.header buf = some n ↔
      wgCheckPotentialHeaderValidity (EncapHeader.ofBytes buf) buf.length = true ∧
        (EncapHeader.ofBytes buf).length = n := by
  rw [wireFormat_header]
  split <;> simp_all

theorem wireFormat_header_eq_none {buf : Bytes} :
    wireFormat.header buf = none ↔
      wgCheckPotentialHeaderValidity (EncapHeader.ofBytes buf) buf.length = false := by
  rw [wireFormat_header]
  split <;> simp_all

/-- A complete record without its headers. -/
def Record.ofFrame (raw : Bytes) : Record :=
  let fragmented := hasFragHeader (EncapHeader.ofBytes raw).flags
  ⟨raw.drop (headerLen fragmented),
    if fragmented then FragInfo.ofBytes (raw.drop wgTcpEncapHdrLen) else FragInfo.none⟩

/-- Result of the reference decoder: the records, the bytes it cannot decide yet, and the
length announced by those bytes (zero when they hold no header). -/
structure Decoded where
  records : List Record
  rest : Bytes
  expectedLen : Nat
deriving Repr, DecidableEq

def decodeStream (s : Bytes) : Decoded :=
  let parse := wireFormat.scan s
  ⟨parse.records.map Record.ofFrame, parse.rest, (wireFormat.header parse.rest).getD 0⟩

/-! ## Frames decode to their records -/

/-- What a receiver can know of a record's fragment fields: nothing unless the offset word is
nonzero. -/
def Record.received (r : Record) : Record :=
  if r.frag.fragmented then r else ⟨r.payload, FragInfo.none⟩

@[simp] theorem hasFragHeader_frameFlags (b : Bool) : hasFragHeader (frameFlags b) = b := by
  cases b <;> decide

@[simp] theorem length_framePreamble (frag : FragInfo) (n : Nat) :
    (framePreamble frag n).length = headerLen frag.fragmented := by
  simp only [framePreamble, headerLen, List.length_append, EncapHeader.length_toBytes]
  cases frag.fragmented <;> simp

@[simp] theorem Record.length_frame (r : Record) :
    r.frame.length = headerLen r.frag.fragmented + r.payload.length := by
  simp [Record.frame]

theorem Record.eight_le_length_frame (r : Record) : 8 ≤ r.frame.length := by
  have := headerLen_bounds r.frag.fragmented
  rw [Record.length_frame]
  omega

theorem frameHeader_valid {r : Record} (h : Framable r) {n : Nat} (hn : 8 ≤ n) :
    wgCheckPotentialHeaderValidity (frameHeader r.frag r.payload.length) n = true := by
  obtain ⟨hmin, hmax⟩ := h
  have hbounds := headerLen_bounds r.frag.fragmented
  simp only [wgCheckPotentialHeaderValidity_iff, wgValidateHeaderChecksum, frameHeader,
    beq_self_eq_true, true_and, minimumLen, hasFragHeader_frameFlags]
  simp only [wgMaxPacketSize, wgTcpEncapHdrLen] at hmax ⊢
  refine ⟨hn, ?_, by omega, by omega⟩
  cases r.frag.fragmented <;> decide

theorem Record.ofBytes_frame {r : Record} (h : Framable r) (z : Bytes) :
    EncapHeader.ofBytes (r.frame ++ z) = frameHeader r.frag r.payload.length := by
  obtain ⟨-, hmax⟩ := h
  have hbounds := headerLen_bounds r.frag.fragmented
  simp only [Record.frame, framePreamble, List.append_assoc]
  refine EncapHeader.ofBytes_toBytes _ ?_ _
  simp only [frameHeader, wgMaxPacketSize, wgTcpEncapHdrLen] at hmax ⊢
  omega

theorem Record.header_frame {r : Record} (h : Framable r) (z : Bytes) :
    wireFormat.header (r.frame ++ z) = some r.frame.length := by
  have hlen : 8 ≤ (r.frame ++ z).length := by
    have := r.eight_le_length_frame
    rw [List.length_append]
    omega
  rw [wireFormat_header_eq_some, Record.ofBytes_frame h]
  exact ⟨frameHeader_valid h hlen, by simp [frameHeader]⟩

theorem Record.ofFrame_frame {r : Record} (h : Framable r) :
    Record.ofFrame r.frame = r.received := by
  have hhdr : EncapHeader.ofBytes r.frame = frameHeader r.frag r.payload.length := by
    simpa using Record.ofBytes_frame h []
  have hdrop : r.frame.drop (headerLen r.frag.fragmented) = r.payload :=
    List.drop_left' (length_framePreamble _ _)
  simp only [Record.ofFrame, hhdr, frameHeader, hasFragHeader_frameFlags, hdrop, Record.received]
  cases hf : r.frag.fragmented with
  | false => rfl
  | true =>
    have hfrag : r.frame.drop wgTcpEncapHdrLen = r.frag.toBytes ++ r.payload := by
      simp only [Record.frame, framePreamble, hf, if_true, List.append_assoc]
      exact List.drop_left' (EncapHeader.length_toBytes _)
    simp [hfrag, FragInfo.ofBytes_toBytes]

/-! ## Frames between junk -/

/-- Frames, each behind a block of junk, and a last block of junk. -/
def junkStream : List (Bytes × Record) → Bytes → Bytes
  | [], junk => junk
  | (junk, r) :: rest, last => junk ++ (r.frame ++ junkStream rest last)

/-- No position inside a junk block starts a window that passes the header test. -/
def NoHeaderInJunk : List (Bytes × Record) → Bytes → Prop
  | [], last => ∀ i < last.length, wireFormat.header (last.drop i) = none
  | (junk, r) :: rest, last =>
      (∀ i < junk.length,
        wireFormat.header ((junkStream ((junk, r) :: rest) last).drop i) = none) ∧
      NoHeaderInJunk rest last

/-- A trailing junk block leaves at most the seven bytes that a header could still begin in. -/
theorem scan_junk {junk : Bytes} (h : ∀ i < junk.length, wireFormat.header (junk.drop i) = none) :
    (wireFormat.scan junk).records = [] ∧ (wireFormat.scan junk).rest.length ≤ 7 := by
  have hskip : wireFormat.Advances junk [] (junk.drop (junk.length - 7)) :=
    Format.Advances.drop _ fun i hi => ⟨by simp; omega, h i (by omega)⟩
  have hshort : (junk.drop (junk.length - 7)).length < wireFormat.width := by simp; omega
  rw [hskip.scan_of_waits (Format.waits_of_short hshort)]
  refine ⟨rfl, ?_⟩
  simp
  omega

/-- The reference decoder finds exactly the framed records. -/
theorem scan_junkStream {blocks : List (Bytes × Record)} {last : Bytes}
    (hf : ∀ b ∈ blocks, Framable b.2) (hj : NoHeaderInJunk blocks last) :
    (wireFormat.scan (junkStream blocks last)).records = blocks.map (·.2.frame) ∧
      (wireFormat.scan (junkStream blocks last)).rest.length ≤ 7 := by
  induction blocks with
  | nil => exact scan_junk hj
  | cons b blocks ih =>
    obtain ⟨junk, r⟩ := b
    obtain ⟨hjunk, hrest⟩ := hj
    have hr : Framable r := hf (junk, r) (by simp)
    have hlong := r.eight_le_length_frame
    have hskip : wireFormat.Advances (junkStream ((junk, r) :: blocks) last) []
        (r.frame ++ junkStream blocks last) := by
      have hdrop : (junkStream ((junk, r) :: blocks) last).drop junk.length =
          r.frame ++ junkStream blocks last := List.drop_left' rfl
      rw [← hdrop]
      refine Format.Advances.drop _ fun i hi => ⟨?_, hjunk i hi⟩
      simp only [junkStream, List.length_append, wireFormat_width]
      omega
    have hrec := Record.header_frame hr (junkStream blocks last)
    rw [hskip.scan_eq, Parse.after_nil, wireFormat.scan_of_record hrec (by simp)]
    simpa using ih (fun b hb => hf b (by simp [hb])) hrest

end WgTcp
