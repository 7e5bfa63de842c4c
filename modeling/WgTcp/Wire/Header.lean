import WgTcp.Foundation.BigEndian

/-!
# The TCP record header

`struct wg_tcp_encap_header` and `struct wg_tcp_frag_header` with their field
values in host order, the header checksum, and the validity test that both the
stream reader and its resynchronisation apply to an eight-byte window.
-/

namespace WgTcp

abbrev Bytes := List UInt8

abbrev wgTcpEncapHdrLen : Nat := 8
abbrev wgTcpFragHdrLen : Nat := 4
abbrev wgMaxPacketSize : Nat := 65535 + wgTcpEncapHdrLen
abbrev messageMinimumLength : Nat := 32
def wgTcpRecordData : UInt8 := 0
def wgTcpFragFlag : UInt8 := 1

@[ext] structure EncapHeader where
  length : Nat
  type : UInt8
  flags : UInt8
  checksum : UInt16
deriving Repr, DecidableEq

/-- The two big-endian fields of the fragment header, in the order they are sent. -/
structure FragInfo where
  id : UInt16
  fragOff : UInt16
deriving Repr, DecidableEq

def FragInfo.none : FragInfo := ⟨0, 0⟩

namespace EncapHeader

def toBytes (hdr : EncapHeader) : Bytes :=
  BigEndian.encode 4 hdr.length ++ [hdr.type, hdr.flags] ++ BigEndian.encode 2 hdr.checksum.toNat

/-- `memcpy` of a header out of a buffer that holds at least eight bytes. -/
def ofBytes (buf : Bytes) : EncapHeader where
  length := BigEndian.decode (buf.take 4)
  type := buf.getD 4 0
  flags := buf.getD 5 0
  checksum := UInt16.ofNat (BigEndian.decode ((buf.drop 6).take 2))

@[simp] theorem length_toBytes (hdr : EncapHeader) : hdr.toBytes.length = wgTcpEncapHdrLen := by
  simp [toBytes, wgTcpEncapHdrLen]

/-- The fields survive the wire, whatever follows the header. -/
theorem ofBytes_toBytes (hdr : EncapHeader) (h : hdr.length < 2 ^ 32) (tail : Bytes) :
    ofBytes (hdr.toBytes ++ tail) = hdr := by
  have hval : hdr.length < 256 ^ 4 := h
  have hck : hdr.checksum.toNat < 256 ^ 2 := hdr.checksum.toNat_lt
  -- The bytes behind the length field: type, flags, checksum.
  have hmid : (hdr.toBytes ++ tail).drop 4 =
      hdr.type :: hdr.flags :: (BigEndian.encode 2 hdr.checksum.toNat ++ tail) := by
    simp [toBytes]
  have hbyte (i : Nat) : (hdr.toBytes ++ tail).getD (4 + i) 0 =
      ((hdr.toBytes ++ tail).drop 4).getD i 0 := by
    simp [List.getD_eq_getElem?_getD, List.getElem?_drop]
  ext1
  · simp only [ofBytes, toBytes, List.append_assoc, BigEndian.decode_take_encode hval]
  · exact (hbyte 0).trans (by rw [hmid]; rfl)
  · exact (hbyte 1).trans (by rw [hmid]; rfl)
  · have hsum : (hdr.toBytes ++ tail).drop 6 =
        BigEndian.encode 2 hdr.checksum.toNat ++ tail := by
      rw [show 6 = 4 + 2 from rfl, ← List.drop_drop, hmid]
      rfl
    simp only [ofBytes, hsum, BigEndian.decode_take_encode hck, UInt16.ofNat_toNat]

end EncapHeader

namespace FragInfo

def toBytes (frag : FragInfo) : Bytes :=
  BigEndian.encode 2 frag.id.toNat ++ BigEndian.encode 2 frag.fragOff.toNat

def ofBytes (buf : Bytes) : FragInfo where
  id := UInt16.ofNat (BigEndian.decode (buf.take 2))
  fragOff := UInt16.ofNat (BigEndian.decode ((buf.drop 2).take 2))

@[simp] theorem length_toBytes (frag : FragInfo) : frag.toBytes.length = wgTcpFragHdrLen := by
  simp [toBytes, wgTcpFragHdrLen]

theorem ofBytes_toBytes (frag : FragInfo) (tail : Bytes) :
    ofBytes (frag.toBytes ++ tail) = frag := by
  have hid : frag.id.toNat < 256 ^ 2 := frag.id.toNat_lt
  have hoff : frag.fragOff.toNat < 256 ^ 2 := frag.fragOff.toNat_lt
  simp only [ofBytes, toBytes, List.append_assoc, BigEndian.decode_take_encode hid,
    BigEndian.drop_encode, BigEndian.decode_take_encode hoff, UInt16.ofNat_toNat]

end FragInfo

/-- Fold of the length words, flags and type, rotated left by five. -/
def wgHeaderChecksum (length : Nat) (type flags : UInt8) : UInt16 :=
  let fold := UInt16.ofNat (length / 2 ^ 16) ^^^ UInt16.ofNat length ^^^
    ((flags.toUInt16 <<< 8) ||| type.toUInt16)
  ((fold <<< 5) ||| (fold >>> 11)) ^^^ 0xA5A5

def wgValidateHeaderChecksum (hdr : EncapHeader) : Bool :=
  wgHeaderChecksum hdr.length hdr.type hdr.flags == hdr.checksum

def hasFragHeader (flags : UInt8) : Bool := flags &&& wgTcpFragFlag != 0

/-- Length of the headers in front of a message, with or without the fragment header. -/
def headerLen (fragmented : Bool) : Nat :=
  wgTcpEncapHdrLen + if fragmented then wgTcpFragHdrLen else 0

theorem headerLen_bounds (fragmented : Bool) : 8 ≤ headerLen fragmented ∧ headerLen fragmented ≤
    12 := by
  cases fragmented <;> decide

/-- Smallest record with the given flags. -/
def minimumLen (flags : UInt8) : Nat := headerLen (hasFragHeader flags) + messageMinimumLength

def wgCheckPotentialHeaderValidity (hdr : EncapHeader) (remainingLen : Nat) : Bool :=
  if remainingLen < wgTcpEncapHdrLen then false
  else if !wgValidateHeaderChecksum hdr then false
  else if hdr.type != wgTcpRecordData then false
  else if hdr.flags &&& ~~~wgTcpFragFlag != 0 then false
  else decide (minimumLen hdr.flags ≤ hdr.length) && decide (hdr.length ≤ wgMaxPacketSize)

theorem wgCheckPotentialHeaderValidity_iff {hdr : EncapHeader} {remainingLen : Nat} :
    wgCheckPotentialHeaderValidity hdr remainingLen = true ↔
      wgTcpEncapHdrLen ≤ remainingLen ∧ wgValidateHeaderChecksum hdr = true ∧
        hdr.type = wgTcpRecordData ∧ hdr.flags &&& ~~~wgTcpFragFlag = 0 ∧
        minimumLen hdr.flags ≤ hdr.length ∧ hdr.length ≤ wgMaxPacketSize := by
  simp only [wgCheckPotentialHeaderValidity]
  by_cases hr : remainingLen < wgTcpEncapHdrLen
  · simp [hr, Nat.not_le.mpr hr]
  by_cases hc : wgValidateHeaderChecksum hdr
  · by_cases ht : hdr.type = wgTcpRecordData
    · by_cases hf : hdr.flags &&& ~~~wgTcpFragFlag = 0 <;> simp [hr, hc, ht, hf]
      omega
    · simp [hr, hc, ht]
  · simp [hr, hc]

/-- The verdict depends on the remaining length only through the eight bytes it must cover. -/
theorem wgCheckPotentialHeaderValidity_congr {hdr : EncapHeader} {m n : Nat}
    (hm : wgTcpEncapHdrLen ≤ m) (hn : wgTcpEncapHdrLen ≤ n) :
    wgCheckPotentialHeaderValidity hdr m = wgCheckPotentialHeaderValidity hdr n := by
  rw [Bool.eq_iff_iff, wgCheckPotentialHeaderValidity_iff, wgCheckPotentialHeaderValidity_iff]
  simp [hm, hn]

end WgTcp
