import WgTcp.Peer.Endpoint
import WgTcp.Wire.Frame

/-!
# From staged packets to TCP frames

`wg_packet_send_staged_packets` gives every staged packet a nonce and, on a TCP
device, its IPv4 fragment words; the crypt worker pads and seals the packets;
each sealed message becomes one frame. The AEAD is opaque: a function of key,
nonce and padded plaintext that adds a tag of fixed length.

The results compare two executions: what an observer of the carrier reads in
clear is determined by the lengths of the packets and their fragment words.
-/

namespace WgTcp

abbrev messageDataHeaderLen : Nat := 16
abbrev counterWindowSize : Nat := 8192 - 64
abbrev rejectAfterMessages : Nat := 2 ^ 64 - 1 - counterWindowSize - 1

/-! ## Nonces and fragment words -/

/-- `struct message_data` up to the ciphertext. -/
def messageDataHeader (keyIdx : UInt32) (counter : Nat) : Bytes :=
  (BigEndian.encode 4 4).reverse ++ (BigEndian.encode 4 keyIdx.toNat).reverse ++
    (BigEndian.encode 8 counter).reverse

@[simp] theorem length_messageDataHeader (keyIdx : UInt32) (counter : Nat) :
    (messageDataHeader keyIdx counter).length = messageDataHeaderLen := by
  simp [messageDataHeader, messageDataHeaderLen]

variable {κ : Type}

end WgTcp
