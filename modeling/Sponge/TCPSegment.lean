import Sponge.InternetChecksum
import Sponge.NetParser
import Sponge.WrappingInt32

/-!
# Sponge.TCPSegment

TCP headers and segments (`tcp_header.hh`, `tcp_header.cc`, `tcp_segment.hh`,
`tcp_segment.cc`), as the endpoints pass them around in memory and as they are
parsed and serialized.

The header parser assigns every field, so it does not depend on the object it
is called on.  `TCPSegment::parse` does not look at what it returns.
-/

namespace Sponge

/-- The size of a header without options. -/
def TCPHeader.LENGTH : Nat := 20

/-- `TCPHeader`, with the defaults of its members. -/
structure TCPHeader where
  sport : UInt16 := 0
  dport : UInt16 := 0
  seqno : WrappingInt32 := ⟨0⟩
  ackno : WrappingInt32 := ⟨0⟩
  doff : UInt8 := 20 / 4
  urg : Bool := false
  ack : Bool := false
  psh : Bool := false
  rst : Bool := false
  syn : Bool := false
  fin : Bool := false
  win : UInt16 := 0
  cksum : UInt16 := 0
  uptr : UInt16 := 0
  deriving DecidableEq, Repr

namespace TCPHeader

open NetParser in
/-- The part of `parse` that reads the fields. -/
def readFields : Parse TCPHeader := do
  let sport ← u16
  let dport ← u16
  let seqno ← u32
  let ackno ← u32
  let doff ← u8
  let fl ← u8
  let win ← u16
  let cksum ← u16
  let uptr ← u16
  return {
    sport := sport, dport := dport, seqno := ⟨seqno⟩, ackno := ⟨ackno⟩, doff := doff >>> 4
    urg := fl &&& 0x20 != 0, ack := fl &&& 0x10 != 0, psh := fl &&& 0x08 != 0
    rst := fl &&& 0x04 != 0, syn := fl &&& 0x02 != 0, fin := fl &&& 0x01 != 0
    win := win, cksum := cksum, uptr := uptr }

open NetParser in
/-- The options are skipped. -/
def parse : Parse (ParseResult × TCPHeader) := do
  let header ← readFields
  if header.doff < 5 then return (.HeaderTooShort, header)
  -- the difference is of type `size_t`
  removePrefix ((header.doff.toNat * 4 + 2 ^ 64 - LENGTH) % 2 ^ 64)
  let p ← get
  if p.hasError then return (p.error, header)
  return (.NoError, header)

open NetUnparser in
/-- The fields in order, and the rest of the header filled up with zeros. -/
def serialize (h : TCPHeader) : Except Exception (List UInt8) :=
  if h.doff < 5 then .error (.runtimeError "TCP header too short")
  else
    let ret := u16 [] h.sport
    let ret := u16 ret h.dport
    let ret := u32 ret h.seqno.rawValue
    let ret := u32 ret h.ackno.rawValue
    let ret := u8 ret (h.doff <<< 4)
    let fl : UInt8 :=
      (if h.urg then 0x20 else 0) ||| (if h.ack then 0x10 else 0) |||
      (if h.psh then 0x08 else 0) ||| (if h.rst then 0x04 else 0) |||
      (if h.syn then 0x02 else 0) ||| (if h.fin then 0x01 else 0)
    let ret := u8 ret fl
    let ret := u16 ret h.win
    let ret := u16 ret h.cksum
    let ret := u16 ret h.uptr
    .ok (resize ret (4 * h.doff.toNat))

end TCPHeader

/-- A header and the payload. -/
structure TCPSegment where
  header : TCPHeader := {}
  payload : List UInt8 := []
  deriving DecidableEq, Repr

namespace TCPSegment

/-- The payload length plus one for SYN and one for FIN. -/
def lengthInSequenceSpace (seg : TCPSegment) : Nat :=
  seg.payload.length + (if seg.header.syn then 1 else 0) + (if seg.header.fin then 1 else 0)

/-- The checksum comes first, over everything. -/
def parse (self : TCPSegment) (buffer : Buffer) (datagramLayerChecksum : UInt32) :
    Except Exception (ParseResult × TCPSegment) := do
  let check := (InternetChecksum.new datagramLayerChecksum).add buffer
  if check.value ≠ 0 then return (.BadChecksum, self)
  let ((_, header), p) ← TCPHeader.parse.run { buffer := buffer }
  return (p.error, { header := header, payload := p.buffer })

/-- The checksum is computed over the header with a zero in its place, and the payload. -/
def serialize (seg : TCPSegment) (datagramLayerChecksum : UInt32) :
    Except Exception BufferList := do
  let headerOut := { seg.header with cksum := 0 }
  let check := (InternetChecksum.new datagramLayerChecksum).add (← headerOut.serialize)
  let check := check.add seg.payload
  let headerOut := { headerOut with cksum := check.value }
  return [← headerOut.serialize] ++ [seg.payload]

end TCPSegment

end Sponge
