import Sponge.InternetChecksum
import Sponge.NetParser

/-!
# Sponge.IPv4Datagram

IPv4 headers and datagrams (`ipv4_header.hh`, `ipv4_header.cc`,
`ipv4_datagram.hh`, `ipv4_datagram.cc`).

`parse` is a method of an existing object: it overwrites the fields it gets to
and leaves the others.  `IPv4Datagram::parse` does not look at what
`IPv4Header::parse` returns; it decides by the length of what is left and by
the parser's error flag.
-/

namespace Sponge

namespace IPv4Header

def LENGTH : Nat := 20
def DEFAULT_TTL : UInt8 := 128
def PROTO_TCP : UInt8 := 6

end IPv4Header

/-- `IPv4Header`, with the defaults of its members. -/
structure IPv4Header where
  ver : UInt8 := 4
  hlen : UInt8 := 20 / 4
  tos : UInt8 := 0
  len : UInt16 := 0
  id : UInt16 := 0
  df : Bool := true
  mf : Bool := false
  offset : UInt16 := 0
  ttl : UInt8 := IPv4Header.DEFAULT_TTL
  proto : UInt8 := IPv4Header.PROTO_TCP
  cksum : UInt16 := 0
  src : UInt32 := 0
  dst : UInt32 := 0
  deriving DecidableEq, Repr

namespace IPv4Header

open NetParser in
/-- The part of `parse` that reads the fields. -/
def readFields : Parse IPv4Header := do
  let firstByte ← u8
  let tos ← u8
  let len ← u16
  let id ← u16
  let foVal ← u16
  let ttl ← u8
  let proto ← u8
  let cksum ← u16
  let src ← u32
  let dst ← u32
  return {
    ver := firstByte >>> 4, hlen := firstByte &&& 0x0f, tos := tos, len := len, id := id
    df := foVal &&& 0x4000 != 0, mf := foVal &&& 0x2000 != 0, offset := foVal &&& 0x1fff
    ttl := ttl, proto := proto, cksum := cksum, src := src, dst := dst }

open NetParser in
/-- The lengths and the version are checked in the order of the source, the checksum comes last. -/
def parse (self : IPv4Header) : Parse (ParseResult × IPv4Header) := do
  let originalSerializedVersion := (← get).buffer
  let dataSize := originalSerializedVersion.length
  if dataSize < LENGTH then return (.PacketTooShort, self)
  let header ← readFields
  if dataSize < 4 * header.hlen.toNat then return (.PacketTooShort, header)
  if header.ver ≠ 4 then return (.WrongIPVersion, header)
  if header.hlen < 5 then return (.HeaderTooShort, header)
  if dataSize ≠ header.len.toNat then return (.TruncatedPacket, header)
  -- the difference is of type `size_t`
  removePrefix ((header.hlen.toNat * 4 + 2 ^ 64 - LENGTH) % 2 ^ 64)
  let p ← get
  if p.hasError then return (p.error, header)
  let check := (InternetChecksum.new 0).add
    (originalSerializedVersion.take (4 * header.hlen.toNat))
  if check.value ≠ 0 then return (.BadChecksum, header)
  return (.NoError, header)

open NetUnparser in
/-- The fields in order, and the rest of the header filled up with zeros. -/
def serialize (h : IPv4Header) : Except Exception (List UInt8) :=
  if h.ver ≠ 4 then .error (.runtimeError "wrong IP version")
  else if 4 * h.hlen.toNat < LENGTH then .error (.runtimeError "IP header too short")
  else
    let firstByte := h.ver <<< 4 ||| h.hlen &&& 0xf
    let ret := u8 [] firstByte
    let ret := u8 ret h.tos
    let ret := u16 ret h.len
    let ret := u16 ret h.id
    let foVal : UInt16 :=
      (if h.df then 0x4000 else 0) ||| (if h.mf then 0x2000 else 0) ||| h.offset &&& 0x1fff
    let ret := u16 ret foVal
    let ret := u8 ret h.ttl
    let ret := u8 ret h.proto
    let ret := u16 ret h.cksum
    let ret := u32 ret h.src
    let ret := u32 ret h.dst
    .ok (resize ret (4 * h.hlen.toNat))

/-- The difference is of type `int`, the result of type `uint16_t`. -/
def payloadLength (h : IPv4Header) : UInt16 := h.len - 4 * h.hlen.toUInt16

/-- The part of the header that the checksum of a segment covers. -/
def pseudoCksum (h : IPv4Header) : UInt32 :=
  let pcksum := (h.src >>> 16) + (h.src &&& 0xffff)
  let pcksum := pcksum + ((h.dst >>> 16) + (h.dst &&& 0xffff))
  let pcksum := pcksum + h.proto.toUInt32
  pcksum + h.payloadLength.toUInt32

/-- Wrapping around only makes a sum smaller. -/
theorem toNat_add_le (a b : UInt32) : (a + b).toNat ≤ a.toNat + b.toNat := by
  rw [UInt32.toNat_add]
  exact Nat.mod_le _ _

/-- The sum of the two halves of an address. -/
theorem toNat_halves_le (a : UInt32) : ((a >>> 16) + (a &&& 0xffff)).toNat ≤ 2 * 0xffff := by
  have ha := a.toNat_lt
  rw [InternetChecksum.toNat_foldTurn]
  omega

/-- The sum over the pseudo-header is small. -/
theorem pseudoCksum_le (h : IPv4Header) : h.pseudoCksum.toNat ≤ 2 ^ 19 := by
  have hsrc := toNat_halves_le h.src
  have hdst := toNat_halves_le h.dst
  have hproto := h.proto.toNat_lt
  have hpay := h.payloadLength.toNat_lt
  calc h.pseudoCksum.toNat
      ≤ ((h.src >>> 16) + (h.src &&& 0xffff)).toNat + ((h.dst >>> 16) + (h.dst &&& 0xffff)).toNat +
          h.proto.toUInt32.toNat + h.payloadLength.toUInt32.toNat :=
        (toNat_add_le _ _).trans <| Nat.add_le_add_right ((toNat_add_le _ _).trans <|
          Nat.add_le_add_right (toNat_add_le _ _) _) _
    _ ≤ 2 ^ 19 := by
        rw [UInt8.toNat_toUInt32, UInt16.toNat_toUInt32]
        omega

end IPv4Header

/-- A header and the payload. -/
structure IPv4Datagram where
  header : IPv4Header := {}
  payload : BufferList := []
  deriving DecidableEq, Repr

namespace IPv4Datagram

/-- The result of the header is not looked at; the error state of the parser is. -/
def parse (self : IPv4Datagram) (buffer : Buffer) : Except Exception (ParseResult × IPv4Datagram) := do
  let ((_, header), p) ← self.header.parse.run { buffer := buffer }
  let d : IPv4Datagram := { header := header, payload := [p.buffer] }
  if d.payload.size ≠ d.header.payloadLength.toNat then return (.PacketTooShort, d)
  return (p.error, d)

/-- The checksum is computed over the header with a zero in its place. -/
def serialize (d : IPv4Datagram) : Except Exception BufferList := do
  if d.payload.size ≠ d.header.payloadLength.toNat then
    throw (.runtimeError "IPv4Datagram::serialize: payload is wrong size")
  let headerOut := { d.header with cksum := 0 }
  let headerZeroChecksum ← headerOut.serialize
  let check := (InternetChecksum.new 0).add headerZeroChecksum
  let headerOut := { headerOut with cksum := check.value }
  return [← headerOut.serialize] ++ d.payload

end IPv4Datagram

/-! ## What the header parser reads -/

namespace IPv4Header

open NetParser

/-- The fields at their places in a string. -/
def ofBytes (b : Buffer) : IPv4Header where
  ver := UInt8.ofNat (beField b 0 1) >>> 4
  hlen := UInt8.ofNat (beField b 0 1) &&& 0x0f
  tos := UInt8.ofNat (beField b 1 1)
  len := UInt16.ofNat (beField b 2 2)
  id := UInt16.ofNat (beField b 4 2)
  df := UInt16.ofNat (beField b 6 2) &&& 0x4000 != 0
  mf := UInt16.ofNat (beField b 6 2) &&& 0x2000 != 0
  offset := UInt16.ofNat (beField b 6 2) &&& 0x1fff
  ttl := UInt8.ofNat (beField b 8 1)
  proto := UInt8.ofNat (beField b 9 1)
  cksum := UInt16.ofNat (beField b 10 2)
  src := UInt32.ofNat (beField b 12 4)
  dst := UInt32.ofNat (beField b 16 4)

/-- The fields are read from the first twenty bytes. -/
theorem readFields_run {b : Buffer} (h : LENGTH ≤ b.length) :
    readFields.run { buffer := b } = .ok (ofBytes b, { buffer := b.drop LENGTH }) := by
  have hstart : readFields.run ⟨b.drop 0, .NoError⟩ = .ok (ofBytes b, ⟨b.drop 20, .NoError⟩) := by
    simp only [LENGTH] at h
    simp (disch := omega) only [readFields, StateT.run_bind, u8_run, u16_run, u32_run, ok_bind,
      advance_drop, intValue_drop, Nat.reduceAdd]
    rfl
  exact hstart

/-- A short buffer leaves the header as it was. -/
theorem parse_run_short (self : IPv4Header) {b : Buffer} (h : b.length < LENGTH) :
    self.parse.run { buffer := b } = .ok ((.PacketTooShort, self), { buffer := b }) := by
  simp [parse, h]

/-- The verdict of the header parser on fields and string. -/
def verdict (h : IPv4Header) (b : Buffer) : ParseResult :=
  if b.length < 4 * h.hlen.toNat then .PacketTooShort
  else if h.ver ≠ 4 then .WrongIPVersion
  else if h.hlen < 5 then .HeaderTooShort
  else if b.length ≠ h.len.toNat then .TruncatedPacket
  else if ((InternetChecksum.new 0).add (b.take (4 * h.hlen.toNat))).value ≠ 0 then .BadChecksum
  else .NoError

/-- What a header is read as, and what becomes of the rest. -/
theorem parse_run (self : IPv4Header) {b : Buffer} (h : LENGTH ≤ b.length) :
    self.parse.run { buffer := b } = .ok (((ofBytes b).verdict b, ofBytes b),
      { buffer := b.drop (
        if (ofBytes b).verdict b = .NoError ∨ (ofBytes b).verdict b = .BadChecksum then
          4 * (ofBytes b).hlen.toNat
        else LENGTH) }) := by
  unfold parse verdict
  simp only [StateT.run_bind, StateT.run_get, pure_bind]
  rw [if_neg (Nat.not_lt.mpr h)]
  simp only [StateT.run_bind, readFields_run h, ok_bind]
  generalize ofBytes b = header
  by_cases h1 : b.length < 4 * header.hlen.toNat
  · simp [h1]
  by_cases h2 : header.ver ≠ 4
  · simp [h1, h2]
  by_cases h3 : header.hlen < 5
  · simp [h1, h2, h3]
  by_cases h4 : b.length ≠ header.len.toNat
  · simp [h1, h2, h3, h4]
  -- the options are skipped, and there is nothing left that could fail but the checksum
  obtain ⟨hlen, hskip⟩ := skip_eq h3
  rw [← LENGTH] at hskip
  have hadvance : advance { buffer := b.drop LENGTH } (4 * header.hlen.toNat - LENGTH) =
      { buffer := b.drop (4 * header.hlen.toNat) } := by
    simp only [LENGTH] at h ⊢
    rw [advance_drop (by omega), Nat.add_sub_of_le (by omega)]
  simp only [h1, h2, h3, h4, ↓reduceIte, hskip, StateT.run_bind, removePrefix_run, hadvance, ok_bind]
  by_cases hcheck : ((InternetChecksum.new 0).add (b.take (4 * header.hlen.toNat))).value = 0
  · simp [hcheck, hasError]
  · simp [hcheck, hasError]

end IPv4Header

end Sponge
