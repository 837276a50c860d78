import Sponge.IPv4Datagram.Parse

/-!
# Sponge.IPv4Datagram.Roundtrip

What `IPv4Datagram::serialize` writes, `IPv4Datagram::parse` reads back.

A serialized header is a front of ten bytes, the checksum, and the rest
(`Fits.serialize_eq`).  Reading its fields gives the header again
(`Fits.readFields_bytes`), so the parser finds the version and the lengths as
they should be; that the checksum verifies is a fact about any string with a
checksum field (`InternetChecksum.verifies_checksum`).
-/

namespace Sponge

namespace IPv4Header

open NetParser
open InternetChecksum (Verifies)

/-! ## Serialized headers -/

/-- The version and the header length, in one byte. -/
def firstByte (h : IPv4Header) : UInt8 := h.ver <<< 4 ||| h.hlen &&& 0xf

/-- The flags and the fragment offset, in one field. -/
def foVal (h : IPv4Header) : UInt16 :=
  (if h.df then 0x4000 else 0) ||| (if h.mf then 0x2000 else 0) ||| h.offset &&& 0x1fff

/-- The bytes before the checksum. -/
def front (h : IPv4Header) : List UInt8 :=
  beBytes 1 h.firstByte.toNat ++ (beBytes 1 h.tos.toNat ++ (beBytes 2 h.len.toNat ++
    (beBytes 2 h.id.toNat ++ (beBytes 2 h.foVal.toNat ++ (beBytes 1 h.ttl.toNat ++
      beBytes 1 h.proto.toNat)))))

/-- The bytes behind the checksum. -/
def back (h : IPv4Header) : List UInt8 :=
  beBytes 4 h.src.toNat ++ (beBytes 4 h.dst.toNat ++
    List.replicate (4 * h.hlen.toNat - LENGTH) 0)

/-- The whole header. -/
def bytes (h : IPv4Header) : List UInt8 := h.front ++ (beBytes 2 h.cksum.toNat ++ h.back)

/-- The fields fit their places. -/
structure Fits (h : IPv4Header) : Prop where
  ver : h.ver = 4
  hlen_ge : 5 ≤ h.hlen.toNat
  hlen_le : h.hlen.toNat ≤ 15
  offset : h.offset.toNat < 2 ^ 13

/-- A header that fits its format is its fields, one after the other. -/
theorem Fits.serialize_eq {h : IPv4Header} (hf : h.Fits) : h.serialize = .ok h.bytes := by
  have hlen : ¬ 4 * h.hlen.toNat < LENGTH := by
    have := hf.hlen_ge
    simp only [LENGTH]
    omega
  have hge := hf.hlen_ge
  simp only [serialize, hf.ver, ne_eq, not_true_eq_false, ↓reduceIte, hlen]
  rw [resize_of_le (by simp; omega)]
  simp [bytes, front, back, firstByte, foVal, hf.ver, LENGTH]

/-! ### Packed fields -/

theorem Fits.toNat_firstByte {h : IPv4Header} (hf : h.Fits) :
    h.firstByte.toNat = 2 ^ 4 * 4 + h.hlen.toNat := by
  have hlt : h.hlen.toNat < 2 ^ 4 := Nat.lt_succ_of_le hf.hlen_le
  have hand : (h.hlen &&& 0xf).toNat = h.hlen.toNat := by
    rw [toNat_and_fifteen]
    exact Nat.mod_eq_of_lt hlt
  rw [Nat.two_pow_add_eq_or_of_lt hlt, firstByte, hf.ver, UInt8.toNat_or, hand]
  rfl

/-- The version is in the high half. -/
theorem Fits.firstByte_ver {h : IPv4Header} (hf : h.Fits) : h.firstByte >>> 4 = h.ver := by
  have hlen := hf.hlen_le
  apply UInt8.toNat_inj.mp
  rw [toNat_shiftRight_four, hf.toNat_firstByte, hf.ver]
  show _ = 4
  omega

/-- The header length is in the low half. -/
theorem Fits.firstByte_hlen {h : IPv4Header} (hf : h.Fits) : h.firstByte &&& 0x0f = h.hlen := by
  have hlen := hf.hlen_le
  apply UInt8.toNat_inj.mp
  rw [toNat_and_fifteen, hf.toNat_firstByte]
  omega

/-- The bit that forbids fragments. -/
theorem foVal_df (h : IPv4Header) : (h.foVal &&& 0x4000 != 0) = h.df := by
  rw [and_ne_zero_of_uint16 (k := 14) rfl, foVal, UInt16.toNat_or, UInt16.toNat_or,
    UInt16.toNat_and, Nat.testBit_or, Nat.testBit_or, Nat.testBit_and]
  have hmask : (0x1fff : UInt16).toNat.testBit 14 = false := by decide
  rw [hmask, Bool.and_false, Bool.or_false]
  cases h.df <;> cases h.mf <;> rfl

/-- The bit that says that more fragments follow. -/
theorem foVal_mf (h : IPv4Header) : (h.foVal &&& 0x2000 != 0) = h.mf := by
  rw [and_ne_zero_of_uint16 (k := 13) rfl, foVal, UInt16.toNat_or, UInt16.toNat_or,
    UInt16.toNat_and, Nat.testBit_or, Nat.testBit_or, Nat.testBit_and]
  have hmask : (0x1fff : UInt16).toNat.testBit 13 = false := by decide
  rw [hmask, Bool.and_false, Bool.or_false]
  cases h.df <;> cases h.mf <;> rfl

/-- The offset is in the other bits. -/
theorem Fits.foVal_offset {h : IPv4Header} (hf : h.Fits) : h.foVal &&& 0x1fff = h.offset := by
  have hmask : ∀ n : Nat, n &&& 0x1fff = n % 2 ^ 13 := fun n => Nat.and_two_pow_sub_one_eq_mod n 13
  apply UInt16.toNat_inj.mp
  rw [UInt16.toNat_and, foVal, UInt16.toNat_or, UInt16.toNat_or, UInt16.toNat_and]
  show (_ ||| _ ||| h.offset.toNat &&& 0x1fff) &&& 0x1fff = _
  rw [hmask, hmask, Nat.or_mod_two_pow, Nat.or_mod_two_pow, Nat.mod_mod,
    Nat.mod_eq_of_lt hf.offset]
  cases h.df <;> cases h.mf <;> simp

/-- Reading the fields of a serialized header gives the header back. -/
theorem Fits.readFields_bytes {h : IPv4Header} (hf : h.Fits) (t : Buffer) :
    readFields.run ⟨h.bytes ++ t, .NoError⟩ =
      .ok (h, ⟨List.replicate (4 * h.hlen.toNat - LENGTH) 0 ++ t, .NoError⟩) := by
  simp only [readFields, bytes, front, back, List.append_assoc, StateT.run_bind, u8_run_beBytes,
    u16_run_beBytes, u32_run_beBytes, ok_bind, hf.firstByte_ver, hf.firstByte_hlen, foVal_df,
    foVal_mf, hf.foVal_offset]
  rfl

/-! ### Parsing a serialized header -/

@[simp] theorem length_front (h : IPv4Header) : h.front.length = 10 := by
  simp [front]

/-- The header has the size it says. -/
theorem Fits.length_bytes {h : IPv4Header} (hf : h.Fits) : h.bytes.length = 4 * h.hlen.toNat := by
  have := hf.hlen_ge
  simp [bytes, back, LENGTH]
  omega

theorem Fits.length_append_ge {h : IPv4Header} (hf : h.Fits) (t : Buffer) :
    LENGTH ≤ (h.bytes ++ t).length := by
  have := hf.hlen_ge
  rw [List.length_append, hf.length_bytes, LENGTH]
  omega

/-- **Every field comes back**, whatever follows the header. -/
theorem Fits.ofBytes_bytes {h : IPv4Header} (hf : h.Fits) (t : Buffer) :
    ofBytes (h.bytes ++ t) = h := by
  have hrun := readFields_run (hf.length_append_ge t)
  rw [hf.readFields_bytes t, Except.ok.injEq, Prod.mk.injEq] at hrun
  exact hrun.1.symm

/-- A header is short enough for its checksum not to wrap. -/
theorem Fits.weight_lt {h : IPv4Header} (hf : h.Fits) :
    (0 : UInt32).toNat + InternetChecksum.weight false h.bytes < 2 ^ 32 := by
  have hle := InternetChecksum.weight_le h.bytes
  have hlen := hf.hlen_le
  rw [hf.length_bytes] at hle
  rw [UInt32.toNat_zero]
  omega

/-- A header with the right length and checksum is accepted, and its options are skipped. -/
theorem Fits.parse_bytes {h : IPv4Header} (hf : h.Fits) (self : IPv4Header) {t : Buffer}
    (hlen : h.len.toNat = 4 * h.hlen.toNat + t.length) (hcheck : Verifies 0 h.bytes) :
    self.parse.run { buffer := h.bytes ++ t } = .ok ((.NoError, h), { buffer := t }) := by
  have hver : ¬ h.ver ≠ 4 := not_not.mpr hf.ver
  have hhlen : ¬ h.hlen < 5 := by
    rw [UInt8.lt_iff_toNat_lt]
    exact Nat.not_lt.mpr hf.hlen_ge
  have hvalue := (InternetChecksum.value_add_eq_zero_iff 0 hf.weight_lt).mpr hcheck
  have hverdict : h.verdict (h.bytes ++ t) = .NoError := by
    rw [verdict, List.length_append, hf.length_bytes, ← hf.length_bytes, List.take_left]
    simp [hf.length_bytes, hver, hhlen, hlen, hvalue]
  rw [parse_run self (hf.length_append_ge t), hf.ofBytes_bytes t, hverdict, if_pos (.inl rfl),
    ← hf.length_bytes, List.drop_left]

/-! ### The checksum -/

/-- The header with the checksum `serialize` writes. -/
def checksummed (h : IPv4Header) : IPv4Header :=
  { h with cksum := ((InternetChecksum.new 0).add { h with cksum := 0 }.bytes).value }

/-- The checksum is not part of the pseudo-header. -/
theorem pseudoCksum_checksummed (h : IPv4Header) :
    h.checksummed.pseudoCksum = h.pseudoCksum := by
  simp only [pseudoCksum, payloadLength, checksummed]

/-- The format does not depend on the checksum. -/
theorem Fits.with_cksum {h : IPv4Header} (hf : h.Fits) (v : UInt16) :
    { h with cksum := v }.Fits :=
  ⟨hf.ver, hf.hlen_ge, hf.hlen_le, hf.offset⟩

/-- The checksum that is filled in verifies. -/
theorem Fits.verifies_checksummed {h : IPv4Header} (hf : h.Fits) :
    Verifies 0 h.checksummed.bytes := by
  apply InternetChecksum.verifies_checksum (by simp)
  rw [checksummed, InternetChecksum.toNat_value, InternetChecksum.toNat_add]
  exact congrArg (fun n => 0xffff - OnesComplement.reduce 0xffff n)
    (Nat.mod_eq_of_lt (hf.with_cksum 0).weight_lt)

end IPv4Header

/-! ## Serialized datagrams -/

namespace IPv4Datagram

/-- The datagrams that can be sent as they are. -/
structure Fits (d : IPv4Datagram) : Prop where
  header : d.header.Fits
  len : d.header.len.toNat = 4 * d.header.hlen.toNat + d.payload.size

/-- The length field leaves room for the payload exactly. -/
theorem Fits.payloadLength {d : IPv4Datagram} (hd : d.Fits) :
    d.header.payloadLength.toNat = d.payload.size := by
  have hlen := d.header.len.toNat_lt
  have hd' := hd.len
  rw [toNat_payloadLength]
  omega

/-- The datagram on the wire, with its checksum filled in. -/
theorem Fits.serialize_eq {d : IPv4Datagram} (hd : d.Fits) :
    d.serialize = .ok (d.header.checksummed.bytes :: d.payload) := by
  have hzero := (hd.header.with_cksum 0).serialize_eq
  have hout : d.header.checksummed.serialize = .ok d.header.checksummed.bytes :=
    (hd.header.with_cksum _).serialize_eq
  rw [IPv4Header.checksummed] at hout ⊢
  simp [serialize, hd.payloadLength, hzero, hout]

/-- The datagram the parser makes of the bytes. -/
def received (d : IPv4Datagram) : IPv4Datagram :=
  { header := d.header.checksummed, payload := [d.payload.concatenate] }

/-- What is received fits its format again. -/
theorem Fits.received {d : IPv4Datagram} (hd : d.Fits) : d.received.Fits where
  header := hd.header.with_cksum _
  len := by
    have hsize : d.received.payload.size = d.payload.size := by
      simp [IPv4Datagram.received, BufferList.size]
    rw [hsize]
    exact hd.len

/-- The header is read from the wire, and the payload is what remains. -/
theorem Fits.header_parse_wire {d : IPv4Datagram} (hd : d.Fits) (self : IPv4Header) :
    self.parse.run { buffer := d.header.checksummed.bytes ++ d.payload.concatenate } =
      .ok ((.NoError, d.header.checksummed), { buffer := d.payload.concatenate }) := by
  apply hd.received.header.parse_bytes self _ hd.header.verifies_checksummed
  rw [BufferList.length_concatenate]
  exact hd.len

/-- What is written is read as the datagram with its checksum filled in. -/
theorem Fits.parse_wire {d : IPv4Datagram} (hd : d.Fits) (self : IPv4Datagram) :
    self.parse (d.header.checksummed.bytes ++ d.payload.concatenate) =
      .ok (.NoError, d.received) := by
  have hpay : d.header.checksummed.payloadLength.toNat =
      BufferList.size [d.payload.concatenate] := hd.received.payloadLength
  simp [parse, hd.header_parse_wire, hpay, IPv4Datagram.received]

/-- The parser reads back what was serialized and sent in one piece. -/
theorem Fits.eq_received {d dgram : IPv4Datagram} {b : Buffer} (hd : d.Fits)
    (hser : d.serialize = .ok out) (hbuffer : BufferList.toBuffer [out.concatenate] = .ok b)
    (hparse : parse {} b = .ok (result, dgram)) : dgram = d.received := by
  have hbytes : b = out.concatenate := by
    rw [BufferList.toBuffer_eq (by simp), Except.ok.injEq] at hbuffer
    rw [← hbuffer]
    simp [BufferList.concatenate]
  rw [hd.serialize_eq, Except.ok.injEq] at hser
  have hwire := hd.parse_wire {}
  rw [hbytes, ← hser, show BufferList.concatenate (d.header.checksummed.bytes :: d.payload) =
    d.header.checksummed.bytes ++ d.payload.concatenate from rfl, hwire, Except.ok.injEq,
    Prod.mk.injEq] at hparse
  exact hparse.2.symm

/-- **Round trip of datagrams**: a datagram whose fields fit is serialized, and the
bytes are parsed to the same payload and the same header up to the checksum;
the header parser accepts them too, and serializing the parsed datagram gives
the same bytes. -/
theorem parse_serialize (d : IPv4Datagram) (hver : d.header.ver = 4)
    (hge : 5 ≤ d.header.hlen.toNat) (hle : d.header.hlen.toNat ≤ 15)
    (hoffset : d.header.offset.toNat < 2 ^ 13)
    (hlen : d.header.len.toNat = 4 * d.header.hlen.toNat + d.payload.size) :
    ∃ out, d.serialize = .ok out ∧ ∀ self : IPv4Datagram,
      (∃ d', self.parse out.concatenate = .ok (.NoError, d') ∧
        d'.payload.concatenate = d.payload.concatenate ∧
        { d'.header with cksum := d.header.cksum } = d.header ∧
        ∃ out', d'.serialize = .ok out' ∧ out'.concatenate = out.concatenate) ∧
      ∃ h p, self.header.parse.run { buffer := out.concatenate } = .ok ((.NoError, h), p) := by
  have hd : d.Fits := ⟨⟨hver, hge, hle, hoffset⟩, hlen⟩
  have hpay : d.received.payload.concatenate = d.payload.concatenate := by
    simp [received, BufferList.concatenate]
  refine ⟨_, hd.serialize_eq, fun self => ⟨⟨d.received, hd.parse_wire self, hpay, rfl, _,
    hd.received.serialize_eq, ?_⟩, _, _, hd.header_parse_wire self.header⟩⟩
  -- the checksum is computed over the same header again
  rw [BufferList.concatenate, List.flatten_cons]
  exact congrArg (d.header.checksummed.bytes ++ ·) hpay

/-- A datagram with five bytes of payload. -/
theorem parse_serialize_hello :
    ∃ out, serialize ⟨{ len := 25, ttl := 64, src := 0x0a000001, dst := 0x0a000002 },
        [[104, 101], [108, 108, 111]]⟩ = .ok out ∧
      ∃ d', parse {} out.concatenate = .ok (.NoError, d') ∧
        d'.payload.concatenate = [104, 101, 108, 108, 111] ∧ d'.header.ttl = 64 := by
  obtain ⟨out, hout, hall⟩ := parse_serialize
    ⟨{ len := 25, ttl := 64, src := 0x0a000001, dst := 0x0a000002 },
      [[104, 101], [108, 108, 111]]⟩ rfl (by decide) (by decide) (by decide) rfl
  obtain ⟨⟨d', hparse, hpay, hheader, -⟩, -⟩ := hall {}
  exact ⟨out, hout, d', hparse, hpay, congrArg IPv4Header.ttl hheader⟩

end IPv4Datagram

end Sponge
