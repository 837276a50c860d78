import Sponge.TCPSegment.Parse

/-!
# Sponge.TCPSegment.Roundtrip

What `TCPSegment::serialize` writes, `TCPSegment::parse` reads back.  The
layout is that of `Sponge.IPv4Datagram.Roundtrip`; the checksum is taken over
the header and the payload, which are added one after the other
(`InternetChecksum.add_append`).
-/

namespace Sponge

namespace TCPHeader

open NetParser

/-! ## Serialized headers -/

/-- The six flags, in one byte. -/
def flags (h : TCPHeader) : UInt8 :=
  (if h.urg then 0x20 else 0) ||| (if h.ack then 0x10 else 0) |||
  (if h.psh then 0x08 else 0) ||| (if h.rst then 0x04 else 0) |||
  (if h.syn then 0x02 else 0) ||| (if h.fin then 0x01 else 0)

/-- The bytes before the checksum. -/
def front (h : TCPHeader) : List UInt8 :=
  beBytes 2 h.sport.toNat ++ (beBytes 2 h.dport.toNat ++ (beBytes 4 h.seqno.rawValue.toNat ++
    (beBytes 4 h.ackno.rawValue.toNat ++ (beBytes 1 (h.doff <<< 4).toNat ++
      (beBytes 1 h.flags.toNat ++ beBytes 2 h.win.toNat)))))

/-- The bytes behind the checksum. -/
def back (h : TCPHeader) : List UInt8 :=
  beBytes 2 h.uptr.toNat ++ List.replicate (4 * h.doff.toNat - LENGTH) 0

/-- The whole header. -/
def bytes (h : TCPHeader) : List UInt8 := h.front ++ (beBytes 2 h.cksum.toNat ++ h.back)

/-- The data offset fits its place. -/
structure Fits (h : TCPHeader) : Prop where
  doff_ge : 5 ≤ h.doff.toNat
  doff_le : h.doff.toNat ≤ 15

/-- The format does not depend on the checksum. -/
theorem Fits.with_cksum {h : TCPHeader} (hf : h.Fits) (v : UInt16) : { h with cksum := v }.Fits :=
  ⟨hf.doff_ge, hf.doff_le⟩

theorem Fits.not_lt {h : TCPHeader} (hf : h.Fits) : ¬ h.doff < 5 := by
  rw [UInt8.lt_iff_toNat_lt]
  exact Nat.not_lt.mpr hf.doff_ge

/-- A header that fits its format is its fields, one after the other. -/
theorem Fits.serialize_eq {h : TCPHeader} (hf : h.Fits) : h.serialize = .ok h.bytes := by
  have hge := hf.doff_ge
  simp only [serialize, hf.not_lt, ↓reduceIte]
  rw [resize_of_le (by simp; omega)]
  simp [bytes, front, back, flags, LENGTH]

/-! ### Packed fields -/

theorem Fits.shift_doff {h : TCPHeader} (hf : h.Fits) : (h.doff <<< 4) >>> 4 = h.doff := by
  have hle := hf.doff_le
  apply UInt8.toNat_inj.mp
  rw [toNat_shiftRight_four, UInt8.toNat_shiftLeft, Nat.shiftLeft_eq]
  show h.doff.toNat * 2 ^ 4 % 2 ^ 8 / 16 = _
  omega

/-- Every flag is read back from the byte of all six. -/
theorem flags_bits (h : TCPHeader) :
    (h.flags &&& 0x20 != 0) = h.urg ∧ (h.flags &&& 0x10 != 0) = h.ack ∧
    (h.flags &&& 0x08 != 0) = h.psh ∧ (h.flags &&& 0x04 != 0) = h.rst ∧
    (h.flags &&& 0x02 != 0) = h.syn ∧ (h.flags &&& 0x01 != 0) = h.fin := by
  unfold flags
  generalize h.urg = urg, h.ack = ack, h.psh = psh, h.rst = rst, h.syn = syn, h.fin = fin
  revert urg ack psh rst syn fin
  decide

/-- Reading the fields of a serialized header gives the header back. -/
theorem Fits.readFields_bytes {h : TCPHeader} (hf : h.Fits) (t : Buffer) :
    readFields.run ⟨h.bytes ++ t, .NoError⟩ =
      .ok (h, ⟨List.replicate (4 * h.doff.toNat - LENGTH) 0 ++ t, .NoError⟩) := by
  obtain ⟨hurg, hack, hpsh, hrst, hsyn, hfin⟩ := h.flags_bits
  simp only [readFields, bytes, front, back, List.append_assoc, StateT.run_bind, u8_run_beBytes,
    u16_run_beBytes, u32_run_beBytes, ok_bind, hf.shift_doff, hurg, hack, hpsh, hrst, hsyn, hfin]
  rfl

/-- Every field comes back, whatever follows the header. -/
theorem Fits.parse_bytes {h : TCPHeader} (hf : h.Fits) (t : Buffer) :
    ∃ r, parse.run { buffer := h.bytes ++ t } = .ok ((r, h), { buffer := t }) := by
  obtain ⟨r, hrun⟩ := parse_run (hf.readFields_bytes t)
  rw [if_neg hf.not_lt, advance_append (by simp)] at hrun
  exact ⟨r, hrun⟩

@[simp] theorem length_front (h : TCPHeader) : h.front.length = 16 := by
  simp [front]

/-- The header has the size it says. -/
theorem Fits.length_bytes {h : TCPHeader} (hf : h.Fits) : h.bytes.length = 4 * h.doff.toNat := by
  have := hf.doff_ge
  simp [bytes, back, LENGTH]
  omega

end TCPHeader

/-! ## Serialized segments -/

namespace TCPSegment

open InternetChecksum (Verifies)

/-- The segments that can be sent as they are. -/
structure Fits (s : TCPSegment) : Prop where
  header : s.header.Fits
  size : 4 * s.header.doff.toNat + s.payload.length ≤ 65535

/-- The segment with the checksum `serialize` writes. -/
def checksummed (s : TCPSegment) (c : UInt32) : TCPSegment :=
  { s with header := { s.header with cksum :=
      ((InternetChecksum.new c).add ({ s.header with cksum := 0 }.bytes ++ s.payload)).value } }

/-- The segment on the wire, with its checksum filled in. -/
theorem Fits.serialize_eq {s : TCPSegment} (hs : s.Fits) (c : UInt32) :
    s.serialize c = .ok [(s.checksummed c).header.bytes, s.payload] := by
  have hzero := (hs.header.with_cksum 0).serialize_eq
  have hout : (s.checksummed c).header.serialize = .ok (s.checksummed c).header.bytes :=
    (hs.header.with_cksum _).serialize_eq
  rw [checksummed, InternetChecksum.add_append] at hout ⊢
  simp [serialize, hzero, hout]

/-- The checksum that is filled in verifies. -/
theorem Fits.verifies_checksummed {s : TCPSegment} (hs : s.Fits) {c : UInt32}
    (hc : c.toNat ≤ 2 ^ 19) :
    Verifies c.toNat ((s.checksummed c).header.bytes ++ s.payload) := by
  have hlen : ({ s.header with cksum := 0 }.bytes ++ s.payload).length ≤ 65535 := by
    rw [List.length_append, (hs.header.with_cksum 0).length_bytes]
    exact hs.size
  rw [TCPHeader.bytes, List.append_assoc, List.append_assoc]
  apply InternetChecksum.verifies_checksum (by simp)
  rw [checksummed, InternetChecksum.toNat_value, InternetChecksum.toNat_add, InternetChecksum.new,
    Nat.mod_eq_of_lt (sum_lt hlen hc), TCPHeader.bytes, List.append_assoc, List.append_assoc]
  rfl

theorem Fits.length_wire {s : TCPSegment} (hs : s.Fits) (c : UInt32) :
    ((s.checksummed c).header.bytes ++ s.payload).length ≤ 65535 := by
  have hf : (s.checksummed c).header.Fits := hs.header.with_cksum _
  rw [List.length_append, hf.length_bytes]
  exact hs.size

/-- What is written is read as the segment with its checksum filled in. -/
theorem Fits.parse_wire {s : TCPSegment} (hs : s.Fits) {c : UInt32} (hc : c.toNat ≤ 2 ^ 19)
    (self : TCPSegment) :
    self.parse ((s.checksummed c).header.bytes ++ s.payload) c =
      .ok (.NoError, s.checksummed c) := by
  have hf : (s.checksummed c).header.Fits := hs.header.with_cksum _
  obtain ⟨r, hrun⟩ := hf.parse_bytes s.payload
  exact parse_good self (hs.length_wire c) hc (hs.verifies_checksummed hc) hrun

theorem concatenate_wire (s : TCPSegment) (c : UInt32) :
    BufferList.concatenate [(s.checksummed c).header.bytes, s.payload] =
      (s.checksummed c).header.bytes ++ s.payload := by
  simp [BufferList.concatenate]

/-- **Round trip of segments**: a segment whose data offset fits is serialized to bytes
that verify, and these are parsed to the same payload and the same header up to
the checksum. -/
theorem serialize_verifies_parses (s : TCPSegment) (c : UInt32)
    (hge : 5 ≤ s.header.doff.toNat) (hle : s.header.doff.toNat ≤ 15)
    (hsize : 4 * s.header.doff.toNat + s.payload.length ≤ 65535) (hc : c.toNat ≤ 2 ^ 19) :
    ∃ out, s.serialize c = .ok out ∧ Verifies c.toNat out.concatenate ∧
      ∀ self : TCPSegment, ∃ s', self.parse out.concatenate c = .ok (.NoError, s') ∧
        s'.payload = s.payload ∧ { s'.header with cksum := s.header.cksum } = s.header := by
  have hs : s.Fits := ⟨⟨hge, hle⟩, hsize⟩
  refine ⟨_, hs.serialize_eq c, ?_, fun self => ⟨s.checksummed c, ?_, rfl, rfl⟩⟩
  · rw [concatenate_wire]
    exact hs.verifies_checksummed hc
  · rw [concatenate_wire]
    exact hs.parse_wire hc self

/-- A FIN with an odd number of bytes and options. -/
theorem serialize_verifies_parses_fin :
    ∃ out, serialize ⟨{ sport := 80, doff := 7, fin := true }, [97, 98, 99]⟩ 1000 = .ok out ∧
      ∃ s', parse {} out.concatenate 1000 = .ok (.NoError, s') ∧ s'.payload = [97, 98, 99] := by
  obtain ⟨out, hout, -, hall⟩ := serialize_verifies_parses
    ⟨{ sport := 80, doff := 7, fin := true }, [97, 98, 99]⟩ 1000
    (by decide) (by decide) (by decide) (by decide)
  obtain ⟨s', hparse, hpay, -⟩ := hall {}
  exact ⟨out, hout, s', hparse, hpay⟩

/-- **Every corrupted byte is detected**: whatever place of a serialized segment gets
another byte, the header's checksum field included, the parser says
`BadChecksum`. -/
theorem parse_set_badChecksum (s : TCPSegment) (c : UInt32)
    (hge : 5 ≤ s.header.doff.toNat) (hle : s.header.doff.toNat ≤ 15)
    (hsize : 4 * s.header.doff.toNat + s.payload.length ≤ 65535) (hc : c.toNat ≤ 2 ^ 19) :
    ∃ out, s.serialize c = .ok out ∧ ∀ (self : TCPSegment) (i : Nat) (old byte : UInt8),
      out.concatenate[i]? = some old → byte ≠ old →
        self.parse (out.concatenate.set i byte) c = .ok (.BadChecksum, self) := by
  have hs : s.Fits := ⟨⟨hge, hle⟩, hsize⟩
  refine ⟨_, hs.serialize_eq c, fun self i old byte hold hne => ?_⟩
  rw [concatenate_wire] at hold ⊢
  have hlen := hs.length_wire c
  rw [← List.length_set (a := byte)] at hlen
  exact parse_bad self hlen hc ((hs.verifies_checksummed hc).not_set hold hne)

/-- The third byte of an odd payload, a high byte of the sum, is changed. -/
theorem parse_set_badChecksum_payload :
    ∃ out, serialize ⟨{ sport := 80, doff := 7, fin := true }, [97, 98, 99]⟩ 1000 = .ok out ∧
      parse {} (out.concatenate.set 30 100) 1000 = .ok (.BadChecksum, {}) := by
  obtain ⟨out, hout, hall⟩ := parse_set_badChecksum
    ⟨{ sport := 80, doff := 7, fin := true }, [97, 98, 99]⟩ 1000
    (by decide) (by decide) (by decide) (by decide)
  have hold : (serialize ⟨{ sport := 80, doff := 7, fin := true }, [97, 98, 99]⟩ 1000).map
      (fun out => out.concatenate[30]?) = .ok (some 99) := by
    decide +kernel
  rw [hout, Except.map, Except.ok.injEq] at hold
  exact ⟨out, hout, hall {} 30 99 100 hold (by decide)⟩

end TCPSegment

end Sponge
