import Sponge.IPv4Datagram

/-!
# Sponge.IPv4Datagram.Parse

Which strings `IPv4Datagram::parse` accepts.  It should accept the well-formed
ones: a header of version 4 that fits, whose length field is the length of the
string and whose checksum verifies.

It does not look at the verdict of the header parser.  What it checks is that
as many bytes are left as the header's length fields promise, where the header
parser has skipped the options only if it got that far.  So a bad checksum goes
unnoticed, and so do the other faults when the lengths happen to agree
(`Misparses`).
-/

namespace Sponge

open InternetChecksum (Verifies)

/-! ## The fields of a string -/

/-- The header-length field, in units of four bytes. -/
def hlenField (b : Buffer) : Nat := beField b 0 1 % 16

/-- The fields of `h` are the bits of `b` at their places. -/
structure IPv4Header.At (h : IPv4Header) (b : Buffer) : Prop where
  ver : h.ver.toNat = beField b 0 1 / 16
  hlen : h.hlen.toNat = beField b 0 1 % 16
  tos : h.tos.toNat = beField b 1 1
  len : h.len.toNat = beField b 2 2
  id : h.id.toNat = beField b 4 2
  df : h.df = (beField b 6 2).testBit 14
  mf : h.mf = (beField b 6 2).testBit 13
  offset : h.offset.toNat = beField b 6 2 % 2 ^ 13
  ttl : h.ttl.toNat = beField b 8 1
  proto : h.proto.toNat = beField b 9 1
  cksum : h.cksum.toNat = beField b 10 2
  src : h.src.toNat = beField b 12 4
  dst : h.dst.toNat = beField b 16 4

/-- What the header parser reads are the bits of the string. -/
theorem IPv4Header.ofBytes_at (b : Buffer) : (ofBytes b).At b where
  ver := by simp only [ofBytes, toNat_shiftRight_four, toNat_ofNat_beField_one]
  hlen := by simp only [ofBytes, toNat_and_fifteen, toNat_ofNat_beField_one]
  tos := toNat_ofNat_beField_one b 1
  len := toNat_ofNat_beField_two b 2
  id := toNat_ofNat_beField_two b 4
  df := by
    simp only [ofBytes]
    rw [and_ne_zero_of_uint16 (k := 14) rfl, toNat_ofNat_beField_two]
  mf := by
    simp only [ofBytes]
    rw [and_ne_zero_of_uint16 (k := 13) rfl, toNat_ofNat_beField_two]
  offset := by
    rw [ofBytes, UInt16.toNat_and, toNat_ofNat_beField_two]
    exact Nat.and_two_pow_sub_one_eq_mod _ 13
  ttl := toNat_ofNat_beField_one b 8
  proto := toNat_ofNat_beField_one b 9
  cksum := toNat_ofNat_beField_two b 10
  src := toNat_ofNat_beField_four b 12
  dst := toNat_ofNat_beField_four b 16

/-- The version and length fields are right. -/
def HeaderFits (b : Buffer) : Prop :=
  beField b 0 1 / 16 = 4 ∧ 5 ≤ hlenField b ∧ 4 * hlenField b ≤ b.length ∧ beField b 2 2 = b.length

instance (b : Buffer) : Decidable (HeaderFits b) := inferInstanceAs (Decidable (_ ∧ _ ∧ _ ∧ _))

/-- A datagram as it should be on the wire. -/
def WellFormed (b : Buffer) : Prop :=
  20 ≤ b.length ∧ HeaderFits b ∧ Verifies 0 (b.take (4 * hlenField b))

instance (b : Buffer) : Decidable (WellFormed b) := inferInstanceAs (Decidable (_ ∧ _ ∧ _))

/-- The last two verdicts are those on a header with the right version and lengths. -/
theorem IPv4Header.verdict_cases (h : IPv4Header) (b : Buffer) :
    (h.verdict b = .NoError ∨ h.verdict b = .BadChecksum) ↔
      h.ver = 4 ∧ ¬ h.hlen < 5 ∧ ¬ b.length < 4 * h.hlen.toNat ∧ b.length = h.len.toNat := by
  unfold verdict
  split_ifs <;> simp_all

/-- Apart from the checksum, a header is accepted if and only if its lengths fit. -/
theorem IPv4Header.verdict_fits (b : Buffer) :
    ((ofBytes b).verdict b = .NoError ∨ (ofBytes b).verdict b = .BadChecksum) ↔ HeaderFits b := by
  have hat := ofBytes_at b
  rw [verdict_cases, HeaderFits, hlenField, ← UInt8.toNat_inj, UInt8.lt_iff_toNat_lt, hat.ver,
    hat.hlen, hat.len]
  simp only [UInt8.reduceToNat, Nat.not_lt, eq_comm (a := b.length)]

/-! ## What the datagram parser decides -/

namespace IPv4Datagram

/-- The subtraction wraps around in sixteen bits. -/
theorem toNat_payloadLength (h : IPv4Header) :
    h.payloadLength.toNat = (h.len.toNat + 2 ^ 16 - 4 * h.hlen.toNat) % 2 ^ 16 := by
  have hhlen := h.hlen.toNat_lt
  have hfour : (4 * h.hlen.toUInt16).toNat = 4 * h.hlen.toNat := by
    rw [UInt16.toNat_mul, UInt8.toNat_toUInt16]
    exact Nat.mod_eq_of_lt (by simp only [UInt16.reduceToNat]; omega)
  rw [IPv4Header.payloadLength, UInt16.toNat_sub, hfour]
  congr 1
  omega

/-- On a short buffer the header is the one from before. -/
theorem parse_eq_short (d : IPv4Datagram) {b : Buffer} (h : b.length < 20) :
    d.parse b = .ok (if b.length = d.header.payloadLength.toNat then .NoError else .PacketTooShort,
      { header := d.header, payload := [b] }) := by
  simp only [parse, IPv4Header.parse_run_short d.header h, ok_bind]
  by_cases heq : b.length = d.header.payloadLength.toNat <;> simp [BufferList.size, heq]

/-- How many bytes the header parser takes. -/
def headerSize (b : Buffer) : Nat := if HeaderFits b then 4 * hlenField b else 20

/-- The result is decided by the lengths, once more. -/
theorem parse_eq (d : IPv4Datagram) {b : Buffer} (h : 20 ≤ b.length) :
    d.parse b = .ok (
      if b.length - headerSize b = (IPv4Header.ofBytes b).payloadLength.toNat then .NoError
        else .PacketTooShort,
      { header := IPv4Header.ofBytes b, payload := [b.drop (headerSize b)] }) := by
  have hhlen : (IPv4Header.ofBytes b).hlen.toNat = hlenField b := (IPv4Header.ofBytes_at b).hlen
  have hrun := IPv4Header.parse_run d.header (b := b) h
  simp only [IPv4Header.verdict_fits, hhlen, IPv4Header.LENGTH] at hrun
  rw [← headerSize] at hrun
  simp only [parse, hrun, ok_bind]
  by_cases heq : b.length - headerSize b = (IPv4Header.ofBytes b).payloadLength.toNat <;>
    simp [BufferList.size, heq]

/-- Lengths that agree are all it takes. -/
theorem parse_accepts (d : IPv4Datagram) {b : Buffer} (h : 20 ≤ b.length)
    (hagree : b.length - headerSize b = (IPv4Header.ofBytes b).payloadLength.toNat) :
    ∃ d', d.parse b = .ok (.NoError, d') :=
  ⟨_, by rw [parse_eq d h, if_pos hagree]⟩

/-- The object `d` accepts `b` although it is not well formed: the version and the
lengths are right and the checksum is not, or the version or a length is wrong
and the bytes after the first 20, or those of a shorter string, are as many as
the lengths in the header differ by. -/
def Misparses (d : IPv4Datagram) (b : Buffer) : Prop :=
  if b.length < 20 then b.length = d.header.payloadLength.toNat
  else if HeaderFits b then ¬ Verifies 0 (b.take (4 * hlenField b))
  else b.length - 20 = (beField b 2 2 + 2 ^ 16 - 4 * hlenField b) % 2 ^ 16

instance (d : IPv4Datagram) (b : Buffer) : Decidable (d.Misparses b) := by
  unfold Misparses
  infer_instance

/-- **Which strings are parsed as they should be**: exactly those that are not
misparsed.  On all others the parser returns `NoError` if and only if the
string is well formed, and then it has the payload and all fields of the
header. -/
theorem parse_right_iff (d : IPv4Datagram) (b : Buffer) :
    (∃ r d', d.parse b = .ok (r, d') ∧ (r = .NoError ↔ WellFormed b) ∧
      (r = .NoError → d'.payload.concatenate = b.drop (4 * hlenField b) ∧ d'.header.At b)) ↔
      ¬ d.Misparses b := by
  by_cases hshort : b.length < 20
  · -- too short: the fields are those the object had before
    have hnot : ¬ WellFormed b := fun h => Nat.not_lt.mpr h.1 hshort
    rw [parse_eq_short d hshort, Misparses, if_pos hshort]
    by_cases heq : b.length = d.header.payloadLength.toNat <;> simp [heq, hnot]
  have hlen : 20 ≤ b.length := by omega
  have hat := IPv4Header.ofBytes_at b
  have hpay := toNat_payloadLength (IPv4Header.ofBytes b)
  rw [hat.len, hat.hlen, ← hlenField] at hpay
  rw [parse_eq d hlen, Misparses, if_neg hshort, hpay, headerSize]
  by_cases hfits : HeaderFits b
  · -- the lengths agree, so the string is accepted
    have hagree : b.length - 4 * hlenField b =
        (beField b 2 2 + 2 ^ 16 - 4 * hlenField b) % 2 ^ 16 := by
      have hlt := beField_lt b 2 2
      obtain ⟨-, h5, h4, hl⟩ := hfits
      omega
    simp [hfits, hagree, WellFormed, hlen, hat, BufferList.concatenate]
  · have hnot : ¬ WellFormed b := fun h => hfits h.2.1
    generalize (beField b 2 2 + 2 ^ 16 - 4 * hlenField b) % 2 ^ 16 = n
    by_cases heq : b.length - 20 = n <;> simp [hfits, heq, hnot]

/-- A header that is right but for its checksum, and one of version 6, are accepted. -/
theorem parse_accepts_malformed :
    ((∃ d, parse {} ([0x45, 0, 0, 20] ++ List.replicate 16 0) = .ok (.NoError, d)) ∧
      ¬ WellFormed ([0x45, 0, 0, 20] ++ List.replicate 16 0)) ∧
    (∃ d, parse {} ([0x65, 0, 0, 20] ++ List.replicate 16 0) = .ok (.NoError, d)) ∧
      ¬ WellFormed ([0x65, 0, 0, 20] ++ List.replicate 16 0) :=
  ⟨⟨parse_accepts {} (by decide) (by decide), by decide⟩,
    parse_accepts {} (by decide) (by decide), by decide⟩

end IPv4Datagram

end Sponge
