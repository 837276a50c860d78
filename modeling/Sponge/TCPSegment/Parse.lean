import Sponge.TCPSegment

/-!
# Sponge.TCPSegment.Parse

Which strings `TCPSegment::parse` accepts.  It should accept those whose sum
verifies and whose header fits: at least 20 bytes, and a data offset of at
least 5 that does not point past the end.

The verdict of the header parser is not looked at, but most of it shows in the
parser's error flag: the flag is set when the header is cut off.  A data offset
below 5 does not set it, and the payload then starts after the first 20 bytes.
-/

namespace Sponge

open InternetChecksum (Verifies)

/-! ## The fields of a string -/

/-- The data-offset field, in units of four bytes. -/
def doffField (b : Buffer) : Nat := beField b 12 1 / 16

/-- The fields of `h` are the bits of `b` at their places. -/
structure TCPHeader.At (h : TCPHeader) (b : Buffer) : Prop where
  sport : h.sport.toNat = beField b 0 2
  dport : h.dport.toNat = beField b 2 2
  seqno : h.seqno.rawValue.toNat = beField b 4 4
  ackno : h.ackno.rawValue.toNat = beField b 8 4
  doff : h.doff.toNat = beField b 12 1 / 16
  urg : h.urg = (beField b 13 1).testBit 5
  ack : h.ack = (beField b 13 1).testBit 4
  psh : h.psh = (beField b 13 1).testBit 3
  rst : h.rst = (beField b 13 1).testBit 2
  syn : h.syn = (beField b 13 1).testBit 1
  fin : h.fin = (beField b 13 1).testBit 0
  win : h.win.toNat = beField b 14 2
  cksum : h.cksum.toNat = beField b 16 2
  uptr : h.uptr.toNat = beField b 18 2

namespace TCPHeader

open NetParser

/-- The fields at their places in a string. -/
def ofBytes (b : Buffer) : TCPHeader where
  sport := UInt16.ofNat (beField b 0 2)
  dport := UInt16.ofNat (beField b 2 2)
  seqno := ⟨UInt32.ofNat (beField b 4 4)⟩
  ackno := ⟨UInt32.ofNat (beField b 8 4)⟩
  doff := UInt8.ofNat (beField b 12 1) >>> 4
  urg := UInt8.ofNat (beField b 13 1) &&& 0x20 != 0
  ack := UInt8.ofNat (beField b 13 1) &&& 0x10 != 0
  psh := UInt8.ofNat (beField b 13 1) &&& 0x08 != 0
  rst := UInt8.ofNat (beField b 13 1) &&& 0x04 != 0
  syn := UInt8.ofNat (beField b 13 1) &&& 0x02 != 0
  fin := UInt8.ofNat (beField b 13 1) &&& 0x01 != 0
  win := UInt16.ofNat (beField b 14 2)
  cksum := UInt16.ofNat (beField b 16 2)
  uptr := UInt16.ofNat (beField b 18 2)

/-- A flag of the header is a bit of the string. -/
theorem flag_beField {mask : UInt8} (h : mask.toNat = 2 ^ k) (b : Buffer) :
    (UInt8.ofNat (beField b 13 1) &&& mask != 0) = (beField b 13 1).testBit k := by
  rw [and_ne_zero_of_uint8 h, toNat_ofNat_beField_one]

/-- What the header parser reads are the bits of the string. -/
theorem ofBytes_at (b : Buffer) : (ofBytes b).At b where
  sport := toNat_ofNat_beField_two b 0
  dport := toNat_ofNat_beField_two b 2
  seqno := toNat_ofNat_beField_four b 4
  ackno := toNat_ofNat_beField_four b 8
  doff := by simp only [ofBytes, toNat_shiftRight_four, toNat_ofNat_beField_one]
  urg := flag_beField rfl b
  ack := flag_beField rfl b
  psh := flag_beField rfl b
  rst := flag_beField rfl b
  syn := flag_beField rfl b
  fin := flag_beField rfl b
  win := toNat_ofNat_beField_two b 14
  cksum := toNat_ofNat_beField_two b 16
  uptr := toNat_ofNat_beField_two b 18

/-- The fields are read from the first twenty bytes. -/
theorem readFields_run {b : Buffer} (h : LENGTH ≤ b.length) :
    readFields.run { buffer := b } = .ok (ofBytes b, { buffer := b.drop LENGTH }) := by
  have hstart : readFields.run ⟨b.drop 0, .NoError⟩ = .ok (ofBytes b, ⟨b.drop 20, .NoError⟩) := by
    simp only [LENGTH] at h
    simp (disch := omega) only [readFields, StateT.run_bind, u8_run, u16_run, u32_run, ok_bind,
      advance_drop, intValue_drop, Nat.reduceAdd]
    rfl
  exact hstart

/-- Without enough bytes the parser fails on the way. -/
theorem readFields_past (b : Buffer) :
    ∃ h p, readFields.run { buffer := b } = .ok (h, p) ∧ Past b LENGTH p := by
  have hpast := (past_start b).advance (m := 2) |>.advance (m := 2) |>.advance (m := 4)
    |>.advance (m := 4) |>.advance (m := 1) |>.advance (m := 1) |>.advance (m := 2)
    |>.advance (m := 2) |>.advance (m := 2)
  simp only [readFields, StateT.run_bind, u8_run, u16_run, u32_run, ok_bind]
  exact ⟨_, _, rfl, hpast⟩

/-- After the fields, the options are skipped unless the data offset is too small. -/
theorem parse_run {p₀ : NetParser} (hrun : readFields.run p₀ = .ok (h, p)) :
    ∃ r, parse.run p₀ = .ok ((r, h),
      if h.doff < 5 then p else p.advance (4 * h.doff.toNat - LENGTH)) := by
  simp only [parse, StateT.run_bind, hrun, ok_bind]
  by_cases hdoff : h.doff < 5
  · rw [if_pos hdoff, if_pos hdoff]
    exact ⟨_, rfl⟩
  have hskip : (h.doff.toNat * 4 + 2 ^ 64 - LENGTH) % 2 ^ 64 = 4 * h.doff.toNat - LENGTH :=
    (skip_eq hdoff).2
  rw [if_neg hdoff, if_neg hdoff]
  simp only [StateT.run_bind, removePrefix_run, hskip, ok_bind, StateT.run_get, pure_bind]
  by_cases herr : (p.advance (4 * h.doff.toNat - LENGTH)).hasError = true
  · exact ⟨_, by rw [if_pos herr]; rfl⟩
  · exact ⟨_, by rw [if_neg herr]; rfl⟩

/-- A header that is cut off shows in the error flag. -/
theorem parse_run_short {b : Buffer} (hshort : b.length < LENGTH) :
    ∃ r h p, parse.run { buffer := b } = .ok ((r, h), p) ∧ p.error ≠ .NoError := by
  obtain ⟨h, p, hread, hpast⟩ := readFields_past b
  obtain ⟨r, hrun⟩ := parse_run hread
  refine ⟨r, h, _, hrun, fun hok => Nat.not_lt.mpr ?_ hshort⟩
  split at hok
  · exact (hpast hok).1
  · exact Nat.le_of_add_right_le (hpast.advance hok).1

end TCPHeader

/-! ## What the segment parser decides -/

namespace TCPSegment

/-- A segment as it should be on the wire. -/
def WellFormed (c : Nat) (b : Buffer) : Prop :=
  Verifies c b ∧ 20 ≤ b.length ∧ 5 ≤ doffField b ∧ 4 * doffField b ≤ b.length

instance (c : Nat) (b : Buffer) : Decidable (WellFormed c b) :=
  inferInstanceAs (Decidable (_ ∧ _ ∧ _ ∧ _))

/-- The 32-bit sum has room for a segment and its pseudo-header. -/
theorem sum_lt {b : Buffer} {c : UInt32} (hb : b.length ≤ 65535) (hc : c.toNat ≤ 2 ^ 19) :
    c.toNat + InternetChecksum.weight false b < 2 ^ 32 := by
  have hle := InternetChecksum.weight_le b
  omega

/-- A wrong checksum leaves the segment as it was. -/
theorem parse_bad {b : Buffer} {c : UInt32} (s : TCPSegment) (hb : b.length ≤ 65535)
    (hc : c.toNat ≤ 2 ^ 19) (hsum : ¬ Verifies c.toNat b) : s.parse b c = .ok (.BadChecksum, s) := by
  rw [← InternetChecksum.value_add_eq_zero_iff c (sum_lt hb hc)] at hsum
  simp [parse, hsum]

/-- With the right checksum, it depends on the header. -/
theorem parse_good {b : Buffer} {c : UInt32} (s : TCPSegment) (hb : b.length ≤ 65535)
    (hc : c.toNat ≤ 2 ^ 19) (hsum : Verifies c.toNat b)
    (hrun : TCPHeader.parse.run { buffer := b } = .ok ((r, h), p)) :
    s.parse b c = .ok (p.error, { header := h, payload := p.buffer }) := by
  rw [← InternetChecksum.value_add_eq_zero_iff c (sum_lt hb hc)] at hsum
  simp [parse, hsum, hrun]

/-- The parser does not throw, and what it accepts has the fields of the string. -/
theorem parse_spec (s : TCPSegment) (b : Buffer) (c : UInt32) :
    ∃ res s', s.parse b c = .ok (res, s') ∧ (res = .NoError → s'.header.At b) := by
  unfold parse
  by_cases hsum : ((InternetChecksum.new c).add b).value = 0
  case neg => simp [hsum]
  by_cases hshort : b.length < TCPHeader.LENGTH
  · obtain ⟨r, h, p, hrun, herr⟩ := TCPHeader.parse_run_short hshort
    simp [hsum, hrun, herr]
  · obtain ⟨r, hrun⟩ := TCPHeader.parse_run (TCPHeader.readFields_run (Nat.le_of_not_lt hshort))
    simp [hsum, hrun, TCPHeader.ofBytes_at b]

/-- **Which segments are parsed as they should be**: exactly those that do not verify
with a data offset below 5.  On all others the parser returns `NoError` if and
only if the segment is well formed, and then it has the payload and all fields
of the header. -/
theorem parse_right_unless_small_doff (s : TCPSegment) (b : Buffer) (c : UInt32)
    (hb : b.length ≤ 65535) (hc : c.toNat ≤ 2 ^ 19) :
    (∃ r s', s.parse b c = .ok (r, s') ∧ (r = .NoError ↔ WellFormed c.toNat b) ∧
      (r = .NoError → s'.payload = b.drop (4 * doffField b) ∧ s'.header.At b)) ↔
      ¬ (Verifies c.toNat b ∧ 20 ≤ b.length ∧ doffField b < 5) := by
  by_cases hsum : Verifies c.toNat b
  case neg =>
    simp [parse_bad s hb hc hsum, WellFormed, hsum]
  by_cases hshort : b.length < 20
  · -- the parser fails on the way
    obtain ⟨r, h, p, hrun, herr⟩ := TCPHeader.parse_run_short (b := b) hshort
    have hnot : ¬ 20 ≤ b.length := by omega
    simp [parse_good s hb hc hsum hrun, herr, WellFormed, hnot]
  have hlen : 20 ≤ b.length := by omega
  have hat := TCPHeader.ofBytes_at b
  obtain ⟨r, hrun⟩ := TCPHeader.parse_run (TCPHeader.readFields_run hlen)
  have hdoff : (TCPHeader.ofBytes b).doff < 5 ↔ doffField b < 5 := by
    rw [UInt8.lt_iff_toNat_lt, hat.doff]
    rfl
  simp only [hdoff, hat.doff] at hrun
  rw [← doffField] at hrun
  rw [parse_good s hb hc hsum hrun]
  by_cases hsmall : doffField b < 5
  · -- the error flag is not set
    have hnot : ¬ 5 ≤ doffField b := by omega
    simp [hsmall, hnot, WellFormed, hsum, hlen]
  by_cases hfits : 4 * doffField b ≤ b.length
  · have hadvance : NetParser.advance { buffer := b.drop TCPHeader.LENGTH }
        (4 * doffField b - TCPHeader.LENGTH) = { buffer := b.drop (4 * doffField b) } := by
      simp only [TCPHeader.LENGTH]
      rw [NetParser.advance_drop (by omega), Nat.add_sub_of_le (by omega)]
    rw [if_neg hsmall, hadvance]
    simp [hsmall, WellFormed, hsum, hlen, hfits, Nat.le_of_not_lt hsmall, hat]
  · -- the options are cut off
    have hadvance : NetParser.advance { buffer := b.drop TCPHeader.LENGTH }
        (4 * doffField b - TCPHeader.LENGTH) =
          { buffer := b.drop TCPHeader.LENGTH, error := .PacketTooShort } := by
      rw [NetParser.advance, if_pos]
      simp only [TCPHeader.LENGTH, List.length_drop]
      omega
    rw [if_neg hsmall, hadvance]
    simp [hsmall, WellFormed, hfits]

/-- A SYN with one byte of payload is well formed, and it is accepted. -/
theorem parse_right_unless_small_doff_syn :
    ∃ s, parse {} (List.replicate 12 0 ++ [0x50, 2, 0, 0, 0x37, 0xfd, 0, 0, 0x78]) 0 =
      .ok (.NoError, s) ∧ s.payload = [0x78] ∧ s.header.syn = true := by
  obtain ⟨r, s, hparse, hiff, hright⟩ := (parse_right_unless_small_doff {}
    (List.replicate 12 0 ++ [0x50, 2, 0, 0, 0x37, 0xfd, 0, 0, 0x78]) 0
    (by decide) (by decide)).mpr (by decide)
  obtain rfl := hiff.mpr (by decide)
  exact ⟨s, hparse, (hright rfl).1, (hright rfl).2.syn⟩

/-- A SYN whose data offset is zero verifies and is accepted. -/
theorem parse_accepts_small_doff :
    parse {} (List.replicate 12 0 ++ [0, 2, 0, 0, 0xff, 0xfd, 0, 0]) 0 =
      .ok (.NoError, ⟨{ doff := 0, syn := true, cksum := 0xfffd }, []⟩) ∧
    ¬ WellFormed 0 (List.replicate 12 0 ++ [0, 2, 0, 0, 0xff, 0xfd, 0, 0]) := by
  decide +kernel

end TCPSegment

end Sponge
