import Sponge.ARPMessage
import Sponge.Buffer
import Sponge.IPv4Datagram.Parse
import Sponge.Lib.Moves
import Sponge.TCPSegment.Parse

/-!
# Sponge.Parsers

The wire parsers return on every string (`parsers_total`).  None of them
reaches a branch of `Buffer` that throws or reads outside the string it was
given; the skips they compute are not negative; and once the error flag is set
it stays, and nothing is taken from the string any more (`Consumes`).
-/

namespace Sponge

/-! ## What reading does to a parser -/

namespace NetParser

/-- Bytes are taken from the front only, and none after an error. -/
structure Consumes (p p' : NetParser) : Prop where
  suffix : p'.buffer <:+ p.buffer
  sticky : p.hasError = true → p'.hasError = true ∧ p'.buffer = p.buffer

/-- Nothing was read. -/
theorem Consumes.refl (p : NetParser) : Consumes p p := ⟨List.suffix_refl _, fun h => ⟨h, rfl⟩⟩

/-- One part after the other. -/
theorem Consumes.trans (h : Consumes p q) (h' : Consumes q r) : Consumes p r where
  suffix := h'.suffix.trans h.suffix
  sticky herr := by
    obtain ⟨herr', hbuf⟩ := h.sticky herr
    obtain ⟨herr'', hbuf'⟩ := h'.sticky herr'
    exact ⟨herr'', hbuf'.trans hbuf⟩

instance : Std.Refl Consumes := ⟨Consumes.refl⟩

instance : Trans Consumes Consumes Consumes := ⟨Consumes.trans⟩

/-- To move on takes bytes from the front. -/
theorem consumes_advance (p : NetParser) (n : Nat) : Consumes p (p.advance n) := by
  unfold advance
  split
  · exact ⟨List.suffix_refl _, fun _ => ⟨rfl, rfl⟩⟩
  · split
    · exact .refl p
    · next herr => exact ⟨List.drop_suffix _ _, fun h => absurd h herr⟩

theorem moves_u8 : Moves Consumes u8 := fun p => ⟨_, _, u8_run p, p.consumes_advance 1⟩

theorem moves_u16 : Moves Consumes u16 := fun p => ⟨_, _, u16_run p, p.consumes_advance 2⟩

theorem moves_u32 : Moves Consumes u32 := fun p => ⟨_, _, u32_run p, p.consumes_advance 4⟩

theorem moves_removePrefix (n : Nat) : Moves Consumes (removePrefix n) :=
  fun p => ⟨_, _, removePrefix_run n p, p.consumes_advance n⟩

end NetParser

open NetParser

theorem EthernetAddress.moves_read : Moves Consumes read :=
  moves_u8.bind fun _ => moves_u8.bind fun _ => moves_u8.bind fun _ => moves_u8.bind fun _ =>
    moves_u8.bind fun _ => moves_u8.bind fun _ => moves_pure _

/-- The loop over the addresses reads from the front. -/
theorem EthernetHeader.moves_parse (self : EthernetHeader) : Moves Consumes self.parse :=
  moves_get.bind fun _ => .ite (moves_pure _) <|
    EthernetAddress.moves_read.bind fun _ => EthernetAddress.moves_read.bind fun _ =>
      moves_u16.bind fun _ => moves_get.bind fun _ => moves_pure _

theorem ARPMessage.moves_parseFields (self : ARPMessage) : Moves Consumes self.parseFields :=
  moves_get.bind fun _ => .ite (moves_pure _) <|
    moves_u16.bind fun _ => moves_u16.bind fun _ => moves_u8.bind fun _ => moves_u8.bind fun _ =>
      moves_u16.bind fun _ => .ite (moves_pure _) <|
        EthernetAddress.moves_read.bind fun _ => moves_u32.bind fun _ =>
          EthernetAddress.moves_read.bind fun _ => moves_u32.bind fun _ =>
            moves_get.bind fun _ => moves_pure _

theorem IPv4Header.moves_readFields : Moves Consumes readFields :=
  moves_u8.bind fun _ => moves_u8.bind fun _ => moves_u16.bind fun _ => moves_u16.bind fun _ =>
    moves_u16.bind fun _ => moves_u8.bind fun _ => moves_u8.bind fun _ => moves_u16.bind fun _ =>
      moves_u32.bind fun _ => moves_u32.bind fun _ => moves_pure _

/-- The options are skipped, and that is all. -/
theorem IPv4Header.moves_parse (self : IPv4Header) : Moves Consumes self.parse :=
  moves_get.bind fun _ => .ite (moves_pure _) <| moves_readFields.bind fun _ =>
    .ite (moves_pure _) <| .ite (moves_pure _) <| .ite (moves_pure _) <| .ite (moves_pure _) <|
      (moves_removePrefix _).bind fun _ => moves_get.bind fun _ =>
        .ite (moves_pure _) <| .ite (moves_pure _) (moves_pure _)

theorem TCPHeader.moves_readFields : Moves Consumes readFields :=
  moves_u16.bind fun _ => moves_u16.bind fun _ => moves_u32.bind fun _ => moves_u32.bind fun _ =>
    moves_u8.bind fun _ => moves_u8.bind fun _ => moves_u16.bind fun _ => moves_u16.bind fun _ =>
      moves_u16.bind fun _ => moves_pure _

/-- The same of the TCP header. -/
theorem TCPHeader.moves_parse : Moves Consumes parse :=
  moves_readFields.bind fun _ => .ite (moves_pure _) <| (moves_removePrefix _).bind fun _ =>
    moves_get.bind fun _ => .ite (moves_pure _) (moves_pure _)

/-! ## Checked parsers -/

/-- A difference of two lengths, which must not be negative. -/
def NetParser.checkedSub (m n : Nat) : Parse Nat :=
  if m < n then throw (.outOfRange "negative length") else return m - n

/-- A view of the first `n` bytes of a string, which must be there. -/
def NetParser.checkedView (b : Buffer) (n : Nat) : Parse Buffer :=
  if b.length < n then throw (.outOfRange "view past the end") else return b.take n

/-- A subtraction that does not go below zero. -/
theorem NetParser.checkedSub_eq (h : n ≤ m) : checkedSub m n = pure (m - n) :=
  if_neg (Nat.not_lt.mpr h)

/-- A view that stays within the buffer. -/
theorem NetParser.checkedView_eq {b : Buffer} (h : n ≤ b.length) :
    checkedView b n = pure (b.take n) :=
  if_neg (Nat.not_lt.mpr h)

/-- `IPv4Header.parse` with its difference and its view checked. -/
def IPv4Header.parseChecked (self : IPv4Header) : Parse (ParseResult × IPv4Header) := do
  let originalSerializedVersion := (← get).buffer
  let dataSize := originalSerializedVersion.length
  if dataSize < LENGTH then return (.PacketTooShort, self)
  let header ← readFields
  if dataSize < 4 * header.hlen.toNat then return (.PacketTooShort, header)
  if header.ver ≠ 4 then return (.WrongIPVersion, header)
  if header.hlen < 5 then return (.HeaderTooShort, header)
  if dataSize ≠ header.len.toNat then return (.TruncatedPacket, header)
  removePrefix (← checkedSub (header.hlen.toNat * 4) LENGTH)
  let p ← get
  if p.hasError then return (p.error, header)
  let view ← checkedView originalSerializedVersion (4 * header.hlen.toNat)
  let check := (InternetChecksum.new 0).add view
  if check.value ≠ 0 then return (.BadChecksum, header)
  return (.NoError, header)

/-- `TCPHeader.parse` with its difference checked. -/
def TCPHeader.parseChecked : Parse (ParseResult × TCPHeader) := do
  let header ← readFields
  if header.doff < 5 then return (.HeaderTooShort, header)
  removePrefix (← checkedSub (header.doff.toNat * 4) LENGTH)
  let p ← get
  if p.hasError then return (p.error, header)
  return (.NoError, header)

/-- No check of the TCP header fails. -/
theorem TCPHeader.parseChecked_eq : parseChecked = parse := by
  unfold parseChecked parse
  refine bind_congr fun header => ?_
  by_cases hdoff : header.doff < 5
  · rw [if_pos hdoff, if_pos hdoff]
  · obtain ⟨hge, hskip⟩ := skip_eq hdoff
    rw [if_neg hdoff, if_neg hdoff, LENGTH, checkedSub_eq (by omega), pure_bind, hskip,
      Nat.mul_comm]

/-- The view is made only after the length of the header has been compared. -/
theorem IPv4Header.parseChecked_eq (self : IPv4Header) : self.parseChecked = self.parse := by
  unfold parseChecked parse
  refine bind_congr fun p => ite_congr rfl (fun _ => rfl) fun _ => bind_congr fun header => ?_
  refine ite_congr rfl (fun _ => rfl) fun hlong => ite_congr rfl (fun _ => rfl) fun _ => ?_
  refine ite_congr rfl (fun _ => rfl) fun hhlen => ite_congr rfl (fun _ => rfl) fun _ => ?_
  obtain ⟨hge, hskip⟩ := skip_eq hhlen
  rw [LENGTH, checkedSub_eq (by omega), pure_bind, hskip, Nat.mul_comm _ 4,
    checkedView_eq (Nat.le_of_not_lt hlong)]
  simp only [pure_bind]

/-- `IPv4Datagram.parse` with the checked header parser. -/
def IPv4Datagram.parseChecked (self : IPv4Datagram) (buffer : Buffer) :
    Except Exception (ParseResult × IPv4Datagram) := do
  let ((_, header), p) ← self.header.parseChecked.run { buffer := buffer }
  let d : IPv4Datagram := { header := header, payload := [p.buffer] }
  if d.payload.size ≠ d.header.payloadLength.toNat then return (.PacketTooShort, d)
  return (p.error, d)

/-- `TCPSegment.parse` with the checked header parser. -/
def TCPSegment.parseChecked (self : TCPSegment) (buffer : Buffer)
    (datagramLayerChecksum : UInt32) : Except Exception (ParseResult × TCPSegment) := do
  let check := (InternetChecksum.new datagramLayerChecksum).add buffer
  if check.value ≠ 0 then return (.BadChecksum, self)
  let ((_, header), p) ← TCPHeader.parseChecked.run { buffer := buffer }
  return (p.error, { header := header, payload := p.buffer })

/-- No check of a datagram fails. -/
theorem IPv4Datagram.parseChecked_eq (self : IPv4Datagram) (b : Buffer) :
    self.parseChecked b = self.parse b := by
  rw [parseChecked, parse, IPv4Header.parseChecked_eq]

/-- No check of a segment fails. -/
theorem TCPSegment.parseChecked_eq (self : TCPSegment) (b : Buffer) (c : UInt32) :
    self.parseChecked b c = self.parse b c := by
  rw [parseChecked, parse, TCPHeader.parseChecked_eq]

/-! ## Totality -/

namespace NetParser

/-- The reads of a parser, whatever is done with the numbers. -/
inductive Read where
  | u8
  | u16
  | u32
  | removePrefix (n : Nat)

def Read.run : Read → Parse Unit
  | .u8 => do let _ ← NetParser.u8
  | .u16 => do let _ ← NetParser.u16
  | .u32 => do let _ ← NetParser.u32
  | .removePrefix n => NetParser.removePrefix n

/-- One read of a caller. -/
theorem Read.moves_run (r : Read) : Moves Consumes r.run := by
  cases r with
  | u8 => exact moves_u8.bind fun _ => moves_pure _
  | u16 => exact moves_u16.bind fun _ => moves_pure _
  | u32 => exact moves_u32.bind fun _ => moves_pure _
  | removePrefix n => exact moves_removePrefix n

/-- Any number of reads. -/
theorem moves_reads (reads : List Read) : Moves Consumes (reads.forM Read.run) := by
  induction reads with
  | nil => exact moves_pure _
  | cons r reads ih => exact r.moves_run.bind fun _ => ih

end NetParser

/-- **The wire parsers are total**: on every string, and every pseudo-header sum, each
returns a result; with checked skips and views they return the same; a stored
buffer behaves as the bytes it shows, which lie within its string; and a
sequence of reads takes bytes from the front only, and none once there is an
error, which it does not clear. -/
theorem parsers_total :
    (∀ (self : EthernetFrame) (b : Buffer), ∃ r f, self.parse b = .ok (r, f)) ∧
    (∀ (self : ARPMessage) (b : Buffer), ∃ r m, self.parse b = .ok (r, m)) ∧
    (∀ (self : IPv4Datagram) (b : Buffer), ∃ r d, self.parse b = .ok (r, d) ∧
      self.parseChecked b = .ok (r, d)) ∧
    (∀ (self : TCPSegment) (b : Buffer) (c : UInt32), ∃ r s, self.parse b c = .ok (r, s) ∧
      self.parseChecked b c = .ok (r, s)) ∧
    (∀ (b : Buffer.Storage) (n : Nat),
      (b.removePrefix n).map Buffer.Storage.str = b.str.removePrefix n) ∧
    ∀ (reads : List Read) (p : NetParser),
      ∃ p', (reads.forM Read.run).run p = .ok ((), p') ∧ p'.buffer <:+ p.buffer ∧
        (p.hasError = true → p'.hasError = true ∧ p'.buffer = p.buffer) := by
  refine ⟨fun self b => ?_, fun self b => ?_, fun self b => ?_, fun self b c => ?_,
    Buffer.Storage.map_str_removePrefix, fun reads p => ?_⟩
  · obtain ⟨⟨r, header⟩, p, hrun, -⟩ := self.header.moves_parse { buffer := b }
    exact ⟨_, _, by rw [EthernetFrame.parse, hrun]; rfl⟩
  · obtain ⟨⟨r, m⟩, p, hrun, -⟩ := self.moves_parseFields { buffer := b }
    exact ⟨r, m, by rw [ARPMessage.parse, hrun]; rfl⟩
  · obtain ⟨⟨r, header⟩, p, hrun, -⟩ := self.header.moves_parse { buffer := b }
    simp only [self.parseChecked_eq b, and_self, IPv4Datagram.parse, hrun, ok_bind]
    split
    · exact ⟨_, _, rfl⟩
    · exact ⟨_, _, rfl⟩
  · obtain ⟨⟨r, header⟩, p, hrun, -⟩ := TCPHeader.moves_parse { buffer := b }
    simp only [self.parseChecked_eq b c, and_self, TCPSegment.parse, hrun, ok_bind]
    split
    · exact ⟨_, _, rfl⟩
    · exact ⟨_, _, rfl⟩
  · obtain ⟨⟨⟩, p', hrun, hp'⟩ := moves_reads reads p
    exact ⟨p', hrun, hp'.suffix, hp'.sticky⟩

end Sponge
