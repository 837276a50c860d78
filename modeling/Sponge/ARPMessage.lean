import Sponge.EthernetFrame

/-!
# Sponge.ARPMessage

ARP messages (`arp_message.hh`, `arp_message.cc`): a message that is serialized is
parsed back (`parse_bytes_append`), and which strings are accepted
(`parse_accepts_iff`).
-/

namespace Sponge

namespace ARPMessage

/-- The size of a message in bytes. -/
def LENGTH : Nat := 28
def TYPE_ETHERNET : UInt16 := 1
def OPCODE_REQUEST : UInt16 := 1
def OPCODE_REPLY : UInt16 := 2

end ARPMessage

/-- `ARPMessage`, with the defaults of its members. -/
structure ARPMessage where
  hardwareType : UInt16 := ARPMessage.TYPE_ETHERNET
  protocolType : UInt16 := EthernetHeader.TYPE_IPv4
  hardwareAddressSize : UInt8 := 6
  protocolAddressSize : UInt8 := 4
  opcode : UInt16 := 0
  senderEthernetAddress : EthernetAddress := .replicate 6 0
  senderIpAddress : UInt32 := 0
  targetEthernetAddress : EthernetAddress := .replicate 6 0
  targetIpAddress : UInt32 := 0
  deriving DecidableEq, Repr

namespace ARPMessage

/-- The one combination of fields that is understood: Ethernet and IPv4, a request or a reply. -/
def supported (m : ARPMessage) : Bool :=
  m.hardwareType == TYPE_ETHERNET && m.protocolType == EthernetHeader.TYPE_IPv4 &&
    m.hardwareAddressSize == 6 && m.protocolAddressSize == 4 &&
    (m.opcode == OPCODE_REQUEST || m.opcode == OPCODE_REPLY)

open NetParser in
/-- The body of `parse`, on the parser it makes. -/
def parseFields (self : ARPMessage) : Parse (ParseResult × ARPMessage) := do
  if (← get).buffer.length < LENGTH then return (.PacketTooShort, self)
  let hardwareType ← u16
  let protocolType ← u16
  let hardwareAddressSize ← u8
  let protocolAddressSize ← u8
  let opcode ← u16
  let m := { self with
    hardwareType := hardwareType, protocolType := protocolType
    hardwareAddressSize := hardwareAddressSize, protocolAddressSize := protocolAddressSize
    opcode := opcode }
  if !m.supported then return (.Unsupported, m)
  let senderEthernetAddress ← EthernetAddress.read
  let senderIpAddress ← u32
  let targetEthernetAddress ← EthernetAddress.read
  let targetIpAddress ← u32
  return ((← get).error, { m with
    senderEthernetAddress := senderEthernetAddress, senderIpAddress := senderIpAddress
    targetEthernetAddress := targetEthernetAddress, targetIpAddress := targetIpAddress })

/-- Reads the fields in order; the size is checked before the first. -/
def parse (self : ARPMessage) (buffer : Buffer) : Except Exception (ParseResult × ARPMessage) := do
  let (result, _) ← self.parseFields.run { buffer := buffer }
  return result

open NetUnparser in
/-- Throws on what `supported` does not accept. -/
def serialize (m : ARPMessage) : Except Exception (List UInt8) :=
  if !m.supported then .error (.runtimeError
    "ARPMessage::serialize(): unsupported field combination (must be Ethernet/IP, and request or reply)")
  else
    let ret := u16 [] m.hardwareType
    let ret := u16 ret m.protocolType
    let ret := u8 ret m.hardwareAddressSize
    let ret := u8 ret m.protocolAddressSize
    let ret := u16 ret m.opcode
    let ret := EthernetAddress.write ret m.senderEthernetAddress
    let ret := u32 ret m.senderIpAddress
    let ret := EthernetAddress.write ret m.targetEthernetAddress
    .ok (u32 ret m.targetIpAddress)

/-! ## Round trip -/

/-- The bytes of a message. -/
def bytes (m : ARPMessage) : List UInt8 :=
  beBytes 2 m.hardwareType.toNat ++ (beBytes 2 m.protocolType.toNat ++
    (beBytes 1 m.hardwareAddressSize.toNat ++ (beBytes 1 m.protocolAddressSize.toNat ++
      (beBytes 2 m.opcode.toNat ++ (m.senderEthernetAddress.toList ++
        (beBytes 4 m.senderIpAddress.toNat ++ (m.targetEthernetAddress.toList ++
          beBytes 4 m.targetIpAddress.toNat)))))))

/-- A supported message is its fields, one after the other. -/
theorem serialize_eq {m : ARPMessage} (h : m.supported = true) : m.serialize = .ok m.bytes := by
  simp [serialize, h, bytes, EthernetAddress.write_eq]

/-- Whatever the fields are, the message has the same size. -/
theorem length_bytes (m : ARPMessage) : m.bytes.length = LENGTH := by
  simp [bytes, LENGTH]

/-- What is parsed from the bytes of a message, whatever follows them: the message, or
its first five fields if it is not supported. -/
theorem parse_bytes (m self : ARPMessage) (t : Buffer) :
    self.parse (m.bytes ++ t) = .ok (if m.supported then (.NoError, m) else (.Unsupported,
      { self with
        hardwareType := m.hardwareType, protocolType := m.protocolType
        hardwareAddressSize := m.hardwareAddressSize, protocolAddressSize := m.protocolAddressSize
        opcode := m.opcode })) := by
  have hlen : ¬ (m.bytes ++ t).length < LENGTH := by
    simp [length_bytes]
  have hsupported : ({ self with
      hardwareType := m.hardwareType, protocolType := m.protocolType
      hardwareAddressSize := m.hardwareAddressSize, protocolAddressSize := m.protocolAddressSize
      opcode := m.opcode } : ARPMessage).supported = m.supported := rfl
  unfold parse parseFields
  simp only [StateT.run_bind, StateT.run_get, pure_bind, hlen, ↓reduceIte]
  simp only [bytes, List.append_assoc, NetParser.u16_run_beBytes, NetParser.u8_run_beBytes,
    ok_bind, hsupported]
  cases m.supported with
  | false => rfl
  | true =>
      simp only [Bool.not_true, Bool.false_eq_true, ↓reduceIte, StateT.run_bind,
        NetParser.u32_run_beBytes, EthernetAddress.read_run, ok_bind]
      rfl

/-- A message that was serialized is parsed back, whatever follows it. -/
theorem parse_bytes_append {m : ARPMessage} (h : m.supported = true) (self : ARPMessage)
    (t : Buffer) : self.parse (m.bytes ++ t) = .ok (.NoError, m) := by
  rw [parse_bytes, if_pos h]

/-! ## Acceptance -/

/-- A short buffer leaves the message as it was. -/
theorem parse_of_short {b : Buffer} (h : b.length < LENGTH) (self : ARPMessage) :
    self.parse b = .ok (.PacketTooShort, self) := by
  simp [parse, parseFields, h]

/-- Every string with enough bytes spells a message. -/
theorem exists_bytes_append {b : Buffer} (h : LENGTH ≤ b.length) :
    ∃ (m : ARPMessage) (t : Buffer), b = m.bytes ++ t := by
  simp only [LENGTH] at h
  obtain ⟨hardwareType, t, rfl⟩ := exists_u16_append (b := b) (by omega)
  rw [List.length_append, length_beBytes] at h
  obtain ⟨protocolType, t, rfl⟩ := exists_u16_append (b := t) (by omega)
  rw [List.length_append, length_beBytes] at h
  obtain ⟨hardwareAddressSize, t, rfl⟩ := exists_u8_append (b := t) (by omega)
  rw [List.length_append, length_beBytes] at h
  obtain ⟨protocolAddressSize, t, rfl⟩ := exists_u8_append (b := t) (by omega)
  rw [List.length_append, length_beBytes] at h
  obtain ⟨opcode, t, rfl⟩ := exists_u16_append (b := t) (by omega)
  rw [List.length_append, length_beBytes] at h
  obtain ⟨senderEthernetAddress, t, rfl⟩ := EthernetAddress.exists_append (b := t) (by omega)
  rw [List.length_append, Vector.length_toList] at h
  obtain ⟨senderIpAddress, t, rfl⟩ := exists_u32_append (b := t) (by omega)
  rw [List.length_append, length_beBytes] at h
  obtain ⟨targetEthernetAddress, t, rfl⟩ := EthernetAddress.exists_append (b := t) (by omega)
  rw [List.length_append, Vector.length_toList] at h
  obtain ⟨targetIpAddress, t, rfl⟩ := exists_u32_append (b := t) (by omega)
  refine ⟨⟨hardwareType, protocolType, hardwareAddressSize, protocolAddressSize, opcode,
    senderEthernetAddress, senderIpAddress, targetEthernetAddress, targetIpAddress⟩, t, ?_⟩
  simp only [bytes, List.append_assoc]

/-- The first eight bytes say whether a message is supported. -/
theorem supported_iff (m : ARPMessage) : m.supported = true ↔
    m.bytes.take 8 = [0, 1, 8, 0, 6, 4, 0, 1] ∨ m.bytes.take 8 = [0, 1, 8, 0, 6, 4, 0, 2] := by
  have htype := m.hardwareType.toNat_lt
  have hprotocol := m.protocolType.toNat_lt
  have hsize := m.hardwareAddressSize.toNat_lt
  have hsize' := m.protocolAddressSize.toNat_lt
  have hopcode := m.opcode.toNat_lt
  simp only [supported, bytes, beBytes, Bool.and_eq_true, Bool.or_eq_true, beq_iff_eq,
    ← UInt16.toNat_inj, ← UInt8.toNat_inj, List.cons_append, List.nil_append, List.take_succ_cons,
    List.take_zero, List.cons.injEq, UInt8.toNat_ofNat', TYPE_ETHERNET, EthernetHeader.TYPE_IPv4,
    OPCODE_REQUEST, OPCODE_REPLY]
  simp only [UInt16.reduceToNat, UInt8.reduceToNat, Nat.reducePow, Nat.div_one, and_true]
  omega

/-- **Round trip and acceptance**: a supported message is parsed back from what it is
serialized to, whatever follows; and a string is accepted exactly if it has 28
bytes or more and the first eight say Ethernet, IPv4, sizes 6 and 4, and request
or reply.  The message then serializes to the first 28 bytes. -/
theorem parse_accepts_iff :
    (∀ m : ARPMessage, m.supported = true → ∃ out, m.serialize = .ok out ∧
      ∀ (self : ARPMessage) (t : Buffer), self.parse (out ++ t) = .ok (.NoError, m)) ∧
    ∀ (self : ARPMessage) (b : Buffer), ∃ r m, self.parse b = .ok (r, m) ∧
      (r = .NoError ↔ 28 ≤ b.length ∧
        (b.take 8 = [0, 1, 8, 0, 6, 4, 0, 1] ∨ b.take 8 = [0, 1, 8, 0, 6, 4, 0, 2])) ∧
      (r = .NoError → m.serialize = .ok (b.take 28)) := by
  refine ⟨fun m hm => ⟨m.bytes, serialize_eq hm, parse_bytes_append hm⟩, fun self b => ?_⟩
  by_cases hshort : b.length < LENGTH
  · have hnot : ¬ 28 ≤ b.length := Nat.not_le.mpr hshort
    exact ⟨_, _, parse_of_short hshort self, by simp [hnot], by simp⟩
  have hlong : 28 ≤ b.length := Nat.le_of_not_lt hshort
  obtain ⟨m, t, rfl⟩ := exists_bytes_append hlong
  have hlen : m.bytes.length = 28 := m.length_bytes
  have hstart : (m.bytes ++ t).take 8 = m.bytes.take 8 :=
    List.take_append_of_le_length (by omega)
  have hwhole : (m.bytes ++ t).take 28 = m.bytes := List.take_left' hlen
  rw [hstart, ← supported_iff, hwhole]
  cases hm : m.supported with
  | true =>
      exact ⟨_, m, parse_bytes_append hm self t, iff_of_true rfl ⟨hlong, rfl⟩,
        fun _ => serialize_eq hm⟩
  | false =>
      have hparse := parse_bytes m self t
      rw [hm, if_neg Bool.false_ne_true] at hparse
      exact ⟨_, _, hparse, by simp, by simp⟩

end ARPMessage

end Sponge
