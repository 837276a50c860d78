import Sponge.NetParser

/-!
# Sponge.EthernetFrame

Ethernet addresses, headers and frames (`ethernet_header.hh`,
`ethernet_header.cc`, `ethernet_frame.hh`, `ethernet_frame.cc`).

`EthernetFrame::parse` does not look at what the header parser returns.  That
one gives up before it has read anything if there are less than 14 bytes, so
the error flag is not set: a short string is accepted, with the header that was
in the object before (`parse_right_iff_long`).
-/

namespace Sponge

/-- An array of six bytes. -/
abbrev EthernetAddress := Vector UInt8 6

def ETHERNET_BROADCAST : EthernetAddress := #v[0xff, 0xff, 0xff, 0xff, 0xff, 0xff]

namespace EthernetAddress

open NetParser in
/-- The loop that reads an address. -/
def read : Parse EthernetAddress := do
  let b₀ ← u8
  let b₁ ← u8
  let b₂ ← u8
  let b₃ ← u8
  let b₄ ← u8
  let b₅ ← u8
  return #v[b₀, b₁, b₂, b₃, b₄, b₅]

/-- The loop that writes an address. -/
def write (s : List UInt8) (a : EthernetAddress) : List UInt8 := a.toList.foldl NetUnparser.u8 s

/-- The loop appends the six bytes. -/
theorem write_eq (s : List UInt8) (a : EthernetAddress) : write s a = s ++ a.toList := by
  have hu8 : NetUnparser.u8 = fun s byte => s ++ [byte] := by
    funext s byte
    rw [NetUnparser.u8_eq, beBytes_one]
  rw [write, hu8, NetUnparser.foldl_append_singleton (fun byte => byte), List.map_id']

/-- The six bytes of an address. -/
theorem eq_bytes (a : EthernetAddress) : a = #v[a[0], a[1], a[2], a[3], a[4], a[5]] := by
  ext i hi
  match i, hi with
  | 0, _ | 1, _ | 2, _ | 3, _ | 4, _ | 5, _ => rfl

/-- An address that was written is read back. -/
theorem read_run (a : EthernetAddress) (t : Buffer) :
    read.run ⟨a.toList ++ t, .NoError⟩ = .ok (a, ⟨t, .NoError⟩) := by
  rw [eq_bytes a]
  generalize a[0] = b₀, a[1] = b₁, a[2] = b₂, a[3] = b₃, a[4] = b₄, a[5] = b₅
  show read.run ⟨b₀ :: b₁ :: b₂ :: b₃ :: b₄ :: b₅ :: t, .NoError⟩ = _
  simp only [read, StateT.run_bind, NetParser.u8_run_cons, ok_bind]
  rfl

/-- A string with enough bytes starts with an address. -/
theorem exists_append {b : Buffer} (h : 6 ≤ b.length) :
    ∃ (a : EthernetAddress) (t : Buffer), b = a.toList ++ t := by
  refine ⟨⟨(b.take 6).toArray, by simp [h]⟩, b.drop 6, ?_⟩
  exact (List.take_append_drop 6 b).symm

end EthernetAddress

namespace EthernetHeader

def LENGTH : Nat := 14
def TYPE_IPv4 : UInt16 := 0x800
def TYPE_ARP : UInt16 := 0x806

end EthernetHeader

/-- Destination, source and the type of the payload. -/
structure EthernetHeader where
  dst : EthernetAddress
  src : EthernetAddress
  type : UInt16
  deriving DecidableEq, Repr

namespace EthernetHeader

open NetParser in
/-- Both addresses are read byte by byte. -/
def parse (self : EthernetHeader) : Parse (ParseResult × EthernetHeader) := do
  if (← get).buffer.length < LENGTH then return (.PacketTooShort, self)
  let dst ← EthernetAddress.read
  let src ← EthernetAddress.read
  let type ← u16
  return ((← get).error, { dst := dst, src := src, type := type })

def serialize (h : EthernetHeader) : List UInt8 :=
  let ret := EthernetAddress.write [] h.dst
  let ret := EthernetAddress.write ret h.src
  NetUnparser.u16 ret h.type

/-- The bytes of a header. -/
def bytes (h : EthernetHeader) : List UInt8 :=
  h.dst.toList ++ (h.src.toList ++ beBytes 2 h.type.toNat)

/-- The header is its fields, one after the other. -/
theorem serialize_eq (h : EthernetHeader) : h.serialize = h.bytes := by
  simp [serialize, bytes, EthernetAddress.write_eq]

/-- All headers have the same size. -/
theorem length_bytes (h : EthernetHeader) : h.bytes.length = LENGTH := by
  simp [bytes, LENGTH]

/-- Every string with enough bytes spells a header. -/
theorem exists_bytes_append {b : Buffer} (h : LENGTH ≤ b.length) :
    ∃ (header : EthernetHeader) (t : Buffer), b = header.bytes ++ t := by
  simp only [LENGTH] at h
  obtain ⟨dst, t, rfl⟩ := EthernetAddress.exists_append (b := b) (by omega)
  rw [List.length_append, Vector.length_toList] at h
  obtain ⟨src, t, rfl⟩ := EthernetAddress.exists_append (b := t) (by omega)
  rw [List.length_append, Vector.length_toList] at h
  obtain ⟨type, t, rfl⟩ := exists_u16_append (b := t) (by omega)
  refine ⟨⟨dst, src, type⟩, t, ?_⟩
  simp only [bytes, List.append_assoc]

/-- A header that was serialized is parsed back. -/
theorem parse_run_bytes (self h : EthernetHeader) (t : Buffer) :
    self.parse.run { buffer := h.bytes ++ t } = .ok ((.NoError, h), { buffer := t }) := by
  have hlen : ¬ (h.bytes ++ t).length < LENGTH := by
    simp [length_bytes]
  unfold parse
  simp only [StateT.run_bind, StateT.run_get, pure_bind, hlen, ↓reduceIte]
  simp only [bytes, List.append_assoc, EthernetAddress.read_run, NetParser.u16_run_beBytes,
    ok_bind]
  rfl

theorem parse_run_short (self : EthernetHeader) {b : Buffer} (h : b.length < LENGTH) :
    self.parse.run { buffer := b } = .ok ((.PacketTooShort, self), { buffer := b }) := by
  unfold parse
  simp only [StateT.run_bind, StateT.run_get, pure_bind, h, ↓reduceIte]
  rfl

end EthernetHeader

/-- A header and the payload. -/
structure EthernetFrame where
  header : EthernetHeader
  payload : BufferList := []
  deriving DecidableEq, Repr

namespace EthernetFrame

/-- The result of the header is dropped, and the error state of the parser is returned. -/
def parse (self : EthernetFrame) (buffer : Buffer) :
    Except Exception (ParseResult × EthernetFrame) := do
  let ((_, header), p) ← self.header.parse.run { buffer := buffer }
  return (p.error, { header := header, payload := [p.buffer] })

def serialize (f : EthernetFrame) : BufferList := [f.header.serialize] ++ f.payload

/-! ## Round trip and acceptance -/

/-- The frame on the wire. -/
theorem concatenate_serialize (f : EthernetFrame) :
    f.serialize.concatenate = f.header.bytes ++ f.payload.concatenate := by
  simp [serialize, BufferList.concatenate, EthernetHeader.serialize_eq]

/-- What follows a header is the payload. -/
theorem parse_bytes_append (self : EthernetFrame) (header : EthernetHeader) (t : Buffer) :
    self.parse (header.bytes ++ t) = .ok (.NoError, ⟨header, [t]⟩) := by
  rw [parse, EthernetHeader.parse_run_bytes]
  rfl

theorem parse_of_short (self : EthernetFrame) {b : Buffer} (h : b.length < EthernetHeader.LENGTH) :
    self.parse b = .ok (.NoError, ⟨self.header, [b]⟩) := by
  rw [parse, EthernetHeader.parse_run_short _ h]
  rfl

/-- **Which strings are parsed as they should be**: exactly those of 14 bytes or more.
They are accepted, and the frame is serialized to the string again; shorter ones
are accepted too.  And the serialization of a frame is parsed to its header and
its payload, in one buffer. -/
theorem parse_right_iff_long (self f : EthernetFrame) (b : Buffer) :
    ((∃ r g, self.parse b = .ok (r, g) ∧ (r = .NoError ↔ 14 ≤ b.length) ∧
      (r = .NoError → g.serialize.concatenate = b)) ↔ 14 ≤ b.length) ∧
    self.parse f.serialize.concatenate =
      .ok (.NoError, { f with payload := [f.payload.concatenate] }) := by
  refine ⟨⟨?_, fun hlong => ?_⟩, ?_⟩
  · rintro ⟨r, g, hparse, haccepts, -⟩
    by_contra hshort
    rw [parse_of_short self (Nat.lt_of_not_le hshort)] at hparse
    obtain ⟨rfl, -⟩ := Prod.mk.inj (Except.ok.inj hparse)
    exact hshort (haccepts.mp rfl)
  · obtain ⟨header, t, rfl⟩ := EthernetHeader.exists_bytes_append hlong
    refine ⟨_, _, self.parse_bytes_append header t, iff_of_true rfl hlong, fun _ => ?_⟩
    rw [concatenate_serialize]
    simp [BufferList.concatenate]
  · rw [concatenate_serialize, parse_bytes_append]

/-- The empty string is accepted, and serialized to the 14 bytes of the header in the
object. -/
theorem parse_accepts_empty :
    parse ⟨⟨.replicate 6 0, .replicate 6 0, 0⟩, []⟩ [] =
      .ok (.NoError, ⟨⟨.replicate 6 0, .replicate 6 0, 0⟩, [[]]⟩) ∧
    (serialize ⟨⟨.replicate 6 0, .replicate 6 0, 0⟩, [[]]⟩).concatenate = List.replicate 14 0 := by
  decide +kernel

end EthernetFrame

end Sponge
