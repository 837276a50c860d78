import Sponge.Carrier
import Sponge.TCPOverIPv4Adapter.Session
import Sponge.TunTapAdapter

/-!
# Sponge.Carrier.TunTap

TUN and TAP devices carry segments (`TCPOverIPv4OverTunFdAdapter.law`,
`TCPOverIPv4OverEthernetAdapter.law`).

Over a TUN device a packet is the datagram that the other side has wrapped.
Whatever the adapter that reads it is configured to, it returns the segment that
was wrapped or nothing.

Over a TAP device there is an interface in between, which sends ARP messages of
its own and holds datagrams back.  What matters about it is that every IPv4
frame it pushes carries a datagram it was given (`Holds`), which each change of
the interface keeps.
-/

namespace Sponge

/-! ## Datagrams -/

/-- The header of a modest segment fits its format. -/
theorem TCPSegment.Modest.fits {seg : TCPSegment} (h : seg.Modest) : seg.header.Fits := by
  constructor <;> rw [h.doff_eq] <;> decide

/-- A modest segment fits in a datagram. -/
theorem TCPSegment.Modest.size_le {seg : TCPSegment} (h : seg.Modest) :
    20 + 4 * seg.header.doff.toNat + seg.payload.length ≤ 65535 := by
  have hle := h.payload_le
  rw [h.doff_eq]
  simp only [TCPConfig.MAX_PAYLOAD_SIZE] at hle
  show 20 + 4 * 5 + _ ≤ _
  omega

/-- The datagram carries one of the segments. -/
def DatagramOf (segs : List TCPSegment) (d : IPv4Datagram) : Prop :=
  ∃ (a : TCPOverIPv4Adapter) (seg : TCPSegment), seg ∈ segs ∧ seg.Modest ∧ d = a.wrapped seg

/-- The bytes of such a datagram. -/
def PacketOf (segs : List TCPSegment) (packet : List UInt8) : Prop :=
  ∃ d, DatagramOf segs d ∧ packet = d.header.checksummed.bytes ++ d.payload.concatenate

/-- What carries one of some segments carries one of more. -/
theorem DatagramOf.mono (h : DatagramOf segs d) (hsub : segs ⊆ segs') : DatagramOf segs' d := by
  obtain ⟨a, seg, hseg, hrest⟩ := h
  exact ⟨a, seg, hsub hseg, hrest⟩

/-- The same of packets. -/
theorem PacketOf.mono (h : PacketOf segs packet) (hsub : segs ⊆ segs') : PacketOf segs' packet :=
  h.imp fun _ hd => ⟨hd.1.mono hsub, hd.2⟩

/-- A datagram that carries a segment fits its format. -/
theorem DatagramOf.fits (h : DatagramOf segs d) : d.Fits := by
  obtain ⟨a, seg, -, hm, rfl⟩ := h
  exact TCPOverIPv4Adapter.wrapped_fits hm.fits hm.size_le a

/-- A packet is read as the datagram that was written. -/
theorem PacketOf.parse (h : PacketOf segs packet) (self : IPv4Datagram) :
    ∃ d, DatagramOf segs d ∧ self.parse packet = .ok (.NoError, d.received) := by
  obtain ⟨d, hd, rfl⟩ := h
  exact ⟨d, hd, hd.fits.parse_wire self⟩

namespace TCPOverIPv4Adapter

/-- What is sent is the segment given, up to ports and checksum. -/
theorem sent_same (a : TCPOverIPv4Adapter) (seg : TCPSegment) : (a.sent seg).Same seg := ⟨rfl, rfl⟩

/-- Whatever the adapter expects, what it gets from a wrapped segment is the segment. -/
theorem unwrapTcpInIp_wrapped (hd : DatagramOf segs d) (b : TCPOverIPv4Adapter) (r : Resolver)
    (h : b.unwrapTcpInIp r d.received = .ok (some x, b')) : ∃ w ∈ segs, x.Same w := by
  obtain ⟨a, seg, hseg, hm, rfl⟩ := hd
  have hpay : (a.wrapped seg).received.payload.concatenate =
      (a.sent seg).header.bytes ++ seg.payload := by
    simp [IPv4Datagram.received, wrapped, BufferList.concatenate]
  have hparse : TCPSegment.parse {} (a.wrapped seg).received.payload.concatenate
      (a.wrapped seg).received.header.pseudoCksum = .ok (.NoError, a.sent seg) := by
    rw [hpay, IPv4Datagram.received, IPv4Header.pseudoCksum_checksummed]
    exact (addressed_fits hm.fits hm.size_le a).parse_wire (a.headerFor seg).pseudoCksum_le {}
  have hone : (a.wrapped seg).received.payload.length ≤ 1 := Nat.le_refl 1
  have hx : x = a.sent seg := by
    cases hl : b.listen with
    | false =>
        rw [unwrapTcpInIp_connected hl r hone hparse, Except.ok.injEq, Prod.mk.injEq] at h
        have hres := h.1
        split at hres
        · exact (Option.some.inj hres).symm
        · contradiction
    | true =>
        rw [unwrapTcpInIp_listening hl r hone hparse, Except.ok.injEq] at h
        split at h
        · exact (Option.some.inj (Prod.mk.inj h).1).symm
        · exact absurd (Prod.mk.inj h).1 (by simp)
  exact ⟨seg, hseg, hx ▸ a.sent_same seg⟩

/-- What an adapter makes of a segment. -/
theorem wrapTcpInIp_datagramOf (a : TCPOverIPv4Adapter) (hseg : seg ∈ segs) (hm : seg.Modest)
    (h : a.wrapTcpInIp seg = .ok (d, seg')) : DatagramOf segs d := by
  rw [wrapTcpInIp_eq hm.fits hm.size_le, Except.ok.injEq, Prod.mk.injEq] at h
  exact ⟨a, seg, hseg, hm, h.1.symm⟩

end TCPOverIPv4Adapter

/-- What the datagram is written as is a packet of the segments. -/
theorem DatagramOf.serialize (hd : DatagramOf segs d) (h : d.serialize = .ok out) :
    PacketOf segs out.flatten := by
  rw [hd.fits.serialize_eq, Except.ok.injEq] at h
  exact ⟨d, hd, by rw [← h]; rfl⟩

/-! ## TUN -/

namespace TCPOverIPv4OverTunFdAdapter

def carrier : Carrier TCPOverIPv4OverTunFdAdapter (List UInt8) FileDescriptor.Event where
  packets self := self.tun.put
  happen self e := { self with tun := self.tun.happen e }
  allowed := FileDescriptor.allowed

/-- What comes from the device is of `W`, and what goes to it of `O`. -/
def Sound (W O : List TCPSegment) (self : TCPOverIPv4OverTunFdAdapter) : Prop :=
  self.tun.Device (PacketOf W) (PacketOf O)

/-- What is read is a segment that the other side was given. -/
theorem Sound.read (hs : Sound W O self) (h : Returns (read r self) (seg, self')) :
    Sound W O self' ∧ ∀ x, seg = some x → ∃ w ∈ W, x.Same w := by
  obtain ⟨⟨packet, tun⟩, hread, h⟩ := returns_bind_iff.mp h
  obtain ⟨htun, hpacket⟩ := FileDescriptor.Device.read hs hread
  obtain ⟨⟨result, dgram⟩, hparse, h⟩ := returns_bind_iff.mp h
  rw [returns_ofExcept_iff] at hparse
  simp only at h
  split at h
  · rw [returns_pure_iff, Prod.mk.injEq] at h
    obtain ⟨rfl, rfl⟩ := h
    exact ⟨htun, by simp⟩
  · next hres =>
      obtain ⟨⟨seg, base⟩, hunwrap, h⟩ := returns_bind_iff.mp h
      rw [returns_ofExcept_iff] at hunwrap
      rw [returns_pure_iff, Prod.mk.injEq] at h
      obtain ⟨rfl, rfl⟩ := h
      refine ⟨htun, fun x hx => ?_⟩
      rcases hpacket with rfl | hpacket
      · -- the parser wants at least a header
        have hshort : .PacketTooShort = result := congrArg Prod.fst (Except.ok.inj hparse)
        exact absurd (hshort ▸ nofun) hres
      · obtain ⟨d, hd, hd'⟩ := hpacket.parse {}
        rw [hd', Except.ok.injEq, Prod.mk.injEq] at hparse
        have hsome : seg = some x := hx
        rw [← hparse.2, hsome] at hunwrap
        exact TCPOverIPv4Adapter.unwrapTcpInIp_wrapped hd _ r hunwrap

/-- What is written carries a segment that this side was given. -/
theorem Sound.write (hs : Sound W O self) (hseg : seg ∈ O) (hm : seg.Modest)
    (h : Returns (write self seg) self') : Sound W O self' := by
  obtain ⟨⟨d, seg'⟩, hwrap, h⟩ := returns_bind_iff.mp h
  obtain ⟨out, hout, h⟩ := returns_bind_iff.mp h
  obtain ⟨⟨n, tun⟩, hwrite, h⟩ := returns_bind_iff.mp h
  rw [returns_ofExcept_iff] at hwrap hout
  rw [← returns_pure_iff.mp h]
  have hd := self.wrapTcpInIp_datagramOf hseg hm hwrap
  exact FileDescriptor.Device.write hs (hd.serialize hout) hwrite

/-- **A TUN device carries segments.** -/
def law (r : Resolver) : carrier.Law (adapter r) where
  From := PacketOf
  Sound := Sound
  sound_mono h hW hO := h.mono (fun _ hp => hp.mono hW) fun _ hp => hp.mono hO
  packets h := h.out
  happen h hp ha := FileDescriptor.Device.happen h hp ha
  read := Sound.read
  write := Sound.write
  tick h ht := returns_pure_iff.mp ht ▸ h
  configure h _ := h
  setListening h _ := h

end TCPOverIPv4OverTunFdAdapter

/-! ## Interfaces -/

namespace NetworkInterface

/-- The frame is none that carries a datagram, or it carries one with `P`. -/
def FrameOf (P : IPv4Datagram → Prop) (frame : EthernetFrame) : Prop :=
  frame.header.type = EthernetHeader.TYPE_IPv4 → ∃ d, P d ∧ d.serialize = .ok frame.payload

/-- The datagrams in the interface have `P`: those that wait and those in frames. -/
structure Holds (P : IPv4Datagram → Prop) (s : NetworkInterface) : Prop where
  frames : ∀ frame ∈ s.framesOut, FrameOf P frame
  waiting : ∀ p ∈ s.waitingArpInternetDatagrams, P p.2

variable {P : IPv4Datagram → Prop} {s d : NetworkInterface}

/-- A frame with an ARP message carries no datagram. -/
theorem frameOf_arp (h : frame.header.type = EthernetHeader.TYPE_ARP) : FrameOf P frame := by
  intro hip
  rw [h] at hip
  exact absurd hip (by decide)

/-- A frame with a datagram carries what is known of the datagram. -/
theorem Carries.frameOf (h : Carries dst src dgram frame) (hP : P dgram) : FrameOf P frame :=
  fun _ => ⟨dgram, hP, h.payload_eq⟩

/-- New frames join those that are waiting. -/
theorem Holds.append {frames : List EthernetFrame} (h : s.Holds P)
    (hframes : ∀ frame ∈ frames, FrameOf P frame) :
    ∀ frame ∈ s.framesOut ++ frames, FrameOf P frame :=
  fun frame hf => (List.mem_append.mp hf).elim (h.frames frame) (hframes frame)

/-- **Every change** of the interface keeps to the datagrams it was given. -/
theorem Holds.change (h : s.Holds P) (hchange : Change s op d)
    (hop : ∀ dgram nextHop, op = .sendDatagram dgram nextHop → P dgram) : d.Holds P := by
  cases hchange with
  | forward dgram nextHop entry frame _ hcarries =>
      refine ⟨h.append fun f hf => ?_, h.waiting⟩
      rw [List.mem_singleton.mp hf]
      exact hcarries.frameOf (hop dgram nextHop rfl)
  | hold dgram nextHop =>
      refine ⟨h.frames, fun p hp => (List.mem_append.mp hp).elim (h.waiting p) fun hp => ?_⟩
      rw [List.mem_singleton.mp hp]
      exact hop dgram nextHop rfl
  | ask dgram nextHop =>
      refine ⟨h.append fun f hf => ?_, fun p hp => (List.mem_append.mp hp).elim (h.waiting p)
        fun hp => ?_⟩
      · rw [List.mem_singleton.mp hf]
        exact frameOf_arp rfl
      · rw [List.mem_singleton.mp hp]
        exact hop dgram nextHop rfl
  | ignore => exact h
  | learn frame arpMsg frames _ hframes =>
      refine ⟨fun f hf => ?_, fun p hp => h.waiting p (List.mem_of_mem_filter hp)⟩
      rcases List.mem_append.mp hf with hf | hf
      · refine h.append (fun f hf => ?_) f hf
        split at hf
        · rw [List.mem_singleton.mp hf]
          exact frameOf_arp rfl
        · simp at hf
      · obtain ⟨p, hp, hcarries⟩ := exists_of_forall₂ hframes hf
        exact hcarries.frameOf (h.waiting p (List.mem_of_mem_filter hp))
  | pass ms pending =>
      refine ⟨h.append fun f hf => ?_, h.waiting⟩
      obtain ⟨p, -, rfl⟩ := List.mem_map.mp hf
      exact frameOf_arp rfl
  | dequeue => exact ⟨fun f hf => h.frames f (List.mem_of_mem_drop hf), h.waiting⟩

end NetworkInterface

/-! ## TAP -/

namespace TCPOverIPv4OverEthernetAdapter

open NetworkInterface (FrameOf Holds)

def carrier : Carrier TCPOverIPv4OverEthernetAdapter (List UInt8) FileDescriptor.Event where
  packets self := self.tap.put
  happen self e := { self with tap := self.tap.happen e }
  allowed := FileDescriptor.allowed

/-- The bytes of a frame whose datagram, if any, carries one of the segments. -/
def FramePacketOf (segs : List TCPSegment) (packet : List UInt8) : Prop :=
  ∃ frame, FrameOf (DatagramOf segs) frame ∧ packet = frame.serialize.concatenate

/-- What carries one of some segments carries one of more. -/
theorem FrameOf.mono (h : FrameOf (DatagramOf segs) frame) (hsub : segs ⊆ segs') :
    FrameOf (DatagramOf segs') frame :=
  fun hip => (h hip).imp fun _ hd => ⟨hd.1.mono hsub, hd.2⟩

/-- The same of the bytes of a frame. -/
theorem FramePacketOf.mono (h : FramePacketOf segs packet) (hsub : segs ⊆ segs') :
    FramePacketOf segs' packet :=
  h.imp fun _ hf => ⟨FrameOf.mono hf.1 hsub, hf.2⟩

/-- What comes from the device is of `W`; what goes to it and what the interface still
holds is of `O`. -/
structure Sound (W O : List TCPSegment) (a : TCPOverIPv4OverEthernetAdapter) : Prop where
  tap : a.tap.Device (FramePacketOf W) (FramePacketOf O)
  interface : a.interface.Holds (DatagramOf O)

/-- The frame that the constructor writes carries no datagram. -/
theorem sound_new {tap : FileDescriptor} (htap : tap.Fresh)
    (h : Returns (new tap ethAddress ipAddress hop cfg) self) : Sound [] [] self := by
  obtain ⟨⟨n, tap'⟩, hwrite, h⟩ := returns_bind_iff.mp h
  rw [← returns_pure_iff.mp h]
  have hframe : FrameOf (DatagramOf []) emptyFrame := fun hip => absurd hip (by decide)
  exact ⟨htap.device.write ⟨emptyFrame, hframe, rfl⟩ hwrite, by simp [NetworkInterface.new],
    by simp [NetworkInterface.new]⟩

/-- Each side may have been given more segments. -/
theorem Sound.mono (h : Sound W O self) (hW : W ⊆ W') (hO : O ⊆ O') : Sound W' O' self where
  tap := h.tap.mono (fun _ hp => hp.mono hW) fun _ hp => hp.mono hO
  interface := ⟨fun f hf => FrameOf.mono (h.interface.frames f hf) hO,
    fun p hp => (h.interface.waiting p hp).mono hO⟩

/-- The frames go out whole, one after the other. -/
theorem writeFrames_device {fd fd' : FileDescriptor}
    (h : fd.Device (FramePacketOf W) (FramePacketOf O))
    (hframes : ∀ frame ∈ frames, FrameOf (DatagramOf O) frame)
    (hwrite : Returns (writeFrames frames fd) fd') :
    fd'.Device (FramePacketOf W) (FramePacketOf O) := by
  induction frames generalizing fd with
  | nil =>
      rw [← returns_pure_iff.mp hwrite]
      exact h
  | cons frame frames ih =>
      obtain ⟨hframe, hframes⟩ := List.forall_mem_cons.mp hframes
      obtain ⟨⟨n, fd₁⟩, hfirst, hwrite⟩ := returns_bind_iff.mp hwrite
      exact ih (h.write ⟨frame, hframe, rfl⟩ hfirst) hframes hwrite

/-- All frames of the interface go to the device. -/
theorem Sound.sendPending (hs : Sound W O self) (h : Returns self.sendPending self') :
    Sound W O self' := by
  obtain ⟨tap, hwrite, h⟩ := returns_bind_iff.mp h
  rw [← returns_pure_iff.mp h]
  exact ⟨writeFrames_device hs.tap hs.interface.frames hwrite, by simp, hs.interface.waiting⟩

/-- What a datagram that the interface returns comes from. -/
theorem received_of_packet (hpacket : packet = [] ∨ FramePacketOf W packet)
    (hparse : emptyFrame.parse packet = .ok (result, frame))
    (h : Returns (NetworkInterface.recvFrame fuel i frame) (some dgram, i')) :
    ∃ d, DatagramOf W d ∧ dgram = d.received := by
  obtain ⟨-, hip, payload, hpayload, hdgram⟩ := NetworkInterface.recvFrame_some h
  rcases hpacket with rfl | ⟨f, hf, rfl⟩
  · -- a string without bytes is taken for a frame of another type
    rw [EthernetFrame.parse_of_short _ (by decide), Except.ok.injEq, Prod.mk.injEq] at hparse
    rw [← hparse.2] at hip
    exact absurd hip (by decide)
  · rw [EthernetFrame.concatenate_serialize, EthernetFrame.parse_bytes_append, Except.ok.injEq,
      Prod.mk.injEq] at hparse
    rw [← hparse.2] at hip hpayload
    obtain ⟨d, hd, hser⟩ := hf hip
    exact ⟨d, hd, hd.fits.eq_received hser hpayload hdgram⟩

/-- What is read is a segment that the other side was given; an ARP message may set datagrams free
that were waiting. -/
theorem Sound.read (hs : Sound W O self) (h : Returns (read r fuel self) (seg, self')) :
    Sound W O self' ∧ ∀ x, seg = some x → ∃ w ∈ W, x.Same w := by
  obtain ⟨⟨packet, tap⟩, hread, h⟩ := returns_bind_iff.mp h
  obtain ⟨htap, hpacket⟩ := hs.tap.read hread
  obtain ⟨⟨result, frame⟩, hparse, h⟩ := returns_bind_iff.mp h
  rw [returns_ofExcept_iff] at hparse
  simp only at h
  split at h
  · rw [returns_pure_iff, Prod.mk.injEq] at h
    obtain ⟨rfl, rfl⟩ := h
    exact ⟨⟨htap, hs.interface⟩, by simp⟩
  · obtain ⟨⟨dgram, interface⟩, hrecv, h⟩ := returns_bind_iff.mp h
    obtain ⟨sent, hsend, h⟩ := returns_bind_iff.mp h
    rw [returns_adapt_iff] at hrecv
    have hholds := hs.interface.change (NetworkInterface.recvFrame_change hrecv)
      fun _ _ heq => by cases heq
    have hbefore : Sound W O { self with tap := tap, interface := interface } := ⟨htap, hholds⟩
    have hsound := hbefore.sendPending hsend
    cases dgram with
    | none =>
        rw [returns_pure_iff, Prod.mk.injEq] at h
        obtain ⟨rfl, rfl⟩ := h
        exact ⟨hsound, by simp⟩
    | some dgram =>
        obtain ⟨⟨seg', base⟩, hunwrap, h⟩ := returns_bind_iff.mp h
        rw [returns_ofExcept_iff] at hunwrap
        rw [returns_pure_iff, Prod.mk.injEq] at h
        obtain ⟨hseg, rfl⟩ := h
        refine ⟨⟨hsound.tap, hsound.interface⟩, fun x hx => ?_⟩
        obtain ⟨d, hd, rfl⟩ := received_of_packet hpacket hparse hrecv
        have hsome : seg' = some x := hseg.trans hx
        rw [hsome] at hunwrap
        exact TCPOverIPv4Adapter.unwrapTcpInIp_wrapped hd _ r hunwrap

/-- What is written carries a segment that this side was given, or waits for an address. -/
theorem Sound.write (hs : Sound W O self) (hseg : seg ∈ O) (hm : seg.Modest)
    (h : Returns (write self seg) self') : Sound W O self' := by
  obtain ⟨⟨d, seg'⟩, hwrap, h⟩ := returns_bind_iff.mp h
  obtain ⟨interface, hsend, h⟩ := returns_bind_iff.mp h
  rw [returns_ofExcept_iff] at hwrap hsend
  have hholds : interface.Holds (DatagramOf O) := by
    refine hs.interface.change (NetworkInterface.sendDatagram_change hsend) fun dgram nextHop heq => ?_
    injection heq with heq
    exact heq ▸ self.wrapTcpInIp_datagramOf hseg hm hwrap
  have hsound : Sound W O { self with interface := interface } := ⟨hs.tap, hholds⟩
  exact hsound.sendPending h

/-- Time only repeats requests. -/
theorem Sound.tick (hs : Sound W O self) (h : Returns (tick fuel self ms) self') :
    Sound W O self' := by
  obtain ⟨interface, htick, h⟩ := returns_bind_iff.mp h
  rw [returns_adapt_iff] at htick
  obtain ⟨pending, rfl, hpending⟩ := NetworkInterface.tick_returns htick
  have hholds := hs.interface.change (.pass ms pending hpending) fun _ _ heq => by cases heq
  have hsound : Sound W O { self with interface := self.interface.pass ms pending } :=
    ⟨hs.tap, hholds⟩
  exact hsound.sendPending h

/-- **A TAP device carries segments**, with ARP messages in between. -/
def law (r : Resolver) (fuel : Nat) : carrier.Law (adapter r fuel) where
  From := FramePacketOf
  Sound := Sound
  sound_mono := Sound.mono
  packets h := h.tap.out
  happen h hp ha := ⟨h.tap.happen hp ha, h.interface⟩
  read := Sound.read
  write := Sound.write
  tick := Sound.tick
  configure h _ := ⟨h.tap, h.interface⟩
  setListening h _ := ⟨h.tap, h.interface⟩

end TCPOverIPv4OverEthernetAdapter

end Sponge
