import Sponge.Carrier.TunTap
import Sponge.NetworkInterface.Total

/-!
# Sponge.FdAdapter.Robust

The adapters of the repository withstand the network (`FdAdapter.Robust`): what
they throw comes from the kernel, whatever is in the packets that arrive.  What
arrives is parsed without exceptions, and what is sent fits its format, as long
as the segments are modest.

They also count their reads, which keeps the event loop from taking a read for
a busy wait.
-/

namespace Sponge

/-- What a socket counts on: states of the adapter in which it throws nothing but what the
kernel is the cause of. -/
structure FdAdapter.Robust (A : FdAdapter α) where
  Ok : α → Prop
  read : Ok a → Returns (A.read a) (seg, a') → Ok a'
  write : Ok a → seg.Modest → Returns (A.write a seg) a' → Ok a'
  tick : Ok a → Returns (A.tick a ms) a' → Ok a'
  configure : Ok a → ∀ cfg, Ok (A.configure a cfg)
  setListening : Ok a → ∀ l, Ok (A.setListening a l)
  readFaults : Ok a → OnlyThrows KernelFault (A.read a)
  writeFaults : Ok a → seg.Modest → OnlyThrows KernelFault (A.write a seg)
  tickFaults : Ok a → ∀ ms, OnlyThrows KernelFault (A.tick a ms)
  /-- Every read of the adapter is a read of its descriptor. -/
  counts : Returns (A.read a) (seg, a') → (A.fd a').readCount = (A.fd a).readCount + 1

/-! ## System calls of sockets -/

namespace UDPSocket

/-- Only the kernel makes `recv` throw. -/
theorem onlyThrows_recv (sock : UDPSocket) : OnlyThrows KernelFault sock.recv := by
  unfold recv
  split
  · exact onlyThrows_outOfFuel
  · refine (onlyThrows_systemCall _ _).bind fun datagram _ => .ite (fun _ => ?_) fun _ => ?_
    · exact onlyThrows_throw_iff.mpr .oversized
    · exact onlyThrows_pure _

/-- Only the kernel makes `sendto` throw. -/
theorem onlyThrows_sendto (sock : UDPSocket) (destination : Address) (payload : BufferViewList) :
    OnlyThrows KernelFault (sock.sendto destination payload) := by
  unfold sendto
  split
  · exact onlyThrows_outOfFuel
  · refine (onlyThrows_systemCall _ _).bind fun n _ => .ite (fun _ => ?_) fun _ => ?_
    · exact onlyThrows_throw_iff.mpr .sentLess
    · exact onlyThrows_pure _

end UDPSocket

/-! ## UDP -/

namespace TCPOverUDPSocketAdapter

/-- A read counts, whatever comes of the datagram. -/
theorem read_counts {self self' : TCPOverUDPSocketAdapter}
    (h : Returns self.read (seg, self')) : self'.sock.readCount = self.sock.readCount + 1 := by
  obtain ⟨⟨⟨source, payload⟩, sock⟩, hrecv, h⟩ := returns_bind_iff.mp h
  obtain ⟨-, hsock'⟩ := UDPSocket.recv_returns hrecv
  have hsock : self'.sock = sock := by
    simp only at h
    split at h
    · rw [returns_pure_iff, Prod.mk.injEq] at h
      rw [← h.2]
    · obtain ⟨⟨result, seg⟩, -, h⟩ := returns_bind_iff.mp h
      simp only at h
      split at h
      · rw [returns_pure_iff, Prod.mk.injEq] at h
        rw [← h.2]
      · split at h
        · split at h <;>
          · rw [returns_pure_iff, Prod.mk.injEq] at h
            rw [← h.2]
        · rw [returns_pure_iff, Prod.mk.injEq] at h
          rw [← h.2]
  rw [hsock, hsock']

/-- No datagram makes the UDP adapter throw. -/
theorem onlyThrows_read (self : TCPOverUDPSocketAdapter) : OnlyThrows KernelFault self.read := by
  refine self.sock.onlyThrows_recv.bind fun d _ => .ite (fun _ => onlyThrows_pure _) fun _ => ?_
  obtain ⟨result, seg, hparse, -⟩ := TCPSegment.parse_spec {} d.1.2 0
  refine (onlyThrows_ofExcept hparse).bind fun p _ => ?_
  exact .ite (fun _ => onlyThrows_pure _) fun _ => .ite
    (fun _ => .ite (fun _ => onlyThrows_pure _) fun _ => onlyThrows_pure _)
    fun _ => onlyThrows_pure _

/-- No modest segment makes the UDP adapter throw. -/
theorem onlyThrows_write (self : TCPOverUDPSocketAdapter) (hm : seg.Modest) :
    OnlyThrows KernelFault (self.write seg) := by
  have hfits := TCPOverIPv4Adapter.addressed_fits hm.fits hm.size_le ⟨self.cfg, false⟩
  exact (onlyThrows_ofExcept (hfits.serialize_eq 0)).bind fun payload _ =>
    (self.sock.onlyThrows_sendto _ payload).bind fun _ _ => onlyThrows_pure _

def robust : adapter.Robust where
  Ok _ := True
  read _ _ := trivial
  write _ _ _ := trivial
  tick _ _ := trivial
  configure _ _ := trivial
  setListening _ _ := trivial
  readFaults _ := onlyThrows_read _
  writeFaults _ := onlyThrows_write _
  tickFaults _ _ := onlyThrows_pure _
  counts := read_counts

end TCPOverUDPSocketAdapter

/-! ## TUN -/

/-- Nothing that is parsed makes the adapter throw. -/
theorem TCPOverIPv4Adapter.exists_unwrapTcpInIp (a : TCPOverIPv4Adapter) (r : Resolver)
    {d : IPv4Datagram} (hd : d.payload.length ≤ 1) : ∃ res, a.unwrapTcpInIp r d = .ok res := by
  rcases a.unwrapTcpInIp_cases r hd with h | ⟨seg, a', h, -⟩
  · exact ⟨_, h⟩
  · exact ⟨_, h⟩

namespace TCPOverIPv4OverTunFdAdapter

/-- A read counts, whatever comes of the packet. -/
theorem read_counts {self self' : TCPOverIPv4OverTunFdAdapter}
    (h : Returns (read r self) (seg, self')) : self'.tun.readCount = self.tun.readCount + 1 := by
  obtain ⟨⟨packet, tun⟩, hread, h⟩ := returns_bind_iff.mp h
  obtain ⟨-, -, rfl⟩ := FileDescriptor.read_returns hread
  obtain ⟨⟨result, dgram⟩, -, h⟩ := returns_bind_iff.mp h
  simp only at h
  split at h
  · rw [returns_pure_iff, Prod.mk.injEq] at h
    rw [← h.2]
    rfl
  · obtain ⟨⟨seg, base⟩, -, h⟩ := returns_bind_iff.mp h
    rw [returns_pure_iff, Prod.mk.injEq] at h
    rw [← h.2]
    rfl

/-- No packet makes the TUN adapter throw. -/
theorem onlyThrows_read (r : Resolver) (self : TCPOverIPv4OverTunFdAdapter) :
    OnlyThrows KernelFault (read r self) := by
  refine (self.tun.onlyThrows_read _).bind fun packet _ => ?_
  obtain ⟨result, header, payload, hparse⟩ := IPv4Datagram.exists_parse {} packet.1
  refine (onlyThrows_ofExcept hparse).bind fun p hp => ?_
  rw [returns_ofExcept_iff, hparse, Except.ok.injEq] at hp
  subst hp
  refine .ite (fun _ => onlyThrows_pure _) fun _ => ?_
  obtain ⟨res, hres⟩ := self.exists_unwrapTcpInIp r (d := ⟨header, [payload]⟩) (Nat.le_refl 1)
  exact (onlyThrows_ofExcept hres).bind fun _ _ => onlyThrows_pure _

/-- No modest segment makes the TUN adapter throw. -/
theorem onlyThrows_write (self : TCPOverIPv4OverTunFdAdapter) (hm : seg.Modest) :
    OnlyThrows KernelFault (write self seg) := by
  have hwrap := TCPOverIPv4Adapter.wrapTcpInIp_eq hm.fits hm.size_le self.toTCPOverIPv4Adapter
  have hfits := TCPOverIPv4Adapter.wrapped_fits hm.fits hm.size_le self.toTCPOverIPv4Adapter
  refine (onlyThrows_ofExcept hwrap).bind fun p hp => ?_
  rw [returns_ofExcept_iff, hwrap, Except.ok.injEq] at hp
  subst hp
  exact (onlyThrows_ofExcept hfits.serialize_eq).bind fun packet _ =>
    (self.tun.onlyThrows_write packet true).bind fun _ _ => onlyThrows_pure _

def robust (r : Resolver) : (adapter r).Robust where
  Ok _ := True
  read _ _ := trivial
  write _ _ _ := trivial
  tick _ _ := trivial
  configure _ _ := trivial
  setListening _ _ := trivial
  readFaults _ := onlyThrows_read r _
  writeFaults _ := onlyThrows_write _
  tickFaults _ _ := onlyThrows_pure _
  counts := read_counts

end TCPOverIPv4OverTunFdAdapter

/-! ## TAP -/

namespace TCPOverIPv4OverEthernetAdapter

open NetworkInterface (Holds)

/-- Writing does not count as reading. -/
theorem writeFrames_readCount {tap tap' : FileDescriptor}
    (h : Returns (writeFrames frames tap) tap') : tap'.readCount = tap.readCount := by
  induction frames generalizing tap with
  | nil => rw [← returns_pure_iff.mp h]
  | cons frame frames ih =>
      obtain ⟨⟨n, tap₁⟩, hwrite, h⟩ := returns_bind_iff.mp h
      obtain ⟨chunks, rfl, -⟩ := FileDescriptor.write_returns hwrite
      have hrest : tap'.readCount = (tap.took chunks).readCount := ih h
      exact hrest

/-- Nor does sending what is waiting. -/
theorem sendPending_readCount {self self' : TCPOverIPv4OverEthernetAdapter}
    (h : Returns self.sendPending self') : self'.tap.readCount = self.tap.readCount := by
  obtain ⟨tap, hwrite, h⟩ := returns_bind_iff.mp h
  rw [← returns_pure_iff.mp h]
  exact writeFrames_readCount hwrite

/-- A read counts once, whatever comes of the frame. -/
theorem read_counts {self self' : TCPOverIPv4OverEthernetAdapter}
    (h : Returns (read r fuel self) (seg, self')) :
    self'.tap.readCount = self.tap.readCount + 1 := by
  obtain ⟨⟨packet, tap⟩, hread, h⟩ := returns_bind_iff.mp h
  obtain ⟨-, -, rfl⟩ := FileDescriptor.read_returns hread
  obtain ⟨⟨result, frame⟩, -, h⟩ := returns_bind_iff.mp h
  simp only at h
  split at h
  · rw [returns_pure_iff, Prod.mk.injEq] at h
    rw [← h.2]
    rfl
  · obtain ⟨⟨dgram, interface⟩, -, h⟩ := returns_bind_iff.mp h
    obtain ⟨sent, hsend, h⟩ := returns_bind_iff.mp h
    have hcount : sent.tap.readCount = self.tap.readCount + 1 := sendPending_readCount hsend
    cases dgram with
    | none =>
        rw [returns_pure_iff, Prod.mk.injEq] at h
        rw [← h.2]
        exact hcount
    | some dgram =>
        obtain ⟨⟨seg, base⟩, -, h⟩ := returns_bind_iff.mp h
        rw [returns_pure_iff, Prod.mk.injEq] at h
        rw [← h.2]
        exact hcount

/-- Only the kernel makes the loop over the frames throw. -/
theorem onlyThrows_writeFrames (frames : List EthernetFrame) (tap : FileDescriptor) :
    OnlyThrows KernelFault (writeFrames frames tap) := by
  induction frames generalizing tap with
  | nil => exact onlyThrows_pure tap
  | cons frame frames ih => exact (tap.onlyThrows_write _ true).bind fun p _ => ih p.2

theorem onlyThrows_sendPending (self : TCPOverIPv4OverEthernetAdapter) :
    OnlyThrows KernelFault self.sendPending :=
  (onlyThrows_writeFrames _ _).bind fun _ _ => onlyThrows_pure _

/-- What has been handed to the interface fits. -/
def HoldsFitting (self : TCPOverIPv4OverEthernetAdapter) : Prop := self.interface.Holds IPv4Datagram.Fits

variable {self self' : TCPOverIPv4OverEthernetAdapter}

/-- To send the frames leaves the datagrams that wait. -/
theorem HoldsFitting.sendPending (hs : self.HoldsFitting) (h : Returns self.sendPending self') : self'.HoldsFitting := by
  obtain ⟨tap, -, h⟩ := returns_bind_iff.mp h
  rw [← returns_pure_iff.mp h]
  exact ⟨by simp, hs.waiting⟩

/-- A frame that is read only takes datagrams away from those that wait. -/
theorem HoldsFitting.read (hs : self.HoldsFitting) (h : Returns (read r fuel self) (seg, self')) : self'.HoldsFitting := by
  obtain ⟨⟨packet, tap⟩, -, h⟩ := returns_bind_iff.mp h
  obtain ⟨⟨result, frame⟩, -, h⟩ := returns_bind_iff.mp h
  simp only at h
  split at h
  · rw [returns_pure_iff, Prod.mk.injEq] at h
    exact h.2 ▸ hs
  · obtain ⟨⟨dgram, interface⟩, hrecv, h⟩ := returns_bind_iff.mp h
    obtain ⟨sent, hsend, h⟩ := returns_bind_iff.mp h
    rw [returns_adapt_iff] at hrecv
    have hholds : interface.Holds IPv4Datagram.Fits := Holds.change hs
      (NetworkInterface.recvFrame_change hrecv) (by simp)
    have hbefore : HoldsFitting { self with tap := tap, interface := interface } := hholds
    have hsent := hbefore.sendPending hsend
    cases dgram with
    | none =>
        rw [returns_pure_iff, Prod.mk.injEq] at h
        exact h.2 ▸ hsent
    | some dgram =>
        obtain ⟨⟨seg', base⟩, -, h⟩ := returns_bind_iff.mp h
        rw [returns_pure_iff, Prod.mk.injEq] at h
        exact h.2 ▸ hsent

/-- No frame makes the TAP adapter throw. -/
theorem onlyThrows_read (r : Resolver) (fuel : Nat) (hs : self.HoldsFitting) :
    OnlyThrows KernelFault (read r fuel self) := by
  refine (self.tap.onlyThrows_read _).bind fun packet _ => ?_
  obtain ⟨result, header, payload, hparse⟩ := emptyFrame.exists_parse packet.1
  refine (onlyThrows_ofExcept hparse).bind fun p hp => ?_
  rw [returns_ofExcept_iff, hparse, Except.ok.injEq] at hp
  subst hp
  refine .ite (fun _ => onlyThrows_pure _) fun _ => ?_
  have hrecv : OnlyThrows (fun _ => False) (self.interface.recvFrame fuel ⟨header, [payload]⟩) :=
    NetworkInterface.onlyThrows_recvFrame hs.waiting fuel header payload
  refine (hrecv.adapt fun _ => False.elim).bind fun q hq => (onlyThrows_sendPending _).bind fun sent _ => ?_
  rw [returns_adapt_iff] at hq
  obtain ⟨dgram, interface⟩ := q
  cases dgram with
  | none => exact onlyThrows_pure _
  | some dgram =>
      obtain ⟨-, -, b, -, hdgram⟩ := NetworkInterface.recvFrame_some hq
      obtain ⟨result, dheader, dpayload, hparse⟩ := IPv4Datagram.exists_parse {} b
      rw [hparse, Except.ok.injEq, Prod.mk.injEq] at hdgram
      obtain ⟨res, hres⟩ := sent.exists_unwrapTcpInIp r (d := dgram) (by rw [← hdgram.2]; exact Nat.le_refl 1)
      exact (onlyThrows_ofExcept hres).bind fun _ _ => onlyThrows_pure _

/-- The datagram that is made for a modest segment fits its format. -/
theorem HoldsFitting.write (hs : self.HoldsFitting) (hm : seg.Modest) (h : Returns (write self seg) self') :
    self'.HoldsFitting := by
  obtain ⟨⟨d, seg'⟩, hwrap, h⟩ := returns_bind_iff.mp h
  obtain ⟨interface, hsend, h⟩ := returns_bind_iff.mp h
  rw [returns_ofExcept_iff, TCPOverIPv4Adapter.wrapTcpInIp_eq hm.fits hm.size_le, Except.ok.injEq,
    Prod.mk.injEq] at hwrap
  rw [returns_ofExcept_iff] at hsend
  have hholds : interface.Holds IPv4Datagram.Fits := by
    refine Holds.change hs (NetworkInterface.sendDatagram_change hsend) fun dgram hop heq => ?_
    injection heq with heq
    rw [← heq, ← hwrap.1]
    exact TCPOverIPv4Adapter.wrapped_fits hm.fits hm.size_le _
  have hbefore : HoldsFitting { self with interface := interface } := hholds
  exact hbefore.sendPending h

/-- No modest segment makes the TAP adapter throw. -/
theorem onlyThrows_write (self : TCPOverIPv4OverEthernetAdapter) (hm : seg.Modest) :
    OnlyThrows KernelFault (write self seg) := by
  have hwrap := TCPOverIPv4Adapter.wrapTcpInIp_eq hm.fits hm.size_le self.toTCPOverIPv4Adapter
  have hfits := TCPOverIPv4Adapter.wrapped_fits hm.fits hm.size_le self.toTCPOverIPv4Adapter
  refine (onlyThrows_ofExcept hwrap).bind fun p hp => ?_
  rw [returns_ofExcept_iff, hwrap, Except.ok.injEq] at hp
  subst hp
  obtain ⟨d, hd⟩ := self.interface.exists_sendDatagram self.nextHop hfits
  exact (onlyThrows_ofExcept hd).bind fun _ _ => onlyThrows_sendPending _

theorem HoldsFitting.tick (hs : self.HoldsFitting) (h : Returns (tick fuel self ms) self') : self'.HoldsFitting := by
  obtain ⟨interface, htick, h⟩ := returns_bind_iff.mp h
  rw [returns_adapt_iff] at htick
  obtain ⟨pending, rfl, hpending⟩ := NetworkInterface.tick_returns htick
  have hbefore : HoldsFitting { self with interface := self.interface.pass ms pending } :=
    Holds.change hs (.pass ms pending hpending) (by simp)
  exact hbefore.sendPending h

/-- Nor does time. -/
theorem onlyThrows_tick (fuel : Nat) (self : TCPOverIPv4OverEthernetAdapter) (ms : Nat) :
    OnlyThrows KernelFault (tick fuel self ms) := by
  have htick : OnlyThrows (fun _ => False) (self.interface.tick fuel ms) :=
    self.interface.onlyThrows_tick fuel ms
  exact (htick.adapt fun _ => False.elim).bind fun _ _ => onlyThrows_sendPending _

def robust (r : Resolver) (fuel : Nat) : (adapter r fuel).Robust where
  Ok := HoldsFitting
  read := HoldsFitting.read
  write := HoldsFitting.write
  tick := HoldsFitting.tick
  configure h _ := h
  setListening h _ := h
  readFaults := onlyThrows_read r fuel
  writeFaults _ := onlyThrows_write _
  tickFaults _ := onlyThrows_tick fuel _
  counts := read_counts

end TCPOverIPv4OverEthernetAdapter

/-! ## Random loss -/

/-- Losses make no difference. -/
def LossyFdAdapter.robust {A : FdAdapter α} (hA : A.Robust) : (lossy A).Robust where
  Ok self := hA.Ok self.adapter
  read hs h := by
    obtain ⟨seg, hread, -⟩ := read_returns A h
    exact hA.read hs hread
  write hs hm h := by
    rcases write_returns A h with heq | hwrite
    · exact heq ▸ hs
    · exact hA.write hs hm hwrite
  tick hs h := by
    obtain ⟨a, htick, h⟩ := returns_bind_iff.mp h
    rw [← returns_pure_iff.mp h]
    exact hA.tick hs htick
  configure := hA.configure
  setListening := hA.setListening
  readFaults hs := (hA.readFaults hs).bind fun _ _ => onlyThrows_pure _
  writeFaults {self seg} hs hm := by
    show OnlyThrows KernelFault (self.write A seg)
    simp only [write, shouldDrop_adapter]
    exact .ite (fun _ => onlyThrows_pure _) fun _ =>
      (hA.writeFaults hs hm).bind fun _ _ => onlyThrows_pure _
  tickFaults hs ms := (hA.tickFaults hs ms).bind fun _ _ => onlyThrows_pure _
  counts h := by
    obtain ⟨seg, hread, -⟩ := read_returns A h
    exact hA.counts hread

end Sponge
