import Sponge.FdAdapter
import Sponge.NetworkInterface

/-!
# Sponge.TunTapAdapter

The adapters over a TUN device, which carries IPv4 datagrams, and over a TAP
device, which carries Ethernet frames (`tuntap_adapter.hh`,
`tuntap_adapter.cc`).  A device is a `FileDescriptor` whose reads return one
packet each.

The loop of `send_pending` takes the frames off the interface's queue one after
the other; nothing is added to it meanwhile.
-/

namespace Sponge

/-- The default limit of `FileDescriptor::read`. -/
def FileDescriptor.NO_LIMIT : Nat := 2 ^ 64 - 1

/-! ## TUN -/

/-- The adapter over a TUN device. -/
structure TCPOverIPv4OverTunFdAdapter extends TCPOverIPv4Adapter where
  tun : FileDescriptor

namespace TCPOverIPv4OverTunFdAdapter

/-- What is no datagram, or not for this adapter, is dropped. -/
def read (r : Resolver) (self : TCPOverIPv4OverTunFdAdapter) :
    Call Failure (Option TCPSegment × TCPOverIPv4OverTunFdAdapter) := do
  let (packet, tun) ← self.tun.read FileDescriptor.NO_LIMIT
  let self := { self with tun := tun }
  let (result, ipDgram) ← Call.ofExcept (IPv4Datagram.parse {} packet)
  if result ≠ .NoError then return (none, self)
  else
    let (seg, base) ← Call.ofExcept (self.unwrapTcpInIp r ipDgram)
    return (seg, { self with toTCPOverIPv4Adapter := base })

def write (self : TCPOverIPv4OverTunFdAdapter) (seg : TCPSegment) :
    Call Failure TCPOverIPv4OverTunFdAdapter := do
  let (ipDgram, _) ← Call.ofExcept (self.wrapTcpInIp seg)
  let packet ← Call.ofExcept ipDgram.serialize
  let (_, tun) ← self.tun.write packet true
  return { self with tun := tun }

def adapter (r : Resolver) : FdAdapter TCPOverIPv4OverTunFdAdapter where
  fd self := self.tun.toFDWrapper
  read := read r
  write := write
  tick self _ := return self
  configure self cfg := { self with cfg := cfg }
  setListening self l := { self with listen := l }

end TCPOverIPv4OverTunFdAdapter

/-! ## TAP -/

/-- The adapter over a TAP device, with an interface of its own. -/
structure TCPOverIPv4OverEthernetAdapter extends TCPOverIPv4Adapter where
  tap : FileDescriptor
  interface : NetworkInterface
  nextHop : Address

namespace TCPOverIPv4OverEthernetAdapter

/-- A frame as the code makes it before it fills it in. -/
def emptyFrame : EthernetFrame := ⟨⟨.replicate 6 0, .replicate 6 0, 0⟩, []⟩

/-- The loop of `send_pending`. -/
def writeFrames : List EthernetFrame → FileDescriptor → Call Failure FileDescriptor
  | [], tap => return tap
  | frame :: frames, tap => do
      let (_, tap) ← tap.write frame.serialize true
      writeFrames frames tap

def sendPending (self : TCPOverIPv4OverEthernetAdapter) :
    Call Failure TCPOverIPv4OverEthernetAdapter := do
  let tap ← writeFrames self.interface.framesOut self.tap
  return { self with tap := tap, interface := { self.interface with framesOut := [] } }

/-- The constructor, which writes a first frame to the device for it to ignore. -/
def new (tap : FileDescriptor) (ethAddress : EthernetAddress) (ipAddress nextHop : Address)
    (cfg : FdAdapterConfig) : Call Failure TCPOverIPv4OverEthernetAdapter := do
  let (_, tap) ← tap.write emptyFrame.serialize true
  return {
    cfg := cfg
    tap := tap
    interface := NetworkInterface.new ethAddress ipAddress
    nextHop := nextHop }

/-- The frame goes through the interface, and what the interface answers is sent. -/
def read (r : Resolver) (fuel : Nat) (self : TCPOverIPv4OverEthernetAdapter) :
    Call Failure (Option TCPSegment × TCPOverIPv4OverEthernetAdapter) := do
  let (packet, tap) ← self.tap.read FileDescriptor.NO_LIMIT
  let self := { self with tap := tap }
  let (result, frame) ← Call.ofExcept (emptyFrame.parse packet)
  if result ≠ .NoError then return (none, self)
  else
    let (ipDgram, interface) ← (self.interface.recvFrame fuel frame).adapt Failure.exception
    let self ← sendPending { self with interface := interface }
    match ipDgram with
    | none => return (none, self)
    | some ipDgram => do
        let (seg, base) ← Call.ofExcept (self.unwrapTcpInIp r ipDgram)
        return (seg, { self with toTCPOverIPv4Adapter := base })

/-- The interface may repeat its requests. -/
def tick (fuel : Nat) (self : TCPOverIPv4OverEthernetAdapter) (msSinceLastTick : Nat) :
    Call Failure TCPOverIPv4OverEthernetAdapter := do
  let interface ← (self.interface.tick fuel msSinceLastTick).adapt Failure.exception
  sendPending { self with interface := interface }

/-- The datagram goes out, or waits until the next hop is known. -/
def write (self : TCPOverIPv4OverEthernetAdapter) (seg : TCPSegment) :
    Call Failure TCPOverIPv4OverEthernetAdapter := do
  let (ipDgram, _) ← Call.ofExcept (self.wrapTcpInIp seg)
  let interface ← Call.ofExcept (self.interface.sendDatagram ipDgram self.nextHop)
  sendPending { self with interface := interface }

def adapter (r : Resolver) (fuel : Nat) : FdAdapter TCPOverIPv4OverEthernetAdapter where
  fd self := self.tap.toFDWrapper
  read := read r fuel
  write := write
  tick := tick fuel
  configure self cfg := { self with cfg := cfg }
  setListening self l := { self with listen := l }

end TCPOverIPv4OverEthernetAdapter

end Sponge
