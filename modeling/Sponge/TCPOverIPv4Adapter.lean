import Sponge.Address
import Sponge.IPv4Datagram
import Sponge.TCPSegment

/-!
# Sponge.TCPOverIPv4Adapter

The adapter that takes TCP segments out of IPv4 datagrams and puts them into
datagrams (`tcp_over_ip.hh`, `tcp_over_ip.cc`, `FdAdapterBase` in
`fd_adapter.hh`, `FdAdapterConfig` in `tcp_config.hh`).  The loss rates of the
configuration are not used here and are left out.
-/

namespace Sponge

/-- The two ends of a flow. -/
structure FdAdapterConfig where
  source : Address
  destination : Address
  deriving DecidableEq, Repr

/-- The configuration, and whether the peer is still to be found. -/
structure TCPOverIPv4Adapter where
  cfg : FdAdapterConfig
  listen : Bool := false
  deriving DecidableEq, Repr

namespace TCPOverIPv4Adapter

/-- What is returned, and the adapter after that. -/
def unwrapTcpInIp (self : TCPOverIPv4Adapter) (r : Resolver) (ipDgram : IPv4Datagram) :
    Except Exception (Option TCPSegment × TCPOverIPv4Adapter) := do
  if !self.listen && ipDgram.header.dst != self.cfg.source.ipv4Numeric then
    return (none, self)
  if !self.listen && ipDgram.header.src != self.cfg.destination.ipv4Numeric then
    return (none, self)
  if ipDgram.header.proto != IPv4Header.PROTO_TCP then
    return (none, self)
  let payload ← ipDgram.payload.toBuffer
  let (result, tcpSeg) ← TCPSegment.parse {} payload ipDgram.header.pseudoCksum
  if result != .NoError then
    return (none, self)
  if tcpSeg.header.dport != self.cfg.source.port then
    return (none, self)
  let mut self := self
  if self.listen then
    if tcpSeg.header.syn && !tcpSeg.header.rst then
      let source ← r.getaddrinfo (r.inetNtoa ipDgram.header.dst) self.cfg.source.port
      let destination ← r.getaddrinfo (r.inetNtoa ipDgram.header.src) tcpSeg.header.sport
      self := { cfg := { source := source, destination := destination }, listen := false }
    else
      return (none, self)
  if tcpSeg.header.sport != self.cfg.destination.port then
    return (none, self)
  return (some tcpSeg, self)

/-- The datagram, and the segment with its port numbers set. -/
def wrapTcpInIp (self : TCPOverIPv4Adapter) (seg : TCPSegment) :
    Except Exception (IPv4Datagram × TCPSegment) := do
  let seg := { seg with header := { seg.header with
    sport := self.cfg.source.port, dport := self.cfg.destination.port } }
  let ipDgram : IPv4Datagram := {}
  let header := { ipDgram.header with
    src := self.cfg.source.ipv4Numeric, dst := self.cfg.destination.ipv4Numeric
    len := UInt16.ofNat
      (ipDgram.header.hlen.toNat * 4 + seg.header.doff.toNat * 4 + seg.payload.length) }
  let payload ← seg.serialize header.pseudoCksum
  return ({ header := header, payload := payload }, seg)

end TCPOverIPv4Adapter

end Sponge
