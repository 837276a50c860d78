import Sponge.FileDescriptor
import Sponge.TCPOverIPv4Adapter

/-!
# Sponge.FdAdapter

What `TCPSpongeSocket` uses of the adapter it is instantiated with, and the
adapters of `fd_adapter.hh`, `fd_adapter.cc` and `lossy_fd_adapter.hh`: TCP
segments in UDP payloads, and an adapter that drops segments at random.

A UDP socket is a descriptor whose kernel deals in datagrams.  The random
numbers are an argument, one for each time that the generator is asked.
-/

namespace Sponge

/-- The members of an adapter class `AdaptT` that a socket uses. -/
structure FdAdapter (α : Type) where
  /-- The conversion to a `FileDescriptor`. -/
  fd : α → FDWrapper
  read : α → Call Failure (Option TCPSegment × α)
  write : α → TCPSegment → Call Failure α
  tick : α → Nat → Call Failure α
  /-- An assignment to `config_mut()`. -/
  configure : α → FdAdapterConfig → α
  setListening : α → Bool → α

/-! ## TCP in UDP -/

/-- A UDP socket: the coming answers of `recvfrom`, given the room there is, and of
`sendmsg`, given the size, and the datagrams sent so far. -/
structure UDPSocket extends FDWrapper where
  recvs : List (Nat → Except Nat (Address × List UInt8)) := []
  sends : List (Nat → Except Nat Nat) := []
  sent : List (Address × List UInt8) := []

namespace UDPSocket

/-- The size of the buffer that a datagram is received into. -/
def MTU : Nat := 65536

/-- `recv`.  With `MSG_TRUNC` the length returned is that of the datagram, so the
payload of the answer is the whole of it. -/
def recv (sock : UDPSocket) : Call Failure ((Address × List UInt8) × UDPSocket) :=
  match sock.recvs with
  | [] => .outOfFuel
  | answer :: recvs => do
      let datagram ← systemCall "recvfrom" (answer MTU)
      if datagram.2.length > MTU then
        throw (.exception (.runtimeError "recvfrom (oversized datagram)"))
      else return (datagram, { sock with recvs := recvs, readCount := sock.readCount + 1 })

/-- `sendto`, with `sendmsg_helper`. -/
def sendto (sock : UDPSocket) (destination : Address) (payload : BufferViewList) :
    Call Failure UDPSocket :=
  match sock.sends with
  | [] => .outOfFuel
  | answer :: sends => do
      let bytesSent ← systemCall "sendmsg" (answer payload.size)
      if bytesSent ≠ payload.size then
        throw (.exception (.runtimeError "datagram payload too big for sendmsg()"))
      else return { sock with
        sends := sends
        sent := sock.sent ++ [(destination, payload.flatten)]
        writeCount := sock.writeCount + 1 }

/-- What `recv` returns is an answer of the kernel, and it counts as a read. -/
theorem recv_returns {sock sock' : UDPSocket} (h : Returns sock.recv (datagram, sock')) :
    (∃ answer ∈ sock.recvs, answer MTU = .ok datagram) ∧
      sock' = { sock with recvs := sock.recvs.tail, readCount := sock.readCount + 1 } := by
  unfold recv at h
  cases hrecvs : sock.recvs with
  | nil =>
      simp only [hrecvs] at h
      exact absurd h not_returns_outOfFuel
  | cons answer recvs =>
      simp only [hrecvs] at h
      obtain ⟨d, hd, h⟩ := returns_bind_iff.mp h
      rw [returns_systemCall_iff] at hd
      split at h
      · exact absurd h not_returns_throw
      · rw [returns_pure_iff, Prod.mk.injEq] at h
        obtain ⟨rfl, rfl⟩ := h
        exact ⟨⟨answer, List.mem_cons_self, hd⟩, rfl⟩

/-- What is sent is the payload as a whole. -/
theorem sendto_returns {sock sock' : UDPSocket} {payload : BufferViewList}
    (h : Returns (sock.sendto destination payload) sock') :
    sock' = { sock with
      sends := sock.sends.tail
      sent := sock.sent ++ [(destination, payload.flatten)]
      writeCount := sock.writeCount + 1 } := by
  unfold sendto at h
  cases hsends : sock.sends with
  | nil =>
      simp only [hsends] at h
      exact absurd h not_returns_outOfFuel
  | cons answer sends =>
      simp only [hsends] at h
      obtain ⟨n, -, h⟩ := returns_bind_iff.mp h
      split at h
      · exact absurd h not_returns_throw
      · exact (returns_pure_iff.mp h).symm

end UDPSocket

/-- The adapter that wraps segments in UDP datagrams. -/
structure TCPOverUDPSocketAdapter where
  cfg : FdAdapterConfig
  listen : Bool := false
  sock : UDPSocket

namespace TCPOverUDPSocketAdapter

/-- A datagram from elsewhere, or one that is no segment, is dropped; a SYN to a listening adapter
sets the peer. -/
def read (self : TCPOverUDPSocketAdapter) :
    Call Failure (Option TCPSegment × TCPOverUDPSocketAdapter) := do
  let ((source, payload), sock) ← self.sock.recv
  let self := { self with sock := sock }
  if !self.listen && source != self.cfg.destination then return (none, self)
  else
    let (result, seg) ← Call.ofExcept (TCPSegment.parse {} payload 0)
    if result ≠ .NoError then return (none, self)
    else if self.listen then
      if seg.header.syn && !seg.header.rst then
        return (some seg,
          { self with cfg := { self.cfg with destination := source }, listen := false })
      else return (none, self)
    else return (some seg, self)

/-- The ports are those of the configuration. -/
def write (self : TCPOverUDPSocketAdapter) (seg : TCPSegment) :
    Call Failure TCPOverUDPSocketAdapter := do
  let seg := { seg with header := { seg.header with
    sport := self.cfg.source.port, dport := self.cfg.destination.port } }
  let payload ← Call.ofExcept (seg.serialize 0)
  let sock ← self.sock.sendto self.cfg.destination payload
  return { self with sock := sock }

def adapter : FdAdapter TCPOverUDPSocketAdapter where
  fd self := self.sock.toFDWrapper
  read := read
  write := write
  tick self _ := return self
  configure self cfg := { self with cfg := cfg }
  setListening self l := { self with listen := l }

end TCPOverUDPSocketAdapter

/-! ## Random loss -/

/-- `LossyFdAdapter`, with the loss rates, which are members of the configuration that
nothing else reads, and the random numbers still to come. -/
structure LossyFdAdapter (α : Type) where
  adapter : α
  lossRateDn : UInt16 := 0
  lossRateUp : UInt16 := 0
  rand : Nat → UInt32

namespace LossyFdAdapter

/-- The generator is asked only if there is a loss rate. -/
def shouldDrop (self : LossyFdAdapter α) (uplink : Bool) : Bool × LossyFdAdapter α :=
  let loss := if uplink then self.lossRateUp else self.lossRateDn
  if loss = 0 then (false, self)
  else (decide ((self.rand 0).toUInt16 < loss), { self with rand := fun i => self.rand (i + 1) })

@[simp] theorem shouldDrop_adapter (self : LossyFdAdapter α) (uplink : Bool) :
    (self.shouldDrop uplink).2.adapter = self.adapter := by
  simp only [shouldDrop, apply_ite Prod.snd, apply_ite LossyFdAdapter.adapter, ite_self]

variable (A : FdAdapter α)

/-- The segment is lost after it was read. -/
def read (self : LossyFdAdapter α) : Call Failure (Option TCPSegment × LossyFdAdapter α) := do
  let (ret, adapter) ← A.read self.adapter
  let (drop, self) := { self with adapter := adapter }.shouldDrop false
  return (if drop then none else ret, self)

/-- A read is one of the adapter inside, whose segment may be dropped. -/
theorem read_returns {self self' : LossyFdAdapter α} (h : Returns (self.read A) (ret, self')) :
    ∃ seg, Returns (A.read self.adapter) (seg, self'.adapter) ∧ (ret = none ∨ ret = seg) := by
  obtain ⟨⟨seg, a⟩, hread, h⟩ := returns_bind_iff.mp h
  simp only [returns_pure_iff, Prod.mk.injEq] at h
  obtain ⟨rfl, rfl⟩ := h
  rw [shouldDrop_adapter]
  refine ⟨seg, hread, ?_⟩
  split
  · exact .inl rfl
  · exact .inr rfl

/-- A segment that is lost is not written at all. -/
def write (self : LossyFdAdapter α) (seg : TCPSegment) : Call Failure (LossyFdAdapter α) := do
  let (drop, self) := self.shouldDrop true
  if drop then return self
  else return { self with adapter := ← A.write self.adapter seg }

/-- A write is one of the adapter inside, unless it is dropped. -/
theorem write_returns {self self' : LossyFdAdapter α} (h : Returns (self.write A seg) self') :
    self'.adapter = self.adapter ∨ Returns (A.write self.adapter seg) self'.adapter := by
  simp only [write] at h
  split at h
  · rw [← returns_pure_iff.mp h]
    exact .inl (shouldDrop_adapter self true)
  · obtain ⟨a, hwrite, h⟩ := returns_bind_iff.mp h
    rw [shouldDrop_adapter] at hwrite
    rw [← returns_pure_iff.mp h]
    exact .inr hwrite

/-- The adapter with losses, for the event loop. -/
def lossy : FdAdapter (LossyFdAdapter α) where
  fd self := A.fd self.adapter
  read := read A
  write := write A
  tick self ms := do return { self with adapter := ← A.tick self.adapter ms }
  configure self cfg := { self with adapter := A.configure self.adapter cfg }
  setListening self l := { self with adapter := A.setListening self.adapter l }

end LossyFdAdapter

end Sponge
