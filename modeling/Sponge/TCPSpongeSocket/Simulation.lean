import Sponge.Network
import Sponge.TCPSpongeSocket.Moves

/-!
# Sponge.TCPSpongeSocket.Simulation

A socket is an endpoint: every move of its thread is one operation of a
`Sponge.Endpoint`, or none.  What the endpoint has written is what the thread
has read from the owner, what it has consumed is what the thread has written to
the owner, and what it has on the wire is at least what was handed to the
adapter.

What the adapter returns is a segment of the peer up to ports and checksum,
which a connection does not look at (`segmentReceived_same`).
-/

namespace Sponge

/-- The segments are the same up to what an adapter fills in. -/
structure TCPSegment.Same (seg w : TCPSegment) : Prop where
  payload : seg.payload = w.payload
  header : { seg.header with
    sport := w.header.sport, dport := w.header.dport, cksum := w.header.cksum } = w.header

/-- The segment with these fields filled in. -/
def TCPSegment.filled (seg : TCPSegment) (sport dport cksum : UInt16) : TCPSegment :=
  { seg with header := { seg.header with sport := sport, dport := dport, cksum := cksum } }

/-- The ports and the checksum are all that differs. -/
theorem TCPSegment.Same.filled_eq {seg w : TCPSegment} (h : seg.Same w) :
    seg.filled w.header.sport w.header.dport w.header.cksum = w := by
  rw [filled, h.header, h.payload]

/-- A connection does not look at ports and checksum. -/
theorem TCPConnection.segmentReceived_filled (fuel : Nat) (c : TCPConnection) (seg : TCPSegment)
    (sport dport cksum : UInt16) :
    c.segmentReceived fuel (seg.filled sport dport cksum) = c.segmentReceived fuel seg := rfl

/-- A connection does not look at them. -/
theorem TCPConnection.segmentReceived_same {seg w : TCPSegment} (h : seg.Same w) (fuel : Nat)
    (c : TCPConnection) : c.segmentReceived fuel seg = c.segmentReceived fuel w := by
  rw [← h.filled_eq, segmentReceived_filled]

/-- To remove bytes is to read them. -/
theorem ByteStream.popOutput_eq_read (s : ByteStream) (len : Nat) :
    s.popOutput len = (s.read len).2 := by
  by_cases hlen : len = 0
  · subst hlen
    cases s
    simp [read, popOutput]
  · simp [read, hlen]

/-- Popping is reading what is popped. -/
theorem TCPConnection.popInbound_eq (c : TCPConnection) (n : Nat) :
    c.popInbound n = (c.readInbound n).2 := by
  rw [popInbound, ByteStream.popOutput_eq_read]
  rfl

namespace TCPSpongeSocket

/-- The endpoint is at the point where the socket is. -/
structure Follows (p : Endpoint) (s : TCPSpongeSocket α) : Prop where
  conn : p.conn = s.tcp
  written : p.written = s.threadData.got
  consumed : p.consumed = s.threadData.put.flatten
  queued : ∀ seg ∈ s.tcp.segmentsOut, seg ∈ p.wire

variable {A : FdAdapter α} {s s' : TCPSpongeSocket α} {p : Endpoint} {wire : List TCPSegment}

/-- An operation of the connection that has to do with neither stream. -/
theorem Follows.quiet (h : Follows p s) (op : TCPConnection.Op)
    (hcan : Endpoint.CanHappen wire op) (hquiet : Endpoint.Quiet op)
    (hop : TCPConnection.step fuel s.tcp op = some s'.tcp)
    (hgot : s'.threadData.got = s.threadData.got) (hput : s'.threadData.put = s.threadData.put) :
    ∃ p', p.step fuel wire op = some p' ∧ Follows p' s' := by
  have hnone : Endpoint.accepted p.conn op = [] ∧ Endpoint.taken p.conn op = [] := by
    cases op <;> first | exact ⟨rfl, rfl⟩ | exact hquiet.elim
  refine ⟨_, Endpoint.step_eq_some.mpr ⟨hcan, s'.tcp, h.conn ▸ hop, rfl⟩, rfl, ?_, ?_, ?_⟩
  · rw [hnone.1, List.append_nil, h.written, hgot]
  · rw [hnone.2, List.append_nil, h.consumed, hput]
  · exact fun seg hseg => List.mem_append_right p.wire hseg

/-- **Each move** is an operation of the endpoint, or nothing to it, as long as the
adapter returns what the peer has on the wire. -/
theorem Follows.move (h : Follows p s) (hmove : Move A fuel s s')
    (hread : ∀ seg a, Returns (A.read s.datagramAdapter) (some seg, a) → ∃ w ∈ wire, seg.Same w) :
    Follows p s' ∨ ∃ op p', p.step fuel wire op = some p' ∧ Follows p' s' := by
  cases hmove with
  | nothing | acked => exact .inl ⟨h.conn, h.written, h.consumed, h.queued⟩
  | shut threadData _ hshut =>
      rw [FileDescriptor.shutdown_returns hshut]
      exact .inl ⟨h.conn, h.written, h.consumed, h.queued⟩
  | receive seg a tcp hseg htcp =>
      obtain ⟨w, hw, hsame⟩ := hread seg a hseg
      rw [TCPConnection.segmentReceived_same hsame] at htcp
      exact .inr ⟨_, h.quiet (.segmentReceived w) hw trivial htcp rfl rfl⟩
  | finish => exact .inr ⟨_, h.quiet .endInputStream trivial trivial rfl rfl rfl⟩
  | send seg segs a hout =>
      refine .inr ⟨_, h.quiet .dequeue trivial trivial ?_ rfl rfl⟩
      rw [TCPConnection.step, hout]
      rfl
  | tick ms tcp a _ htcp =>
      exact .inr ⟨_, h.quiet (.tick ms) trivial trivial htcp rfl rfl⟩
  | take data _ hlen =>
      refine .inr ⟨.write data, _, Endpoint.step_eq_some.mpr ⟨trivial, _, rfl, rfl⟩, ?_⟩
      have hall := TCPConnection.write_all hlen
      rw [h.conn]
      refine ⟨rfl, ?_, ?_, fun seg hseg => List.mem_append_right p.wire hseg⟩
      · show p.written ++ data.take (s.tcp.write data).1 = s.threadData.got ++ data
        rw [hall, List.take_length, h.written]
      · show p.consumed ++ [] = _
        rw [List.append_nil, h.consumed]
        rfl
  | give n hn =>
      refine .inr ⟨.readInbound n, _, Endpoint.step_eq_some.mpr ⟨trivial, _, rfl, rfl⟩, ?_⟩
      rw [h.conn]
      refine ⟨(s.tcp.popInbound_eq n).symm, ?_, ?_, fun seg hseg => ?_⟩
      · show p.written ++ [] = _
        rw [List.append_nil, h.written]
        rfl
      · show p.consumed ++ (s.tcp.inboundStream.read n).1 = (s.threadData.put ++ _).flatten
        rw [ByteStream.read_fst, h.consumed, List.flatten_append, List.flatten_cons,
          List.flatten_nil, List.append_nil]
      · exact List.mem_append_left _ (h.queued seg hseg)

end TCPSpongeSocket

end Sponge
