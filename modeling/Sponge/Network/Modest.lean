import Sponge.Network

/-!
# Sponge.Network.Modest

The segments of an endpoint have a header of 20 bytes and at most 1000 bytes of
payload, so they always fit into a datagram.
-/

namespace Sponge

/-- A segment without options that is not too long. -/
structure TCPSegment.Modest (seg : TCPSegment) : Prop where
  doff_eq : seg.header.doff = 5
  payload_le : seg.payload.length ≤ TCPConfig.MAX_PAYLOAD_SIZE

namespace TCPSender

/-- `P` holds of all segments that the sender holds. -/
def All (P : TCPSegment → Prop) (s : TCPSender) : Prop :=
  ∀ seg, seg ∈ s.segmentsOut ∨ seg ∈ s.outstandingSegments → P seg

section
variable {P : TCPSegment → Prop} {s t : TCPSender}

/-- Every segment that is sent has the property. -/
theorem All.fillWindow (hP : ∀ s seg t, Transmit s seg t → P seg) (hs : s.All P) :
    s.fillWindow.All P := by
  obtain ⟨segs, hsegs⟩ := s.fillWindow_steps
  refine hsegs.preserves (P := All P) (fun u seg v hu h x hx => ?_) hs
  simp only [h.segmentsOut_eq, h.outstandingSegments_eq, List.mem_append, List.mem_singleton] at hx
  rcases hx with (hx | rfl) | (hx | rfl)
  · exact hu x (.inl hx)
  · exact hP u x v h
  · exact hu x (.inr hx)
  · exact hP u x v h

/-- So has what an acknowledgment sets free. -/
theorem All.absAckReceived (hP : ∀ s seg t, Transmit s seg t → P seg) (hs : s.All P) (a : Nat)
    (win : UInt16) : (s.absAckReceived a win).All P := by
  rcases absAckReceived_cases (t := s.absAckReceived a win) rfl with ⟨-, h⟩ |
      ⟨-, -, popped, u, hret, -, hend⟩
  · exact h ▸ hs
  have hu : u.All P := by
    have hout : s.outstandingSegments = popped ++ u.outstandingSegments :=
      hret.outstandingSegments_eq
    have hqueue : u.segmentsOut = s.segmentsOut := hret.segmentsOut_eq
    intro x hx
    refine hs x (hx.imp (fun hx => hqueue ▸ hx) fun hx => ?_)
    rw [hout]
    exact List.mem_append_right popped hx
  rcases hend with ⟨_, _, -, -, h⟩ | ⟨-, v, hv, h⟩
  · exact h ▸ hu
  · have hall : v.All P := by
      rw [← hv]
      split
      · exact hu
      · exact hu.fillWindow hP
    exact h ▸ hall

/-- The same of the raw number. -/
theorem All.ackReceived (hP : ∀ s seg t, Transmit s seg t → P seg) (hs : s.All P)
    (ackno : WrappingInt32) (win : UInt16) : (s.ackReceived ackno win).All P := by
  rw [TCPSender.ackReceived]
  exact hs.absAckReceived hP _ win

/-- What is sent again was sent before. -/
theorem All.tick (hs : s.All P) (ms : Nat) : (s.tick ms).All P := by
  rcases tick_cases (t := s.tick ms) rfl with ⟨_, h⟩ | ⟨seg, rest, _, _, _, hout, h⟩
  · exact h ▸ hs
  · rw [← h]
    intro x hx
    simp only [List.mem_append, List.mem_singleton] at hx
    rcases hx with (hx | rfl) | hx
    · exact hs x (.inl hx)
    · exact hs x (.inr (hout ▸ List.mem_cons_self))
    · exact hs x (.inr hx)

/-- An empty segment has the property. -/
theorem All.sendEmptySegment (hP : ∀ seqno, P { header := { seqno := seqno } }) (hs : s.All P) :
    s.sendEmptySegment.All P := by
  intro x hx
  simp only [TCPSender.sendEmptySegment, List.mem_append, List.mem_singleton] at hx
  rcases hx with (hx | rfl) | hx
  · exact hs x (.inl hx)
  · exact hP _
  · exact hs x (.inr hx)

end

/-- A segment that is sent is within the limits. -/
theorem Transmit.modest (h : Transmit s seg t) : seg.Modest where
  doff_eq := by rw [h.header_eq]; rfl
  payload_le := by
    rcases h.kind with ho | hc
    · simp [ho.payload_eq]
    · exact hc.payload_le

end TCPSender

/-- The acknowledgment does not make it longer. -/
theorem TCPSegment.Modest.stamp (h : seg.Modest) (r : TCPReceiver) :
    (TCPConnection.stamp r seg).Modest where
  doff_eq := by
    unfold TCPConnection.stamp
    cases r.ackno <;> exact h.doff_eq
  payload_le := by
    rw [TCPConnection.stamp_payload]
    exact h.payload_le

namespace Endpoint

/-- All segments of an endpoint are modest. -/
structure Modest (p : Endpoint) : Prop where
  sender : p.conn.sender.All TCPSegment.Modest
  queue : ∀ seg ∈ p.conn.segmentsOut, seg.Modest
  wire : ∀ seg ∈ p.wire, seg.Modest

/-- A new endpoint has sent nothing. -/
theorem modest_new (cfg : TCPConfig) (x : UInt32) : (new cfg x).Modest where
  sender := by simp [TCPSender.All, new, TCPConnection.new, TCPSender.new]
  queue := by simp [new, TCPConnection.new]
  wire := by simp [new]

/-- A change of the sender that keeps to modest segments. -/
theorem Modest.withSender {p : Endpoint} {s : TCPSender} (hp : p.Modest)
    (hs : s.All TCPSegment.Modest) : Modest { p with conn := { p.conn with sender := s } } :=
  ⟨hs, hp.queue, hp.wire⟩

/-- No part of a call sends what is too long. -/
theorem Modest.micro {p p' : Endpoint} {can : TCPConnection.Op → Prop} (hp : p.Modest)
    (hm : p.Micro fuel r₀ can p') : p'.Modest := by
  have htransmit : ∀ s seg t, TCPSender.Transmit s seg t → seg.Modest := fun _ _ _ h => h.modest
  have hs := hp.sender
  cases hm with
  | write data => exact ⟨hs, hp.queue, hp.wire⟩
  | read len => exact ⟨hs, hp.queue, hp.wire⟩
  | publish =>
      exact ⟨hs, hp.queue, fun seg hseg => (List.mem_append.mp hseg).elim (hp.wire seg) (hp.queue seg)⟩
  | conn op c _ _ hm =>
      cases hm with
      | fill => exact hp.withSender (hs.fillWindow htransmit)
      | write data => exact hp.withSender (TCPSender.All.fillWindow htransmit hs)
      | endInput => exact hp.withSender (TCPSender.All.fillWindow htransmit hs)
      | ack seg => exact hp.withSender (hs.ackReceived htransmit _ _)
      | tick ms => exact hp.withSender (hs.tick ms)
      | empty => exact hp.withSender (hs.sendEmptySegment fun _ => ⟨rfl, Nat.zero_le _⟩)
      | flush =>
          refine ⟨fun seg hseg => hs seg (.inr (hseg.resolve_left List.not_mem_nil)), ?_, hp.wire⟩
          intro seg hseg
          rcases List.mem_append.mp hseg with hold | hnew
          · exact hp.queue seg hold
          · obtain ⟨x, hx, rfl⟩ := List.mem_map.mp hnew
            exact (hs x (.inl hx)).stamp p.conn.receiver
      | sendRst =>
          refine ⟨hs, fun seg hseg => ?_, hp.wire⟩
          rw [List.mem_singleton.mp hseg]
          exact ⟨rfl, Nat.zero_le _⟩
      | dequeue => exact ⟨hs, fun seg hseg => hp.queue seg (List.mem_of_mem_tail hseg), hp.wire⟩
      | receive | read | reset | note => exact ⟨hs, hp.queue, hp.wire⟩

/-- **Each step** of an endpoint sends modest segments. -/
theorem Modest.of_step {p p' : Endpoint} {net : List TCPSegment} (hp : p.Modest)
    (h : p.step fuel net op = some p') : p'.Modest :=
  step_preserves (P := Modest) (step_eq_some.mp h).1 trivial hp (fun _ _ hu hm => hu.micro hm) h

end Endpoint

end Sponge
