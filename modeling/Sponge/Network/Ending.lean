import Sponge.Network.Delivery
import Sponge.TCPConnection.Backoff

/-!
# Sponge.Network.Ending

The end of the inbound stream is the end of what the peer wrote.

On the receiving side, a stream at eof stays there: the end says how many bytes
there are, and all of them are assembled and read (`eof_of_later`).  On the
sending side, the FIN is the last thing sent, provided nothing is written once
the input has ended (`FinLast`), which a `ByteStream` by itself does not ensure.
-/

namespace Sponge

/-! ## Receiving -/

/-- What never goes back in a stream that is written, read and reset. -/
structure ByteStream.Later (s s' : ByteStream) : Prop where
  inputEnded_mono : s.inputEnded = true → s'.inputEnded = true
  error_mono : s.error = true → s'.error = true
  bytesRead_le : s.bytesRead ≤ s'.bytesRead

/-- Nothing has happened. -/
theorem ByteStream.Later.refl (s : ByteStream) : Later s s := ⟨id, id, Nat.le_refl _⟩

/-- One thing after the other. -/
theorem ByteStream.Later.trans {s t u : ByteStream} (h : Later s t) (h' : Later t u) :
    Later s u :=
  ⟨h'.inputEnded_mono ∘ h.inputEnded_mono, h'.error_mono ∘ h.error_mono,
    Nat.le_trans h.bytesRead_le h'.bytesRead_le⟩

/-- A read only moves on. -/
theorem ByteStream.later_read (s : ByteStream) (len : Nat) : Later s (s.read len).2 := by
  refine ⟨fun h => ?_, fun h => ?_, ?_⟩
  · rwa [ByteStream.read_inputEnded]
  · rwa [ByteStream.read_error]
  · rw [ByteStream.read_bytesRead]
    exact Nat.le_add_right _ _

/-- A segment only adds to the stream. -/
theorem TCPReceiver.segmentReceived_later {r r' : TCPReceiver}
    (h : r.segmentReceived fuel seg = some r') : r.streamOut.Later r'.streamOut := by
  have herror := segmentReceived_error h
  have hextends : r.streamOut.Extends r'.streamOut := by
    rcases segmentReceived_cases h with ⟨-, -, rfl⟩ | ⟨-, -, -, rfl⟩ | ⟨ra, -, -, hpush, rfl⟩
    · exact .refl _
    · rw [listen_streamOut]
      exact .refl _
    · rw [acknowledge_streamOut]
      exact (StreamReassembler.pushSubstring_pushes hpush).output_extends
  exact ⟨hextends.inputEnded_mono, fun he => herror.trans he, Nat.le_of_eq hextends.bytesRead_eq.symm⟩

/-- A change of something else. -/
theorem TCPConnection.inbound_later_of_receiver {c d : TCPConnection}
    (h : d.receiver = c.receiver) : c.inboundStream.Later d.inboundStream := by
  rw [inboundStream, inboundStream, h]
  exact .refl _

/-- No part of a call takes anything back. -/
theorem TCPConnection.Micro.inbound_later {c d : TCPConnection} (h : Micro fuel r₀ op c d) :
    c.inboundStream.Later d.inboundStream := by
  cases h with
  | receive seg _ r _ _ hr => exact TCPReceiver.segmentReceived_later hr
  | read len => exact ByteStream.later_read _ len
  | reset => exact ⟨id, fun _ => rfl, Nat.le_refl _⟩
  | fill | write | endInput | ack | tick | empty | flush | sendRst | note | dequeue =>
      exact inbound_later_of_receiver rfl

/-- What an operation does to the inbound stream. -/
theorem TCPConnection.step_inbound_later {c d : TCPConnection} (h : step fuel c op = some d) :
    c.inboundStream.Later d.inboundStream := by
  have hchain := step_micro h
  clear h
  induction hchain with
  | refl => exact .refl _
  | tail _ hm ih => exact ih.trans hm.inbound_later

/-- A connection that is over has had an error or all that the peer sends. -/
def TCPConnection.Over (c : TCPConnection) : Prop :=
  c.active = false → c.inboundStream.error = true ∨ c.inboundStream.inputEnded = true

/-- A connection that is over stays over. -/
theorem TCPConnection.Over.step {c d : TCPConnection} (hc : c.Over)
    (h : TCPConnection.step fuel c op = some d) : d.Over := by
  intro hd
  have hlater := step_inbound_later h
  have hkeep : c.active = false → _ := fun ha =>
    (hc ha).imp hlater.error_mono hlater.inputEnded_mono
  cases op with
  | segmentReceived seg =>
      rcases segmentReceived_cases h with ⟨-, rfl⟩ | ⟨-, r, -, rfl⟩
      · exact .inl rfl
      · exact hkeep (by simpa using hd)
  | tick ms =>
      rcases tick_cases h with rfl | rfl
      · unfold finish at hd
        split at hd
        · next hends =>
            simp only [checkInboundEnded, Bool.and_eq_true] at hends
            refine .inr ?_
            rw [inboundStream, finish_receiver]
            exact hends.1.2
        · exact hkeep hd
      · refine .inl ?_
        rw [inboundStream, finish_receiver]
        rfl
  | write data =>
      rw [TCPConnection.step, Option.some.injEq] at h
      refine hkeep ?_
      rw [← h, write] at hd
      split at hd <;> exact hd
  | connect | endInputStream | readInbound | dequeue =>
      rw [TCPConnection.step, Option.some.injEq] at h
      rw [← h] at hd
      exact hkeep hd

/-- Once the inbound stream is at eof, there is nothing more to come. -/
theorem Sound.eof_of_later {p p' q : Endpoint} (hp : Sound p q) (hp' : Sound p' q)
    (hlater : p.conn.inboundStream.Later p'.conn.inboundStream)
    (heof : p.conn.inboundStream.eof = true) : p'.conn.inboundStream.eof = true := by
  obtain ⟨hended, hempty⟩ := (ByteStream.eof_eq_true _).mp heof
  have hended' := hlater.inputEnded_mono hended
  have hall : p.conn.inboundStream.bytesWritten = _ := (hp.receives.windowed.ended hended).2
  have hall' : p'.conn.inboundStream.bytesWritten = _ := (hp'.receives.windowed.ended hended').2
  have hread := hlater.bytesRead_le
  have heq := p.conn.inboundStream.bytesWritten_eq
  have heq' := p'.conn.inboundStream.bytesWritten_eq
  exact (ByteStream.eof_eq_true _).mpr ⟨hended', by omega⟩

/-- At the end, all that the peer has sent was read, and the FIN is sent. -/
theorem Sound.consumed_of_eof {p q : Endpoint} (h : Sound p q)
    (heof : p.conn.inboundStream.eof = true) :
    p.consumed = q.outgoing.sent ∧ q.outgoing.fin = true := by
  obtain ⟨hended, hempty⟩ := (ByteStream.eof_eq_true _).mp heof
  obtain ⟨hfin, hall⟩ := h.receives.windowed.ended hended
  have hnil : p.conn.inboundStream.stream = [] := by
    rw [← List.length_eq_zero_iff, ByteStream.length_stream, hempty]
  have hconsumed : p.consumed ++ p.conn.inboundStream.stream = _ := h.receives.windowed.prefix_eq
  rw [hnil, List.append_nil, h.receives.windowed.next_eq, hall, List.take_length] at hconsumed
  exact ⟨hconsumed, hfin⟩

/-! ## Sending -/

/-- Nothing is left to send once the FIN is sent. -/
def TCPSender.FinLast (s : TCPSender) : Prop := s.finSent = true → s.stream.eof = true

namespace TCPSender

variable {s t : TCPSender}

/-- It is about the flag and the stream only. -/
theorem FinLast.congr (h : s.FinLast) (hfin : t.finSent = s.finSent) (hstream : t.stream = s.stream) :
    t.FinLast := by
  rw [FinLast, hfin, hstream]
  exact h

/-- The FIN is sent only when the stream is at its end. -/
theorem FinLast.fillWindow (h : s.FinLast) : s.fillWindow.FinLast := by
  obtain ⟨segs, hsegs⟩ := s.fillWindow_steps
  refine hsegs.preserves (P := FinLast) (fun u seg v _ htr => ?_) h
  rcases htr.kind with ho | hc
  · simp [FinLast, ho.finSent_eq]
  · intro hfin
    exact hc.eof_of_fin (hc.finSent_eq ▸ hfin)

/-- An acknowledgment sends what fits in the window. -/
theorem FinLast.absAckReceived (h : s.FinLast) (a : Nat) (win : UInt16) :
    (s.absAckReceived a win).FinLast := by
  rcases absAckReceived_cases (t := s.absAckReceived a win) rfl with ⟨-, heq⟩ |
      ⟨-, -, popped, u, hret, -, hend⟩
  · exact heq ▸ h
  have hu : u.FinLast := by
    have hfin : u.finSent = s.finSent := hret.finSent_eq
    have hstream : u.stream = s.stream := hret.stream_eq
    exact h.congr hfin hstream
  rcases hend with ⟨_, _, -, -, heq⟩ | ⟨-, v, hv, heq⟩
  · exact heq ▸ hu
  · have hlast : v.FinLast := by
      rw [← hv]
      split
      · exact hu
      · exact hu.fillWindow
    exact heq ▸ hlast

/-- The same of the raw number. -/
theorem FinLast.ackReceived (h : s.FinLast) (ackno : WrappingInt32) (win : UInt16) :
    (s.ackReceived ackno win).FinLast := by
  rw [TCPSender.ackReceived]
  exact h.absAckReceived _ win

end TCPSender

namespace TCPConnection

/-- Where the outbound stream stands: `ended` says whether its input has ended. -/
structure Outbound (ended : Bool) (c : TCPConnection) : Prop where
  inputEnded_eq : c.sender.stream.inputEnded = ended
  finLast : c.sender.FinLast

/-- A change of the sender. -/
theorem outbound_sender {c : TCPConnection} {s : TCPSender} (h : s.stream.inputEnded = ended)
    (hlast : s.FinLast) : Outbound ended { c with sender := s } := ⟨h, hlast⟩

/-- To send does not end the input. -/
theorem inputEnded_fillWindow (s : TCPSender) :
    s.fillWindow.stream.inputEnded = s.stream.inputEnded :=
  TCPSender.fillWindow_stream (f := ByteStream.inputEnded) (fun b len => b.read_inputEnded len) s

/-- Every small change but those of `write` and `end_input_stream`. -/
theorem Outbound.micro {c d : TCPConnection} (h : Outbound ended c) (hm : Micro fuel r₀ op c d)
    (hwrite : ∀ data, op ≠ .write data) (hend : op ≠ .endInputStream) : Outbound ended d := by
  cases hm with
  | fill => exact outbound_sender ((inputEnded_fillWindow _).trans h.inputEnded_eq) h.finLast.fillWindow
  | write data => exact absurd rfl (hwrite data)
  | endInput => exact absurd rfl hend
  | ack seg =>
      refine outbound_sender (Eq.trans ?_ h.inputEnded_eq) (h.finLast.ackReceived _ _)
      exact TCPSender.ackReceived_stream (f := ByteStream.inputEnded)
        (fun b len => b.read_inputEnded len) _ _ _
  | tick ms =>
      obtain ⟨-, -, -, -, -, -, hstream, hfin, -⟩ := c.sender.tick_frame ms
      exact outbound_sender (hstream ▸ h.inputEnded_eq) (h.finLast.congr hfin hstream)
  | reset => exact ⟨h.inputEnded_eq, h.finLast⟩
  | empty | flush | receive | read | sendRst | note | dequeue =>
      exact ⟨h.inputEnded_eq, h.finLast⟩

/-- Only the owner ends the stream. -/
theorem Outbound.step {c d : TCPConnection} (h : Outbound ended c) (hstep : step fuel c op = some d)
    (hwrite : ∀ data, op ≠ .write data) (hend : op ≠ .endInputStream) : Outbound ended d := by
  have hchain := step_micro hstep
  clear hstep
  induction hchain with
  | refl => exact h
  | tail _ hm ih => exact ih.micro hm hwrite hend

/-- The owner ends the stream. -/
theorem Outbound.endInputStream {c : TCPConnection} (h : Outbound ended c) :
    Outbound true c.endInputStream := by
  have hlast : TCPSender.FinLast { c.sender with stream := c.sender.stream.endInput } := by
    intro hfin
    have heof := (ByteStream.eof_eq_true _).mp (h.finLast hfin)
    exact (ByteStream.eof_eq_true _).mpr ⟨rfl, heof.2⟩
  exact ⟨inputEnded_fillWindow _, hlast.fillWindow⟩

/-- A write before the end. -/
theorem Outbound.write {c : TCPConnection} (h : Outbound false c) (data : List UInt8) :
    Outbound false (c.write data).2 := by
  have hopen : c.sender.finSent = false := by
    by_contra hfin
    have heof := (ByteStream.eof_eq_true _).mp (h.finLast (by simpa using hfin))
    rw [h.inputEnded_eq] at heof
    exact absurd heof.1 (by simp)
  unfold TCPConnection.write
  split
  · exact h
  · have hlast : TCPSender.FinLast { c.sender with
        stream := (c.sender.stream.write data).2 } := fun hfin => absurd hfin (by simp [hopen])
    refine ⟨(inputEnded_fillWindow _).trans ?_, hlast.fillWindow⟩
    exact (ByteStream.write_inputEnded _ _).trans h.inputEnded_eq

end TCPConnection

/-- All that was written is sent once the FIN is. -/
theorem Sound.sent_of_fin {p q : Endpoint} (h : Sound p q)
    (hout : p.conn.Outbound ended) (hfin : p.outgoing.fin = true) :
    p.outgoing.sent = p.written ∧ ended = true := by
  obtain ⟨hended, hempty⟩ := (ByteStream.eof_eq_true _).mp (hout.finLast hfin)
  have hlen := h.sends.length_eq
  have heq := p.conn.sender.stream.bytesWritten_eq
  refine ⟨?_, hout.inputEnded_eq ▸ hended⟩
  show p.written.take p.conn.sender.stream.bytesRead = p.written
  exact List.take_of_length_le (by omega)

end Sponge
