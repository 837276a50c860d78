import Sponge.Network.Ending
import Sponge.TCPSpongeSocket.Simulation

/-!
# Sponge.TCPSpongeSocket.Closing

What the flags of a socket say about its connection (`Closes`).  The outbound
direction is shut down just when the input of the outbound stream has ended, and
nothing is taken from the owner after that; the inbound direction is shut down
only at the end of the inbound stream, or after an error.
-/

namespace Sponge

namespace TCPSpongeSocket

/-- What the flags say about the connection. -/
structure Closes (s : TCPSpongeSocket α) : Prop where
  finished : s.tcp.Over
  outbound : s.tcp.Outbound s.outboundShutdown
  inbound : s.inboundShutdown = true →
    s.tcp.inboundStream.error = true ∨ s.tcp.inboundStream.eof = true

variable {A : FdAdapter α} {s s' : TCPSpongeSocket α}

/-- A move is an operation of the connection, or none. -/
theorem Move.tcp (h : Move A fuel s s') :
    s'.tcp = s.tcp ∨ ∃ op, TCPConnection.step fuel s.tcp op = some s'.tcp := by
  cases h with
  | nothing | acked | shut => exact .inl rfl
  | receive seg a tcp _ htcp => exact .inr ⟨.segmentReceived seg, htcp⟩
  | take data => exact .inr ⟨.write data, rfl⟩
  | finish => exact .inr ⟨.endInputStream, rfl⟩
  | give n => exact .inr ⟨.readInbound n, congrArg some (s.tcp.popInbound_eq n).symm⟩
  | send seg segs a hout =>
      refine .inr ⟨.dequeue, ?_⟩
      rw [TCPConnection.step, hout]
      rfl
  | tick ms tcp a _ htcp => exact .inr ⟨.tick ms, htcp⟩

/-- No move takes anything back. -/
theorem Move.inbound_later (h : Move A fuel s s') :
    s.tcp.inboundStream.Later s'.tcp.inboundStream := by
  rcases h.tcp with heq | ⟨op, hop⟩
  · exact TCPConnection.inbound_later_of_receiver (by rw [heq])
  · exact TCPConnection.step_inbound_later hop

/-- What is over stays over. -/
theorem Move.finished (h : Move A fuel s s') (hs : s.tcp.Over) : s'.tcp.Over := by
  rcases h.tcp with heq | ⟨op, hop⟩
  · rw [heq]
    exact hs
  · exact hs.step hop

/-- The outbound stream and its flag. -/
theorem Move.outbound (h : Move A fuel s s') (hs : s.tcp.Outbound s.outboundShutdown) :
    s'.tcp.Outbound s'.outboundShutdown := by
  cases h with
  | nothing | acked | shut => exact hs
  | receive seg a tcp _ htcp =>
      have hstep : TCPConnection.step fuel s.tcp (.segmentReceived seg) = some tcp := htcp
      exact hs.step hstep nofun nofun
  | take data hopen =>
      rw [hopen] at hs
      show TCPConnection.Outbound s.outboundShutdown _
      rw [hopen]
      exact hs.write data
  | finish => exact hs.endInputStream
  | give n => exact ⟨hs.inputEnded_eq, hs.finLast⟩
  | send => exact ⟨hs.inputEnded_eq, hs.finLast⟩
  | tick ms tcp a _ htcp =>
      have hstep : TCPConnection.step fuel s.tcp (.tick ms) = some tcp := htcp
      exact hs.step hstep nofun nofun

/-- Where a stream at eof stays at eof, a move keeps the flags right. -/
theorem Closes.move (hs : s.Closes) (h : Move A fuel s s')
    (heof : s.tcp.inboundStream.eof = true → s'.tcp.inboundStream.eof = true) : s'.Closes := by
  refine ⟨h.finished hs.finished, h.outbound hs.outbound, fun hshut => ?_⟩
  have hkeep : s.inboundShutdown = true →
      s'.tcp.inboundStream.error = true ∨ s'.tcp.inboundStream.eof = true :=
    fun hs' => (hs.inbound hs').imp h.inbound_later.error_mono heof
  cases h with
  | shut threadData hend =>
      rw [Bool.or_eq_true] at hend
      exact hend.symm
  | nothing | receive | acked | take | finish | give | send | tick => exact hkeep hshut

/-- At first no flag is set. -/
theorem closes_start {o : Opening} {threadData : FileDescriptor} {adapter : α} {h : Host α}
    (hstart : Returns (start A fuel o threadData adapter) h) : h.running.sock.Closes := by
  have hover : (TCPConnection.new o.cTcp o.random).Over := nofun
  have hnew : (TCPConnection.new o.cTcp o.random).Outbound false := ⟨rfl, nofun⟩
  obtain ⟨-, htcp, -, hin, hout⟩ := start_returns A fuel hstart
  have hshut : h.running.sock.inboundShutdown = true →
      h.running.sock.tcp.inboundStream.error = true ∨
        h.running.sock.tcp.inboundStream.eof = true :=
    fun hshut => absurd hshut (by simp [hin])
  rcases htcp with ⟨htcp, -⟩ | ⟨htcp, -⟩
  · have hstep : TCPConnection.step fuel (TCPConnection.new o.cTcp o.random) .connect =
        some h.running.sock.tcp := congrArg some htcp.symm
    exact ⟨hover.step hstep, hout ▸ hnew.step hstep nofun nofun, hshut⟩
  · exact ⟨htcp ▸ hover, htcp ▸ hout ▸ hnew, hshut⟩

end TCPSpongeSocket

end Sponge
