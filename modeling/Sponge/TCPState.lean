import Sponge.TCPConnection

/-!
# Sponge.TCPState

The summary of a connection's state (`tcp_state.hh`, `tcp_state.cc`).  The
texts that name the states of the two halves are enumerations here.
-/

namespace Sponge

/-- The states of a receiver, as they are seen from outside. -/
inductive TCPReceiverStateSummary where
  | ERROR
  | LISTEN
  | SYN_RECV
  | FIN_RECV
  deriving DecidableEq, Repr

/-- The states of a sender, as they are seen from outside. -/
inductive TCPSenderStateSummary where
  | ERROR
  | CLOSED
  | SYN_SENT
  | SYN_ACKED
  | FIN_SENT
  | FIN_ACKED
  deriving DecidableEq, Repr

/-- The state of a connection. -/
structure TCPState where
  sender : TCPSenderStateSummary
  receiver : TCPReceiverStateSummary
  active : Bool
  lingerAfterStreamsFinish : Bool
  deriving DecidableEq, Repr

def TCPReceiver.stateSummary (receiver : TCPReceiver) : TCPReceiverStateSummary :=
  if receiver.streamOut.error then .ERROR
  else if receiver.ackno.isNone then .LISTEN
  else if receiver.streamOut.inputEnded then .FIN_RECV
  else .SYN_RECV

def TCPSender.stateSummary (sender : TCPSender) : TCPSenderStateSummary :=
  if sender.stream.error then .ERROR
  else if sender.nextSeqno = 0 then .CLOSED
  else if sender.nextSeqno = sender.bytesInFlight then .SYN_SENT
  else if !sender.stream.eof then .SYN_ACKED
  else if sender.nextSeqno < sender.stream.bytesWritten + 2 then .SYN_ACKED
  else if sender.bytesInFlight ≠ 0 then .FIN_SENT
  else .FIN_ACKED

namespace TCPState

/-- The names of the states in the standard. -/
inductive State where
  | LISTEN
  | SYN_RCVD
  | SYN_SENT
  | ESTABLISHED
  | CLOSE_WAIT
  | LAST_ACK
  | FIN_WAIT_1
  | FIN_WAIT_2
  | CLOSING
  | TIME_WAIT
  | CLOSED
  | RESET
  deriving DecidableEq, Repr

/-- The constructor of a `TCPState` from a name. -/
def ofState : State → TCPState
  | .LISTEN => ⟨.CLOSED, .LISTEN, true, true⟩
  | .SYN_RCVD => ⟨.SYN_SENT, .SYN_RECV, true, true⟩
  | .SYN_SENT => ⟨.SYN_SENT, .LISTEN, true, true⟩
  | .ESTABLISHED => ⟨.SYN_ACKED, .SYN_RECV, true, true⟩
  | .CLOSE_WAIT => ⟨.SYN_ACKED, .FIN_RECV, true, false⟩
  | .LAST_ACK => ⟨.FIN_SENT, .FIN_RECV, true, false⟩
  | .CLOSING => ⟨.FIN_SENT, .FIN_RECV, true, true⟩
  | .FIN_WAIT_1 => ⟨.FIN_SENT, .SYN_RECV, true, true⟩
  | .FIN_WAIT_2 => ⟨.FIN_ACKED, .SYN_RECV, true, true⟩
  | .TIME_WAIT => ⟨.FIN_ACKED, .FIN_RECV, true, true⟩
  | .RESET => ⟨.ERROR, .ERROR, false, false⟩
  | .CLOSED => ⟨.FIN_ACKED, .FIN_RECV, false, false⟩

end TCPState

/-! ## Names -/

def TCPReceiverStateSummary.text : TCPReceiverStateSummary → String
  | .ERROR => "error (connection was reset)"
  | .LISTEN => "waiting for SYN: ackno is empty"
  | .SYN_RECV => "SYN received (ackno exists), and input to stream hasn't ended"
  | .FIN_RECV => "input to stream has ended"

def TCPSenderStateSummary.text : TCPSenderStateSummary → String
  | .ERROR => "error (connection was reset)"
  | .CLOSED => "waiting for stream to begin (no SYN sent)"
  | .SYN_SENT => "stream started but nothing acknowledged"
  | .SYN_ACKED => "stream ongoing"
  | .FIN_SENT => "stream finished (FIN sent) but not fully acknowledged"
  | .FIN_ACKED => "stream finished and fully acknowledged"

/-- The name that is printed. -/
def TCPState.name (s : TCPState) : String :=
  "sender=`" ++ s.sender.text ++ "`, receiver=`" ++ s.receiver.text ++ "`, active=" ++
    toString s.active.toNat ++ ", linger_after_streams_finish=" ++
    toString s.lingerAfterStreamsFinish.toNat

/-- `TCPConnection::state`. -/
def TCPConnection.state (c : TCPConnection) : TCPState where
  sender := c.sender.stateSummary
  receiver := c.receiver.stateSummary
  active := c.active
  lingerAfterStreamsFinish := if c.active then c.lingerAfterStreamsFinish else false

end Sponge
