import Sponge.EventLoop
import Sponge.FdAdapter
import Sponge.Lib.Run
import Sponge.TCPState

/-!
# Sponge.TCPSpongeSocket

The socket (`tcp_sponge_socket.hh`, `tcp_sponge_socket.cc`): a thread that runs
a `TCPConnection` between the owner, at the other end of a stream socket pair,
and a network, behind an adapter.  Four rules of an event loop move what there
is to move, and every turn of the loop ends with a tick.

The class is a template, and so is the model: it is given the members of the
adapter as an argument.  What is written to `cerr` is left out.  The turns of
`_tcp_loop` are given what comes from outside: the answer of `poll`, whether the
owner has set `_abort`, and the time.
-/

namespace Sponge

/-- `remaining_outbound_capacity`. -/
def TCPConnection.remainingOutboundCapacity (c : TCPConnection) : Nat :=
  c.sender.stream.remainingCapacity

/-- `inbound_stream().pop_output(len)`. -/
def TCPConnection.popInbound (c : TCPConnection) (len : Nat) : TCPConnection :=
  { c with receiver := { c.receiver with reassembler := { c.receiver.reassembler with
      output := c.receiver.reassembler.output.popOutput len } } }

/-- All that fits is written. -/
theorem TCPConnection.write_all {c : TCPConnection}
    (h : data.length ≤ c.remainingOutboundCapacity) : (c.write data).1 = data.length := by
  unfold write
  split
  · next hnil => exact hnil.symm
  · simp only [ByteStream.write_fst]
    exact Nat.min_eq_left h

open EventLoop (Rule PollAnswer waitNextEvent)

/-- The members that the thread uses. -/
structure TCPSpongeSocket (α : Type) where
  tcp : TCPConnection
  threadData : FileDescriptor
  datagramAdapter : α
  inboundShutdown : Bool := false
  outboundShutdown : Bool := false
  fullyAcked : Bool := false

namespace TCPSpongeSocket

/-- Thrown when a write does not take what there was room for. -/
def acceptedLess : Failure := .exception (.runtimeError
  "TCPConnection::write() accepted less than advertised length")

section
variable (A : FdAdapter α) (fuel : Nat)

/-! ## The rules -/

/-- The end of the callback of rule 1, whose text is for debugging. -/
def noteFullyAcked (s : TCPSpongeSocket α) : TCPSpongeSocket α :=
  if s.threadData.eof && s.tcp.bytesInFlight == 0 && !s.fullyAcked then
    { s with fullyAcked := true }
  else s

/-- Rule 1: read from filtered packet stream and dump into TCPConnection. -/
def rule1 : Rule (TCPSpongeSocket α) where
  fd s := A.fd s.datagramAdapter
  direction := .In
  callback s := do
    let (seg, adapter) ← A.read s.datagramAdapter
    let s := { s with datagramAdapter := adapter }
    match seg with
    | none => return s.noteFullyAcked
    | some seg => do
        let tcp ← Call.ofOption (s.tcp.segmentReceived fuel seg)
        return { s with tcp := tcp }.noteFullyAcked
  interest s := s.tcp.active
  cancel := pure

/-- What is done when the owner has no more to send. -/
def endOutbound (s : TCPSpongeSocket α) : TCPSpongeSocket α :=
  { s with tcp := s.tcp.endInputStream, outboundShutdown := true }

/-- Rule 2: read from pipe into outbound buffer. -/
def rule2 : Rule (TCPSpongeSocket α) where
  fd s := s.threadData.toFDWrapper
  direction := .In
  callback s := do
    let (data, threadData) ← s.threadData.read s.tcp.remainingOutboundCapacity
    let (amountWritten, tcp) := s.tcp.write data
    let s := { s with threadData := threadData, tcp := tcp }
    if amountWritten ≠ data.length then throw acceptedLess
    else if s.threadData.eof then return s.endOutbound
    else return s
  interest s := s.tcp.active && !s.outboundShutdown && decide (s.tcp.remainingOutboundCapacity > 0)
  cancel s := return s.endOutbound

/-- Rule 3: read from inbound buffer into pipe. -/
def rule3 : Rule (TCPSpongeSocket α) where
  fd s := s.threadData.toFDWrapper
  direction := .Out
  callback s := do
    let inbound := s.tcp.inboundStream
    let amountToWrite := min 65536 inbound.bufferSize
    let buffer := inbound.peekOutput amountToWrite
    let (bytesWritten, threadData) ← s.threadData.write [buffer] false
    let s := { s with threadData := threadData, tcp := s.tcp.popInbound bytesWritten }
    if s.tcp.inboundStream.eof || s.tcp.inboundStream.error then do
      let threadData ← s.threadData.shutdown .SHUT_WR
      return { s with threadData := threadData, inboundShutdown := true }
    else return s
  interest s := !s.tcp.inboundStream.bufferEmpty ||
    ((s.tcp.inboundStream.eof || s.tcp.inboundStream.error) && !s.inboundShutdown)
  cancel := pure

/-- The loop of rule 4 over `segments_out`. -/
def sendSegments : List TCPSegment → TCPSpongeSocket α → Call Failure (TCPSpongeSocket α)
  | [], s => return s
  | seg :: segs, s => do
      let adapter ← A.write s.datagramAdapter seg
      sendSegments segs { s with
        datagramAdapter := adapter, tcp := { s.tcp with segmentsOut := segs } }

/-- Rule 4: read outbound segments from TCPConnection and send as datagrams. -/
def rule4 : Rule (TCPSpongeSocket α) where
  fd s := A.fd s.datagramAdapter
  direction := .Out
  callback s := sendSegments A s.tcp.segmentsOut s
  interest s := !s.tcp.segmentsOut.isEmpty
  cancel := pure

def rules : List (Rule (TCPSpongeSocket α)) := [rule1 A fuel, rule2, rule3, rule4 A]

variable {A fuel} in
/-- The four rules. -/
theorem mem_rules {r : Rule (TCPSpongeSocket α)} : r ∈ rules A fuel ↔
    r = rule1 A fuel ∨ r = rule2 ∨ r = rule3 ∨ r = rule4 A := by
  simp [rules]

/-! ## The loop -/

/-- A socket whose event loop has been set up, with the time of its last tick. -/
structure Running (α : Type) where
  rules : List (Rule (TCPSpongeSocket α))
  sock : TCPSpongeSocket α
  baseTime : Nat

/-- What comes from outside in one turn. -/
structure Turn where
  answer : PollAnswer
  abort : Bool := false
  nextTime : Nat

/-- One turn of `_tcp_loop`: `false` if the loop ends. -/
def turn (h : Running α) (t : Turn) : Call Failure (Bool × Running α) := do
  let (ret, rules, sock) ← waitNextEvent h.rules h.sock t.answer
  let h := { h with rules := rules, sock := sock }
  if ret == .Exit || t.abort then return (false, h)
  else if h.sock.tcp.active then do
    let ms := (t.nextTime + 2 ^ 64 - h.baseTime) % 2 ^ 64
    let tcp ← Call.ofOption (h.sock.tcp.tick fuel ms)
    let adapter ← A.tick h.sock.datagramAdapter ms
    return (true, { h with
      sock := { h.sock with tcp := tcp, datagramAdapter := adapter }, baseTime := t.nextTime })
  else return (true, h)

/-- `_tcp_loop`, for as long as the turns reach. -/
def tcpLoop (condition : TCPConnection → Bool) : List Turn → Running α → Call Failure (Running α)
  | turns, h =>
      if condition h.sock.tcp then
        match turns with
        | [] => .outOfFuel
        | t :: turns => do
            let (goes, h) ← turn A fuel h t
            if goes then tcpLoop condition turns h else return h
      else return h

/-! ## Opening -/

/-- The loops that a socket goes through: that of `connect` or `listen_and_accept`, and then
that of `_tcp_main`. -/
inductive Phase where
  | connecting
  | listening
  | main
  deriving DecidableEq, Repr

/-- How long the loop goes on. -/
def Phase.condition : Phase → TCPConnection → Bool
  | .connecting, tcp => tcp.state == .ofState .SYN_SENT
  | .listening, tcp =>
      tcp.state == .ofState .LISTEN || tcp.state == .ofState .SYN_RCVD ||
        tcp.state == .ofState .SYN_SENT
  | .main, _ => true

/-- A socket that is open, and whether its loop was left before the condition failed. -/
structure Host (α : Type) where
  running : Running α
  phase : Phase
  left : Bool := false

/-- The configurations for a socket, with the number that `random_device` returns and the
time; `passive` sockets listen. -/
structure Opening where
  cTcp : TCPConfig
  cAd : FdAdapterConfig
  passive : Bool
  random : UInt32 := 0
  time : Nat := 0

def unexpectedState (s : TCPState) : Failure := .exception (.runtimeError
  ("After TCPConnection::connect(), state was " ++ s.name ++ " but expected " ++
    (TCPState.ofState .SYN_SENT).name))

/-- `connect`, up to its loop. -/
def connect (o : Opening) (threadData : FileDescriptor) (adapter : α) :
    Call Failure (Host α) := do
  let tcp := (TCPConnection.new o.cTcp o.random).connect
  if tcp.state ≠ .ofState .SYN_SENT then throw (unexpectedState tcp.state)
  else return {
    running := {
      rules := rules A fuel
      sock := { tcp := tcp, threadData := threadData, datagramAdapter := A.configure adapter o.cAd }
      baseTime := o.time }
    phase := .connecting }

/-- `listen_and_accept`, up to its loop. -/
def listenAndAccept (o : Opening) (threadData : FileDescriptor) (adapter : α) : Host α where
  running := {
    rules := rules A fuel
    sock := {
      tcp := TCPConnection.new o.cTcp o.random
      threadData := threadData
      datagramAdapter := A.setListening (A.configure adapter o.cAd) true }
    baseTime := o.time }
  phase := .listening

/-- `connect` or `listen_and_accept`. -/
def start (o : Opening) (threadData : FileDescriptor) (adapter : α) : Call Failure (Host α) :=
  if o.passive then return listenAndAccept A fuel o threadData adapter
  else connect A fuel o threadData adapter

/-- After `connect` the state is the expected one, whatever the configuration. -/
theorem exists_start (o : Opening) (threadData : FileDescriptor) (adapter : α) :
    ∃ h, Returns (start A fuel o threadData adapter) h := by
  have hstate : (TCPConnection.new o.cTcp o.random).connect.state = .ofState .SYN_SENT := rfl
  unfold start connect
  split
  · exact ⟨_, returns_pure_iff.mpr rfl⟩
  · rw [if_neg (not_not_intro hstate)]
    exact ⟨_, returns_pure_iff.mpr rfl⟩

/-- The socket when the thread starts: the SYN is queued, or the connection listens. -/
theorem start_returns {o : Opening} {threadData : FileDescriptor} {adapter : α} {h : Host α}
    (hstart : Returns (start A fuel o threadData adapter) h) :
    h.running.rules = rules A fuel ∧
      ((h.running.sock.tcp = (TCPConnection.new o.cTcp o.random).connect ∧
          h.running.sock.datagramAdapter = A.configure adapter o.cAd) ∨
        (h.running.sock.tcp = TCPConnection.new o.cTcp o.random ∧
          h.running.sock.datagramAdapter = A.setListening (A.configure adapter o.cAd) true)) ∧
      h.running.sock.threadData = threadData ∧
      h.running.sock.inboundShutdown = false ∧ h.running.sock.outboundShutdown = false := by
  unfold start at hstart
  split at hstart
  · rw [← returns_pure_iff.mp hstart]
    exact ⟨rfl, .inr ⟨rfl, rfl⟩, rfl, rfl, rfl⟩
  · simp only [connect] at hstart
    split at hstart
    · exact absurd hstart not_returns_throw
    · rw [← returns_pure_iff.mp hstart]
      exact ⟨rfl, .inl ⟨rfl, rfl⟩, rfl, rfl, rfl⟩

end

end TCPSpongeSocket

end Sponge
