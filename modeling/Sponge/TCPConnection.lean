import Mathlib.Logic.Relation
import Sponge.TCPReceiver
import Sponge.TCPSender

/-!
# Sponge.TCPConnection

A complete endpoint (`tcp_connection.hh`, `tcp_connection.cc`): a sender and a
receiver, the queue of segments for the network, and the rules for resets and
for the end of the connection.

The operations are followed by a list of the small changes they are made of
(`Micro`).  An operation is a chain of them (`step_micro`), so an invariant
is proved once for each small change and holds for all operations.
-/

namespace Sponge

/-- The members of the class. -/
structure TCPConnection where
  cfg : TCPConfig
  receiver : TCPReceiver
  sender : TCPSender
  segmentsOut : List TCPSegment
  lingerAfterStreamsFinish : Bool
  active : Bool
  lastTickTime : Nat

namespace TCPConnection

/-- A connection; `random` is what `random_device` returns to its sender. -/
def new (cfg : TCPConfig) (random : UInt32) : TCPConnection where
  cfg := cfg
  receiver := TCPReceiver.new cfg.recvCapacity
  sender := TCPSender.new cfg.sendCapacity cfg.rtTimeout cfg.fixedIsn random
  segmentsOut := []
  lingerAfterStreamsFinish := true
  active := true
  lastTickTime := 0

def inboundStream (c : TCPConnection) : ByteStream := c.receiver.streamOut

def bytesInFlight (c : TCPConnection) : Nat := c.sender.bytesInFlight

def unassembledBytes (c : TCPConnection) : Nat := c.receiver.unassembledBytes

/-- All of the inbound stream is assembled, and it has ended. -/
def checkInboundEnded (c : TCPConnection) : Bool :=
  c.receiver.unassembledBytes == 0 && c.receiver.streamOut.inputEnded

/-- All of the outbound stream, with its SYN and FIN, is acknowledged. -/
def checkOutboundEnded (c : TCPConnection) : Bool :=
  c.sender.stream.eof && c.sender.nextSeqno == c.sender.stream.bytesWritten + 2 &&
    c.sender.bytesInFlight == 0

/-! ## The operations -/

/-- What `send_segments_out` fills in: the acknowledgment number, once there is
one, and the window. -/
def stamp (r : TCPReceiver) (seg : TCPSegment) : TCPSegment :=
  let seg : TCPSegment :=
    match r.ackno with
    | some ackno => { seg with header := { seg.header with ack := true, ackno := ackno } }
    | none => seg
  { seg with header := { seg.header with win := UInt16.ofNat r.windowSize } }

/-- The loop takes the segments off the sender's queue one after the other; neither
the receiver nor anything else changes meanwhile. -/
def sendSegmentsOut (c : TCPConnection) : Bool × TCPConnection :=
  (!c.sender.isEmpty,
    { c with
      segmentsOut := c.segmentsOut ++ c.sender.segmentsOut.map (stamp c.receiver)
      sender := { c.sender with segmentsOut := [] } })

/-- What a RST does: both streams get an error and the connection is over. -/
def reset (c : TCPConnection) : TCPConnection :=
  { c with
    sender := { c.sender with stream := c.sender.stream.setError }
    receiver := { c.receiver with reassembler :=
      { c.receiver.reassembler with output := c.receiver.reassembler.output.setError } }
    active := false }

/-- If the peer is done before this side is, there is no need to linger. -/
def noteInboundEnded (c : TCPConnection) : TCPConnection :=
  if c.checkInboundEnded && !c.sender.stream.eof then
    { c with lingerAfterStreamsFinish := false }
  else c

/-- The acknowledgment in a segment goes to the sender. -/
def takeAck (c : TCPConnection) (seg : TCPSegment) : TCPConnection :=
  if seg.header.ack then
    { c with sender :=
        c.sender.ackReceived seg.header.ackno seg.header.win }.sendSegmentsOut.2
  else c

/-- A segment that occupies sequence numbers is answered, if need be by an empty
segment. -/
def reply (c : TCPConnection) (seg : TCPSegment) : TCPConnection :=
  if seg.lengthInSequenceSpace > 0 then
    let (isSent, c) := { c with sender := c.sender.fillWindow }.sendSegmentsOut
    if !isSent then { c with sender := c.sender.sendEmptySegment }.sendSegmentsOut.2
    else c
  else c

/-- The receiver comes first, then the sender, and then there is an answer if one is due. -/
def segmentReceived (fuel : Nat) (c : TCPConnection) (seg : TCPSegment) : Option TCPConnection :=
  let c := { c with lastTickTime := 0 }
  if seg.header.rst then some c.reset
  else
    match c.receiver.segmentReceived fuel seg with
    | none => none
    | some receiver =>
        some (({ c with receiver := receiver }.noteInboundEnded.takeAck seg).reply seg)

/-- What was accepted is sent at once, as far as the window goes. -/
def write (c : TCPConnection) (data : List UInt8) : Nat × TCPConnection :=
  if data.length = 0 then (0, c)
  else
    let (result, stream) := c.sender.stream.write data
    (result,
      { c with sender := { c.sender with stream := stream }.fillWindow }.sendSegmentsOut.2)

/-- The reset a connection sends after too many retransmissions. -/
def abort (fuel : Nat) (c : TCPConnection) : Option TCPConnection :=
  let c := { c with segmentsOut := [], sender := c.sender.sendEmptySegment }
  let (seg, sender) := c.sender.readASegment
  let seg : TCPSegment := { seg with header := { seg.header with rst := true } }
  { c with sender := sender, segmentsOut := c.segmentsOut ++ [seg] }.segmentReceived fuel seg

/-- The last lines of `tick`, which end a connection that is done. -/
def finish (c : TCPConnection) : TCPConnection :=
  if c.checkInboundEnded && c.checkOutboundEnded then
    { c with active := !(!c.lingerAfterStreamsFinish ||
        decide (c.lastTickTime ≥ 10 * c.cfg.rtTimeout.toNat)) }
  else c

/-- A connection that has sent the same segment too often is aborted. -/
def tick (fuel : Nat) (c : TCPConnection) (msSinceLastTick : Nat) : Option TCPConnection :=
  let c := { c with
    lastTickTime := (c.lastTickTime + msSinceLastTick) % 2 ^ 64
    sender := c.sender.tick msSinceLastTick }
  let c := c.sendSegmentsOut.2
  if c.sender.consecutiveRetransmissions > TCPConfig.MAX_RETX_ATTEMPTS then
    (c.abort fuel).map finish
  else some c.finish

/-- The FIN is sent, if the window has room for it. -/
def endInputStream (c : TCPConnection) : TCPConnection :=
  { c with
    sender := { c.sender with stream := c.sender.stream.endInput }.fillWindow }.sendSegmentsOut.2

/-- The SYN is the first thing to fill the window with. -/
def connect (c : TCPConnection) : TCPConnection :=
  { c with sender := c.sender.fillWindow }.sendSegmentsOut.2

/-- `inbound_stream().read(len)`. -/
def readInbound (c : TCPConnection) (len : Nat) : List UInt8 × TCPConnection :=
  ((c.receiver.readOut len).1, { c with receiver := (c.receiver.readOut len).2 })

/-! ## Runs -/

/-- What a run does to a connection; `dequeue` is its owner taking a segment off
`segments_out()`. -/
inductive Op where
  | connect
  | write (data : List UInt8)
  | endInputStream
  | segmentReceived (seg : TCPSegment)
  | tick (msSinceLastTick : Nat)
  | readInbound (len : Nat)
  | dequeue

def step (fuel : Nat) (c : TCPConnection) : Op → Option TCPConnection
  | .connect => some c.connect
  | .write data => some (c.write data).2
  | .endInputStream => some c.endInputStream
  | .segmentReceived seg => c.segmentReceived fuel seg
  | .tick ms => c.tick fuel ms
  | .readInbound len => some (c.readInbound len).2
  | .dequeue => some { c with segmentsOut := c.segmentsOut.tail }

/-! ## What `send_segments_out` fills in -/

section stamp

variable (r : TCPReceiver) (seg : TCPSegment)

@[simp] theorem stamp_payload : (stamp r seg).payload = seg.payload := by
  unfold stamp
  cases r.ackno <;> rfl

@[simp] theorem stamp_seqno : (stamp r seg).header.seqno = seg.header.seqno := by
  unfold stamp
  cases r.ackno <;> rfl

@[simp] theorem stamp_syn : (stamp r seg).header.syn = seg.header.syn := by
  unfold stamp
  cases r.ackno <;> rfl

@[simp] theorem stamp_fin : (stamp r seg).header.fin = seg.header.fin := by
  unfold stamp
  cases r.ackno <;> rfl

@[simp] theorem stamp_rst : (stamp r seg).header.rst = seg.header.rst := by
  unfold stamp
  cases r.ackno <;> rfl

@[simp] theorem stamp_win : (stamp r seg).header.win = UInt16.ofNat r.windowSize := rfl

@[simp] theorem stamp_lengthInSequenceSpace :
    (stamp r seg).lengthInSequenceSpace = seg.lengthInSequenceSpace := by
  simp [TCPSegment.lengthInSequenceSpace]

/-- Once there is a number to acknowledge, every segment carries it. -/
theorem stamp_ackno (h : r.ackno = some ackno) :
    (stamp r seg).header.ack = true ∧ (stamp r seg).header.ackno = ackno := by
  simp [stamp, h]

end stamp

/-! ## What the parts of `segment_received` leave alone -/

section parts

variable (c : TCPConnection) (seg : TCPSegment)

@[simp] theorem sendSegmentsOut_receiver : c.sendSegmentsOut.2.receiver = c.receiver := rfl

@[simp] theorem sendSegmentsOut_lingerAfterStreamsFinish :
    c.sendSegmentsOut.2.lingerAfterStreamsFinish = c.lingerAfterStreamsFinish := rfl

@[simp] theorem sendSegmentsOut_active : c.sendSegmentsOut.2.active = c.active := rfl

@[simp] theorem sendSegmentsOut_lastTickTime :
    c.sendSegmentsOut.2.lastTickTime = c.lastTickTime := rfl

/-- Stated for any sender, so that the one put in its place is not unfolded. -/
theorem sendSegmentsOut_confirmedSeqno (s : TCPSender) :
    { c with sender := s }.sendSegmentsOut.2.sender.confirmedSeqno = s.confirmedSeqno := rfl

@[simp] theorem noteInboundEnded_receiver : c.noteInboundEnded.receiver = c.receiver := by
  unfold noteInboundEnded; split <;> rfl

@[simp] theorem noteInboundEnded_sender : c.noteInboundEnded.sender = c.sender := by
  unfold noteInboundEnded; split <;> rfl

@[simp] theorem noteInboundEnded_segmentsOut :
    c.noteInboundEnded.segmentsOut = c.segmentsOut := by
  unfold noteInboundEnded; split <;> rfl

@[simp] theorem noteInboundEnded_active : c.noteInboundEnded.active = c.active := by
  unfold noteInboundEnded; split <;> rfl

@[simp] theorem noteInboundEnded_lastTickTime :
    c.noteInboundEnded.lastTickTime = c.lastTickTime := by
  unfold noteInboundEnded; split <;> rfl

/-- The connection that has received a segment and not yet answered it. -/
theorem noteInboundEnded_spec (r : TCPReceiver) :
    ∃ c₁, noteInboundEnded { c with lastTickTime := 0, receiver := r } = c₁ ∧
      c₁.sender = c.sender ∧ c₁.segmentsOut = c.segmentsOut ∧ c₁.receiver = r ∧
      c₁.active = c.active := by
  refine ⟨_, rfl, ?_, ?_, ?_, ?_⟩
  · rw [noteInboundEnded_sender]
  · rw [noteInboundEnded_segmentsOut]
  · rw [noteInboundEnded_receiver]
  · rw [noteInboundEnded_active]

@[simp] theorem takeAck_receiver : (c.takeAck seg).receiver = c.receiver := by
  by_cases h : seg.header.ack = true
  · rw [takeAck, if_pos h, sendSegmentsOut_receiver]
  · rw [takeAck, if_neg h]

@[simp] theorem takeAck_lingerAfterStreamsFinish :
    (c.takeAck seg).lingerAfterStreamsFinish = c.lingerAfterStreamsFinish := by
  by_cases h : seg.header.ack = true
  · rw [takeAck, if_pos h, sendSegmentsOut_lingerAfterStreamsFinish]
  · rw [takeAck, if_neg h]

@[simp] theorem takeAck_active : (c.takeAck seg).active = c.active := by
  by_cases h : seg.header.ack = true
  · rw [takeAck, if_pos h, sendSegmentsOut_active]
  · rw [takeAck, if_neg h]

@[simp] theorem takeAck_lastTickTime : (c.takeAck seg).lastTickTime = c.lastTickTime := by
  by_cases h : seg.header.ack = true
  · rw [takeAck, if_pos h, sendSegmentsOut_lastTickTime]
  · rw [takeAck, if_neg h]

/-- Stated for the sender by name, for the same reason. -/
theorem takeAck_sender (hack : seg.header.ack = true)
    (ht : c.sender.ackReceived seg.header.ackno seg.header.win = t) :
    (c.takeAck seg).sender = { t with segmentsOut := [] } := by
  rw [takeAck, if_pos hack, ht]
  rfl

@[simp] theorem reply_receiver : (c.reply seg).receiver = c.receiver := by
  unfold reply
  split
  · simp only; split <;> rfl
  · rfl

@[simp] theorem reply_lingerAfterStreamsFinish :
    (c.reply seg).lingerAfterStreamsFinish = c.lingerAfterStreamsFinish := by
  unfold reply
  split
  · simp only; split <;> rfl
  · rfl

@[simp] theorem reply_active : (c.reply seg).active = c.active := by
  unfold reply
  split
  · simp only; split <;> rfl
  · rfl

@[simp] theorem reply_lastTickTime : (c.reply seg).lastTickTime = c.lastTickTime := by
  unfold reply
  split
  · simp only; split <;> rfl
  · rfl

end parts

/-! ## What an operation is made of -/

/-- The RST segment of an aborted connection. -/
def rstSegment (s : TCPSender) : TCPSegment :=
  { header := { seqno := wrap s.nextSeqno s.isn, rst := true } }

/-- One of the small changes an operation is made of, `r₀` being the receiver before
the operation. -/
inductive Micro (fuel : Nat) (r₀ : TCPReceiver) : Op → TCPConnection → TCPConnection → Prop
  | fill (op : Op) (c : TCPConnection) :
      Micro fuel r₀ op c { c with sender := c.sender.fillWindow }
  | write (data : List UInt8) (c : TCPConnection) :
      Micro fuel r₀ (.write data) c { c with
        sender := { c.sender with stream := (c.sender.stream.write data).2 }.fillWindow }
  | endInput (c : TCPConnection) :
      Micro fuel r₀ .endInputStream c { c with
        sender := { c.sender with stream := c.sender.stream.endInput }.fillWindow }
  | ack (seg : TCPSegment) (c : TCPConnection) : seg.header.rst = false → seg.header.ack = true →
      Micro fuel r₀ (.segmentReceived seg) c { c with
        sender := c.sender.ackReceived seg.header.ackno seg.header.win }
  | tick (ms : Nat) (c : TCPConnection) :
      Micro fuel r₀ (.tick ms) c { c with sender := c.sender.tick ms }
  | empty (op : Op) (c : TCPConnection) :
      Micro fuel r₀ op c { c with sender := c.sender.sendEmptySegment }
  | flush (op : Op) (c : TCPConnection) : Micro fuel r₀ op c c.sendSegmentsOut.2
  | receive (seg : TCPSegment) (c : TCPConnection) (r : TCPReceiver) : seg.header.rst = false →
      c.receiver = r₀ → c.receiver.segmentReceived fuel seg = some r →
      Micro fuel r₀ (.segmentReceived seg) c { c with receiver := r }
  | read (len : Nat) (c : TCPConnection) :
      Micro fuel r₀ (.readInbound len) c { c with receiver := (c.receiver.readOut len).2 }
  | reset (op : Op) (c : TCPConnection) : Micro fuel r₀ op c c.reset
  | sendRst (op : Op) (c : TCPConnection) :
      Micro fuel r₀ op c { c with segmentsOut := [rstSegment c.sender] }
  | note (op : Op) (c : TCPConnection) (linger active : Bool) (time : Nat) :
      Micro fuel r₀ op c { c with
        lingerAfterStreamsFinish := linger, active := active, lastTickTime := time }
  | dequeue (c : TCPConnection) :
      Micro fuel r₀ .dequeue c { c with segmentsOut := c.segmentsOut.tail }

open Relation (ReflTransGen)

/-- The segments of the sender are stamped and sent, one after the other. -/
theorem micro_sendSegmentsOut (h : ReflTransGen (Micro fuel r₀ op) c d) :
    ReflTransGen (Micro fuel r₀ op) c d.sendSegmentsOut.2 :=
  h.tail (.flush op d)

/-- Flags and times are not looked at. -/
theorem micro_note (h : ReflTransGen (Micro fuel r₀ op) c d) (linger active : Bool) (time : Nat) :
    ReflTransGen (Micro fuel r₀ op) c { d with
      lingerAfterStreamsFinish := linger, active := active, lastTickTime := time } :=
  h.tail (.note op d linger active time)

theorem micro_finish (h : ReflTransGen (Micro fuel r₀ op) c d) :
    ReflTransGen (Micro fuel r₀ op) c d.finish := by
  unfold finish
  split
  · exact micro_note h _ _ _
  · exact h

theorem micro_noteInboundEnded (h : ReflTransGen (Micro fuel r₀ op) c d) :
    ReflTransGen (Micro fuel r₀ op) c d.noteInboundEnded := by
  unfold noteInboundEnded
  split
  · exact micro_note h _ _ _
  · exact h

/-- An acknowledgment is handed to the sender. -/
theorem micro_takeAck (hrst : seg.header.rst = false)
    (h : ReflTransGen (Micro fuel r₀ (.segmentReceived seg)) c d) :
    ReflTransGen (Micro fuel r₀ (.segmentReceived seg)) c (d.takeAck seg) := by
  unfold takeAck
  split
  · next hack => exact micro_sendSegmentsOut (h.tail (.ack seg d hrst hack))
  · exact h

/-- An empty segment is added if nothing else answers. -/
theorem micro_reply (h : ReflTransGen (Micro fuel r₀ op) c d) :
    ReflTransGen (Micro fuel r₀ op) c (d.reply seg) := by
  unfold reply
  split
  · simp only
    have hfill := micro_sendSegmentsOut (h.tail (.fill op d))
    split
    · exact micro_sendSegmentsOut (hfill.tail (.empty op _))
    · exact hfill
  · exact h

/-- Everything `segment_received` can do: reset, or take the segment in. -/
theorem segmentReceived_cases (h : segmentReceived fuel c seg = some d) :
    (seg.header.rst = true ∧ { c with lastTickTime := 0 }.reset = d) ∨
    (seg.header.rst = false ∧ ∃ r, c.receiver.segmentReceived fuel seg = some r ∧
      ({ c with lastTickTime := 0, receiver := r }.noteInboundEnded.takeAck seg).reply seg = d) := by
  unfold segmentReceived at h
  simp only at h
  by_cases hrst : seg.header.rst = true
  · rw [if_pos hrst, Option.some.injEq] at h
    exact .inl ⟨hrst, h⟩
  rw [if_neg hrst] at h
  simp only [Bool.not_eq_true] at hrst
  split at h
  · contradiction
  · next r hr => exact .inr ⟨hrst, r, hr, Option.some.inj h⟩

/-- `segment_received` is a chain of small changes. -/
theorem segmentReceived_micro (h : segmentReceived fuel c seg = some d) :
    ReflTransGen (Micro fuel c.receiver (.segmentReceived seg)) c d := by
  have h0 := micro_note (.refl : ReflTransGen (Micro fuel c.receiver (.segmentReceived seg)) c c)
    c.lingerAfterStreamsFinish c.active 0
  rcases segmentReceived_cases h with ⟨-, rfl⟩ | ⟨hrst, r, hr, rfl⟩
  · exact h0.tail (.reset _ _)
  · exact micro_reply (micro_takeAck hrst
      (micro_noteInboundEnded (h0.tail (.receive seg _ r hrst rfl hr))))

/-- What `abort` comes to when the sender's queue is empty. -/
theorem abort_eq (h : c.sender.segmentsOut = []) :
    abort fuel c = some { c with segmentsOut := [rstSegment c.sender], lastTickTime := 0 }.reset := by
  have hempty : c.sender.sendEmptySegment.readASegment =
      ({ header := { seqno := wrap c.sender.nextSeqno c.sender.isn } }, c.sender) := by
    simp only [TCPSender.sendEmptySegment, TCPSender.readASegment, h, List.nil_append]
    rw [← h]
  simp only [abort, hempty, List.nil_append]
  rfl

/-- The connection after the sender has been told the time. -/
def ticked (c : TCPConnection) (ms : Nat) : TCPConnection :=
  { c with
    lastTickTime := (c.lastTickTime + ms) % 2 ^ 64
    sender := c.sender.tick ms }.sendSegmentsOut.2

/-- The connection after it has given up. -/
def abandoned (c : TCPConnection) (ms : Nat) : TCPConnection :=
  { c.ticked ms with
    segmentsOut := [rstSegment (c.ticked ms).sender], lastTickTime := 0 }.reset

/-- `tick` returns: it lets the sender act, gives up if it has tried too often, and checks
for the end. -/
theorem tick_eq (fuel : Nat) (c : TCPConnection) (ms : Nat) :
    tick fuel c ms = some
      (if (c.ticked ms).sender.consecutiveRetransmissions > TCPConfig.MAX_RETX_ATTEMPTS then
        (c.abandoned ms).finish
      else (c.ticked ms).finish) := by
  unfold tick
  simp only
  rw [← ticked.eq_def]
  split
  · rw [abort_eq rfl, Option.map_some]
    rfl
  · rfl

/-- Everything `tick` can do: let the sender act and check for the end, or abort. -/
theorem tick_cases (h : tick fuel c ms = some d) :
    (c.ticked ms).finish = d ∨ (c.abandoned ms).finish = d := by
  rw [tick_eq, Option.some.injEq] at h
  split at h
  · exact .inr h
  · exact .inl h

/-- `tick` is a chain of small changes. -/
theorem tick_micro (h : tick fuel c ms = some d) :
    ReflTransGen (Micro fuel r₀ (.tick ms)) c d := by
  have hnote := micro_note (.refl : ReflTransGen (Micro fuel r₀ (.tick ms)) c c)
    c.lingerAfterStreamsFinish c.active ((c.lastTickTime + ms) % 2 ^ 64)
  have hsent := micro_sendSegmentsOut (hnote.tail (.tick ms _))
  rcases tick_cases h with rfl | rfl
  · exact micro_finish hsent
  · exact micro_finish (((micro_note hsent _ _ 0).tail (.sendRst _ _)).tail (.reset _ _))

/-- **Every operation is a chain of small changes.** -/
theorem step_micro (h : step fuel c op = some d) :
    ReflTransGen (Micro fuel c.receiver op) c d := by
  cases op with
  | connect =>
      rw [step, Option.some.injEq] at h
      exact h ▸ micro_sendSegmentsOut (.single (.fill _ c))
  | write data =>
      rw [step, Option.some.injEq] at h
      rw [← h, write]
      split
      · exact .refl
      · exact micro_sendSegmentsOut (.single (.write data c))
  | endInputStream =>
      rw [step, Option.some.injEq] at h
      exact h ▸ micro_sendSegmentsOut (.single (.endInput c))
  | segmentReceived seg => exact segmentReceived_micro h
  | tick ms => exact tick_micro h
  | readInbound len =>
      rw [step, Option.some.injEq] at h
      exact h ▸ .single (.read len c)
  | dequeue =>
      rw [step, Option.some.injEq] at h
      exact h ▸ .single (.dequeue c)

/-- No segment is left behind. -/
theorem takeAck_flushed {c : TCPConnection} (hc : c.sender.segmentsOut = []) (seg : TCPSegment) :
    (c.takeAck seg).sender.segmentsOut = [] := by
  unfold takeAck
  split
  · rfl
  · exact hc

/-- No segment is left behind. -/
theorem reply_flushed {c : TCPConnection} (hc : c.sender.segmentsOut = []) :
    (c.reply seg).sender.segmentsOut = [] := by
  unfold reply
  split
  · simp only
    split <;> rfl
  · exact hc

section finish

variable (c : TCPConnection)

@[simp] theorem finish_sender : c.finish.sender = c.sender := by
  unfold finish; split <;> rfl

@[simp] theorem finish_receiver : c.finish.receiver = c.receiver := by
  unfold finish; split <;> rfl

@[simp] theorem finish_segmentsOut : c.finish.segmentsOut = c.segmentsOut := by
  unfold finish; split <;> rfl

@[simp] theorem finish_lingerAfterStreamsFinish :
    c.finish.lingerAfterStreamsFinish = c.lingerAfterStreamsFinish := by
  unfold finish; split <;> rfl

@[simp] theorem finish_lastTickTime : c.finish.lastTickTime = c.lastTickTime := by
  unfold finish; split <;> rfl

end finish

/-- Between operations the sender's own queue is empty. -/
theorem step_flushed {op : Op} (hc : c.sender.segmentsOut = []) (h : step fuel c op = some d) :
    d.sender.segmentsOut = [] := by
  cases op with
  | connect =>
      rw [step, Option.some.injEq] at h
      exact h ▸ rfl
  | write data =>
      rw [step, Option.some.injEq] at h
      rw [← h, write]
      split
      · exact hc
      · rfl
  | endInputStream =>
      rw [step, Option.some.injEq] at h
      exact h ▸ rfl
  | segmentReceived seg =>
      rcases segmentReceived_cases h with ⟨-, rfl⟩ | ⟨-, r, -, rfl⟩
      · exact hc
      · exact reply_flushed (takeAck_flushed (by rw [noteInboundEnded_sender]; exact hc) seg)
  | tick ms =>
      rcases tick_cases h with rfl | rfl <;> rw [finish_sender] <;> rfl
  | readInbound len =>
      rw [step, Option.some.injEq] at h
      exact h ▸ hc
  | dequeue =>
      rw [step, Option.some.injEq] at h
      exact h ▸ hc

/-- **Every run** leaves the queue of the sender empty. -/
theorem exec_flushed {conf : TCPConfig} (h : exec (step fuel) (new conf x) ops = some c) :
    c.sender.segmentsOut = [] :=
  exec_invariant (P := fun c => c.sender.segmentsOut = []) (fun _ _ _ => step_flushed) rfl h

/-- **Invariant rule**: what every small change preserves, every operation
preserves. -/
theorem step_preserves {P : TCPConnection → Prop} (hP : P c)
    (hmicro : ∀ u v, P u → Micro fuel c.receiver op u v → P v) (h : step fuel c op = some d) :
    P d := by
  have hchain := step_micro h
  clear h
  induction hchain with
  | refl => exact hP
  | tail _ hm ih => exact hmicro _ _ ih hm

end TCPConnection

end Sponge
