import Sponge.Lib.Run
import Sponge.TCPState

/-!
# Sponge.TCPConnection.Shift

Sequence numbers are only ever compared relative to the right initial number:
a connection whose own numbers are moved by `a` and whose peer's numbers are
moved by `b` does the same as before, with the numbers it sends moved likewise.

`shift a b` moves a state.  Every operation commutes with it, which is shown
function by function; a run then commutes by `exec_map`.
-/

namespace Sponge

/-! ## Moved segments and states -/

/-- The segment with its own number moved by `x` and the one it acknowledges by `y`. -/
def TCPSegment.shift (x y : UInt32) (seg : TCPSegment) : TCPSegment :=
  { seg with header := { seg.header with
      seqno := seg.header.seqno.add x
      ackno := if seg.header.ack then seg.header.ackno.add y else seg.header.ackno } }

/-- Before the SYN the receiver has no initial number to move. -/
def TCPReceiver.shift (b : UInt32) (r : TCPReceiver) : TCPReceiver :=
  { r with ISN := if r.firstSegment then r.ISN else r.ISN.add b }

/-- The same sender, with other numbers. -/
def TCPSender.shift (a b : UInt32) (s : TCPSender) : TCPSender :=
  { s with
    isn := s.isn.add a
    segmentsOut := s.segmentsOut.map (TCPSegment.shift a b)
    outstandingSegments := s.outstandingSegments.map (TCPSegment.shift a b) }

/-- The same connection, with other numbers on both sides. -/
def TCPConnection.shift (a b : UInt32) (c : TCPConnection) : TCPConnection :=
  { c with
    cfg := { c.cfg with fixedIsn := c.cfg.fixedIsn.map (WrappingInt32.add · a) }
    receiver := c.receiver.shift b
    sender := c.sender.shift a b
    segmentsOut := c.segmentsOut.map (TCPSegment.shift a b) }

/-- A received segment carries the peer's number and acknowledges one of ours. -/
def TCPConnection.Op.shift (a b : UInt32) : Op → Op
  | .segmentReceived seg => .segmentReceived (seg.shift b a)
  | .connect => .connect
  | .write data => .write data
  | .endInputStream => .endInputStream
  | .tick ms => .tick ms
  | .readInbound len => .readInbound len
  | .dequeue => .dequeue

/-! ## The receiver -/

namespace TCPReceiver

variable (b y : UInt32) (r : TCPReceiver) (seg : TCPSegment)

/-- The initial number is the one that is shifted. -/
theorem listen_shift : (r.shift b).listen (seg.shift b y) = (r.listen seg).shift b := by
  by_cases h : (r.firstSegment && seg.header.syn) = true
  · have h' : ((r.shift b).firstSegment && (seg.shift b y).header.syn) = true := h
    rw [listen, if_pos h', listen, if_pos h]
    rfl
  · have h' : ¬ ((r.shift b).firstSegment && (seg.shift b y).header.syn) = true := h
    rw [listen, if_neg h', listen, if_neg h]

theorem tempAbsSeqno_shift (h : r.firstSegment = false) :
    (r.shift b).tempAbsSeqno (seg.shift b y) = r.tempAbsSeqno seg := by
  simp only [tempAbsSeqno, shift, TCPSegment.shift, h]
  exact unwrap_add _ _ _ _

/-- Absolute numbers are the same. -/
theorem acknowledge_shift (t : Nat) :
    (r.shift b).acknowledge t (seg.shift b y) = (r.acknowledge t seg).shift b := by
  by_cases h : t ≠ r.absSeqno
  · have h' : t ≠ (r.shift b).absSeqno := h
    rw [acknowledge, if_pos h', acknowledge, if_pos h]
  · have h' : ¬ t ≠ (r.shift b).absSeqno := h
    rw [acknowledge, if_neg h', acknowledge, if_neg h]
    rfl

/-- A receiver with other numbers does the same. -/
theorem segmentReceived_shift (fuel : Nat) :
    (r.shift b).segmentReceived fuel (seg.shift b y) =
      (r.segmentReceived fuel seg).map (shift b) := by
  by_cases hearly : (r.firstSegment && !seg.header.syn) = true
  · have hearly' : ((r.shift b).firstSegment && !(seg.shift b y).header.syn) = true := hearly
    rw [segmentReceived, if_pos hearly', segmentReceived, if_pos hearly, Option.map_some]
  have hearly' : ¬ ((r.shift b).firstSegment && !(seg.shift b y).header.syn) = true := hearly
  have hsyn : r.firstSegment = true → seg.header.syn = true := by simpa using hearly
  rw [segmentReceived, if_neg hearly', segmentReceived, if_neg hearly]
  simp only
  rw [listen_shift, tempAbsSeqno_shift _ _ _ _ (listen_firstSegment hsyn)]
  -- past `listen` the two sides differ in `ISN` only, which nothing reads any more
  generalize r.listen seg = l
  generalize l.tempAbsSeqno seg = t
  by_cases hlow : l.absSeqno = 1 ∧ t < l.absSeqno
  · have hlow' : (l.shift b).absSeqno = 1 ∧ t < (l.shift b).absSeqno := hlow
    rw [if_pos hlow', if_pos hlow, Option.map_some]
  have hlow' : ¬ ((l.shift b).absSeqno = 1 ∧ t < (l.shift b).absSeqno) := hlow
  rw [if_neg hlow', if_neg hlow]
  have hpush : (l.shift b).reassembler.pushSubstring fuel (seg.shift b y).payload (streamIndex t)
      (seg.shift b y).header.fin =
        l.reassembler.pushSubstring fuel seg.payload (streamIndex t) seg.header.fin := rfl
  rw [hpush]
  cases l.reassembler.pushSubstring fuel seg.payload (streamIndex t) seg.header.fin with
  | none => rfl
  | some re => exact congrArg some (acknowledge_shift b y { l with reassembler := re } seg t)

/-- Its acknowledgments are shifted. -/
theorem ackno_shift : (r.shift b).ackno = r.ackno.map (WrappingInt32.add · b) := by
  unfold ackno
  cases h : r.firstSegment with
  | true => simp [shift, h]
  | false => simp [shift, h, wrap_add]

end TCPReceiver

/-! ## The sender -/

namespace TCPSender

variable (a b : UInt32) (s : TCPSender) (seg : TCPSegment)

/-- A segment that acknowledges nothing is given its number when it is sent. -/
theorem sendTcpSegment_shift (h : seg.header.ack = false) :
    (s.shift a b).sendTcpSegment seg =
      ((s.sendTcpSegment seg).1.shift a b, (s.sendTcpSegment seg).2.shift a b) := by
  have hseg : ({ seg with header := { seg.header with
      seqno := wrap (s.shift a b).nextSeqno (s.shift a b).isn } } : TCPSegment) =
      (s.sendTcpSegment seg).1.shift a b := by
    simp [sendTcpSegment, shift, TCPSegment.shift, h, wrap_add]
  simp only [sendTcpSegment] at hseg ⊢
  rw [hseg]
  simp only [shift, List.map_append, List.map_cons, List.map_nil]
  rfl

/-- The number a segment has before it is sent does not matter. -/
theorem sendTcpSegment_seqno (q : WrappingInt32) (last : Bool) :
    s.sendTcpSegment (if last then { seg with header := { seg.header with seqno := q, fin := true } }
      else { seg with header := { seg.header with seqno := q } }) =
    s.sendTcpSegment (if last then { seg with header := { seg.header with fin := true } }
      else seg) := by
  cases last <;> rfl

theorem fillTurn_seqno (q : WrappingInt32) (avail : Nat) :
    s.fillTurn { seg with header := { seg.header with seqno := q } } avail =
      s.fillTurn seg avail := by
  simp only [fillTurn]
  generalize min (min s.stream.bufferSize avail) TCPConfig.MAX_PAYLOAD_SIZE = n
  have hlength : TCPSegment.lengthInSequenceSpace
      { header := { seg.header with seqno := q }, payload := (s.stream.read n).1 } =
        TCPSegment.lengthInSequenceSpace
          { header := seg.header, payload := (s.stream.read n).1 } := rfl
  rw [hlength]
  exact sendTcpSegment_seqno _ { seg with payload := (s.stream.read n).1 } q _

theorem fillTurn_ack (avail : Nat) : (s.fillTurn seg avail).1.header.ack = seg.header.ack := by
  simp only [fillTurn, sendTcpSegment]
  split <;> rfl

theorem fillTurn_shift (h : seg.header.ack = false) (avail : Nat) :
    (s.shift a b).fillTurn seg avail =
      ((s.fillTurn seg avail).1.shift a b, (s.fillTurn seg avail).2.shift a b) := by
  simp only [fillTurn]
  rw [← sendTcpSegment_shift]
  · rfl
  · split <;> exact h

/-- The loop sends the same segments, with other numbers. -/
theorem fillLoop_shift (n : Nat) (h : seg.header.ack = false) (avail : Nat) :
    fillLoop n (s.shift a b) seg avail = (fillLoop n s seg avail).shift a b := by
  induction n generalizing s seg avail with
  | zero => rfl
  | succ n ih =>
      have hseg : ∀ (t : TCPSender) (seg : TCPSegment) (m : Nat), seg.header.ack = false →
          fillLoop n t (seg.shift a b) m = fillLoop n t seg m := by
        intro t seg m hack
        cases n with
        | zero => rfl
        | succ n =>
            have hkeep : (if seg.header.ack = true then seg.header.ackno.add b else
                seg.header.ackno) = seg.header.ackno := by simp [hack]
            rw [fillLoop, fillLoop, TCPSegment.shift, hkeep, fillTurn_seqno]
      rw [fillLoop, fillLoop]
      by_cases hstop : (s.stream.bufferEmpty || decide (avail = 0)) = true
      · have hstop' : ((s.shift a b).stream.bufferEmpty || decide (avail = 0)) = true := hstop
        rw [if_pos hstop', if_pos hstop]
      · have hstop' : ¬ ((s.shift a b).stream.bufferEmpty || decide (avail = 0)) = true := hstop
        rw [if_neg hstop', if_neg hstop, fillTurn_shift a b s seg h]
        have hack := (fillTurn_ack s seg avail).trans h
        simp only
        rw [hseg _ _ _ hack, ih _ _ hack]
        rfl

/-- So does the window as a whole. -/
theorem fillWindow_shift : (s.shift a b).fillWindow = s.fillWindow.shift a b := by
  unfold fillWindow
  by_cases hfin : s.finSent = true
  · rw [if_pos hfin, if_pos (show (s.shift a b).finSent = true from hfin)]
  rw [if_neg hfin, if_neg (show ¬ (s.shift a b).finSent = true from hfin)]
  simp only
  by_cases h0 : s.nextSeqno = 0
  · rw [if_pos h0, if_pos (show (s.shift a b).nextSeqno = 0 from h0), sendTcpSegment_shift _ _ _ _ rfl]
  rw [if_neg h0, if_neg (show ¬ (s.shift a b).nextSeqno = 0 from h0)]
  by_cases hfull : s.confirmedSeqno + s.receiverLogicalWindowSize ≤ s.nextSeqno
  · rw [if_pos hfull, if_pos (show (s.shift a b).confirmedSeqno +
      (s.shift a b).receiverLogicalWindowSize ≤ (s.shift a b).nextSeqno from hfull)]
  rw [if_neg hfull, if_neg (show ¬ (s.shift a b).confirmedSeqno +
      (s.shift a b).receiverLogicalWindowSize ≤ (s.shift a b).nextSeqno from hfull)]
  by_cases heof : s.stream.eof = true
  · rw [if_pos heof, if_pos (show (s.shift a b).stream.eof = true from heof),
      sendTcpSegment_shift _ _ _ _ rfl]
    rfl
  · rw [if_neg heof, if_neg (show ¬ (s.shift a b).stream.eof = true from heof)]
    exact fillLoop_shift a b s {} _ rfl _

/-- What is sent again is shifted as well. -/
theorem tick_shift (ms : Nat) : (s.shift a b).tick ms = (s.tick ms).shift a b := by
  unfold tick
  cases ht : s.timingBegins with
  | false => simp [shift, ht]
  | true =>
      cases ho : s.outstandingSegments with
      | nil => simp [shift, ht, ho]
      | cons front rest =>
          simp only [shift, ht, ho, List.map_cons, Bool.not_true, Bool.false_eq_true, if_false]
          split
          · have hsyn : (front.shift a b).header.syn = front.header.syn := rfl
            rw [hsyn]
            split <;> simp
          · simp

theorem frontSegOutstandingAckno_shift :
    (s.shift a b).frontSegOutstandingAckno = s.frontSegOutstandingAckno := by
  unfold frontSegOutstandingAckno
  cases ho : s.outstandingSegments with
  | nil => simp [shift, ho]
  | cons front rest =>
      simp only [shift, ho, List.map_cons, TCPSegment.shift, unwrap_add]
      rfl

theorem frontSegOutstandingSize_shift :
    (s.shift a b).frontSegOutstandingSize = s.frontSegOutstandingSize := by
  unfold frontSegOutstandingSize
  cases ho : s.outstandingSegments with
  | nil => simp [shift, ho]
  | cons front rest =>
      simp only [shift, ho, List.map_cons]
      rfl

/-- The same segments are acknowledged. -/
theorem ackLoop_shift (n : Nat) (l : List TCPSegment) (ack : Bool) :
    ackLoop n (l.map (TCPSegment.shift a b)) (s.shift a b) ack =
      ((ackLoop n l s ack).1.shift a b, (ackLoop n l s ack).2) := by
  induction l generalizing s ack with
  | nil => rfl
  | cons front rest ih =>
      rw [List.map_cons, ackLoop, ackLoop, frontSegOutstandingAckno_shift]
      by_cases hlt : n < s.frontSegOutstandingAckno
      · rw [if_pos hlt, if_pos hlt]
      rw [if_neg hlt, if_neg hlt]
      simp only
      rw [← ih]
      congr 1
      -- the two updates of the loop, for either value of the flag
      have hsize := frontSegOutstandingSize_shift a b s
      cases ack with
      | true =>
          change { s.shift a b with
            bytesInFlight := s.bytesInFlight - (s.shift a b).frontSegOutstandingSize
            outstandingSegments := rest.map (TCPSegment.shift a b) } = _
          rw [hsize]
          rfl
      | false =>
          change { s.shift a b with
            applyingRetransmissionTimeout := s.initialRetransmissionTimeout
            consecutiveRetransmissions := 0
            lastTickTime := 0
            bytesInFlight := s.bytesInFlight - (s.shift a b).frontSegOutstandingSize
            outstandingSegments := rest.map (TCPSegment.shift a b) } = _
          rw [hsize]
          rfl

/-- An acknowledgment does the same. -/
theorem absAckReceived_shift (n : Nat) (win : UInt16) :
    (s.shift a b).absAckReceived n win = (s.absAckReceived n win).shift a b := by
  unfold absAckReceived
  by_cases hrej : s.confirmedSeqno > n ∨ n > s.nextSeqno
  · rw [if_pos hrej, if_pos (show (s.shift a b).confirmedSeqno > n ∨
      n > (s.shift a b).nextSeqno from hrej)]
  rw [if_neg hrej, if_neg (show ¬ ((s.shift a b).confirmedSeqno > n ∨
    n > (s.shift a b).nextSeqno) from hrej)]
  simp only
  have hloop := ackLoop_shift a b (s.accept n win) n (s.accept n win).outstandingSegments false
  have hacc : (s.shift a b).accept n win = (s.accept n win).shift a b := rfl
  have hout : ((s.accept n win).shift a b).outstandingSegments =
    (s.accept n win).outstandingSegments.map (TCPSegment.shift a b) := rfl
  rw [hacc, hout, hloop]
  obtain ⟨t, res⟩ := ackLoop n (s.accept n win).outstandingSegments (s.accept n win) false
  cases res with
  | none => rfl
  | some ack =>
      have hfill : (if ack = true then (t.shift a b).fillWindow else t.shift a b) =
          (if ack = true then t.fillWindow else t).shift a b := by
        split
        · exact fillWindow_shift a b t
        · rfl
      simp only [hfill]
      generalize (if ack = true then t.fillWindow else t) = u
      simp [shift]

/-- The raw number is shifted with the others. -/
theorem ackReceived_shift (ackno : WrappingInt32) (win : UInt16) :
    (s.shift a b).ackReceived (ackno.add a) win = (s.ackReceived ackno win).shift a b := by
  have hn : unwrap (ackno.add a) (s.shift a b).isn (s.shift a b).nextSeqno =
      unwrap ackno s.isn s.nextSeqno := by
    simp only [shift, unwrap_add]
  rw [ackReceived, hn, absAckReceived_shift, ackReceived]

theorem sendEmptySegment_shift :
    (s.shift a b).sendEmptySegment = s.sendEmptySegment.shift a b := by
  simp [sendEmptySegment, shift, TCPSegment.shift, wrap_add]

end TCPSender

/-! ## The connection -/

namespace TCPConnection

variable (a b : UInt32) (c : TCPConnection) (seg : TCPSegment)

/-- The stamp puts the receiver's number, which is moved by `b`, over the one the
segment had. -/
theorem stamp_shift (r : TCPReceiver) :
    stamp (r.shift b) (seg.shift a b) = (stamp r seg).shift a b := by
  unfold stamp
  rw [TCPReceiver.ackno_shift]
  cases r.ackno with
  | none => rfl
  | some ackno => rfl

/-- What is stamped is shifted, too. -/
theorem sendSegmentsOut_shift :
    (c.shift a b).sendSegmentsOut = (c.sendSegmentsOut.1, c.sendSegmentsOut.2.shift a b) := by
  have hstamp : stamp (c.receiver.shift b) ∘ TCPSegment.shift a b =
      TCPSegment.shift a b ∘ stamp c.receiver :=
    funext fun seg => stamp_shift a b seg c.receiver
  simp [sendSegmentsOut, shift, TCPSender.shift, TCPSender.isEmpty, hstamp]

theorem noteInboundEnded_shift :
    (c.shift a b).noteInboundEnded = c.noteInboundEnded.shift a b := by
  by_cases h : (c.checkInboundEnded && !c.sender.stream.eof) = true
  · have h' : ((c.shift a b).checkInboundEnded && !(c.shift a b).sender.stream.eof) = true := h
    rw [noteInboundEnded, if_pos h', noteInboundEnded, if_pos h]
    rfl
  · have h' : ¬ ((c.shift a b).checkInboundEnded && !(c.shift a b).sender.stream.eof) = true := h
    rw [noteInboundEnded, if_neg h', noteInboundEnded, if_neg h]

/-- A change of the sender that commutes with moving the numbers, and then the
queue goes out. -/
theorem sendSegmentsOut_sender_shift {s t : TCPSender} (h : t = s.shift a b) :
    { c.shift a b with sender := t }.sendSegmentsOut =
      ({ c with sender := s }.sendSegmentsOut.1,
        { c with sender := s }.sendSegmentsOut.2.shift a b) := by
  rw [h]
  exact sendSegmentsOut_shift a b { c with sender := s }

theorem takeAck_shift : (c.shift a b).takeAck (seg.shift b a) = (c.takeAck seg).shift a b := by
  by_cases h : seg.header.ack = true
  · have h' : (seg.shift b a).header.ack = true := h
    have hackno : (seg.shift b a).header.ackno = seg.header.ackno.add a := if_pos h
    rw [takeAck, if_pos h', takeAck, if_pos h, hackno]
    exact congrArg Prod.snd (sendSegmentsOut_sender_shift a b c
      (TCPSender.ackReceived_shift a b c.sender seg.header.ackno seg.header.win))
  · have h' : ¬ (seg.shift b a).header.ack = true := h
    rw [takeAck, if_neg h', takeAck, if_neg h]

theorem reply_shift : (c.shift a b).reply (seg.shift b a) = (c.reply seg).shift a b := by
  by_cases h : seg.lengthInSequenceSpace > 0
  · have h' : (seg.shift b a).lengthInSequenceSpace > 0 := h
    have hfill : { c.shift a b with sender := (c.shift a b).sender.fillWindow }.sendSegmentsOut =
        _ := sendSegmentsOut_sender_shift a b c (TCPSender.fillWindow_shift a b c.sender)
    rw [reply, if_pos h', reply, if_pos h, hfill]
    generalize { c with sender := c.sender.fillWindow }.sendSegmentsOut = sent
    obtain ⟨isSent, d⟩ := sent
    cases isSent with
    | true => rfl
    | false =>
        exact congrArg Prod.snd (sendSegmentsOut_sender_shift a b d
          (TCPSender.sendEmptySegment_shift a b d.sender))
  · have h' : ¬ (seg.shift b a).lengthInSequenceSpace > 0 := h
    rw [reply, if_neg h', reply, if_neg h]

/-- A connection with other numbers does the same with a segment. -/
theorem segmentReceived_shift (fuel : Nat) :
    (c.shift a b).segmentReceived fuel (seg.shift b a) =
      (c.segmentReceived fuel seg).map (shift a b) := by
  by_cases h : seg.header.rst = true
  · have h' : (seg.shift b a).header.rst = true := h
    rw [segmentReceived, segmentReceived]
    simp only
    rw [if_pos h', if_pos h]
    rfl
  · have h' : ¬ (seg.shift b a).header.rst = true := h
    have hreceive : (c.shift a b).receiver.segmentReceived fuel (seg.shift b a) = _ :=
      TCPReceiver.segmentReceived_shift b a c.receiver seg fuel
    rw [segmentReceived, segmentReceived]
    simp only
    rw [if_neg h', if_neg h]
    rw [hreceive]
    cases c.receiver.segmentReceived fuel seg with
    | none => rfl
    | some r =>
        have hnote := noteInboundEnded_shift a b { c with lastTickTime := 0, receiver := r }
        simp only [Option.map_some]
        rw [← reply_shift, ← takeAck_shift, ← hnote]
        rfl

theorem finish_shift : (c.shift a b).finish = c.finish.shift a b := by
  by_cases h : (c.checkInboundEnded && c.checkOutboundEnded) = true
  · have h' : ((c.shift a b).checkInboundEnded && (c.shift a b).checkOutboundEnded) = true := h
    rw [finish, if_pos h', finish, if_pos h]
    rfl
  · have h' : ¬ ((c.shift a b).checkInboundEnded && (c.shift a b).checkOutboundEnded) = true := h
    rw [finish, if_neg h', finish, if_neg h]

theorem ticked_shift (ms : Nat) : (c.shift a b).ticked ms = (c.ticked ms).shift a b :=
  congrArg Prod.snd (sendSegmentsOut_sender_shift a b
    { c with lastTickTime := (c.lastTickTime + ms) % 2 ^ 64 }
    (TCPSender.tick_shift a b c.sender ms))

/-- The RST is shifted like any other segment. -/
theorem abort_shift (fuel : Nat) (h : c.sender.segmentsOut = []) :
    (c.shift a b).abort fuel = (c.abort fuel).map (shift a b) := by
  have h' : (c.shift a b).sender.segmentsOut = [] := by
    simp [shift, TCPSender.shift, h]
  have hrst : rstSegment (c.sender.shift a b) = (rstSegment c.sender).shift a b := by
    simp [rstSegment, TCPSender.shift, TCPSegment.shift, wrap_add]
  rw [abort_eq h', abort_eq h, Option.map_some]
  simp only [shift, hrst]
  rfl

/-- It does the same when time passes. -/
theorem tick_shift (fuel ms : Nat) :
    (c.shift a b).tick fuel ms = (c.tick fuel ms).map (shift a b) := by
  have htick : ∀ d : TCPConnection, d.tick fuel ms =
      if (d.ticked ms).sender.consecutiveRetransmissions > TCPConfig.MAX_RETX_ATTEMPTS then
        ((d.ticked ms).abort fuel).map finish
      else some (d.ticked ms).finish := fun _ => rfl
  rw [htick, htick, ticked_shift]
  by_cases h : (c.ticked ms).sender.consecutiveRetransmissions > TCPConfig.MAX_RETX_ATTEMPTS
  · have h' : ((c.ticked ms).shift a b).sender.consecutiveRetransmissions >
        TCPConfig.MAX_RETX_ATTEMPTS := h
    have hcomp : finish ∘ shift a b = shift a b ∘ finish := funext (finish_shift a b)
    rw [if_pos h', if_pos h, abort_shift a b _ fuel rfl, Option.map_map, Option.map_map, hcomp]
  · have h' : ¬ ((c.ticked ms).shift a b).sender.consecutiveRetransmissions >
        TCPConfig.MAX_RETX_ATTEMPTS := h
    rw [if_neg h', if_neg h, finish_shift, Option.map_some]

/-- It accepts the same bytes. -/
theorem write_shift (data : List UInt8) :
    (c.shift a b).write data = ((c.write data).1, (c.write data).2.shift a b) := by
  by_cases h : data.length = 0
  · rw [write, if_pos h, write, if_pos h]
  · rw [write, if_neg h, write, if_neg h]
    have hfill := TCPSender.fillWindow_shift a b
      { c.sender with stream := (c.sender.stream.write data).2 }
    exact congrArg (Prod.mk _) (congrArg Prod.snd (sendSegmentsOut_sender_shift a b c hfill))

/-- **Every operation commutes with moving the numbers.** -/
theorem step_shift (fuel : Nat) (op : Op) :
    step fuel (c.shift a b) (op.shift a b) = (step fuel c op).map (shift a b) := by
  cases op with
  | connect =>
      exact congrArg some (congrArg Prod.snd (sendSegmentsOut_sender_shift a b c
        (TCPSender.fillWindow_shift a b c.sender)))
  | write data => exact congrArg some (congrArg Prod.snd (write_shift a b c data))
  | endInputStream =>
      exact congrArg some (congrArg Prod.snd (sendSegmentsOut_sender_shift a b c
        (TCPSender.fillWindow_shift a b { c.sender with stream := c.sender.stream.endInput })))
  | segmentReceived seg => exact segmentReceived_shift a b c seg fuel
  | tick ms => exact tick_shift a b c fuel ms
  | readInbound len => rfl
  | dequeue =>
      simp only [Op.shift, step, shift, Option.map_some, List.map_tail]

/-! ## Two runs -/

/-- With a fixed number the random one does not matter. -/
theorem new_shift (conf : TCPConfig) (i : WrappingInt32) (random random' : UInt32) :
    new { conf with fixedIsn := some (i.add a) } random' =
      (new { conf with fixedIsn := some i } random).shift a b := rfl

/-- `d` looks to its owner as `c` does, and has sent the same segments up to their
numbers. -/
structure SameUpTo (a b : UInt32) (c d : TCPConnection) : Prop where
  inboundStream_eq : d.inboundStream = c.inboundStream
  unassembledBytes_eq : d.unassembledBytes = c.unassembledBytes
  bytesInFlight_eq : d.bytesInFlight = c.bytesInFlight
  active_eq : d.active = c.active
  state_eq : d.state = c.state
  segmentsOut_eq : d.segmentsOut = c.segmentsOut.map (TCPSegment.shift a b)

/-- Its state has the same name. -/
theorem stateSummary_shift (r : TCPReceiver) : (r.shift b).stateSummary = r.stateSummary := by
  unfold TCPReceiver.stateSummary
  rw [TCPReceiver.ackno_shift, Option.isNone_map]
  rfl

/-- What cannot be seen from outside is all that changes. -/
theorem SameUpTo.shift : SameUpTo a b c (c.shift a b) where
  inboundStream_eq := rfl
  unassembledBytes_eq := rfl
  bytesInFlight_eq := rfl
  active_eq := rfl
  state_eq := by
    have hr := stateSummary_shift b c.receiver
    simp only [state, TCPConnection.shift, hr]
    rfl
  segmentsOut_eq := rfl

/-- **Translation invariance**: a run from the fixed number `i + a`, with the
peer's numbers moved by `b`, does the same as the run from `i`; in particular
one returns exactly if the other does. -/
theorem exec_sameUpTo (fuel : Nat) (conf : TCPConfig) (i : WrappingInt32)
    (random random' : UInt32) (ops : List Op) :
    Option.Rel (SameUpTo a b)
      (exec (step fuel) (new { conf with fixedIsn := some i } random) ops)
      (exec (step fuel) (new { conf with fixedIsn := some (i.add a) } random')
        (ops.map (Op.shift a b))) := by
  rw [new_shift a b conf i random random', exec_map (step_shift a b · fuel ·)]
  cases exec (step fuel) (new { conf with fixedIsn := some i } random) ops with
  | none => exact .none
  | some c => exact .some (.shift a b c)

end TCPConnection

end Sponge
