import Sponge.ByteStream
import Sponge.Lib.Run
import Sponge.TCPSegment

/-!
# Sponge.TCPSender

The sending half of a connection (`tcp_sender.hh`, `tcp_sender.cc`): it cuts
its stream into segments, keeps those not yet acknowledged and sends the
oldest of them again when the timer expires.

Absolute sequence numbers and byte counts are natural numbers; the timeouts,
the time since the last tick and the retransmission count, which a caller can
drive around, are taken modulo the width of their types.

New segments leave the sender only through `send_tcp_segment`.  `Transmit`
says what one such transmission is, and `fill_window` is a run of them.
-/

namespace Sponge

/-! ## Configuration -/

namespace TCPConfig

def DEFAULT_CAPACITY : Nat := 64000
def MAX_PAYLOAD_SIZE : Nat := 1000
def TIMEOUT_DFLT : UInt16 := 1000
def MAX_RETX_ATTEMPTS : Nat := 8

end TCPConfig

/-- `TCPConfig`, with the defaults of its members. -/
structure TCPConfig where
  rtTimeout : UInt16 := TCPConfig.TIMEOUT_DFLT
  recvCapacity : Nat := TCPConfig.DEFAULT_CAPACITY
  sendCapacity : Nat := TCPConfig.DEFAULT_CAPACITY
  fixedIsn : Option WrappingInt32 := none

/-! ## The sender -/

/-- The members of the class. -/
structure TCPSender where
  isn : WrappingInt32
  segmentsOut : List TCPSegment
  outstandingSegments : List TCPSegment
  initialRetransmissionTimeout : Nat
  applyingRetransmissionTimeout : Nat
  lastTickTime : Nat
  timingBegins : Bool
  consecutiveRetransmissions : Nat
  stream : ByteStream
  nextSeqno : Nat
  confirmedSeqno : Nat
  finSent : Bool
  bytesInFlight : Nat
  receiverWindowSize : UInt16

namespace TCPSender

/-- A sender; `random` is what `random_device` returns when no number is fixed. -/
def new (capacity : Nat) (retxTimeout : UInt16) (fixedIsn : Option WrappingInt32)
    (random : UInt32) : TCPSender where
  isn := fixedIsn.getD ⟨random⟩
  segmentsOut := []
  outstandingSegments := []
  initialRetransmissionTimeout := retxTimeout.toNat
  applyingRetransmissionTimeout := retxTimeout.toNat
  lastTickTime := 0
  timingBegins := false
  consecutiveRetransmissions := 0
  stream := ByteStream.new capacity
  nextSeqno := 0
  confirmedSeqno := 0
  finSent := false
  bytesInFlight := 0
  receiverWindowSize := 0

/-- Number the segment and put it on both queues; the segment is the caller's own
object and comes back with its number. -/
def sendTcpSegment (s : TCPSender) (tcpSegment : TCPSegment) : TCPSegment × TCPSender :=
  let tcpSegment : TCPSegment :=
    { tcpSegment with header := { tcpSegment.header with seqno := wrap s.nextSeqno s.isn } }
  (tcpSegment,
    { s with
      segmentsOut := s.segmentsOut ++ [tcpSegment]
      outstandingSegments := s.outstandingSegments ++ [tcpSegment]
      nextSeqno := s.nextSeqno + tcpSegment.lengthInSequenceSpace
      bytesInFlight := s.bytesInFlight + tcpSegment.lengthInSequenceSpace
      timingBegins := true
      lastTickTime := if s.timingBegins then s.lastTickTime else 0 })

/-- One turn of the loop of `fill_window`.  The same segment object serves all
turns: it gets a new payload, perhaps the FIN, and a new number. -/
def fillTurn (s : TCPSender) (seg : TCPSegment) (availableWindow : Nat) :
    TCPSegment × TCPSender :=
  let payloadSize := min (min s.stream.bufferSize availableWindow) TCPConfig.MAX_PAYLOAD_SIZE
  let (payload, stream) := s.stream.read payloadSize
  let seg := { seg with payload := payload }
  let last := stream.eof && decide (seg.lengthInSequenceSpace < availableWindow)
  let seg := if last then { seg with header := { seg.header with fin := true } } else seg
  { s with stream := stream, finSent := s.finSent || last }.sendTcpSegment seg

/-- The loop of `fill_window`.  Each turn takes at least one byte from the buffer,
so as many turns as there are bytes are enough (`fillLoop_stable`). -/
def fillLoop : Nat → TCPSender → TCPSegment → Nat → TCPSender
  | 0, s, _, _ => s
  | n + 1, s, seg, availableWindow =>
      if s.stream.bufferEmpty || availableWindow = 0 then s
      else
        let (seg, s) := s.fillTurn seg availableWindow
        fillLoop n s seg (availableWindow - seg.lengthInSequenceSpace)

/-- With window 0 one sequence number is still sent, to try. -/
def receiverLogicalWindowSize (s : TCPSender) : Nat :=
  if s.receiverWindowSize = 0 then 1 else s.receiverWindowSize.toNat

/-- The SYN is sent alone; behind it, the loop sends as much as the window takes. -/
def fillWindow (s : TCPSender) : TCPSender :=
  if s.finSent then s
  else
    let seg : TCPSegment := {}
    if s.nextSeqno = 0 then (s.sendTcpSegment { seg with header := { seg.header with syn := true } }).2
    else if s.confirmedSeqno + s.receiverLogicalWindowSize ≤ s.nextSeqno then s
    else if s.stream.eof then
      { (s.sendTcpSegment { seg with header := { seg.header with fin := true } }).2 with
        finSent := true }
    else
      fillLoop s.stream.bufferSize s seg
        (s.receiverLogicalWindowSize - (s.nextSeqno - s.confirmedSeqno))

/-- When the timer runs out, the first outstanding segment is sent again. -/
def tick (s : TCPSender) (msSinceLastTick : Nat) : TCPSender :=
  if !s.timingBegins then s
  else
    let lastTickTime := (s.lastTickTime + msSinceLastTick) % 2 ^ 64
    match s.outstandingSegments with
    | [] => { s with lastTickTime := lastTickTime }
    | tcpSegment :: _ =>
        if lastTickTime ≥ s.applyingRetransmissionTimeout then
          let s := { s with segmentsOut := s.segmentsOut ++ [tcpSegment], lastTickTime := 0 }
          if s.receiverWindowSize > 0 || tcpSegment.header.syn then
            { s with
              consecutiveRetransmissions := (s.consecutiveRetransmissions + 1) % 2 ^ 16
              applyingRetransmissionTimeout := (s.applyingRetransmissionTimeout * 2) % 2 ^ 32 }
          else s
        else { s with lastTickTime := lastTickTime }

/-- The number behind the first outstanding segment. -/
def frontSegOutstandingAckno (s : TCPSender) : Nat :=
  match s.outstandingSegments with
  | [] => 0
  | front :: _ => unwrap front.header.seqno s.isn s.nextSeqno + front.lengthInSequenceSpace

def frontSegOutstandingSize (s : TCPSender) : Nat :=
  match s.outstandingSegments with
  | [] => 0
  | front :: _ => front.lengthInSequenceSpace

/-- The loop of `ack_received`, over the outstanding segments: `none` beside the
state is the `return` inside it, else the flag is `ack` as the loop leaves it. -/
def ackLoop (absAckno : Nat) : List TCPSegment → TCPSender → Bool → TCPSender × Option Bool
  | [], s, ack => (s, some ack)
  | _ :: rest, s, ack =>
      if absAckno < s.frontSegOutstandingAckno then (s, none)
      else
        let s := if !ack then { s with
          applyingRetransmissionTimeout := s.initialRetransmissionTimeout
          consecutiveRetransmissions := 0
          lastTickTime := 0 } else s
        ackLoop absAckno rest { s with
          bytesInFlight := s.bytesInFlight - s.frontSegOutstandingSize
          outstandingSegments := rest } true

/-- What an acknowledgment within bounds sets at once. -/
def accept (s : TCPSender) (absAckno : Nat) (windowSize : UInt16) : TCPSender :=
  { s with confirmedSeqno := absAckno, receiverWindowSize := windowSize }

/-- `ack_received`, once the number is unwrapped. -/
def absAckReceived (s : TCPSender) (absAckno : Nat) (windowSize : UInt16) : TCPSender :=
  if s.confirmedSeqno > absAckno ∨ absAckno > s.nextSeqno then s
  else
    let s := s.accept absAckno windowSize
    match ackLoop absAckno s.outstandingSegments s false with
    | (s, none) => s
    | (s, some ack) =>
        let s := if ack then s.fillWindow else s
        { s with timingBegins := !s.outstandingSegments.isEmpty }

/-- The raw number is taken for the one nearest to the next number. -/
def ackReceived (s : TCPSender) (ackno : WrappingInt32) (windowSize : UInt16) : TCPSender :=
  s.absAckReceived (unwrap ackno s.isn s.nextSeqno) windowSize

/-- It takes no number, and is not outstanding. -/
def sendEmptySegment (s : TCPSender) : TCPSender :=
  let tcpSegment : TCPSegment := { header := { seqno := wrap s.nextSeqno s.isn } }
  { s with segmentsOut := s.segmentsOut ++ [tcpSegment] }

def isEmpty (s : TCPSender) : Bool := s.segmentsOut.isEmpty

/-- `read_a_segment`; only called when there is one. -/
def readASegment (s : TCPSender) : TCPSegment × TCPSender :=
  match s.segmentsOut with
  | [] => ({}, s)
  | temp :: rest => (temp, { s with segmentsOut := rest })

/-! ## Runs -/

/-- What a run does to a sender: the writer's side of `stream_in()`, the methods,
and the owner taking a segment off `segments_out()`. -/
inductive Op where
  | write (data : List UInt8)
  | endInput
  | fillWindow
  | ackReceived (ackno : WrappingInt32) (windowSize : UInt16)
  | tick (msSinceLastTick : Nat)
  | sendEmptySegment
  | readASegment

/-- Every operation of a sender returns. -/
def step (s : TCPSender) : Op → Option TCPSender
  | .write data => some { s with stream := (s.stream.write data).2 }
  | .endInput => some { s with stream := s.stream.endInput }
  | .fillWindow => some s.fillWindow
  | .ackReceived ackno windowSize => some (s.ackReceived ackno windowSize)
  | .tick ms => some (s.tick ms)
  | .sendEmptySegment => some s.sendEmptySegment
  | .readASegment => some s.readASegment.2

/-- A closed window counts as one byte. -/
theorem receiverLogicalWindowSize_pos (s : TCPSender) : 0 < s.receiverLogicalWindowSize := by
  unfold receiverLogicalWindowSize
  split
  · exact Nat.one_pos
  · next h =>
      refine Nat.pos_of_ne_zero fun h0 => h ?_
      exact UInt16.toNat_inj.mp h0

/-- What sending a segment does to the sender. -/
theorem readASegment_snd (s : TCPSender) :
    s.readASegment.2 = { s with segmentsOut := s.segmentsOut.tail } := by
  unfold readASegment
  split
  · next h =>
      rw [h, List.tail_nil, ← h]
  · next h => rw [h, List.tail_cons]

/-! ## One transmission -/

/-- `seg` opens the stream: a lone SYN. -/
structure Opens (s : TCPSender) (seg : TCPSegment) (t : TCPSender) : Prop where
  nextSeqno_eq : s.nextSeqno = 0
  syn_eq : seg.header.syn = true
  fin_eq : seg.header.fin = false
  payload_eq : seg.payload = []
  stream_eq : t.stream = s.stream
  finSent_eq : t.finSent = false

/-- `seg` carries the next bytes of the stream, or the FIN, or both. -/
structure Carries (s : TCPSender) (seg : TCPSegment) (t : TCPSender) : Prop where
  nextSeqno_ne : s.nextSeqno ≠ 0
  syn_eq : seg.header.syn = false
  payload_eq : seg.payload = s.stream.stream.take seg.payload.length
  payload_le : seg.payload.length ≤ TCPConfig.MAX_PAYLOAD_SIZE
  stream_eq : t.stream = (s.stream.read seg.payload.length).2
  finSent_eq : t.finSent = seg.header.fin
  eof_of_fin : seg.header.fin = true → t.stream.eof = true
  length_pos : 0 < seg.lengthInSequenceSpace
  fits : s.nextSeqno + seg.lengthInSequenceSpace ≤
    s.confirmedSeqno + s.receiverLogicalWindowSize

/-- Everything one call of `send_tcp_segment` from `fill_window` does. -/
structure Transmit (s : TCPSender) (seg : TCPSegment) (t : TCPSender) : Prop where
  header_eq : seg.header =
    { seqno := wrap s.nextSeqno s.isn, syn := seg.header.syn, fin := seg.header.fin }
  notFinSent : s.finSent = false
  isn_eq : t.isn = s.isn
  segmentsOut_eq : t.segmentsOut = s.segmentsOut ++ [seg]
  outstandingSegments_eq : t.outstandingSegments = s.outstandingSegments ++ [seg]
  nextSeqno_eq : t.nextSeqno = s.nextSeqno + seg.lengthInSequenceSpace
  confirmedSeqno_eq : t.confirmedSeqno = s.confirmedSeqno
  bytesInFlight_eq : t.bytesInFlight = s.bytesInFlight + seg.lengthInSequenceSpace
  timingBegins_eq : t.timingBegins = true
  receiverWindowSize_eq : t.receiverWindowSize = s.receiverWindowSize
  kind : Opens s seg t ∨ Carries s seg t

/-- A segment has the next number. -/
theorem Transmit.seqno_eq (h : Transmit s seg t) : seg.header.seqno = wrap s.nextSeqno s.isn := by
  rw [h.header_eq]

theorem Transmit.receiverLogicalWindowSize_eq (h : Transmit s seg t) :
    t.receiverLogicalWindowSize = s.receiverLogicalWindowSize := by
  rw [receiverLogicalWindowSize, h.receiverWindowSize_eq, receiverLogicalWindowSize]

/-- A segment carries no more than the stream had buffered. -/
theorem Carries.payload_length_le (h : Carries s seg t) :
    seg.payload.length ≤ s.stream.bufferSize := by
  rw [h.payload_eq, List.length_take, ByteStream.length_stream]
  omega

/-- No segment is empty. -/
theorem Transmit.length_pos (h : Transmit s seg t) : 0 < seg.lengthInSequenceSpace := by
  rcases h.kind with ho | hc
  · rw [TCPSegment.lengthInSequenceSpace, if_pos ho.syn_eq]
    omega
  · exact hc.length_pos

section sendTcpSegment

variable (s : TCPSender) (seg : TCPSegment)

@[simp] theorem sendTcpSegment_payload : (s.sendTcpSegment seg).1.payload = seg.payload := rfl
@[simp] theorem sendTcpSegment_fin : (s.sendTcpSegment seg).1.header.fin = seg.header.fin := rfl
@[simp] theorem sendTcpSegment_length :
    (s.sendTcpSegment seg).1.lengthInSequenceSpace = seg.lengthInSequenceSpace := rfl
@[simp] theorem sendTcpSegment_stream : (s.sendTcpSegment seg).2.stream = s.stream := rfl

end sendTcpSegment

/-- A segment with default flags besides SYN and FIN is transmitted, given what
kind of segment it is. -/
theorem transmit_sendTcpSegment {s : TCPSender} (stream : ByteStream) (fin : Bool)
    (hopen : s.finSent = false)
    (hseg : seg.header = { seqno := seg.header.seqno, syn := seg.header.syn, fin := seg.header.fin })
    (hkind : Opens s ({ s with stream := stream, finSent := fin }.sendTcpSegment seg).1
        ({ s with stream := stream, finSent := fin }.sendTcpSegment seg).2 ∨
      Carries s ({ s with stream := stream, finSent := fin }.sendTcpSegment seg).1
        ({ s with stream := stream, finSent := fin }.sendTcpSegment seg).2) :
    Transmit s ({ s with stream := stream, finSent := fin }.sendTcpSegment seg).1
      ({ s with stream := stream, finSent := fin }.sendTcpSegment seg).2 where
  header_eq := by
    simp only [sendTcpSegment]
    rw [hseg]
  notFinSent := hopen
  isn_eq := rfl
  segmentsOut_eq := rfl
  outstandingSegments_eq := rfl
  nextSeqno_eq := rfl
  confirmedSeqno_eq := rfl
  bytesInFlight_eq := rfl
  timingBegins_eq := rfl
  receiverWindowSize_eq := rfl
  kind := hkind

/-! ## `fill_window` is a run of transmissions -/

/-- What one turn of the loop reads from the stream. -/
def turnSize (s : TCPSender) (avail : Nat) : Nat :=
  min (min s.stream.bufferSize avail) TCPConfig.MAX_PAYLOAD_SIZE

/-- The FIN goes with the last bytes when there is room for it. -/
def turnFin (s : TCPSender) (avail : Nat) : Bool :=
  (s.stream.read (s.turnSize avail)).2.eof && decide (s.turnSize avail < avail)

theorem length_take_turnSize (s : TCPSender) (avail : Nat) :
    (s.stream.stream.take (s.turnSize avail)).length = s.turnSize avail := by
  rw [List.length_take, ByteStream.length_stream, turnSize]
  omega

/-- One turn reads, marks the end and sends. -/
theorem fillTurn_eq {s : TCPSender} (hopen : s.finSent = false)
    (hsyn : seg.header.syn = false) (hfin : seg.header.fin = false) :
    s.fillTurn seg avail = { s with
      stream := (s.stream.read (s.turnSize avail)).2, finSent := s.turnFin avail }.sendTcpSegment
        { header := { seg.header with fin := s.turnFin avail }
          payload := s.stream.stream.take (s.turnSize avail) } := by
  have hbare : TCPSegment.lengthInSequenceSpace
      { seg with payload := s.stream.stream.take (s.turnSize avail) } = s.turnSize avail := by
    simp only [TCPSegment.lengthInSequenceSpace, hsyn, hfin, length_take_turnSize]
    rfl
  simp only [fillTurn, ← turnSize.eq_def, ByteStream.read_fst, hopen, Bool.false_or, hbare,
    ← turnFin.eq_def]
  congr 1
  cases s.turnFin avail with
  | true => rfl
  | false => rw [if_neg Bool.false_ne_true, ← hfin]

/-- One turn takes at least one sequence number and no more than there are. -/
theorem turn_length_bounds {s : TCPSender} (hbuf : s.stream.bufferSize ≠ 0) (havail : avail ≠ 0) :
    0 < s.turnSize avail ∧ s.turnSize avail + (s.turnFin avail).toNat ≤ avail := by
  have hmax : 0 < TCPConfig.MAX_PAYLOAD_SIZE := by decide
  constructor
  · rw [turnSize]
    omega
  · cases hlast : s.turnFin avail with
    | true =>
        have hlt := of_decide_eq_true (Bool.and_eq_true_iff.mp hlast).2
        rwa [Bool.toNat_true]
    | false =>
        rw [Bool.toNat_false, turnSize]
        omega

/-- One turn of the loop is a transmission of something that fits. -/
theorem fillTurn_transmit {s : TCPSender} (hopen : s.finSent = false) (hnext : s.nextSeqno ≠ 0)
    (hseg : seg.header = { seqno := seg.header.seqno })
    (hfit : s.nextSeqno + avail ≤ s.confirmedSeqno + s.receiverLogicalWindowSize)
    (hbuf : s.stream.bufferSize ≠ 0) (havail : avail ≠ 0) :
    Transmit s (s.fillTurn seg avail).1 (s.fillTurn seg avail).2 ∧
      (s.fillTurn seg avail).1.lengthInSequenceSpace ≤ avail := by
  have hsyn : seg.header.syn = false := by rw [hseg]
  have hfin : seg.header.fin = false := by rw [hseg]
  have htake := s.length_take_turnSize avail
  obtain ⟨hpos, hle⟩ := turn_length_bounds hbuf havail
  have hlength : TCPSegment.lengthInSequenceSpace
      { header := { seg.header with fin := s.turnFin avail }
        payload := s.stream.stream.take (s.turnSize avail) } =
        s.turnSize avail + (s.turnFin avail).toNat := by
    simp only [TCPSegment.lengthInSequenceSpace, hsyn, htake]
    cases s.turnFin avail <;> rfl
  rw [fillTurn_eq hopen hsyn hfin]
  refine ⟨transmit_sendTcpSegment _ _ hopen (by simp only; rw [hseg]) (.inr ?_), ?_⟩
  · refine ⟨hnext, hsyn, ?_, ?_, ?_, rfl, ?_, ?_, ?_⟩
    · rw [sendTcpSegment_payload, htake]
    · rw [sendTcpSegment_payload, htake]
      exact Nat.min_le_right _ _
    · rw [sendTcpSegment_payload, htake, sendTcpSegment_stream]
    · intro hf
      rw [sendTcpSegment_fin] at hf
      exact (Bool.and_eq_true_iff.mp hf).1
    · rw [sendTcpSegment_length, hlength]
      omega
    · rw [sendTcpSegment_length, hlength]
      omega
  · rw [sendTcpSegment_length, hlength]
    exact hle

/-- The loop of `fill_window` is a run of transmissions. -/
theorem fillLoop_steps (n : Nat) {s : TCPSender} (hopen : s.finSent = false)
    (hnext : s.nextSeqno ≠ 0) (hseg : seg.header = { seqno := seg.header.seqno })
    (hfit : s.nextSeqno + avail ≤ s.confirmedSeqno + s.receiverLogicalWindowSize) :
    ∃ segs, Steps Transmit s segs (fillLoop n s seg avail) := by
  induction n generalizing s seg avail with
  | zero => exact ⟨[], .nil s⟩
  | succ n ih =>
      rw [fillLoop]
      split
      · exact ⟨[], .nil s⟩
      · next hgo =>
          simp only [Bool.or_eq_true, ByteStream.bufferEmpty_eq_true, decide_eq_true_eq,
            not_or] at hgo
          obtain ⟨htr, hle⟩ := fillTurn_transmit hopen hnext hseg hfit hgo.1 hgo.2
          simp only
          generalize s.fillTurn seg avail = turn at htr hle
          obtain ⟨seg', t⟩ := turn
          simp only at htr hle
          have hcarry : Carries s seg' t := htr.kind.resolve_left fun ho => hnext ho.nextSeqno_eq
          have hfinSent := hcarry.finSent_eq
          cases hfin : seg'.header.fin with
          | true =>
              -- behind the FIN the buffer is empty and the loop stops
              have hempty := ((ByteStream.eof_eq_true _).mp (hcarry.eof_of_fin hfin)).2
              have hstop : ∀ m a, fillLoop m t seg' a = t := by
                intro m a
                cases m with
                | zero => rfl
                | succ m => simp [fillLoop, hempty]
              rw [hstop]
              exact ⟨[seg'], .single htr⟩
          | false =>
              have hfit' : t.nextSeqno + (avail - seg'.lengthInSequenceSpace) ≤
                  t.confirmedSeqno + t.receiverLogicalWindowSize := by
                rw [htr.nextSeqno_eq, htr.confirmedSeqno_eq, htr.receiverLogicalWindowSize_eq]
                omega
              obtain ⟨segs, hsegs⟩ := ih (hfinSent.trans hfin) (by rw [htr.nextSeqno_eq]; omega)
                (by rw [htr.header_eq, hcarry.syn_eq, hfin]) hfit'
              exact ⟨seg' :: segs, .cons htr hsegs⟩

/-- **`fill_window` is a run of transmissions.** -/
theorem fillWindow_steps (s : TCPSender) : ∃ segs, Steps Transmit s segs s.fillWindow := by
  unfold fillWindow
  by_cases hopen : s.finSent = true
  · rw [if_pos hopen]
    exact ⟨[], .nil s⟩
  rw [if_neg hopen]
  simp only [Bool.not_eq_true] at hopen
  simp only
  by_cases h0 : s.nextSeqno = 0
  · rw [if_pos h0]
    have hkind : Opens s (s.sendTcpSegment { header := { syn := true } }).1
        (s.sendTcpSegment { header := { syn := true } }).2 := ⟨h0, rfl, rfl, rfl, rfl, hopen⟩
    exact ⟨_, .single (transmit_sendTcpSegment s.stream s.finSent hopen rfl (.inl hkind))⟩
  rw [if_neg h0]
  by_cases hfull : s.confirmedSeqno + s.receiverLogicalWindowSize ≤ s.nextSeqno
  · rw [if_pos hfull]
    exact ⟨[], .nil s⟩
  rw [if_neg hfull]
  by_cases heof : s.stream.eof = true
  · rw [if_pos heof]
    have hkind : Carries s
        ({ s with stream := s.stream, finSent := true }.sendTcpSegment { header := { fin := true } }).1
        ({ s with stream := s.stream, finSent := true }.sendTcpSegment
          { header := { fin := true } }).2 :=
      ⟨h0, rfl, rfl, Nat.zero_le _, rfl, rfl, fun _ => heof, Nat.one_pos, by
        rw [sendTcpSegment_length, show TCPSegment.lengthInSequenceSpace
          { header := { fin := true } } = 1 from rfl]
        omega⟩
    exact ⟨_, .single (transmit_sendTcpSegment s.stream true hopen rfl (.inr hkind))⟩
  rw [if_neg heof]
  exact fillLoop_steps _ hopen h0 rfl (by omega)

theorem fillTurn_stream (s : TCPSender) (seg : TCPSegment) (avail : Nat) :
    (s.fillTurn seg avail).2.stream =
      (s.stream.read (min (min s.stream.bufferSize avail) TCPConfig.MAX_PAYLOAD_SIZE)).2 := rfl

/-- As many turns as there are bytes in the buffer are enough for the loop. -/
theorem fillLoop_stable (h : s.stream.bufferSize ≤ n) :
    fillLoop (n + 1) s seg avail = fillLoop n s seg avail := by
  induction n generalizing s seg avail with
  | zero => simp [fillLoop, Nat.le_zero.mp h]
  | succ n ih =>
      rw [fillLoop]
      conv => rhs; rw [fillLoop]
      split
      · rfl
      · next hgo =>
          simp only [Bool.or_eq_true, ByteStream.bufferEmpty_eq_true, decide_eq_true_eq,
            not_or] at hgo
          have hpos : 0 < TCPConfig.MAX_PAYLOAD_SIZE := by decide
          have hbuf : (s.fillTurn seg avail).2.stream.bufferSize ≤ n := by
            rw [fillTurn_stream, ByteStream.read_bufferSize]
            omega
          exact ih hbuf

/-! ## What an acknowledgment does -/

/-- `t` is `s` after the outstanding segments `popped` have been acknowledged. -/
structure Retires (s : TCPSender) (popped : List TCPSegment) (t : TCPSender) : Prop where
  outstandingSegments_eq : s.outstandingSegments = popped ++ t.outstandingSegments
  bytesInFlight_eq : t.bytesInFlight =
    s.bytesInFlight - (popped.map TCPSegment.lengthInSequenceSpace).sum
  isn_eq : t.isn = s.isn
  segmentsOut_eq : t.segmentsOut = s.segmentsOut
  timingBegins_eq : t.timingBegins = s.timingBegins
  stream_eq : t.stream = s.stream
  nextSeqno_eq : t.nextSeqno = s.nextSeqno
  confirmedSeqno_eq : t.confirmedSeqno = s.confirmedSeqno
  finSent_eq : t.finSent = s.finSent
  receiverWindowSize_eq : t.receiverWindowSize = s.receiverWindowSize

/-- Nothing is acknowledged. -/
theorem Retires.refl (s : TCPSender) : Retires s [] s :=
  ⟨rfl, rfl, rfl, rfl, rfl, rfl, rfl, rfl, rfl, rfl⟩

/-- One segment after the other. -/
theorem Retires.cons (h : Retires s [seg] t) (h' : Retires t popped u) :
    Retires s (seg :: popped) u where
  outstandingSegments_eq := by
    rw [h.outstandingSegments_eq, h'.outstandingSegments_eq]
    rfl
  bytesInFlight_eq := by
    rw [h'.bytesInFlight_eq, h.bytesInFlight_eq, Nat.sub_sub]
    simp
  isn_eq := h'.isn_eq.trans h.isn_eq
  segmentsOut_eq := h'.segmentsOut_eq.trans h.segmentsOut_eq
  timingBegins_eq := h'.timingBegins_eq.trans h.timingBegins_eq
  stream_eq := h'.stream_eq.trans h.stream_eq
  nextSeqno_eq := h'.nextSeqno_eq.trans h.nextSeqno_eq
  confirmedSeqno_eq := h'.confirmedSeqno_eq.trans h.confirmedSeqno_eq
  finSent_eq := h'.finSent_eq.trans h.finSent_eq
  receiverWindowSize_eq := h'.receiverWindowSize_eq.trans h.receiverWindowSize_eq

/-- The loop of `ack_received` retires segments whose computed end is covered; it
returns at the first one that is not, or empties the queue. -/
theorem ackLoop_retires {s : TCPSender} {ack : Bool} (hl : s.outstandingSegments = l)
    (h : ackLoop a l s ack = (t, res)) :
    ∃ popped, Retires s popped t ∧
      (∀ seg ∈ popped, unwrap seg.header.seqno s.isn s.nextSeqno + seg.lengthInSequenceSpace ≤ a) ∧
      ((res = none ∧ ∃ seg rest, t.outstandingSegments = seg :: rest ∧
          a < unwrap seg.header.seqno s.isn s.nextSeqno + seg.lengthInSequenceSpace) ∨
        (res = some (ack || !popped.isEmpty) ∧ t.outstandingSegments = [])) := by
  induction l generalizing s ack with
  | nil =>
      simp only [ackLoop, Prod.mk.injEq] at h
      obtain ⟨rfl, rfl⟩ := h
      exact ⟨[], .refl s, by simp, .inr ⟨by simp, hl⟩⟩
  | cons seg rest ih =>
      have hfront : s.frontSegOutstandingAckno =
          unwrap seg.header.seqno s.isn s.nextSeqno + seg.lengthInSequenceSpace := by
        rw [frontSegOutstandingAckno, hl]
      rw [ackLoop] at h
      by_cases hlt : a < s.frontSegOutstandingAckno
      · rw [if_pos hlt, Prod.mk.injEq] at h
        obtain ⟨rfl, rfl⟩ := h
        exact ⟨[], .refl s, by simp, .inl ⟨rfl, seg, rest, hl, hfront ▸ hlt⟩⟩
      · rw [if_neg hlt] at h
        -- whether or not the timer is restarted, the front segment goes
        obtain ⟨u, hu, hrest, hloop⟩ : ∃ u, Retires s [seg] u ∧ u.outstandingSegments = rest ∧
            ackLoop a rest u true = (t, res) := by
          refine ⟨_, ?_, ?_, h⟩
          · cases ack <;> exact ⟨hl, by simp [frontSegOutstandingSize, hl], rfl, rfl, rfl, rfl, rfl,
              rfl, rfl, rfl⟩
          · cases ack <;> rfl
        obtain ⟨popped, hpop, hends, hres⟩ := ih hrest hloop
        rw [hu.isn_eq, hu.nextSeqno_eq] at hends hres
        refine ⟨seg :: popped, hu.cons hpop, ?_, ?_⟩
        · intro x hx
          rcases List.mem_cons.mp hx with rfl | hx'
          · omega
          · exact hends x hx'
        · simpa using hres

/-- Everything `ack_received` can do: ignore the number, retire some segments and
return with others left, or retire all of them, send what now fits and set
the timer. -/
theorem absAckReceived_cases {s t : TCPSender} (h : s.absAckReceived a win = t) :
    ((a < s.confirmedSeqno ∨ s.nextSeqno < a) ∧ s = t) ∨
    (s.confirmedSeqno ≤ a ∧ a ≤ s.nextSeqno ∧
      ∃ popped u, Retires (s.accept a win) popped u ∧
        (∀ seg ∈ popped,
          unwrap seg.header.seqno s.isn s.nextSeqno + seg.lengthInSequenceSpace ≤ a) ∧
        ((∃ seg rest, u.outstandingSegments = seg :: rest ∧
            a < unwrap seg.header.seqno s.isn s.nextSeqno + seg.lengthInSequenceSpace ∧ u = t) ∨
          (u.outstandingSegments = [] ∧ ∃ v, (if popped.isEmpty then u else u.fillWindow) = v ∧
            { v with timingBegins := !v.outstandingSegments.isEmpty } = t))) := by
  unfold absAckReceived at h
  by_cases hrej : s.confirmedSeqno > a ∨ a > s.nextSeqno
  · rw [if_pos hrej] at h
    exact .inl ⟨hrej, h⟩
  rw [if_neg hrej] at h
  refine .inr ⟨by omega, by omega, ?_⟩
  simp only at h
  obtain ⟨⟨u, res⟩, hloop⟩ : ∃ p, ackLoop a (s.accept a win).outstandingSegments
      (s.accept a win) false = p := ⟨_, rfl⟩
  obtain ⟨popped, hpop, hends, hres⟩ := ackLoop_retires rfl hloop
  rw [hloop] at h
  refine ⟨popped, u, hpop, hends, ?_⟩
  rcases hres with ⟨rfl, seg, rest, hst, hlt⟩ | ⟨rfl, hst⟩
  · exact .inl ⟨seg, rest, hst, hlt, h⟩
  · refine .inr ⟨hst, _, rfl, ?_⟩
    cases popped <;> exact h

/-- The sender only reads from its stream: what reading leaves alone, `fill_window`
does. -/
theorem fillWindow_stream {f : ByteStream → α} (hf : ∀ stream len, f (stream.read len).2 = f stream)
    (s : TCPSender) : f s.fillWindow.stream = f s.stream := by
  obtain ⟨segs, hsegs⟩ := s.fillWindow_steps
  refine hsegs.preserves (P := fun t => f t.stream = f s.stream) ?_ rfl
  intro t seg u ht h
  rcases h.kind with ho | hc
  · rw [ho.stream_eq, ht]
  · rw [hc.stream_eq, hf, ht]

/-- What no read changes, no acknowledgment changes. -/
theorem absAckReceived_stream {f : ByteStream → α}
    (hf : ∀ stream len, f (stream.read len).2 = f stream) (s : TCPSender) (a : Nat)
    (win : UInt16) : f (s.absAckReceived a win).stream = f s.stream := by
  rcases absAckReceived_cases (t := s.absAckReceived a win) rfl with ⟨-, h⟩ |
      ⟨-, -, popped, u, hret, -, hend⟩
  · rw [← h]
  have hu : u.stream = s.stream := hret.stream_eq
  rcases hend with ⟨_, _, -, -, h⟩ | ⟨-, v, hv, h⟩
  · rw [← h, hu]
  · rw [← h, ← hv]
    simp only
    split
    · rw [hu]
    · rw [fillWindow_stream hf, hu]

/-- And so does an acknowledgment. -/
theorem ackReceived_stream {f : ByteStream → α}
    (hf : ∀ stream len, f (stream.read len).2 = f stream) (s : TCPSender) (ackno : WrappingInt32)
    (win : UInt16) : f (s.ackReceived ackno win).stream = f s.stream := by
  rw [ackReceived, absAckReceived_stream hf]

/-- Everything `tick` can do: move the clock, or send the oldest outstanding
segment again. -/
theorem tick_cases {s t : TCPSender} (h : s.tick ms = t) :
    (∃ time, { s with lastTickTime := time } = t) ∨
    (∃ seg rest time timeout count, s.outstandingSegments = seg :: rest ∧
      { s with
        segmentsOut := s.segmentsOut ++ [seg], lastTickTime := time
        applyingRetransmissionTimeout := timeout, consecutiveRetransmissions := count } = t) := by
  unfold tick at h
  split at h
  · exact .inl ⟨s.lastTickTime, h⟩
  · simp only at h
    split at h
    · exact .inl ⟨_, h⟩
    · next seg rest hst =>
        split at h
        · split at h
          · exact .inr ⟨seg, rest, _, _, _, hst, h⟩
          · exact .inr ⟨seg, rest, _, s.applyingRetransmissionTimeout,
              s.consecutiveRetransmissions, hst, h⟩
        · exact .inl ⟨_, h⟩

end TCPSender

end Sponge
