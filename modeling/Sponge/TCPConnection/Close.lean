import Sponge.TCPConnection.Wake
import Sponge.TCPSender.Transmissions

/-!
# Sponge.TCPConnection.Close

A clean close means what it should: when a tick ends a connection that has
seen no RST, both directions are complete, and either the peer was done first
or the connection has lingered long enough.

`tick` decides from indirect evidence: the outbound stream is at eof,
`_next_seqno` is two past the bytes written, nothing is in flight, and a flag
that some earlier segment has cleared.  `History` records beside the
connection what this evidence is evidence of: the acknowledgment numbers the
sender accepted, whether there was a RST, the time since the last segment, and
whether the inbound stream was seen to end before the outbound one.
-/

namespace Sponge

namespace TCPSender

/-- Where an acknowledgment leaves the acknowledged position. -/
theorem absAckReceived_confirmedSeqno (s : TCPSender) (a : Nat) (win : UInt16) :
    (s.absAckReceived a win).confirmedSeqno =
      if s.confirmedSeqno ≤ a ∧ a ≤ s.nextSeqno then a else s.confirmedSeqno := by
  rcases absAckReceived_cases (t := s.absAckReceived a win) rfl with ⟨hrej, heq⟩ |
      ⟨hlo, hhi, popped, u, hret, -, hend⟩
  · rw [← heq, if_neg (by omega)]
  have hu : u.confirmedSeqno = a := hret.confirmedSeqno_eq
  rw [if_pos ⟨hlo, hhi⟩]
  rcases hend with ⟨_, _, -, -, heq⟩ | ⟨-, v, hv, heq⟩
  · rw [← heq, hu]
  · rw [← heq]
    have hvc : v.confirmedSeqno = a := by
      rw [← hv]
      split
      · exact hu
      · rw [fillWindow_confirmedSeqno, hu]
    exact hvc

end TCPSender

namespace TCPConnection

open TCPSender (Accounted Counted)

/-! ## Histories -/

/-- A connection with what has happened to it: the absolute acknowledgment numbers
accepted, whether a RST was received or sent, the milliseconds of ticks since
the last segment, and whether a segment has ever found, once the receiver had
taken it in, the inbound stream ended and the outbound one not yet at eof. -/
structure History where
  conn : TCPConnection
  accepted : List Nat
  reset : Bool
  idle : Nat
  endedFirst : Bool

namespace History

def new (cfg : TCPConfig) (random : UInt32) : History :=
  ⟨TCPConnection.new cfg random, [], false, 0, false⟩

/-- The number that the sender accepts from a segment, if any. -/
def acceptedFrom (s : TCPSender) (seg : TCPSegment) : List Nat :=
  let absAckno := unwrap seg.header.ackno s.isn s.nextSeqno
  if !seg.header.rst && seg.header.ack &&
      decide (s.confirmedSeqno ≤ absAckno ∧ absAckno ≤ s.nextSeqno) then [absAckno]
  else []

/-- One operation, and what it adds to the history. -/
def step (fuel : Nat) (h : History) (op : Op) : Option History :=
  match TCPConnection.step fuel h.conn op with
  | none => none
  | some c =>
      match op with
      | .segmentReceived seg =>
          some {
            conn := c
            accepted := h.accepted ++ acceptedFrom h.conn.sender seg
            reset := h.reset || seg.header.rst
            idle := 0
            endedFirst := h.endedFirst ||
              (!seg.header.rst && c.inboundStream.inputEnded && !h.conn.sender.stream.eof) }
      | .tick ms =>
          some { h with
            conn := c
            reset := h.reset || c.segmentsOut.any (·.header.rst)
            idle := h.idle + ms }
      | _ => some { h with conn := c }

end History

/-! ## What the record explains -/

/-- What the history says about the state. -/
structure Explained (h : History) : Prop where
  awake : Awake h.conn
  counted : Counted h.conn.sender
  confirmed : h.conn.sender.confirmedSeqno = 0 ∨ h.conn.sender.confirmedSeqno ∈ h.accepted
  linger : h.conn.lingerAfterStreamsFinish = false → h.endedFirst = true
  lastTickTime : h.conn.lastTickTime ≤ h.idle

/-- At first there is nothing to explain. -/
theorem explained_new (conf : TCPConfig) (x : UInt32) : Explained (History.new conf x) where
  awake := awake_new conf x
  counted := TCPSender.counted_new _ _ _ _
  confirmed := .inl rfl
  linger := by simp [History.new, new]
  lastTickTime := Nat.le_refl _

/-- No part of a call changes what is counted. -/
theorem counted_micro {op : Op} (hc : Counted c.sender) (h : Micro fuel r₀ op c d) :
    Counted d.sender := by
  cases h with
  | fill => exact hc.fillWindow
  | write data =>
      have hw : Counted { c.sender with stream := (c.sender.stream.write data).2 } :=
        hc.congr rfl (ByteStream.write_bytesRead _ data) rfl
      exact hw.fillWindow
  | endInput =>
      have he : Counted { c.sender with stream := c.sender.stream.endInput } := hc
      exact he.fillWindow
  | ack seg hrst hack => exact hc.absAckReceived rfl
  | tick ms =>
      obtain ⟨-, -, h3, -, -, -, h7, h8, -⟩ := c.sender.tick_frame ms
      exact hc.congr h3 (by rw [h7]) h8
  | empty => exact hc
  | flush => exact hc
  | receive seg r hrst hbefore hr => exact hc
  | read len => exact hc
  | reset => exact hc
  | sendRst => exact hc
  | note => exact hc
  | dequeue => exact hc

/-- Only a segment moves the acknowledged position. -/
theorem confirmedSeqno_step {op : Op} (hop : ∀ seg, op ≠ .segmentReceived seg)
    (h : step fuel c op = some d) : d.sender.confirmedSeqno = c.sender.confirmedSeqno := by
  refine step_preserves (P := fun d => d.sender.confirmedSeqno = c.sender.confirmedSeqno)
    rfl (fun u v hu hm => ?_) h
  cases hm with
  | fill => exact (TCPSender.fillWindow_confirmedSeqno _).trans hu
  | write data => exact (TCPSender.fillWindow_confirmedSeqno _).trans hu
  | endInput => exact (TCPSender.fillWindow_confirmedSeqno _).trans hu
  | ack seg hrst hack => exact absurd rfl (hop seg)
  | tick ms => exact (u.sender.tick_frame ms).2.2.2.1.trans hu
  | empty => exact hu
  | flush => exact hu
  | receive seg r hrst hbefore hr => exact hu
  | read len => exact hu
  | reset => exact hu
  | sendRst => exact hu
  | note => exact hu
  | dequeue => exact hu

/-- Only an acknowledgment moves the confirmed number. -/
theorem takeAck_confirmedSeqno (c : TCPConnection) (seg : TCPSegment) :
    (c.takeAck seg).sender.confirmedSeqno =
      if seg.header.ack then
        (c.sender.ackReceived seg.header.ackno seg.header.win).confirmedSeqno
      else c.sender.confirmedSeqno := by
  by_cases h : seg.header.ack = true
  · rw [takeAck, if_pos h, if_pos h, sendSegmentsOut_confirmedSeqno]
  · rw [takeAck, if_neg h, if_neg h]

theorem reply_confirmedSeqno (c : TCPConnection) (seg : TCPSegment) :
    (c.reply seg).sender.confirmedSeqno = c.sender.confirmedSeqno := by
  have hfill := TCPSender.fillWindow_confirmedSeqno c.sender
  unfold reply
  split
  · simp only
    split <;> exact hfill
  · rfl

/-! ## Each operation -/

/-- What a segment does to the members that are explained. -/
theorem Explained.segmentReceived {h : History} (hh : Explained h)
    (hstep : TCPConnection.segmentReceived fuel h.conn seg = some c) :
    (c.sender.confirmedSeqno = 0 ∨
      c.sender.confirmedSeqno ∈ h.accepted ++ History.acceptedFrom h.conn.sender seg) ∧
    (c.lingerAfterStreamsFinish = false → h.endedFirst = true ∨
      (seg.header.rst = false ∧ c.inboundStream.inputEnded = true ∧
        h.conn.sender.stream.eof = false)) ∧
    c.lastTickTime = 0 := by
  have hold : h.conn.sender.confirmedSeqno = 0 ∨ h.conn.sender.confirmedSeqno ∈
      h.accepted ++ History.acceptedFrom h.conn.sender seg :=
    hh.confirmed.imp_right (List.mem_append_left _)
  rcases segmentReceived_cases hstep with ⟨-, rfl⟩ | ⟨hrst, r, -, rfl⟩
  · exact ⟨hold, fun hl => .inl (hh.linger hl), rfl⟩
  refine ⟨?_, ?_, by simp⟩
  · rw [reply_confirmedSeqno, takeAck_confirmedSeqno, noteInboundEnded_sender]
    by_cases hack : seg.header.ack = true
    · rw [if_pos hack, TCPSender.ackReceived, TCPSender.absAckReceived_confirmedSeqno]
      by_cases hin : h.conn.sender.confirmedSeqno ≤
            unwrap seg.header.ackno h.conn.sender.isn h.conn.sender.nextSeqno ∧
          unwrap seg.header.ackno h.conn.sender.isn h.conn.sender.nextSeqno ≤
            h.conn.sender.nextSeqno
      · refine .inr (List.mem_append_right _ ?_)
        rw [if_pos hin]
        simp [History.acceptedFrom, hrst, hack, hin]
      · rw [if_neg hin]
        exact hold
    · rw [if_neg hack]
      exact hold
  · intro hl
    rw [reply_lingerAfterStreamsFinish, takeAck_lingerAfterStreamsFinish, noteInboundEnded] at hl
    simp only [inboundStream, reply_receiver, takeAck_receiver, noteInboundEnded_receiver]
    split at hl
    · next hended =>
        simp only [checkInboundEnded, Bool.and_eq_true, Bool.not_eq_true'] at hended
        exact .inr ⟨hrst, hended.1.2, hended.2⟩
    · exact .inl (hh.linger hl)

/-- Time does not change whether to linger. -/
theorem tick_lingerAfterStreamsFinish (h : tick fuel c ms = some d) :
    d.lingerAfterStreamsFinish = c.lingerAfterStreamsFinish := by
  rcases tick_cases h with rfl | rfl <;> rw [finish_lingerAfterStreamsFinish] <;> rfl

/-- The clock is set back or goes on by the time that has passed. -/
theorem tick_lastTickTime_le (h : tick fuel c ms = some d) :
    d.lastTickTime ≤ c.lastTickTime + ms := by
  rcases tick_cases h with rfl | rfl
  · rw [finish_lastTickTime]
    exact Nat.mod_le _ _
  · rw [finish_lastTickTime]
    exact Nat.zero_le _

/-- The other operations touch neither the flag nor the clock. -/
theorem step_frame {op : Op} (h1 : ∀ seg, op ≠ .segmentReceived seg) (h2 : ∀ ms, op ≠ .tick ms)
    (h : step fuel c op = some d) : d.lingerAfterStreamsFinish = c.lingerAfterStreamsFinish ∧
      d.lastTickTime = c.lastTickTime := by
  cases op with
  | connect =>
      rw [step, Option.some.injEq] at h
      simp [← h, connect]
  | write data =>
      rw [step, Option.some.injEq] at h
      rw [← h, write]
      split <;> simp
  | endInputStream =>
      rw [step, Option.some.injEq] at h
      simp [← h, endInputStream]
  | segmentReceived seg => exact absurd rfl (h1 seg)
  | tick ms => exact absurd rfl (h2 ms)
  | readInbound len =>
      rw [step, Option.some.injEq] at h
      simp [← h, readInbound]
  | dequeue =>
      rw [step, Option.some.injEq] at h
      simp [← h]

/-- **Each operation** keeps the record and what it explains in step. -/
theorem Explained.of_step {h h' : History} {op : Op} (hh : Explained h)
    (hstep : History.step fuel h op = some h') : Explained h' := by
  unfold History.step at hstep
  split at hstep
  · contradiction
  next c hc =>
  have hawake : Awake c := step_preserves hh.awake (fun _ _ => Awake.micro) hc
  have hcount : Counted c.sender :=
    step_preserves (P := fun c => Counted c.sender) hh.counted (fun _ _ => counted_micro) hc
  have hconf : (∀ seg, op ≠ .segmentReceived seg) →
      c.sender.confirmedSeqno = 0 ∨ c.sender.confirmedSeqno ∈ h.accepted := by
    intro hop
    rw [confirmedSeqno_step hop hc]
    exact hh.confirmed
  cases op with
  | segmentReceived seg =>
      simp only [Option.some.injEq] at hstep
      subst hstep
      obtain ⟨h1, h2, h3⟩ := hh.segmentReceived hc
      refine ⟨hawake, hcount, h1, ?_, Nat.le_of_eq h3⟩
      intro hl
      rcases h2 hl with he | ⟨hrst, hin, heof⟩
      · simp [he]
      · simp [hrst, hin, heof]
  | tick ms =>
      simp only [Option.some.injEq] at hstep
      subst hstep
      refine ⟨hawake, hcount, hconf (by simp), ?_, ?_⟩
      · intro hl
        rw [tick_lingerAfterStreamsFinish hc] at hl
        exact hh.linger hl
      · have hle := tick_lastTickTime_le hc
        have hidle := hh.lastTickTime
        simp only
        omega
  | _ =>
      simp only [Option.some.injEq] at hstep
      subst hstep
      obtain ⟨hl, ht⟩ := step_frame (by simp) (by simp) hc
      exact ⟨hawake, hcount, hconf (by simp), fun h0 => hh.linger (hl ▸ h0),
        Nat.le_trans (Nat.le_of_eq ht) hh.lastTickTime⟩

/-- **Every run** is explained by its history. -/
theorem exec_explained {conf : TCPConfig}
    (h : exec (History.step fuel) (History.new conf x) ops = some hist) : Explained hist :=
  exec_invariant (fun _ _ _ hh hstep => hh.of_step hstep) (explained_new conf x) h

/-- The configuration never changes. -/
theorem exec_cfg {conf : TCPConfig}
    (h : exec (History.step fuel) (History.new conf x) ops = some hist) :
    hist.conn.cfg = conf := by
  refine exec_invariant (P := fun h : History => h.conn.cfg = conf) ?_ rfl h
  intro h op h' hh hstep
  unfold History.step at hstep
  split at hstep
  · contradiction
  next c hc =>
  have hcfg : c.cfg = conf :=
    step_preserves (P := fun c => c.cfg = conf) hh (fun _ _ hu hm => by cases hm <;> exact hu) hc
  cases op <;> simp only [Option.some.injEq] at hstep <;> subst hstep <;> exact hcfg

/-! ## The end -/

/-- What `check_outbound_ended()` is evidence of. -/
theorem outbound_complete (hacc : Accounted s) (hcount : Counted s) (heof : s.stream.eof = true)
    (hnext : s.nextSeqno = s.stream.bytesWritten + 2) (hflight : s.bytesInFlight = 0) :
    s.finSent = true ∧ s.confirmedSeqno = s.stream.bytesWritten + 2 := by
  obtain ⟨⟨base, hb⟩, -⟩ := hacc
  have hwritten := s.stream.bytesWritten_eq
  have hempty := ((ByteStream.eof_eq_true _).mp heof).2
  have hconf := hb.confirmed_eq (hb.outstanding_eq_nil hflight)
  refine ⟨?_, hconf.trans hnext⟩
  rcases hcount with hc | hc
  · omega
  · cases hfin : s.finSent with
    | true => rfl
    | false =>
        rw [hfin, Bool.toNat_false] at hc
        omega

/-- A tick that ends the connection without a RST has found both checks passed, and
no reason to linger. -/
theorem tick_ends (hstep : tick fuel c ms = some d) (hactive : c.active = true)
    (hdone : d.active = false) (hrst : d.segmentsOut.any (·.header.rst) = false) :
    d.checkInboundEnded = true ∧ d.checkOutboundEnded = true ∧
      (d.lingerAfterStreamsFinish = false ∨ 10 * d.cfg.rtTimeout.toNat ≤ d.lastTickTime) := by
  rcases tick_cases hstep with rfl | rfl
  · have hticked : (c.ticked ms).active = true := hactive
    unfold finish at hdone ⊢
    split at hdone
    · next hcheck =>
        rw [if_pos hcheck]
        rw [Bool.and_eq_true] at hcheck
        refine ⟨hcheck.1, hcheck.2, ?_⟩
        cases hl : (c.ticked ms).lingerAfterStreamsFinish with
        | false => exact .inl rfl
        | true => exact .inr (by simpa [hl] using hdone)
    · rw [hticked] at hdone
      contradiction
  · rw [finish_segmentsOut] at hrst
    simp [abandoned, TCPConnection.reset, rstSegment] at hrst

/-- **A clean close is complete**: when a tick turns an active connection inactive and
no RST was received or sent, the inbound stream has ended with nothing
unassembled, the FIN has been sent, all bytes written and the FIN are
acknowledged, and either the inbound stream was seen to end before the
outbound one or the connection has been idle for ten timeouts. -/
theorem clean_close_complete {conf : TCPConfig}
    (hrun : exec (History.step fuel) (History.new conf x) ops = some h)
    (hactive : h.conn.active = true) (hstep : History.step fuel h (.tick ms) = some h')
    (hdone : h'.conn.active = false) (hrst : h'.reset = false) :
    h'.conn.inboundStream.inputEnded = true ∧ h'.conn.unassembledBytes = 0 ∧
    h'.conn.sender.finSent = true ∧
    h'.conn.sender.confirmedSeqno = h'.conn.sender.stream.bytesWritten + 2 ∧
    h'.conn.sender.stream.bytesWritten + 2 ∈ h'.accepted ∧
    (h'.endedFirst = true ∨ 10 * conf.rtTimeout.toNat ≤ h'.idle) := by
  have hex : Explained h' := (exec_explained hrun).of_step hstep
  have hcfg : h'.conn.cfg = conf :=
    exec_cfg (exec_append_eq_some.mpr ⟨h, hrun, exec_cons_eq_some.mpr ⟨h', hstep, exec_nil _ h'⟩⟩)
  obtain ⟨hin, hout, hwhy⟩ : h'.conn.checkInboundEnded = true ∧
      h'.conn.checkOutboundEnded = true ∧ (h'.conn.lingerAfterStreamsFinish = false ∨
        10 * h'.conn.cfg.rtTimeout.toNat ≤ h'.conn.lastTickTime) := by
    unfold History.step at hstep
    split at hstep
    · contradiction
    next c hc =>
    simp only [Option.some.injEq] at hstep
    subst hstep
    exact tick_ends hc hactive hdone (Bool.or_eq_false_iff.mp hrst).2
  simp only [checkInboundEnded, checkOutboundEnded, Bool.and_eq_true, beq_iff_eq] at hin hout
  obtain ⟨hfin, hconf⟩ := outbound_complete hex.awake.accounted hex.counted hout.1.1 hout.1.2
    hout.2
  refine ⟨hin.2, hin.1, hfin, hconf, ?_, ?_⟩
  · have haccepted := hex.confirmed
    rw [hconf] at haccepted
    exact haccepted.resolve_left (by omega)
  · refine hwhy.imp hex.linger fun hle => ?_
    rw [hcfg] at hle
    exact Nat.le_trans hle hex.lastTickTime

/-- An active close with timeout 1: after the peer's FIN the connection lingers for 10
milliseconds. -/
theorem clean_close_complete_linger :
    ∃ h h', exec (History.step 9) (History.new { rtTimeout := 1, fixedIsn := some ⟨0⟩ } 0)
        [.connect, .segmentReceived { header :=
            { seqno := ⟨100⟩, syn := true, ack := true, ackno := ⟨1⟩, win := 9 } },
          .endInputStream, .segmentReceived { header :=
            { seqno := ⟨101⟩, fin := true, ack := true, ackno := ⟨2⟩, win := 9 } },
          .tick 9] = some h ∧
      h.conn.active = true ∧ History.step 9 h (.tick 1) = some h' ∧ h'.conn.active = false ∧
      h'.conn.sender.stream.bytesWritten + 2 ∈ h'.accepted ∧
      (h'.endedFirst = true ∨ 10 * 1 ≤ h'.idle) :=
  have hrun : exec (History.step 9) (History.new { rtTimeout := 1, fixedIsn := some ⟨0⟩ } 0)
      [.connect, .segmentReceived { header :=
          { seqno := ⟨100⟩, syn := true, ack := true, ackno := ⟨1⟩, win := 9 } },
        .endInputStream, .segmentReceived { header :=
          { seqno := ⟨101⟩, fin := true, ack := true, ackno := ⟨2⟩, win := 9 } },
        .tick 9] = some _ := rfl
  have hstep : History.step 9 _ (.tick 1) = some _ := rfl
  have hclose := clean_close_complete hrun (by decide) hstep (by decide) (by decide)
  ⟨_, _, hrun, by decide, hstep, by decide, hclose.2.2.2.2.1, hclose.2.2.2.2.2⟩

end TCPConnection

end Sponge
