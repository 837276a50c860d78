import Sponge.TCPConnection.Stamp
import Sponge.TCPState

/-!
# Sponge.TCPConnection.Listen

A connection that was neither asked to connect nor to send, and has seen no
SYN, has nothing to say.

The receiver passes over segments that come before the SYN, but
`segment_received` goes on behind it.  An acknowledgment is harmless: at most
its window is noted.  But a RST ends the connection, and a segment that
occupies sequence numbers is answered, which makes `fill_window` send a SYN.
Anything else leaves the connection as it was (`Listens`), so these are exactly
the segments that disturb it.
-/

namespace Sponge

namespace TCPConnection

/-- What reaches a listening connection: segments without SYN, and the time. -/
def Op.Unsolicited : Op → Prop
  | .segmentReceived seg => seg.header.syn = false
  | .tick _ => True
  | _ => False

instance (op : Op) : Decidable op.Unsolicited :=
  match op with
  | .segmentReceived seg => inferInstanceAs (Decidable (seg.header.syn = false))
  | .tick _ => isTrue trivial
  | .connect | .write _ | .endInputStream | .readInbound _ | .dequeue => isFalse id

/-- A RST, or a segment that asks for an answer. -/
def Op.Disturbs : Op → Prop
  | .segmentReceived seg => seg.header.rst = true ∨ 0 < seg.lengthInSequenceSpace
  | _ => False

instance (op : Op) : Decidable op.Disturbs :=
  match op with
  | .segmentReceived _ => inferInstanceAs (Decidable (_ ∨ _))
  | .connect | .write _ | .endInputStream | .tick _ | .readInbound _ | .dequeue => isFalse id

/-- The connection is as it was made, but for the peer's window and the clock. -/
structure Listens (conf : TCPConfig) (x : UInt32) (c : TCPConnection) : Prop where
  receiver_eq : c.receiver = (new conf x).receiver
  sender_eq : ∃ win, c.sender = { (new conf x).sender with receiverWindowSize := win }
  segmentsOut_eq : c.segmentsOut = []
  linger : c.lingerAfterStreamsFinish = true
  active : c.active = true

section listens

variable {conf : TCPConfig} {x : UInt32} {c d : TCPConnection}

/-- A new connection listens. -/
theorem listens_new (conf : TCPConfig) (x : UInt32) : Listens conf x (new conf x) :=
  ⟨rfl, ⟨0, rfl⟩, rfl, rfl, rfl⟩

/-- The state has the name that it should have. -/
theorem Listens.state (hc : Listens conf x c) : c.state = .ofState .LISTEN := by
  obtain ⟨win, hs⟩ := hc.sender_eq
  simp [TCPConnection.state, hc.receiver_eq, hs, hc.linger, hc.active, TCPState.ofState, new,
    TCPReceiver.stateSummary, TCPSender.stateSummary, TCPReceiver.new, TCPSender.new,
    TCPReceiver.streamOut, TCPReceiver.ackno, StreamReassembler.new, ByteStream.new]

theorem Listens.flushed (hc : Listens conf x c) : c.sender.segmentsOut = [] := by
  obtain ⟨win, hs⟩ := hc.sender_eq
  rw [hs]
  rfl

/-- An acknowledgment is rejected, or its window noted. -/
theorem absAckReceived_new {s : TCPSender}
    (hs : ∃ win, s = { (new conf x).sender with receiverWindowSize := win }) (a : Nat)
    (win : UInt16) :
    ∃ win', s.absAckReceived a win = { (new conf x).sender with receiverWindowSize := win' } := by
  obtain ⟨old, rfl⟩ := hs
  by_cases ha : a = 0
  · exact ⟨win, by rw [ha]; rfl⟩
  · refine ⟨old, ?_⟩
    rw [TCPSender.absAckReceived, if_pos]
    simp only [new, TCPSender.new]
    omega

/-- The receiver passes over what comes before the SYN. -/
theorem segmentReceived_new (hsyn : seg.header.syn = false) :
    (new conf x).receiver.segmentReceived fuel seg = some (new conf x).receiver := by
  rw [TCPReceiver.segmentReceived, if_pos]
  simp [new, TCPReceiver.new, hsyn]

theorem Listens.noteInboundEnded (hc : Listens conf x c) : c.noteInboundEnded = c := by
  rw [TCPConnection.noteInboundEnded, if_neg]
  simp [checkInboundEnded, hc.receiver_eq, new, TCPReceiver.new, TCPReceiver.streamOut,
    StreamReassembler.new]

/-- With nothing on the sender's queue a flush does nothing. -/
theorem Listens.flush {s : TCPSender} (hc : Listens conf x c)
    (hs : ∃ win, s = { (new conf x).sender with receiverWindowSize := win }) :
    Listens conf x { c with sender := s }.sendSegmentsOut.2 := by
  obtain ⟨win, rfl⟩ := hs
  refine ⟨hc.receiver_eq, ⟨win, rfl⟩, ?_, hc.linger, hc.active⟩
  rw [sendSegmentsOut, hc.segmentsOut_eq]
  rfl

/-- An acknowledgment for nothing changes nothing. -/
theorem Listens.takeAck (hc : Listens conf x c) (seg : TCPSegment) :
    Listens conf x (c.takeAck seg) := by
  by_cases hack : seg.header.ack = true
  · obtain ⟨win, hs⟩ := absAckReceived_new hc.sender_eq
      (unwrap seg.header.ackno c.sender.isn c.sender.nextSeqno) seg.header.win
    rw [TCPConnection.takeAck, if_pos hack, TCPSender.ackReceived, hs]
    exact hc.flush ⟨win, rfl⟩
  · rw [TCPConnection.takeAck, if_neg hack]
    exact hc

/-- What a segment does to a listening connection, before it is answered. -/
theorem Listens.segmentReceived (hc : Listens conf x c) (hsyn : seg.header.syn = false)
    (hrst : seg.header.rst = false) :
    ∃ c', Listens conf x c' ∧ TCPConnection.segmentReceived fuel c seg = some (c'.reply seg) := by
  have hc' : Listens conf x { c with lastTickTime := 0 } :=
    ⟨hc.receiver_eq, hc.sender_eq, hc.segmentsOut_eq, hc.linger, hc.active⟩
  refine ⟨_, hc'.takeAck seg, ?_⟩
  have hr : c.receiver.segmentReceived fuel seg = some c.receiver := by
    rw [hc.receiver_eq, segmentReceived_new hsyn]
  rw [TCPConnection.segmentReceived]
  simp only [hrst, hr, Bool.false_eq_true, ↓reduceIte]
  rw [hc'.noteInboundEnded]

theorem Listens.finish (hc : Listens conf x c) : c.finish = c := by
  rw [TCPConnection.finish, if_neg]
  simp [checkInboundEnded, hc.receiver_eq, new, TCPReceiver.new, TCPReceiver.streamOut,
    StreamReassembler.new]

/-- While it listens, time does not matter. -/
theorem Listens.tick (hc : Listens conf x c) (ms : Nat) :
    ∃ d, TCPConnection.tick fuel c ms = some d ∧ Listens conf x d := by
  obtain ⟨win, hs⟩ := hc.sender_eq
  have htick : c.sender.tick ms = c.sender := by
    rw [hs]
    rfl
  have hretx : c.sender.consecutiveRetransmissions = 0 := by
    rw [hs]
    rfl
  have hclock : Listens conf x { c with lastTickTime := (c.lastTickTime + ms) % 2 ^ 64 } :=
    ⟨hc.receiver_eq, hc.sender_eq, hc.segmentsOut_eq, hc.linger, hc.active⟩
  have hd := hclock.flush hc.sender_eq
  refine ⟨_, ?_, hd⟩
  rw [TCPConnection.tick]
  simp only [htick]
  rw [if_neg, hd.finish]
  show ¬ c.sender.consecutiveRetransmissions > TCPConfig.MAX_RETX_ATTEMPTS
  rw [hretx]
  decide

/-- **What does not disturb a listening connection** leaves it listening. -/
theorem Listens.step (hc : Listens conf x c) (fuel : Nat) (hop : op.Unsolicited)
    (hquiet : ¬ op.Disturbs) :
    ∃ d, TCPConnection.step fuel c op = some d ∧ Listens conf x d := by
  cases op with
  | segmentReceived seg =>
      simp only [Op.Disturbs, not_or, Bool.not_eq_true, Nat.not_lt] at hquiet
      obtain ⟨c', hc', hcall⟩ := hc.segmentReceived hop hquiet.1
      refine ⟨c', ?_, hc'⟩
      rw [TCPConnection.step, hcall, reply, if_neg (by omega)]
  | tick ms => exact hc.tick ms
  | _ => exact hop.elim

/-- **What disturbs a listening connection** ends it or makes it send. -/
theorem Listens.disturbed (hc : Listens conf x c) (hop : op.Unsolicited) (h : op.Disturbs)
    (hstep : TCPConnection.step fuel c op = some d) : d.active = false ∨ d.segmentsOut ≠ [] := by
  cases op with
  | segmentReceived seg =>
      cases hrst : seg.header.rst with
      | true =>
          rcases segmentReceived_cases hstep with ⟨-, rfl⟩ | ⟨hrst', -⟩
          · exact .inl rfl
          · exact absurd (hrst.symm.trans hrst') (by decide)
      | false =>
          have hlen := h.resolve_left (by simp [hrst])
          obtain ⟨added, hadded⟩ := segmentReceived_answers hc.flushed hrst hstep
          refine .inr ?_
          rw [hadded.segmentsOut_eq, hc.segmentsOut_eq]
          exact hadded.answered hlen
  | _ => exact h.elim

end listens

/-! ## Runs -/

/-- A run without disturbance is listened through to its end. -/
theorem exec_listens {conf : TCPConfig} {c : TCPConnection} (hc : Listens conf x c)
    (hops : ∀ op ∈ ops, op.Unsolicited) (hquiet : ∀ op ∈ ops, ¬ op.Disturbs) :
    ∃ d, exec (step fuel) c ops = some d ∧ Listens conf x d := by
  induction ops generalizing c with
  | nil => exact ⟨c, rfl, hc⟩
  | cons op ops ih =>
      rw [List.forall_mem_cons] at hops hquiet
      obtain ⟨t, ht, hlt⟩ := hc.step fuel hops.1 hquiet.1
      obtain ⟨d, hd, hld⟩ := ih hlt hops.2 hquiet.2
      exact ⟨d, exec_cons_eq_some.mpr ⟨t, ht, hd⟩, hld⟩

/-- A run that is silent all along is without disturbance: the first one would show. -/
theorem Listens.quiet_of_silent {conf : TCPConfig} {c : TCPConnection} (hc : Listens conf x c)
    (fuel : Nat) (hops : ∀ op ∈ ops, op.Unsolicited)
    (hsilent : ∀ pre, pre <+: ops → ∃ d, exec (TCPConnection.step fuel) c pre = some d ∧
      d.segmentsOut = [] ∧ d.active = true) : ∀ op ∈ ops, ¬ op.Disturbs := by
  induction ops generalizing c with
  | nil => simp
  | cons op ops ih =>
      rw [List.forall_mem_cons] at hops
      have hquiet : ¬ op.Disturbs := by
        intro hdist
        obtain ⟨d, hd, hout, hactive⟩ := hsilent [op] (by simp)
        obtain ⟨t, ht, hnil⟩ := exec_cons_eq_some.mp hd
        rw [exec_nil, Option.some.injEq] at hnil
        rcases hc.disturbed hops.1 hdist ht with hdead | hsent
        · simp [← hnil, hdead] at hactive
        · exact hsent (hnil ▸ hout)
      rw [List.forall_mem_cons]
      refine ⟨hquiet, ?_⟩
      obtain ⟨t, ht, hlt⟩ := hc.step fuel hops.1 hquiet
      refine ih hlt hops.2 fun pre hpre => ?_
      obtain ⟨d, hd, hrest⟩ := hsilent (op :: pre) (by simpa using hpre)
      obtain ⟨t', ht', hd'⟩ := exec_cons_eq_some.mp hd
      rw [ht, Option.some.injEq] at ht'
      exact ⟨d, ht' ▸ hd', hrest⟩

/-- **A listening connection is silent**, over every sequence of segments without SYN and
ticks: all calls return and all along `segments_out` is empty, `active()` true and the
state LISTEN, exactly if nothing in the sequence is a RST or occupies sequence numbers. -/
theorem listening_silent_iff {conf : TCPConfig} (fuel : Nat) (x : UInt32)
    (hops : ∀ op ∈ ops, op.Unsolicited) :
    (∀ pre, pre <+: ops → ∃ c, exec (step fuel) (new conf x) pre = some c ∧
      c.segmentsOut = [] ∧ c.active = true ∧ c.state = .ofState .LISTEN) ↔
    ∀ op ∈ ops, ¬ op.Disturbs := by
  constructor
  · intro hsilent
    refine (listens_new conf x).quiet_of_silent fuel hops fun pre hpre => ?_
    obtain ⟨c, hc, hout, hactive, -⟩ := hsilent pre hpre
    exact ⟨c, hc, hout, hactive⟩
  · intro hquiet pre hpre
    obtain ⟨c, hc, hlisten⟩ := exec_listens (listens_new conf x)
      (fun op hop => hops op (hpre.subset hop)) (fun op hop => hquiet op (hpre.subset hop))
    exact ⟨c, hc, hlisten.segmentsOut_eq, hlisten.active, hlisten.state⟩

/-- An acknowledgment, a tick and an acknowledgment that only reports a window. -/
theorem listening_silent_iff_acks :
    ∃ c, exec (step 0) (new { fixedIsn := some ⟨7⟩ } 0)
        [.segmentReceived { header := { ack := true, ackno := ⟨9⟩ } }, .tick 5000,
          .segmentReceived { header := { ack := true, ackno := ⟨7⟩, win := 10 } }] = some c ∧
      c.segmentsOut = [] ∧ c.active = true ∧ c.state = .ofState .LISTEN :=
  (listening_silent_iff 0 0 (by decide)).mpr (by decide) _ List.prefix_rfl

/-- The calls return, and the connection no longer listens in silence. -/
def Stirred (ops : List Op) : Prop :=
  (∀ op ∈ ops, op.Unsolicited) ∧
    ∃ fuel c, exec (step fuel) (new { fixedIsn := some ⟨7⟩ } 0) ops = some c ∧
      ¬ (c.segmentsOut = [] ∧ c.active = true ∧ c.state = .ofState .LISTEN)

/-- A RST, a byte, and a FIN. -/
theorem listening_stirred :
    Stirred [.segmentReceived { header := { rst := true } }] ∧
    Stirred [.segmentReceived { payload := [97] }] ∧
    Stirred [.segmentReceived { header := { fin := true } }] := by
  refine ⟨?_, ?_, ?_⟩ <;> exact ⟨by decide, 0, _, rfl, by decide⟩

end TCPConnection

end Sponge
