import Sponge.TCPConnection.Wake
import Sponge.TCPSender.Timer

/-!
# Sponge.TCPConnection.Inactive

What an inactive connection still does.  Neither `segment_received` nor `tick`
looks at `_active`, so a connection that is over goes on answering segments,
sending again what is outstanding, and resetting; and a tick may even set
`_active` again, when a late segment has put the clock back.

`Stirs` lists these occasions, each told from the state and the argument of
the call alone.  As long as none of them comes up, an inactive connection
stays inactive and silent.
-/

namespace Sponge

namespace TCPSender

/-- The acknowledgment in `seg` covers everything sent, something was still
outstanding, and the stream has more to send. -/
def Releases (s : TCPSender) (seg : TCPSegment) : Prop :=
  seg.header.ack = true ∧ unwrap seg.header.ackno s.isn s.nextSeqno = s.nextSeqno ∧
    s.outstandingSegments ≠ [] ∧ s.finSent = false ∧
    (s.stream.bufferSize ≠ 0 ∨ s.stream.inputEnded = true)

instance (s : TCPSender) (seg : TCPSegment) : Decidable (s.Releases seg) :=
  inferInstanceAs (Decidable (_ ∧ _ ∧ _ ∧ _ ∧ _))

/-- With nothing to send, `fill_window` does nothing. -/
theorem fillWindow_idle {s : TCPSender} (hnext : s.nextSeqno ≠ 0)
    (h : s.finSent = false → s.stream.bufferSize = 0 ∧ s.stream.inputEnded = false) :
    s.fillWindow = s := by
  unfold fillWindow
  cases hfin : s.finSent with
  | true => rfl
  | false =>
      obtain ⟨hbuf, hopen⟩ := h hfin
      have heof : s.stream.eof = false := by
        simp [ByteStream.eof, hopen]
      simp [hnext, heof, hbuf, fillLoop]

/-- An acknowledgment that releases nothing brings out nothing. -/
theorem ackReceived_segmentsOut {s : TCPSender} (hs : InFlight s base)
    (hack : seg.header.ack = true) (h : ¬ s.Releases seg) :
    (s.ackReceived seg.header.ackno seg.header.win).segmentsOut = s.segmentsOut := by
  obtain ⟨a, ha⟩ : ∃ a, unwrap seg.header.ackno s.isn s.nextSeqno = a := ⟨_, rfl⟩
  have hfar : s.confirmedSeqno ≤ a → a ≤ s.nextSeqno → a < 2 ^ 63 := ha ▸ hs.ackno_lt
  simp only [Releases, ackReceived, ha] at *
  rcases absAckReceived_cases (t := s.absAckReceived a seg.header.win) rfl with ⟨-, heq⟩ |
      ⟨hlo, hhi, popped, u, hret, hends, hend⟩
  · rw [← heq]
  have hu : u.segmentsOut = s.segmentsOut := hret.segmentsOut_eq
  rcases hend with ⟨_, _, -, -, heq⟩ | ⟨hnil, v, hv, heq⟩
  · rw [← heq, hu]
  have hv' : v.segmentsOut = s.segmentsOut := by
    rw [← hv]
    split
    · exact hu
    · next hpop =>
        -- everything is retired, so the number is `_next_seqno`
        obtain ⟨c, hc⟩ := hs.retires (hfar hlo hhi) hlo hhi hret hends (by simp [hnil])
        have hconf := hc.confirmed_eq hnil
        have hout : s.outstandingSegments = popped ++ u.outstandingSegments :=
          hret.outstandingSegments_eq
        have hne : s.outstandingSegments ≠ [] := by
          rw [hout, hnil, List.append_nil]
          simpa using hpop
        have hua : u.confirmedSeqno = a := hret.confirmedSeqno_eq
        have hun : u.nextSeqno = s.nextSeqno := hret.nextSeqno_eq
        have hfin : u.finSent = s.finSent := hret.finSent_eq
        have hstream : u.stream = s.stream := hret.stream_eq
        rw [fillWindow_idle ?_ ?_, hu]
        · rw [hun]
          exact hs.next_ne_zero hne
        · rw [hfin, hstream]
          intro hopen
          have hquiet := fun hw => h ⟨hack, by omega, hne, hopen, hw⟩
          simpa using hquiet
  rw [← heq]
  exact hv'

end TCPSender

namespace TCPConnection

/-- `tick` finds both streams done and the linger not over: it sets `_active`. -/
def Revives (c : TCPConnection) (ms : Nat) : Prop :=
  c.checkInboundEnded = true ∧ c.checkOutboundEnded = true ∧
    c.lingerAfterStreamsFinish = true ∧
    (c.lastTickTime + ms) % 2 ^ 64 < 10 * c.cfg.rtTimeout.toNat

/-- What makes a connection act, whether or not it is active. -/
def Stirs (c : TCPConnection) : Op → Prop
  | .segmentReceived seg =>
      seg.header.rst = false ∧ (0 < seg.lengthInSequenceSpace ∨ c.sender.Releases seg)
  | .tick ms =>
      c.sender.Due ms ∨ TCPConfig.MAX_RETX_ATTEMPTS < c.sender.consecutiveRetransmissions ∨
        c.Revives ms
  | _ => False

instance (c : TCPConnection) (op : Op) : Decidable (c.Stirs op) :=
  match op with
  | .segmentReceived _ => inferInstanceAs (Decidable (_ ∧ (_ ∨ _)))
  | .tick _ => inferInstanceAs (Decidable (_ ∨ _ ∨ (_ ∧ _ ∧ _ ∧ _)))
  | .connect | .write _ | .endInputStream | .readInbound _ | .dequeue => isFalse id

/-- The calls that come from the network and the clock. -/
def Op.Incoming : Op → Prop
  | .segmentReceived _ | .tick _ => True
  | _ => False

/-- An inactive connection with the queue `out`, as it is between operations. -/
structure Silent (out : List TCPSegment) (c : TCPConnection) : Prop where
  awake : Awake c
  flushed : c.sender.segmentsOut = []
  inactive : c.active = false
  segmentsOut_eq : c.segmentsOut = out

/-- A segment that does not stir leaves the connection silent. -/
theorem segmentReceived_silent {c d : TCPConnection} (hawake : Awake c)
    (hflushed : c.sender.segmentsOut = []) (hstir : ¬ c.Stirs (.segmentReceived seg))
    (hdead : c.active = false) (h : segmentReceived fuel c seg = some d) :
    d.active = false ∧ d.segmentsOut = c.segmentsOut := by
  rcases segmentReceived_cases h with ⟨-, rfl⟩ | ⟨hrst, r, -, rfl⟩
  · exact ⟨rfl, rfl⟩
  have hlen : seg.lengthInSequenceSpace = 0 := by
    have hnot : ¬ 0 < seg.lengthInSequenceSpace := fun hpos => hstir ⟨hrst, .inl hpos⟩
    omega
  have hrel : ¬ c.sender.Releases seg := fun hr => hstir ⟨hrst, .inr hr⟩
  refine ⟨by simpa using hdead, ?_⟩
  rw [reply, if_neg (by omega)]
  by_cases hack : seg.header.ack = true
  · obtain ⟨base, hbase⟩ := hawake.accounted.1
    have hout := TCPSender.ackReceived_segmentsOut hbase hack hrel
    rw [hflushed] at hout
    rw [takeAck, if_pos hack, sendSegmentsOut]
    simp only [noteInboundEnded_sender, noteInboundEnded_segmentsOut, hout, List.map_nil,
      List.append_nil]
  · rw [takeAck, if_neg hack, noteInboundEnded_segmentsOut]

/-- A tick that does not stir leaves the connection silent. -/
theorem tick_silent {c d : TCPConnection} (hflushed : c.sender.segmentsOut = [])
    (hstir : ¬ c.Stirs (.tick ms)) (hdead : c.active = false) (h : tick fuel c ms = some d) :
    d.active = false ∧ d.segmentsOut = c.segmentsOut := by
  simp only [Stirs, not_or] at hstir
  obtain ⟨hdue, hretx, hrev⟩ := hstir
  obtain ⟨time, htime⟩ : ∃ time, c.sender.tick ms = { c.sender with lastTickTime := time } :=
    ⟨_, TCPSender.tick_of_not_due hdue⟩
  unfold tick at h
  simp only [htime, sendSegmentsOut, hflushed, List.map_nil, List.append_nil] at h
  rw [if_neg (by simpa using hretx), Option.some.injEq] at h
  rw [← h, finish]
  split
  · next hdone =>
      -- both streams are done, so the linger must be over
      rw [Bool.and_eq_true] at hdone
      refine ⟨?_, rfl⟩
      simp only [Bool.not_eq_false', Bool.or_eq_true, Bool.not_eq_true', decide_eq_true_eq]
      by_contra hnot
      simp only [not_or, Bool.not_eq_false, Nat.not_le] at hnot
      exact hrev ⟨hdone.1, hdone.2, hnot.1, hnot.2⟩
  · exact ⟨hdead, rfl⟩

/-- **Each call** that does not stir keeps an inactive connection silent. -/
theorem Silent.of_step {c d : TCPConnection} {op : Op} (hc : Silent out c)
    (hop : op.Incoming ∧ ¬ c.Stirs op) (h : step fuel c op = some d) : Silent out d := by
  have hawake : Awake d := step_preserves hc.awake (fun _ _ => Awake.micro) h
  have hflushed := step_flushed hc.flushed h
  suffices d.active = false ∧ d.segmentsOut = c.segmentsOut from
    ⟨hawake, hflushed, this.1, this.2.trans hc.segmentsOut_eq⟩
  obtain ⟨hin, hstir⟩ := hop
  cases op with
  | segmentReceived seg => exact segmentReceived_silent hc.awake hc.flushed hstir hc.inactive h
  | tick ms => exact tick_silent hc.flushed hstir hc.inactive h
  | _ => exact hin.elim

/-- **An inactive connection stays inactive and silent** as long as nothing stirs it:
from every inactive state that operations lead to, over every further sequence
of segments and ticks none of which stirs the connection, `active()` stays
false and nothing is added to `segments_out`. -/
theorem inactive_silent {conf : TCPConfig} (h : exec (step fuel) (new conf x) ops = some c)
    (hdead : c.active = false) (hmore : ∀ op ∈ more, op.Incoming)
    (hquiet : Along (step fuel) (fun c op => ¬ c.Stirs op) c more)
    (hrun : exec (step fuel) c more = some d) :
    d.active = false ∧ d.segmentsOut = c.segmentsOut := by
  have hinit : Silent c.segmentsOut c := ⟨exec_awake h, exec_flushed h, hdead, rfl⟩
  have hend := exec_invariant_along (fun _ _ _ => Silent.of_step) hinit
    (hquiet.and_forall hmore) hrun
  exact ⟨hend.inactive, hend.segmentsOut_eq⟩

/-- An active close with timeout 1: SYN, FIN, the peer's FIN, and a linger of 10
milliseconds. -/
def activeClose : List Op :=
  [.connect, .segmentReceived { header :=
      { seqno := ⟨100⟩, syn := true, ack := true, ackno := ⟨1⟩, win := 9 } },
    .endInputStream, .segmentReceived { header :=
      { seqno := ⟨101⟩, fin := true, ack := true, ackno := ⟨2⟩, win := 9 } },
    .tick 10]

/-- A late acknowledgment and a long tick change nothing. -/
theorem inactive_silent_late_ack :
    ∃ c d, exec (step 9) (new { rtTimeout := 1, fixedIsn := some ⟨0⟩ } 0) activeClose = some c ∧
      exec (step 9) c [.segmentReceived { header :=
        { seqno := ⟨102⟩, ack := true, ackno := ⟨2⟩, win := 9 } }, .tick 20] = some d ∧
      d.active = false ∧ d.segmentsOut = c.segmentsOut :=
  have hrun : exec (step 9) (new { rtTimeout := 1, fixedIsn := some ⟨0⟩ } 0) activeClose =
      some _ := rfl
  have hmore : exec (step 9) _ [.segmentReceived { header :=
      { seqno := ⟨102⟩, ack := true, ackno := ⟨2⟩, win := 9 } }, .tick 20] = some _ := rfl
  ⟨_, _, hrun, hmore, inactive_silent hrun (by decide) (by simp [Op.Incoming])
    (by decide +kernel) hmore⟩

/-- The peer's FIN once more and a short tick bring a closed connection back; and a
connection that was reset sends its SYN again. -/
theorem inactive_revived :
    (∃ c d, exec (step 9) (new { rtTimeout := 1, fixedIsn := some ⟨0⟩ } 0) activeClose = some c ∧
      c.active = false ∧
      exec (step 9) c [.segmentReceived { header :=
        { seqno := ⟨101⟩, fin := true, ack := true, ackno := ⟨2⟩, win := 9 } }, .tick 1] = some d ∧
      d.active = true ∧ d.segmentsOut.length = c.segmentsOut.length + 1) ∧
    ∃ c d, exec (step 9) (new {} 0) [.connect, .segmentReceived { header := { rst := true } }] =
        some c ∧
      c.active = false ∧ exec (step 9) c [.tick 1000] = some d ∧
      d.segmentsOut.length = c.segmentsOut.length + 1 :=
  ⟨⟨_, _, rfl, by decide, rfl, by decide, by decide⟩, _, _, rfl, by decide, rfl, by decide⟩

end TCPConnection

end Sponge
