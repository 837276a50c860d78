import Sponge.TCPConnection
import Sponge.TCPSender.Outstanding

/-!
# Sponge.TCPConnection.Wake

A connection is never left with data to send and nothing that will wake it:
as long as the outbound stream has unsent bytes, or has ended without the FIN
having been sent, some segment is outstanding and the timer runs for it.

`fill_window` is not called after every acknowledgment.  It is called after
those that retire a segment, and it can leave the queue of outstanding
segments empty only when there is nothing to send (`fillWindow_wakes`); an
acknowledgment that retires nothing leaves a queue that was not empty, or a
stream that had nothing to send.
-/

namespace Sponge

namespace TCPSender

/-- Unsent bytes or an unsent FIN come with an outstanding segment. -/
def Wakes (s : TCPSender) : Prop :=
  (s.stream.bufferSize ≠ 0 ∨ s.stream.inputEnded = true) → s.finSent = false →
    s.outstandingSegments ≠ []

/-- The loop of `fill_window` does not empty the queue. -/
theorem fillLoop_outstanding (h : s.outstandingSegments ≠ []) :
    (fillLoop n s seg avail).outstandingSegments ≠ [] := by
  induction n generalizing s seg avail with
  | zero => exact h
  | succ n ih =>
      rw [fillLoop]
      split
      · exact h
      · exact ih (by simp)

/-- After `fill_window`, only a stream with nothing to send leaves the queue empty. -/
theorem fillWindow_wakes (hs : InFlight s base) : Wakes s.fillWindow := by
  unfold fillWindow
  split
  · next hfin =>
      intro _ hopen
      rw [hfin] at hopen
      contradiction
  simp only
  split
  · exact fun _ _ => by simp [sendTcpSegment]
  split
  · next hfull =>
      -- a full window is full of something
      intro _ _ hnil
      have hconf := hs.confirmed_eq hnil
      have hpos := s.receiverLogicalWindowSize_pos
      omega
  split
  · exact fun _ _ => by simp [sendTcpSegment]
  · next hroom heof =>
      cases hbuf : s.stream.bufferSize with
      | zero =>
          intro hwork _
          rw [ByteStream.eof_eq_true] at heof
          simp only [fillLoop, hbuf] at hwork
          simp_all
      | succ n =>
          have hconf := hs.confirmed_le
          intro _ _
          rw [fillLoop]
          split
          · next hstop =>
              simp only [Bool.or_eq_true, ByteStream.bufferEmpty_eq_true, decide_eq_true_eq] at hstop
              omega
          · exact fillLoop_outstanding (by simp)

theorem Wakes.congr (hw : Wakes s) (h1 : t.outstandingSegments = s.outstandingSegments)
    (h2 : t.stream.bufferSize = s.stream.bufferSize)
    (h3 : t.stream.inputEnded = s.stream.inputEnded) (h4 : t.finSent = s.finSent) : Wakes t := by
  unfold Wakes
  rw [h1, h2, h3, h4]
  exact hw

/-- An acknowledgment that leaves the queue empty has found it so, or has filled the
window. -/
theorem Wakes.absAckReceived (hw : Wakes s) (hs : InFlight s base)
    (ha : s.confirmedSeqno ≤ a → a ≤ s.nextSeqno → a < 2 ^ 63)
    (h : s.absAckReceived a win = t) : Wakes t := by
  rcases absAckReceived_cases h with ⟨-, rfl⟩ | ⟨hlo, hhi, popped, u, hret, hends, hend⟩
  · exact hw
  have hout : s.outstandingSegments = popped ++ u.outstandingSegments :=
    hret.outstandingSegments_eq
  rcases hend with ⟨seg, rest, hu, hlt, rfl⟩ | ⟨hnil, v, hv, rfl⟩
  · intro _ _
    rw [hu]
    simp
  · have hvw : Wakes v := by
      rw [← hv]
      split
      · next hpop =>
          -- nothing was outstanding before
          rw [List.isEmpty_iff.mp hpop, hnil] at hout
          intro hwork hopen _
          refine hw ?_ ?_ hout
          · rw [hret.stream_eq] at hwork
            exact hwork
          · rw [hret.finSent_eq] at hopen
            exact hopen
      · obtain ⟨c, hc⟩ := hs.retires (ha hlo hhi) hlo hhi hret hends (by simp [hnil])
        exact fillWindow_wakes hc
    exact hvw

end TCPSender

namespace TCPConnection

open TCPSender (Accounted Wakes)

/-- What holds of the sender of a connection between operations. -/
structure Awake (c : TCPConnection) : Prop where
  accounted : Accounted c.sender
  wakes : Wakes c.sender

/-- At first there is nothing to wake up for. -/
theorem awake_new (cfg : TCPConfig) (x : UInt32) : (new cfg x).Awake where
  accounted := TCPSender.accounted_new _ _ _ _
  wakes := by simp [new, Wakes, TCPSender.new]

/-- **Each small change** keeps the connection awake. -/
theorem Awake.micro {op : Op} (hc : Awake c) (h : Micro fuel r₀ op c d) : Awake d := by
  obtain ⟨hacc, hw⟩ := hc
  have hfill : ∀ s : TCPSender, Accounted s → Accounted s.fillWindow ∧ Wakes s.fillWindow :=
    fun s hs => ⟨hs.fillWindow, TCPSender.fillWindow_wakes hs.1.choose_spec⟩
  cases h with
  | fill =>
      obtain ⟨h1, h2⟩ := hfill c.sender hacc
      exact ⟨h1, h2⟩
  | write data =>
      obtain ⟨h1, h2⟩ := hfill { c.sender with stream := (c.sender.stream.write data).2 }
        (hacc.congr rfl rfl rfl rfl rfl rfl)
      exact ⟨h1, h2⟩
  | endInput =>
      obtain ⟨h1, h2⟩ := hfill { c.sender with stream := c.sender.stream.endInput }
        (hacc.congr rfl rfl rfl rfl rfl rfl)
      exact ⟨h1, h2⟩
  | ack seg hrst hack =>
      have hb := hacc.1.choose_spec
      exact ⟨(hacc.ackReceived rfl).1, hw.absAckReceived hb hb.ackno_lt rfl⟩
  | tick ms =>
      obtain ⟨-, h2, -, -, -, -, h7, h8, -⟩ := c.sender.tick_frame ms
      exact ⟨hacc.tick ms, hw.congr h2 (by rw [h7]) (by rw [h7]) h8⟩
  | empty => exact ⟨hacc.congr rfl rfl rfl rfl rfl rfl, hw⟩
  | flush => exact ⟨hacc.congr rfl rfl rfl rfl rfl rfl, hw⟩
  | receive seg r hrst hbefore hr => exact ⟨hacc, hw⟩
  | read len => exact ⟨hacc, hw⟩
  | reset => exact ⟨hacc.congr rfl rfl rfl rfl rfl rfl, hw⟩
  | sendRst => exact ⟨hacc, hw⟩
  | note => exact ⟨hacc, hw⟩
  | dequeue => exact ⟨hacc, hw⟩

/-- **Every run** stays awake. -/
theorem exec_awake {conf : TCPConfig} (h : exec (step fuel) (new conf x) ops = some c) :
    Awake c :=
  exec_invariant (fun _ _ _ hc hstep => step_preserves hc (fun _ _ => Awake.micro) hstep)
    (awake_new conf x) h

/-- **No lost wake-up**: in every state that operations lead to, if the outbound
stream has bytes buffered or has ended and the FIN has not been sent, then a
segment is outstanding and the retransmission timer runs. -/
theorem outstanding_of_unsent {conf : TCPConfig}
    (h : exec (step fuel) (new conf x) ops = some c)
    (hwork : c.sender.stream.bufferSize ≠ 0 ∨ c.sender.stream.inputEnded = true)
    (hopen : c.sender.finSent = false) :
    c.sender.outstandingSegments ≠ [] ∧ c.sender.timingBegins = true := by
  have hc := exec_awake h
  have hout := hc.wakes hwork hopen
  refine ⟨hout, ?_⟩
  rw [hc.accounted.2]
  simpa using hout

/-- A connection that writes `"abc"` into a window of one byte and ends its stream: two
bytes and the FIN wait behind the first one. -/
theorem outstanding_of_unsent_zero_window :
    ∃ c, exec (step 9) (new { fixedIsn := some ⟨7⟩ } 0)
        [.connect, .segmentReceived { header := { syn := true, ack := true, ackno := ⟨8⟩ } },
          .write [97, 98, 99], .endInputStream] = some c ∧
      c.sender.stream.bufferSize = 2 ∧
      c.sender.outstandingSegments ≠ [] ∧ c.sender.timingBegins = true :=
  have hrun : exec (step 9) (new { fixedIsn := some ⟨7⟩ } 0)
      [.connect, .segmentReceived { header := { syn := true, ack := true, ackno := ⟨8⟩ } },
        .write [97, 98, 99], .endInputStream] = some _ := rfl
  ⟨_, hrun, by decide, outstanding_of_unsent hrun (by decide) (by decide)⟩

end TCPConnection

end Sponge
