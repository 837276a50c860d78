import Sponge.TCPSender.Outstanding

/-!
# Sponge.TCPSender.Timer

What the operations of a sender do to its retransmission timer, which is kept
in separate variables: the time since it was set, the timeout that applies,
the count of retransmissions and the flag that says that it runs.

Sending starts the timer if it does not run, and touches it no further
(`ClockKept`).  An acknowledgment that covers the oldest outstanding segment
sets all of it back; every other one leaves it alone.
-/

namespace Sponge

namespace TCPSender

open TCPSegment (lengthInSequenceSpace)

/-! ## Sending -/

/-- From `s` to `t` the timer has been started, or was left alone. -/
structure ClockKept (s t : TCPSender) : Prop where
  initial_eq : t.initialRetransmissionTimeout = s.initialRetransmissionTimeout
  timeout_eq : t.applyingRetransmissionTimeout = s.applyingRetransmissionTimeout
  retries_eq : t.consecutiveRetransmissions = s.consecutiveRetransmissions
  running : s.timingBegins = true → t.timingBegins = true ∧ t.lastTickTime = s.lastTickTime
  started : s.timingBegins = false → t.timingBegins = true → t.lastTickTime = 0

/-- Nothing has happened. -/
theorem ClockKept.refl (s : TCPSender) : ClockKept s s :=
  ⟨rfl, rfl, rfl, fun h => ⟨h, rfl⟩, fun h h' => absurd (h.symm.trans h') Bool.false_ne_true⟩

/-- One thing after the other. -/
theorem ClockKept.trans (h : ClockKept s t) (h' : ClockKept t u) : ClockKept s u where
  initial_eq := h'.initial_eq.trans h.initial_eq
  timeout_eq := h'.timeout_eq.trans h.timeout_eq
  retries_eq := h'.retries_eq.trans h.retries_eq
  running := by
    intro hs
    obtain ⟨ht, htime⟩ := h.running hs
    obtain ⟨hu, hutime⟩ := h'.running ht
    exact ⟨hu, hutime.trans htime⟩
  started := by
    intro hs hu
    cases ht : t.timingBegins with
    | true => exact (h'.running ht).2.trans (h.started hs ht)
    | false => exact h'.started ht hu

/-- The queues and the stream do not matter. -/
theorem ClockKept.congr (h : ClockKept s t)
    (h1 : u.initialRetransmissionTimeout = t.initialRetransmissionTimeout)
    (h2 : u.applyingRetransmissionTimeout = t.applyingRetransmissionTimeout)
    (h3 : u.consecutiveRetransmissions = t.consecutiveRetransmissions)
    (h4 : u.lastTickTime = t.lastTickTime) (h5 : u.timingBegins = t.timingBegins) :
    ClockKept s u where
  initial_eq := h1.trans h.initial_eq
  timeout_eq := h2.trans h.timeout_eq
  retries_eq := h3.trans h.retries_eq
  running := by rw [h4, h5]; exact h.running
  started := by rw [h4, h5]; exact h.started

/-- Sending starts the timer if it does not run. -/
theorem sendTcpSegment_clock (s : TCPSender) (stream : ByteStream) (fin : Bool)
    (seg : TCPSegment) :
    ClockKept s ({ s with stream := stream, finSent := fin }.sendTcpSegment seg).2 where
  initial_eq := rfl
  timeout_eq := rfl
  retries_eq := rfl
  running := fun hs => ⟨rfl, by simp [sendTcpSegment, hs]⟩
  started := fun hs _ => by simp [sendTcpSegment, hs]

/-- The loop leaves a timer that runs alone. -/
theorem fillLoop_clock (n : Nat) (s : TCPSender) (seg : TCPSegment) (avail : Nat) :
    ClockKept s (fillLoop n s seg avail) := by
  induction n generalizing s seg avail with
  | zero => exact .refl s
  | succ n ih =>
      rw [fillLoop]
      split
      · exact .refl s
      · exact (sendTcpSegment_clock s _ _ _).trans (ih _ _ _)

theorem fillWindow_clock (s : TCPSender) : ClockKept s s.fillWindow := by
  unfold fillWindow
  split
  · exact .refl s
  simp only
  split
  · exact sendTcpSegment_clock s s.stream s.finSent _
  split
  · exact .refl s
  split
  · have hsend := sendTcpSegment_clock s s.stream s.finSent { header := { fin := true } }
    exact hsend.congr rfl rfl rfl rfl rfl
  · exact fillLoop_clock _ s _ _

/-- The same when the stream is written to first. -/
theorem fillWindow_clock_stream (s : TCPSender) (stream : ByteStream) :
    ClockKept s { s with stream := stream }.fillWindow := by
  have hfill := fillWindow_clock { s with stream := stream }
  exact ⟨hfill.initial_eq, hfill.timeout_eq, hfill.retries_eq, hfill.running, hfill.started⟩

/-! ## Acknowledgments -/

/-- From `s` to `t` the timer has been set back. -/
structure ClockReset (s t : TCPSender) : Prop where
  initial_eq : t.initialRetransmissionTimeout = s.initialRetransmissionTimeout
  timeout_eq : t.applyingRetransmissionTimeout = s.initialRetransmissionTimeout
  retries_eq : t.consecutiveRetransmissions = 0
  time_eq : t.lastTickTime = 0

/-- After the first segment the loop of `ack_received` leaves the timer alone. -/
theorem ackLoop_clock (h : ackLoop a l s true = (t, res)) :
    t.initialRetransmissionTimeout = s.initialRetransmissionTimeout ∧
      t.applyingRetransmissionTimeout = s.applyingRetransmissionTimeout ∧
      t.consecutiveRetransmissions = s.consecutiveRetransmissions ∧
      t.lastTickTime = s.lastTickTime ∧ t.timingBegins = s.timingBegins := by
  induction l generalizing s with
  | nil =>
      rw [ackLoop, Prod.mk.injEq] at h
      simp [← h.1]
  | cons seg rest ih =>
      rw [ackLoop] at h
      split at h
      · rw [Prod.mk.injEq] at h
        simp [← h.1]
      · simp only [Bool.not_true, Bool.false_eq_true, ↓reduceIte] at h
        have hrest := ih h
        exact hrest

/-- With the oldest segment covered, the loop sets the timer back. -/
theorem ackLoop_reset {s : TCPSender} (hcov : s.frontSegOutstandingAckno ≤ a)
    (h : ackLoop a (seg :: rest) s false = (t, res)) :
    ClockReset s t ∧ t.timingBegins = s.timingBegins := by
  rw [ackLoop, if_neg (Nat.not_lt.mpr hcov)] at h
  obtain ⟨h1, h2, h3, h4, h5⟩ := ackLoop_clock h
  exact ⟨⟨h1, h2, h3, h4⟩, h5⟩

/-- `a` is acceptable and covers the oldest outstanding segment. -/
def Acks (s : TCPSender) (a : Nat) : Prop :=
  s.confirmedSeqno ≤ a ∧ a ≤ s.nextSeqno ∧ s.outstandingSegments ≠ [] ∧
    s.frontSegOutstandingAckno ≤ a

/-- An acknowledgment of something new starts the timer again. -/
theorem absAckReceived_reset (hrun : TimerRuns s) (h : s.Acks a) (win : UInt16) :
    ClockReset s (s.absAckReceived a win) := by
  obtain ⟨hlo, hhi, hne, hcov⟩ := h
  obtain ⟨seg, rest, hout⟩ := List.exists_cons_of_ne_nil hne
  rw [absAckReceived, if_neg (by omega)]
  simp only
  obtain ⟨⟨u, res⟩, hloop⟩ : ∃ p, ackLoop a (s.accept a win).outstandingSegments
      (s.accept a win) false = p := ⟨_, rfl⟩
  rw [hloop]
  rw [show (s.accept a win).outstandingSegments = seg :: rest from hout] at hloop
  obtain ⟨hreset, htiming⟩ := ackLoop_reset (s := s.accept a win) hcov hloop
  have hu : u.timingBegins = true := by
    rw [htiming]
    show s.timingBegins = true
    rw [hrun, hout]
    rfl
  cases res with
  | none => exact ⟨hreset.initial_eq, hreset.timeout_eq, hreset.retries_eq, hreset.time_eq⟩
  | some ack =>
      -- the timer runs, so what is sent now does not touch it
      have hkept : ClockKept u (if ack then u.fillWindow else u) := by
        split
        · exact u.fillWindow_clock
        · exact .refl u
      exact ⟨hkept.initial_eq.trans hreset.initial_eq, hkept.timeout_eq.trans hreset.timeout_eq,
        hkept.retries_eq.trans hreset.retries_eq, (hkept.running hu).2.trans hreset.time_eq⟩

/-- Any other leaves it alone. -/
theorem absAckReceived_kept (hrun : TimerRuns s) (h : ¬ s.Acks a) (win : UInt16) :
    ClockKept s (s.absAckReceived a win) := by
  unfold absAckReceived
  by_cases hrej : s.confirmedSeqno > a ∨ a > s.nextSeqno
  · rw [if_pos hrej]
    exact .refl s
  rw [if_neg hrej]
  simp only
  cases hout : s.outstandingSegments with
  | nil =>
      have hidle : s.timingBegins = false := by rw [hrun, hout]; rfl
      rw [show (s.accept a win).outstandingSegments = [] from hout]
      refine ⟨rfl, rfl, rfl, fun hon => absurd (hidle.symm.trans hon) Bool.false_ne_true, ?_⟩
      intro _ hon
      simp [ackLoop, accept, hout] at hon
  | cons seg rest =>
      have hlt : a < s.frontSegOutstandingAckno := by
        by_contra hle
        exact h ⟨by omega, by omega, by simp [hout], by omega⟩
      rw [show (s.accept a win).outstandingSegments = seg :: rest from hout, ackLoop,
        if_pos (show a < (s.accept a win).frontSegOutstandingAckno from hlt)]
      exact (ClockKept.refl s).congr rfl rfl rfl rfl rfl

/-- Where the oldest outstanding segment ends: the others lie between it and the next
number. -/
def oldestEnd (s : TCPSender) : Nat :=
  s.nextSeqno - (s.outstandingSegments.tail.map lengthInSequenceSpace).sum

/-- The end of the oldest segment is computed right. -/
theorem InFlight.frontSegOutstandingAckno_eq (hs : InFlight s base)
    (hne : s.outstandingSegments ≠ []) (hconf : s.confirmedSeqno < 2 ^ 63) :
    s.frontSegOutstandingAckno = s.oldestEnd := by
  obtain ⟨front, rest, hout⟩ := List.exists_cons_of_ne_nil hne
  have hbase := hs.base_le
  have hnear := hs.next_le_base
  have htiles := hs.tiles
  have hle := htiles.le
  rw [hout, Tiles.cons_iff] at htiles
  have hsum := htiles.2.eq_add_sum
  rw [frontSegOutstandingAckno, oldestEnd, hout]
  simp only [List.tail_cons]
  rw [unwrap_seqno htiles.1 (by omega) hnear hle]
  omega

/-! ## Ticks -/

/-- The next tick sends the oldest outstanding segment again. -/
def Due (s : TCPSender) (ms : Nat) : Prop :=
  s.timingBegins = true ∧ s.outstandingSegments ≠ [] ∧
    s.applyingRetransmissionTimeout ≤ (s.lastTickTime + ms) % 2 ^ 64

instance (s : TCPSender) (ms : Nat) : Decidable (s.Due ms) :=
  inferInstanceAs (Decidable (_ ∧ _ ∧ _))

/-- A retransmission counts with a window, or of the SYN. -/
def counts (s : TCPSender) : Bool :=
  s.receiverWindowSize > 0 || s.outstandingSegments.head?.any (·.header.syn)

/-- A tick before the timer expires moves the clock only. -/
theorem tick_of_not_due (h : ¬ Due s ms) :
    s.tick ms = { s with lastTickTime :=
      if s.timingBegins then (s.lastTickTime + ms) % 2 ^ 64 else s.lastTickTime } := by
  by_cases htiming : s.timingBegins = true
  · rw [tick, if_neg (by simp [htiming]), if_pos htiming]
    simp only
    split
    · rfl
    · next seg rest hout =>
        have hearly : ¬ (s.lastTickTime + ms) % 2 ^ 64 ≥ s.applyingRetransmissionTimeout :=
          fun hle => h ⟨htiming, by simp [hout], hle⟩
        rw [if_neg hearly]
  · rw [tick, if_pos (by simpa using htiming), if_neg htiming]

/-- A tick at which it expires sends the oldest segment, as it is, and doubles the timeout
if that counts. -/
theorem tick_of_due (h : Due s ms) (hout : s.outstandingSegments = front :: rest) :
    s.tick ms = { s with
      segmentsOut := s.segmentsOut ++ [front]
      lastTickTime := 0
      consecutiveRetransmissions :=
        if s.counts then (s.consecutiveRetransmissions + 1) % 2 ^ 16
        else s.consecutiveRetransmissions
      applyingRetransmissionTimeout :=
        if s.counts then (s.applyingRetransmissionTimeout * 2) % 2 ^ 32
        else s.applyingRetransmissionTimeout } := by
  obtain ⟨htiming, -, hdue⟩ := h
  rw [tick, if_neg (by simp [htiming])]
  simp only [hout]
  rw [if_pos hdue]
  cases hc : s.counts <;> simp_all [counts]

end TCPSender

end Sponge
