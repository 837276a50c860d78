import Sponge.TCPConnection.Wake
import Sponge.TCPSender.Timer

/-!
# Sponge.TCPConnection.Backoff

The retransmission timer of a connection refines a plain one: the time since
it was last set, and the number of retransmissions that count.  It expires
when the time reaches the initial timeout, doubled for each of them, and the
connection gives up at the one after `MAX_RETX_ATTEMPTS`.

`Watch` keeps this plain timer beside the connection, from what can be seen of
it: segments becoming outstanding, acknowledgments of them, retransmissions and
ticks.  `Timed` says that the variables of the sender agree with it.  The one
way for them to part is the time, which the sender keeps in 64 bits and which a
single tick may carry around (`Overruns`).
-/

namespace Sponge

/-! ## Errors of the streams -/

/-- A push does not set the error. -/
theorem StreamReassembler.Pushes.error_eq {r r' : StreamReassembler} (h : Pushes r d r') :
    r'.output.error = r.output.error := by
  have hfinish : ∀ (r : StreamReassembler) (eof ex : Bool),
      (r.finish eof ex).output.error = r.output.error := by
    intro r eof ex
    unfold finish
    split <;> rfl
  induction h with
  | refuse => rfl
  | store _ _ hmm => rw [(missingMiddleHandler_frame hmm).1]
  | take => rw [hfinish, assemble_output, ByteStream.write_error]
  | drain _ _ _ _ _ _ ih =>
      rw [hfinish, ih]
      simp [popFront]

/-- Nor does a segment. -/
theorem TCPReceiver.segmentReceived_error {r r' : TCPReceiver}
    (h : r.segmentReceived fuel seg = some r') : r'.streamOut.error = r.streamOut.error := by
  rcases segmentReceived_cases h with ⟨-, -, rfl⟩ | ⟨-, -, -, rfl⟩ | ⟨ra, -, -, hpush, rfl⟩
  · rfl
  · rw [listen_streamOut]
  · rw [acknowledge_streamOut]
    exact (StreamReassembler.pushSubstring_pushes hpush).error_eq

namespace TCPSender

/-- Nor does sending. -/
theorem fillWindow_error (s : TCPSender) : s.fillWindow.stream.error = s.stream.error :=
  fillWindow_stream ByteStream.read_error s

/-- Nor does an acknowledgment. -/
theorem ackReceived_error (s : TCPSender) (ackno : WrappingInt32) (win : UInt16) :
    (s.ackReceived ackno win).stream.error = s.stream.error :=
  ackReceived_stream ByteStream.read_error s ackno win

/-- A tick makes the sender send something. -/
def Retransmits (s : TCPSender) (ms : Nat) : Prop := (s.tick ms).segmentsOut ≠ s.segmentsOut

instance (s : TCPSender) (ms : Nat) : Decidable (s.Retransmits ms) :=
  inferInstanceAs (Decidable (¬ _))

/-- A tick sends the first segment again exactly when the timer runs out. -/
theorem retransmits_iff_due (s : TCPSender) (ms : Nat) : s.Retransmits ms ↔ s.Due ms := by
  by_cases hdue : s.Due ms
  · obtain ⟨front, rest, hout⟩ := List.exists_cons_of_ne_nil hdue.2.1
    simp [Retransmits, tick_of_due hdue hout, hdue]
  · simp [Retransmits, tick_of_not_due hdue, hdue]

/-- The segment acknowledges what was sent, and fully covers an outstanding segment. -/
def Covers (s : TCPSender) (seg : TCPSegment) : Prop :=
  seg.header.rst = false ∧ seg.header.ack = true ∧
    s.confirmedSeqno ≤ unwrap seg.header.ackno s.isn s.nextSeqno ∧
    unwrap seg.header.ackno s.isn s.nextSeqno ≤ s.nextSeqno ∧
    s.outstandingSegments ≠ [] ∧ s.oldestEnd ≤ unwrap seg.header.ackno s.isn s.nextSeqno

instance (s : TCPSender) (seg : TCPSegment) : Decidable (s.Covers seg) :=
  inferInstanceAs (Decidable (_ ∧ _ ∧ _ ∧ _ ∧ _ ∧ _))

/-- What covers a segment is what sets the timer back. -/
theorem Accounted.covers_iff (hs : Accounted s) (hrst : seg.header.rst = false)
    (hack : seg.header.ack = true) :
    s.Covers seg ↔ s.Acks (unwrap seg.header.ackno s.isn s.nextSeqno) := by
  obtain ⟨base, hb⟩ := hs.1
  simp only [Covers, Acks, hrst, hack, true_and]
  refine and_congr_right fun hlo => and_congr_right fun hhi => and_congr_right fun hne => ?_
  have ha := hb.ackno_lt hlo hhi
  rw [hb.frontSegOutstandingAckno_eq hne (Nat.lt_of_le_of_lt hlo ha)]

/-- The tick would carry the time around. -/
def Overruns (s : TCPSender) (ms : Nat) : Prop :=
  s.timingBegins = true ∧ 2 ^ 64 ≤ s.lastTickTime + ms

instance (s : TCPSender) (ms : Nat) : Decidable (s.Overruns ms) :=
  inferInstanceAs (Decidable (_ ∧ _))

end TCPSender

namespace TCPConnection

open TCPSender (ClockKept ClockReset)

/-! ## The plain timer -/

/-- A connection and, beside it, its plain timer: the tick time since the timer was
started, a retransmission or an acknowledgment of an outstanding segment, whichever was
last, and the retransmissions that count since the last such acknowledgment. -/
structure Watch where
  conn : TCPConnection
  elapsed : Nat
  retries : Nat

namespace Watch

def new (cfg : TCPConfig) (random : UInt32) : Watch := ⟨TCPConnection.new cfg random, 0, 0⟩

/-- Nothing was outstanding, and now something is. -/
def Starts (c d : TCPConnection) : Prop :=
  c.sender.outstandingSegments = [] ∧ d.sender.outstandingSegments ≠ []

instance (c d : TCPConnection) : Decidable (Starts c d) := inferInstanceAs (Decidable (_ ∧ _))

/-- What is seen of an operation that leads to `d`. -/
def observe (w : Watch) (op : Op) (d : TCPConnection) : Watch :=
  match op with
  | .tick ms =>
      if w.conn.sender.Retransmits ms then ⟨d, 0, w.retries + w.conn.sender.counts.toNat⟩
      else ⟨d, w.elapsed + ms, w.retries⟩
  | .segmentReceived seg =>
      if w.conn.sender.Covers seg then ⟨d, 0, 0⟩
      else ⟨d, if Starts w.conn d then 0 else w.elapsed, w.retries⟩
  | _ => ⟨d, if Starts w.conn d then 0 else w.elapsed, w.retries⟩

def step (fuel : Nat) (w : Watch) (op : Op) : Option Watch :=
  (w.conn.step fuel op).map (w.observe op)

theorem observe_conn (w : Watch) (op : Op) (d : TCPConnection) : (w.observe op d).conn = d := by
  unfold observe
  split
  · split <;> rfl
  · split <;> rfl
  · rfl

end Watch

/-- The owner of the connection ticks it only while it is active. -/
def Tended (c : TCPConnection) : Op → Prop
  | .tick _ => c.active = true
  | _ => True

instance (c : TCPConnection) (op : Op) : Decidable (c.Tended op) :=
  match op with
  | .tick _ => inferInstanceAs (Decidable (c.active = true))
  | .connect | .write _ | .endInputStream | .segmentReceived _ | .readInbound _ | .dequeue =>
      isTrue trivial

/-- A tick carries the sender's time around. -/
def Overruns (c : TCPConnection) : Op → Prop
  | .tick ms => c.sender.Overruns ms
  | _ => False

instance (c : TCPConnection) (op : Op) : Decidable (c.Overruns op) :=
  match op with
  | .tick _ => inferInstanceAs (Decidable (_ ∧ _))
  | .connect | .write _ | .endInputStream | .segmentReceived _ | .readInbound _ | .dequeue =>
      isFalse id

/-! ## The invariant -/

/-- The variables of the sender agree with the plain timer. -/
structure Timed (conf : TCPConfig) (w : Watch) : Prop where
  awake : Awake w.conn
  initial_eq : w.conn.sender.initialRetransmissionTimeout = conf.rtTimeout.toNat
  timeout_eq : w.conn.sender.applyingRetransmissionTimeout =
    conf.rtTimeout.toNat * 2 ^ w.retries
  retries_eq : w.conn.sender.consecutiveRetransmissions = w.retries
  elapsed_eq : w.conn.sender.timingBegins = true → w.conn.sender.lastTickTime = w.elapsed
  retries_le : w.retries ≤ TCPConfig.MAX_RETX_ATTEMPTS + 1
  alive : w.conn.active = true → w.retries ≤ TCPConfig.MAX_RETX_ATTEMPTS ∧
    w.conn.sender.stream.error = false ∧ w.conn.receiver.streamOut.error = false

/-- At first no timer runs. -/
theorem timed_new (conf : TCPConfig) (x : UInt32) : Timed conf (Watch.new conf x) where
  awake := awake_new conf x
  initial_eq := rfl
  timeout_eq := (Nat.mul_one _).symm
  retries_eq := rfl
  elapsed_eq := fun h => absurd h Bool.false_ne_true
  retries_le := Nat.zero_le _
  alive := fun _ => ⟨Nat.zero_le _, rfl, rfl⟩

/-- From `c` to `d`, if the connection is still active, it was so before and no stream
has failed. -/
structure Spared (c d : TCPConnection) : Prop where
  active_eq : c.active = true
  outError_eq : d.sender.stream.error = c.sender.stream.error
  inError_eq : d.receiver.streamOut.error = c.receiver.streamOut.error

section kept

variable {conf : TCPConfig} {w : Watch} {d : TCPConnection}

/-- What starts the timer or leaves it alone. -/
theorem Timed.kept (hw : Timed conf w) (hd : Awake d)
    (hclock : ClockKept w.conn.sender d.sender) (hspared : d.active = true → Spared w.conn d) :
    Timed conf ⟨d, if Watch.Starts w.conn d then 0 else w.elapsed, w.retries⟩ where
  awake := hd
  initial_eq := hclock.initial_eq.trans hw.initial_eq
  timeout_eq := hclock.timeout_eq.trans hw.timeout_eq
  retries_eq := hclock.retries_eq.trans hw.retries_eq
  elapsed_eq := by
    intro hon
    simp only
    have hrun : w.conn.sender.timingBegins = _ := hw.awake.accounted.2
    have hrun' : d.sender.timingBegins = _ := hd.accounted.2
    by_cases hout : w.conn.sender.outstandingSegments = []
    · have hidle : w.conn.sender.timingBegins = false := by rw [hrun, hout]; rfl
      have hne : d.sender.outstandingSegments ≠ [] := by
        rw [hrun'] at hon
        simpa using hon
      rw [if_pos ⟨hout, hne⟩, hclock.started hidle hon]
    · have hon' : w.conn.sender.timingBegins = true := by
        rw [hrun]
        simpa using hout
      rw [if_neg fun hs => hout hs.1, (hclock.running hon').2, hw.elapsed_eq hon']
  retries_le := hw.retries_le
  alive := by
    intro hactive
    obtain ⟨hc, hout, hin⟩ := hspared hactive
    obtain ⟨hk, hcout, hcin⟩ := hw.alive hc
    exact ⟨hk, hout.trans hcout, hin.trans hcin⟩

/-- What sets the timer back. -/
theorem Timed.reset {t : TCPSender} (hw : Timed conf w) (hd : Awake d)
    (hreset : ClockReset w.conn.sender t) (hclock : ClockKept t d.sender)
    (hspared : d.active = true → Spared w.conn d) : Timed conf ⟨d, 0, 0⟩ where
  awake := hd
  initial_eq := (hclock.initial_eq.trans hreset.initial_eq).trans hw.initial_eq
  timeout_eq := by
    rw [hclock.timeout_eq, hreset.timeout_eq, hw.initial_eq, Nat.pow_zero, Nat.mul_one]
  retries_eq := hclock.retries_eq.trans hreset.retries_eq
  elapsed_eq := by
    intro hon
    cases ht : t.timingBegins with
    | true => exact (hclock.running ht).2.trans hreset.time_eq
    | false => exact hclock.started ht hon
  retries_le := Nat.zero_le _
  alive := by
    intro hactive
    obtain ⟨hc, hout, hin⟩ := hspared hactive
    obtain ⟨-, hcout, hcin⟩ := hw.alive hc
    exact ⟨Nat.zero_le _, hout.trans hcout, hin.trans hcin⟩

end kept

/-! ## Operations other than ticks -/

/-- An answer leaves the timer alone. -/
theorem reply_clock (c : TCPConnection) (seg : TCPSegment) :
    ClockKept c.sender (c.reply seg).sender := by
  unfold reply
  split
  · simp only
    split <;> exact c.sender.fillWindow_clock.congr rfl rfl rfl rfl rfl
  · exact .refl _

theorem reply_error (c : TCPConnection) (seg : TCPSegment) :
    (c.reply seg).sender.stream.error = c.sender.stream.error := by
  unfold reply
  split
  · simp only
    split <;> exact c.sender.fillWindow_error
  · rfl

theorem takeAck_error (c : TCPConnection) (seg : TCPSegment) :
    (c.takeAck seg).sender.stream.error = c.sender.stream.error := by
  by_cases hack : seg.header.ack = true
  · obtain ⟨t, ht⟩ : ∃ t, c.sender.ackReceived seg.header.ackno seg.header.win = t := ⟨_, rfl⟩
    rw [takeAck_sender c seg hack ht, ← c.sender.ackReceived_error seg.header.ackno seg.header.win,
      ht]
  · rw [takeAck, if_neg hack]

/-- The acknowledgment in a segment sets the timer back if it covers a segment, and leaves
it alone otherwise. -/
theorem takeAck_clock {c : TCPConnection} (hacc : c.sender.Accounted)
    (hrst : seg.header.rst = false) :
    (c.sender.Covers seg → ClockReset c.sender (c.takeAck seg).sender) ∧
      (¬ c.sender.Covers seg → ClockKept c.sender (c.takeAck seg).sender) := by
  by_cases hack : seg.header.ack = true
  · obtain ⟨t, ht⟩ : ∃ t, c.sender.ackReceived seg.header.ackno seg.header.win = t := ⟨_, rfl⟩
    rw [hacc.covers_iff hrst hack, takeAck_sender c seg hack ht]
    refine ⟨fun hcov => ?_, fun hcov => ?_⟩
    · have hreset := TCPSender.absAckReceived_reset hacc.2 hcov seg.header.win
      rw [← TCPSender.ackReceived, ht] at hreset
      exact ⟨hreset.initial_eq, hreset.timeout_eq, hreset.retries_eq, hreset.time_eq⟩
    · have hkept := TCPSender.absAckReceived_kept hacc.2 hcov seg.header.win
      rw [← TCPSender.ackReceived, ht] at hkept
      exact hkept.congr rfl rfl rfl rfl rfl
  · rw [takeAck, if_neg hack]
    exact ⟨fun hcov => absurd hcov.2.1 hack, fun _ => .refl _⟩

/-- A segment starts the timer again exactly when it acknowledges something new. -/
theorem Timed.segmentReceived {conf : TCPConfig} {w : Watch} (hw : Timed conf w) (hd : Awake d)
    (h : w.conn.segmentReceived fuel seg = some d) :
    Timed conf (w.observe (.segmentReceived seg) d) := by
  rcases segmentReceived_cases h with ⟨hrst, rfl⟩ | ⟨hrst, r, hr, rfl⟩
  · have hno : ¬ w.conn.sender.Covers seg := fun hc => by
      simp [hc.1] at hrst
    rw [Watch.observe, if_neg hno]
    exact hw.kept hd ((ClockKept.refl w.conn.sender).congr rfl rfl rfl rfl rfl) fun hon =>
      absurd hon Bool.false_ne_true
  · obtain ⟨c, hc, hsender, -, hrecv, hactive⟩ := w.conn.noteInboundEnded_spec r
    have hacc := hw.awake.accounted
    have hspared : ((c.takeAck seg).reply seg).active = true →
        Spared w.conn ((c.takeAck seg).reply seg) := by
      intro hon
      refine ⟨?_, ?_, ?_⟩
      · rw [reply_active, takeAck_active, hactive] at hon
        exact hon
      · rw [reply_error, takeAck_error, hsender]
      · rw [reply_receiver, takeAck_receiver, hrecv]
        exact TCPReceiver.segmentReceived_error hr
    rw [hc] at hd ⊢
    rw [← hsender] at hacc
    obtain ⟨hreset, hkept⟩ := takeAck_clock hacc hrst
    rw [hsender] at hreset hkept
    have hreply := (c.takeAck seg).reply_clock seg
    rw [Watch.observe]
    split
    · next hcov => exact hw.reset hd (hreset hcov) hreply hspared
    · next hcov => exact hw.kept hd ((hkept hcov).trans hreply) hspared

/-- What the owner of a connection does starts the timer at most. -/
theorem step_clock {op : Op} (h1 : ∀ seg, op ≠ .segmentReceived seg) (h2 : ∀ ms, op ≠ .tick ms)
    (h : step fuel c op = some d) :
    ClockKept c.sender d.sender ∧ (d.active = true → Spared c d) := by
  cases op with
  | connect =>
      rw [step, Option.some.injEq] at h
      subst h
      exact ⟨c.sender.fillWindow_clock.congr rfl rfl rfl rfl rfl,
        fun hon => ⟨hon, c.sender.fillWindow_error, rfl⟩⟩
  | write data =>
      rw [step, Option.some.injEq] at h
      subst h
      rw [write]
      split
      · exact ⟨.refl _, fun hon => ⟨hon, rfl, rfl⟩⟩
      · have hfill := c.sender.fillWindow_clock_stream (c.sender.stream.write data).2
        refine ⟨hfill.congr rfl rfl rfl rfl rfl, fun hon => ⟨hon, ?_, rfl⟩⟩
        exact (TCPSender.fillWindow_error _).trans (ByteStream.write_error _ _)
  | endInputStream =>
      rw [step, Option.some.injEq] at h
      subst h
      have hfill := c.sender.fillWindow_clock_stream c.sender.stream.endInput
      exact ⟨hfill.congr rfl rfl rfl rfl rfl, fun hon => ⟨hon, TCPSender.fillWindow_error _, rfl⟩⟩
  | segmentReceived seg => exact absurd rfl (h1 seg)
  | tick ms => exact absurd rfl (h2 ms)
  | readInbound len =>
      rw [step, Option.some.injEq] at h
      subst h
      exact ⟨.refl _, fun hon => ⟨hon, rfl, ByteStream.read_error _ _⟩⟩
  | dequeue =>
      rw [step, Option.some.injEq] at h
      subst h
      exact ⟨.refl _, fun hon => ⟨hon, rfl, rfl⟩⟩

/-! ## Ticks -/

/-- The connection has given up: both streams have failed, it is inactive and all it has
to send is a RST. -/
def GaveUp (d : TCPConnection) : Prop :=
  d.sender.stream.error = true ∧ d.receiver.streamOut.error = true ∧ d.active = false ∧
    ∃ seg : TCPSegment, d.segmentsOut = [seg] ∧ seg.header.rst = true

/-- Ten doublings of a 16-bit timeout fit into 32 bits. -/
theorem timeout_lt (rt : UInt16) (hk : k ≤ TCPConfig.MAX_RETX_ATTEMPTS + 1) :
    rt.toNat * 2 ^ k < 2 ^ 32 := by
  have hpow : 2 ^ k ≤ 2 ^ (TCPConfig.MAX_RETX_ATTEMPTS + 1) := Nat.pow_le_pow_right (by decide) hk
  have hrt := rt.toNat_lt
  calc rt.toNat * 2 ^ k ≤ rt.toNat * 2 ^ (TCPConfig.MAX_RETX_ATTEMPTS + 1) :=
        Nat.mul_le_mul_left _ hpow
    _ < 2 ^ 32 := by
        simp only [TCPConfig.MAX_RETX_ATTEMPTS]
        omega

section tick

variable {conf : TCPConfig} {w : Watch} {d : TCPConnection}

/-- The timer of the sender expires when the plain one does. -/
theorem Timed.due_iff (hw : Timed conf w) (hno : ¬ w.conn.sender.Overruns ms) :
    w.conn.sender.Due ms ↔ w.conn.sender.outstandingSegments ≠ [] ∧
      conf.rtTimeout.toNat * 2 ^ w.retries ≤ w.elapsed + ms := by
  have hrun : w.conn.sender.timingBegins = _ := hw.awake.accounted.2
  by_cases hon : w.conn.sender.timingBegins = true
  · have hlt : w.conn.sender.lastTickTime + ms < 2 ^ 64 := by
      by_contra hge
      exact hno ⟨hon, Nat.not_lt.mp hge⟩
    rw [TCPSender.Due, hw.timeout_eq, Nat.mod_eq_of_lt hlt, hw.elapsed_eq hon]
    simp only [hon, true_and]
  · have hout : w.conn.sender.outstandingSegments = [] := by
      rw [hrun] at hon
      simpa using hon
    simp [TCPSender.Due, hon, hout]

/-- What the sender counts after a tick, and the timeout that applies then. -/
theorem Timed.tick_eq (hw : Timed conf w) (hk : w.retries ≤ TCPConfig.MAX_RETX_ATTEMPTS)
    (hno : ¬ w.conn.sender.Overruns ms) (d : TCPConnection) :
    (w.conn.sender.tick ms).initialRetransmissionTimeout = conf.rtTimeout.toNat ∧
    (w.conn.sender.tick ms).applyingRetransmissionTimeout =
      conf.rtTimeout.toNat * 2 ^ (w.observe (.tick ms) d).retries ∧
    (w.conn.sender.tick ms).consecutiveRetransmissions = (w.observe (.tick ms) d).retries ∧
    ((w.conn.sender.tick ms).timingBegins = true →
      (w.conn.sender.tick ms).lastTickTime = (w.observe (.tick ms) d).elapsed) ∧
    (w.observe (.tick ms) d).retries ≤ TCPConfig.MAX_RETX_ATTEMPTS + 1 := by
  rw [Watch.observe]
  by_cases hdue : w.conn.sender.Due ms
  · obtain ⟨front, rest, hout⟩ := List.exists_cons_of_ne_nil hdue.2.1
    rw [if_pos ((TCPSender.retransmits_iff_due _ _).mpr hdue), TCPSender.tick_of_due hdue hout]
    have hbound := timeout_lt conf.rtTimeout (Nat.succ_le_succ hk)
    have hmax : TCPConfig.MAX_RETX_ATTEMPTS < 2 ^ 15 := by decide
    refine ⟨hw.initial_eq, ?_, ?_, fun _ => rfl, ?_⟩ <;>
      cases hc : w.conn.sender.counts <;>
      simp only [Bool.false_eq_true, ↓reduceIte, Bool.toNat_false, Bool.toNat_true, Nat.add_zero]
    · exact hw.timeout_eq
    · rw [hw.timeout_eq, Nat.mul_assoc, ← Nat.pow_succ, Nat.mod_eq_of_lt hbound]
    · exact hw.retries_eq
    · rw [hw.retries_eq]
      omega
    · omega
    · omega
  · rw [if_neg fun h => hdue ((TCPSender.retransmits_iff_due _ _).mp h),
      TCPSender.tick_of_not_due hdue]
    refine ⟨hw.initial_eq, hw.timeout_eq, hw.retries_eq, fun hon => ?_, by simp only; omega⟩
    have hon' : w.conn.sender.timingBegins = true := hon
    have hlt : w.conn.sender.lastTickTime + ms < 2 ^ 64 := by
      by_contra hge
      exact hno ⟨hon', Nat.not_lt.mp hge⟩
    simp only
    rw [if_pos hon', Nat.mod_eq_of_lt hlt, hw.elapsed_eq hon']

/-- A connection with something outstanding has not ended, so giving up is final. -/
theorem abandoned_finish {c : TCPConnection} (hc : Awake c)
    (hne : c.sender.outstandingSegments ≠ []) (ms : Nat) :
    (c.abandoned ms).finish = c.abandoned ms := by
  obtain ⟨base, hb⟩ := hc.accounted.1
  have hbytes : (c.abandoned ms).sender.bytesInFlight ≠ 0 := by
    show (c.sender.tick ms).bytesInFlight ≠ 0
    rw [(c.sender.tick_frame ms).2.2.2.2.1]
    exact fun h0 => hne (hb.outstanding_eq_nil h0)
  rw [finish, if_neg]
  simp [checkOutboundEnded, hbytes]

/-- The timer of a connection whose sender has been told the time. -/
theorem timed_of_tick {t : TCPSender} (hd : Awake d)
    (hsender : d.sender = { t with segmentsOut := [], stream := d.sender.stream })
    (h1 : t.initialRetransmissionTimeout = conf.rtTimeout.toNat)
    (h2 : t.applyingRetransmissionTimeout = conf.rtTimeout.toNat * 2 ^ k)
    (h3 : t.consecutiveRetransmissions = k) (h4 : t.timingBegins = true → t.lastTickTime = e)
    (h5 : k ≤ TCPConfig.MAX_RETX_ATTEMPTS + 1)
    (h6 : d.active = true → k ≤ TCPConfig.MAX_RETX_ATTEMPTS ∧ d.sender.stream.error = false ∧
      d.receiver.streamOut.error = false) : Timed conf ⟨d, e, k⟩ := by
  refine ⟨hd, ?_, ?_, ?_, ?_, h5, h6⟩ <;> simp only <;> rw [hsender] <;> assumption

/-- **A tick** that ends the sender's attempts ends the connection, and no other does. -/
theorem Timed.tick (hw : Timed conf w) (hactive : w.conn.active = true)
    (hno : ¬ w.conn.sender.Overruns ms) (hd : Awake d) (h : w.conn.tick fuel ms = some d) :
    Timed conf (w.observe (.tick ms) d) ∧
      (GaveUp d ↔ (w.observe (.tick ms) d).retries = TCPConfig.MAX_RETX_ATTEMPTS + 1) := by
  obtain ⟨hk, hout, hin⟩ := hw.alive hactive
  obtain ⟨h1, h2, h3, h4, h5⟩ := hw.tick_eq hk hno d
  have hmore : TCPConfig.MAX_RETX_ATTEMPTS < (w.observe (.tick ms) d).retries →
      w.conn.sender.outstandingSegments ≠ [] := by
    intro hlast
    by_contra hnil
    have hquiet : ¬ w.conn.sender.Retransmits ms := by
      rw [TCPSender.retransmits_iff_due]
      exact fun hdue => hdue.2.1 hnil
    rw [Watch.observe, if_neg hquiet] at hlast
    exact absurd hk (Nat.not_le.mpr hlast)
  obtain ⟨e, k, hobs⟩ : ∃ e k, w.observe (.tick ms) d = ⟨d, e, k⟩ := by
    rw [Watch.observe]
    split <;> exact ⟨_, _, rfl⟩
  rw [hobs] at h2 h3 h4 h5 hmore ⊢
  have hstream : (w.conn.sender.tick ms).stream = w.conn.sender.stream :=
    (w.conn.sender.tick_frame ms).2.2.2.2.2.2.1
  have hcount : (w.conn.ticked ms).sender.consecutiveRetransmissions = k := h3
  rw [TCPConnection.tick_eq, Option.some.injEq, hcount] at h
  by_cases hlast : k > TCPConfig.MAX_RETX_ATTEMPTS
  · rw [if_pos hlast, abandoned_finish hw.awake (hmore hlast)] at h
    subst h
    have hdead : ¬ (w.conn.abandoned ms).active = true := Bool.false_ne_true
    exact ⟨timed_of_tick hd rfl h1 h2 h3 h4 h5 fun hon => absurd hon hdead,
      iff_of_true ⟨rfl, rfl, rfl, _, rfl, rfl⟩ (Nat.le_antisymm h5 hlast)⟩
  · rw [if_neg hlast] at h
    have hsender : d.sender = { w.conn.sender.tick ms with segmentsOut := [] } := by
      rw [← h, finish_sender]
      rfl
    have houtd : d.sender.stream.error = false := by
      rw [hsender]
      exact hstream ▸ hout
    have hind : d.receiver.streamOut.error = false := by
      rw [← h, finish_receiver]
      exact hin
    refine ⟨timed_of_tick hd (by rw [hsender]) h1 h2 h3 h4 h5 fun _ =>
      ⟨Nat.not_lt.mp hlast, houtd, hind⟩, iff_of_false (fun hgave => ?_) (by simp only; omega)⟩
    rw [hgave.1] at houtd
    contradiction

end tick

/-! ## Runs -/

/-- **Each operation** keeps the sender in step with the plain timer. -/
theorem Timed.of_step {conf : TCPConfig} {w w' : Watch} {op : Op} (hw : Timed conf w)
    (hop : w.conn.Tended op ∧ ¬ w.conn.Overruns op) (h : w.step fuel op = some w') :
    Timed conf w' := by
  obtain ⟨d, hd, rfl⟩ := Option.map_eq_some_iff.mp h
  have hawake : Awake d := step_preserves hw.awake (fun _ _ => Awake.micro) hd
  cases op with
  | segmentReceived seg => exact hw.segmentReceived hawake hd
  | tick ms => exact (hw.tick hop.1 hop.2 hawake hd).1
  | connect | write _ | endInputStream | readInbound _ | dequeue =>
      obtain ⟨hclock, hspared⟩ := step_clock (by simp) (by simp) hd
      exact hw.kept hawake hclock hspared

/-- Watching a connection does not change what it does. -/
theorem Watch.step_conn (fuel : Nat) (w : Watch) (op : Op) :
    w.conn.step fuel op = (w.step fuel op).map Watch.conn := by
  rw [Watch.step, Option.map_map]
  cases w.conn.step fuel op with
  | none => rfl
  | some d => simp [Watch.observe_conn]

/-- **The timer refines the plain one**, in every run of a connection that is ticked only
while it is active, and never by so much that the time goes around.  In the state it
reaches, the count is that of the plain timer and the timeout is the initial one doubled
as often, which fits into 32 bits.  A tick makes the sender send exactly if something is
outstanding and the time is up, and then the oldest outstanding segment, once and as it
is; and the connection gives up exactly in the tick that makes one attempt too many. -/
theorem timer_refines {conf : TCPConfig}
    (htended : Along (step fuel) Tended (new conf x) ops)
    (hsize : Along (step fuel) (fun c op => ¬ c.Overruns op) (new conf x) ops)
    (h : exec (step fuel) (new conf x) ops = some c) :
    ∃ w, exec (Watch.step fuel) (Watch.new conf x) ops = some w ∧ w.conn = c ∧
      c.sender.consecutiveRetransmissions = w.retries ∧
      c.sender.applyingRetransmissionTimeout = conf.rtTimeout.toNat * 2 ^ w.retries ∧
      conf.rtTimeout.toNat * 2 ^ w.retries < 2 ^ 32 ∧
      ∀ ms, c.active = true → ¬ c.Overruns (.tick ms) →
        (c.sender.Retransmits ms ↔ c.sender.outstandingSegments ≠ [] ∧
          conf.rtTimeout.toNat * 2 ^ w.retries ≤ w.elapsed + ms) ∧
        (c.sender.Retransmits ms → ∃ front rest, c.sender.outstandingSegments = front :: rest ∧
          (c.sender.tick ms).segmentsOut = c.sender.segmentsOut ++ [front] ∧
          (c.sender.tick ms).outstandingSegments = front :: rest) ∧
        ∃ w', w.step fuel (.tick ms) = some w' ∧
          (GaveUp w'.conn ↔ w'.retries = TCPConfig.MAX_RETX_ATTEMPTS + 1) := by
  have hmap := exec_map (g := id) (Watch.step_conn fuel) (Watch.new conf x) ops
  rw [List.map_id] at hmap
  obtain ⟨w, hrun, rfl⟩ := Option.map_eq_some_iff.mp (hmap.symm.trans h)
  have halong : Along (Watch.step fuel) (fun w op => w.conn.Tended op ∧ ¬ w.conn.Overruns op)
      (Watch.new conf x) ops :=
    along_of_map (C := fun c op => c.Tended op ∧ ¬ c.Overruns op) (Watch.step_conn fuel)
      (htended.and hsize)
  have hw : Timed conf w :=
    exec_invariant_along (fun _ _ _ => Timed.of_step) (timed_new conf x) halong hrun
  refine ⟨w, hrun, rfl, hw.retries_eq, hw.timeout_eq, timeout_lt _ hw.retries_le,
    fun ms hactive hno => ⟨?_, ?_, ?_⟩⟩
  · rw [TCPSender.retransmits_iff_due]
    exact hw.due_iff hno
  · intro hretx
    have hdue := (TCPSender.retransmits_iff_due _ _).mp hretx
    obtain ⟨front, rest, hout⟩ := List.exists_cons_of_ne_nil hdue.2.1
    refine ⟨front, rest, hout, ?_, ?_⟩ <;> rw [TCPSender.tick_of_due hdue hout]
    exact hout
  · obtain ⟨d, hd⟩ : ∃ d, step fuel w.conn (.tick ms) = some d := ⟨_, TCPConnection.tick_eq _ _ _⟩
    have hawake : Awake d := step_preserves hw.awake (fun _ _ => Awake.micro) hd
    refine ⟨w.observe (.tick ms) d, Option.map_eq_some_iff.mpr ⟨d, hd, rfl⟩, ?_⟩
    rw [Watch.observe_conn]
    exact (hw.tick hactive hno hawake hd).2

/-- A SYN that is not answered, up to its eighth retransmission. -/
def unansweredSyn : List Op :=
  [.connect, .tick 1000, .tick 2000, .tick 4000, .tick 8000, .tick 16000, .tick 32000, .tick 64000,
    .tick 128000]

/-- The ninth is due after 256000 ms, and with it the connection gives up. -/
theorem timer_refines_unanswered :
    ∃ c w, exec (step 0) (new { fixedIsn := some ⟨7⟩ } 0) unansweredSyn = some c ∧
      exec (Watch.step 0) (Watch.new { fixedIsn := some ⟨7⟩ } 0) unansweredSyn = some w ∧
      w.conn = c ∧ 8 = w.retries ∧ ¬ c.sender.Retransmits 255999 ∧
      c.sender.Retransmits 256000 ∧ ∃ w', w.step 0 (.tick 256000) = some w' ∧
        (GaveUp w'.conn ↔ w'.retries = TCPConfig.MAX_RETX_ATTEMPTS + 1) := by
  have hrun : exec (step 0) (new { fixedIsn := some ⟨7⟩ } 0) unansweredSyn = some _ := rfl
  obtain ⟨w, hw, hconn, hret, -, -, hticks⟩ := timer_refines (by decide) (by decide) hrun
  obtain ⟨-, -, hgive⟩ := hticks 256000 rfl (by decide)
  exact ⟨_, w, hrun, hw, hconn, hret, by decide, by decide, hgive⟩

/-- After 2 ^ 64 ms, in two ticks, the SYN has not been sent again. -/
theorem time_goes_around :
    ∃ c d w, exec (step 0) (new { fixedIsn := some ⟨7⟩ } 0) [.connect, .tick 1] = some c ∧
      exec (Watch.step 0) (Watch.new { fixedIsn := some ⟨7⟩ } 0) [.connect, .tick 1] = some w ∧
      w.conn = c ∧ c.active = true ∧ c.sender.outstandingSegments ≠ [] ∧
      1000 * 2 ^ w.retries ≤ w.elapsed + (2 ^ 64 - 1) ∧
      step 0 c (.tick (2 ^ 64 - 1)) = some d ∧ ¬ c.sender.Retransmits (2 ^ 64 - 1) ∧
      d.segmentsOut = c.segmentsOut :=
  ⟨_, _, _, rfl, rfl, rfl, rfl, by decide, by decide, rfl, by decide, rfl⟩

end TCPConnection

end Sponge
