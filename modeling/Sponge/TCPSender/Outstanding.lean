import Sponge.Lib.Tiles
import Sponge.TCPSender

/-!
# Sponge.TCPSender.Outstanding

The outstanding segments, the acknowledged position and the timer.

`InFlight s base` says that the outstanding segments lie end to end from
`base` to `_next_seqno` and that the acknowledged position is inside the
oldest of them.  Where a segment starts is not stored: `ack_received` gets it
back from the 32-bit number.  That this is right hangs on how far the two ends
can be apart, so the invariant bounds the data in flight, and on the
acknowledged number itself having been unwrapped without overflow.
-/

namespace Sponge

namespace TCPSender

open TCPSegment (lengthInSequenceSpace)

/-! ## The invariant -/

/-- What an outstanding segment starting at `a` looks like. -/
def Numbered (isn : WrappingInt32) (a : Nat) (seg : TCPSegment) : Prop :=
  seg.header.seqno = wrap a isn ∧ 0 < seg.lengthInSequenceSpace ∧
    seg.lengthInSequenceSpace ≤ TCPConfig.MAX_PAYLOAD_SIZE + 1

/-- The outstanding segments cover the numbers from `base` on, one after the other. -/
structure InFlight (s : TCPSender) (base : Nat) : Prop where
  tiles : Tiles lengthInSequenceSpace (Numbered s.isn) base s.outstandingSegments s.nextSeqno
  base_le : base ≤ s.confirmedSeqno
  confirmed_le : s.confirmedSeqno ≤ s.nextSeqno
  lt_front : ∀ seg rest, s.outstandingSegments = seg :: rest →
    s.confirmedSeqno < base + seg.lengthInSequenceSpace
  bytesInFlight_eq : s.bytesInFlight = (s.outstandingSegments.map lengthInSequenceSpace).sum
  next_le : s.nextSeqno ≤ s.confirmedSeqno + 2 ^ 16

/-- The timer runs exactly while something is outstanding. -/
def TimerRuns (s : TCPSender) : Prop := s.timingBegins = !s.outstandingSegments.isEmpty

/-- A new sender has nothing in flight. -/
theorem inFlight_new (cap : Nat) (rt : UInt16) (i : Option WrappingInt32) (x : UInt32) :
    (new cap rt i x).InFlight 0 where
  tiles := rfl
  base_le := Nat.le_refl _
  confirmed_le := Nat.le_refl _
  lt_front := by simp [new]
  bytesInFlight_eq := rfl
  next_le := Nat.zero_le _

/-- With nothing outstanding everything sent is acknowledged. -/
theorem InFlight.confirmed_eq (h : InFlight s base) (hnil : s.outstandingSegments = []) :
    s.confirmedSeqno = s.nextSeqno := by
  have htiles := h.tiles
  rw [hnil, Tiles.nil_iff] at htiles
  have := h.base_le
  have := h.confirmed_le
  omega

/-- With no bytes in flight nothing is outstanding. -/
theorem InFlight.outstanding_eq_nil (h : InFlight s base) (h0 : s.bytesInFlight = 0) :
    s.outstandingSegments = [] := by
  cases hout : s.outstandingSegments with
  | nil => rfl
  | cons seg rest =>
      have htiles := h.tiles
      have hsum := h.bytesInFlight_eq
      rw [hout, Tiles.cons_iff] at htiles
      rw [hout, List.map_cons, List.sum_cons] at hsum
      have hpos := htiles.1.2.1
      omega

/-- Something outstanding has taken a number. -/
theorem InFlight.next_ne_zero (h : InFlight s base) (hne : s.outstandingSegments ≠ []) :
    s.nextSeqno ≠ 0 := by
  have htiles := h.tiles
  cases hout : s.outstandingSegments with
  | nil => contradiction
  | cons seg rest =>
      rw [hout, Tiles.cons_iff] at htiles
      have hpos := htiles.1.2.1
      have hle := htiles.2.le
      omega

/-! ## Transmissions -/

/-- A window has sixteen bits. -/
theorem receiverLogicalWindowSize_le (s : TCPSender) :
    s.receiverLogicalWindowSize ≤ 2 ^ 16 := by
  unfold receiverLogicalWindowSize
  split
  · decide
  · exact Nat.le_of_lt s.receiverWindowSize.toNat_lt

/-- A segment has its number. -/
theorem Transmit.numbered (h : Transmit s seg t) : Numbered s.isn s.nextSeqno seg := by
  refine ⟨h.seqno_eq, h.length_pos, ?_⟩
  rcases h.kind with ho | hc
  · simp [lengthInSequenceSpace, ho.syn_eq, ho.fin_eq, ho.payload_eq]
  · have hle := hc.payload_le
    simp only [lengthInSequenceSpace, hc.syn_eq, Bool.false_eq_true, ↓reduceIte]
    split <;> omega

/-- A transmission stays within the window that bounds the data in flight. -/
theorem Transmit.next_le (h : Transmit s seg t) :
    t.nextSeqno ≤ t.confirmedSeqno + 2 ^ 16 := by
  rw [h.nextSeqno_eq, h.confirmedSeqno_eq]
  rcases h.kind with ho | hc
  · simp only [ho.nextSeqno_eq, lengthInSequenceSpace, ho.syn_eq, ho.fin_eq, ho.payload_eq]
    simp
  · have hfits := hc.fits
    have hw := s.receiverLogicalWindowSize_le
    omega

/-- A segment that is sent is the last in flight. -/
theorem InFlight.transmit (hs : InFlight s base) (h : Transmit s seg t) : InFlight t base where
  tiles := by
    rw [h.outstandingSegments_eq, h.nextSeqno_eq, h.isn_eq]
    exact hs.tiles.concat h.numbered
  base_le := h.confirmedSeqno_eq ▸ hs.base_le
  confirmed_le := by
    have := hs.confirmed_le
    rw [h.confirmedSeqno_eq, h.nextSeqno_eq]
    omega
  lt_front := by
    intro x rest hx
    rw [h.outstandingSegments_eq] at hx
    rw [h.confirmedSeqno_eq]
    cases hout : s.outstandingSegments with
    | nil =>
        -- the new segment is the oldest one
        rw [hout, List.nil_append, List.cons.injEq] at hx
        have htiles := hs.tiles
        rw [hout, Tiles.nil_iff] at htiles
        have := hs.confirmed_le
        have := h.length_pos
        rw [← hx.1]
        omega
    | cons y ys =>
        rw [hout, List.cons_append, List.cons.injEq] at hx
        exact hs.lt_front x ys (hx.1 ▸ hout)
  bytesInFlight_eq := by
    rw [h.bytesInFlight_eq, h.outstandingSegments_eq, hs.bytesInFlight_eq]
    simp
  next_le := h.next_le

/-- To fill the window is to send segments. -/
theorem InFlight.fillWindow (hs : InFlight s base) : InFlight s.fillWindow base := by
  obtain ⟨segs, hsegs⟩ := s.fillWindow_steps
  exact hsegs.preserves (P := fun s => InFlight s base) (fun _ _ _ hs h => hs.transmit h) hs

/-- What is sent starts the timer. -/
theorem TimerRuns.fillWindow (hs : TimerRuns s) : TimerRuns s.fillWindow := by
  obtain ⟨segs, hsegs⟩ := s.fillWindow_steps
  refine hsegs.preserves ?_ hs
  intro s a t _ h
  rw [TimerRuns, h.timingBegins_eq, h.outstandingSegments_eq]
  simp

theorem fillWindow_confirmedSeqno (s : TCPSender) :
    s.fillWindow.confirmedSeqno = s.confirmedSeqno := by
  obtain ⟨segs, hsegs⟩ := s.fillWindow_steps
  refine hsegs.preserves (P := fun t => t.confirmedSeqno = s.confirmedSeqno) ?_ rfl
  exact fun _ _ _ hs h => h.confirmedSeqno_eq.trans hs

theorem fillWindow_receiverWindowSize (s : TCPSender) :
    s.fillWindow.receiverWindowSize = s.receiverWindowSize := by
  obtain ⟨segs, hsegs⟩ := s.fillWindow_steps
  refine hsegs.preserves (P := fun t => t.receiverWindowSize = s.receiverWindowSize) ?_ rfl
  exact fun _ _ _ hs h => h.receiverWindowSize_eq.trans hs

/-! ## Acknowledgments -/

/-- An outstanding segment that starts at or before an unwrapped number is found
at its place. -/
theorem unwrap_seqno {s : TCPSender} (hseg : Numbered s.isn p seg) (hp : p < 2 ^ 63)
    (hlo : s.nextSeqno ≤ p + 2 ^ 31) (hhi : p ≤ s.nextSeqno) :
    unwrap seg.header.seqno s.isn s.nextSeqno = p := by
  rw [hseg.1]
  exact unwrap_wrap_of_near _ hp hlo (by omega)

/-- The segments that are retired end at or before the acknowledged number. -/
theorem tiles_popped_le {s : TCPSender} (ha : a < 2 ^ 63) (hle : p ≤ a)
    (hnext : s.nextSeqno ≤ p + 2 ^ 31) (hc : c ≤ s.nextSeqno)
    (htiles : Tiles lengthInSequenceSpace (Numbered s.isn) p popped c)
    (hends : ∀ seg ∈ popped,
      unwrap seg.header.seqno s.isn s.nextSeqno + seg.lengthInSequenceSpace ≤ a) : c ≤ a := by
  induction popped generalizing p with
  | nil =>
      rw [Tiles.nil_iff] at htiles
      omega
  | cons seg popped ih =>
      obtain ⟨hseg, hrest⟩ := htiles
      have hmem := hends seg List.mem_cons_self
      have hrle := hrest.le
      rw [unwrap_seqno hseg (by omega) hnext (by omega)] at hmem
      exact ih hmem (by omega) hrest fun x hx => hends x (List.mem_cons_of_mem seg hx)

/-- The oldest outstanding segment is not far behind. -/
theorem InFlight.next_le_base (hs : InFlight s base) : s.nextSeqno ≤ base + 2 ^ 31 := by
  have htiles := hs.tiles
  have hnext := hs.next_le
  cases hout : s.outstandingSegments with
  | nil =>
      rw [hout, Tiles.nil_iff] at htiles
      omega
  | cons seg rest =>
      have hfront := hs.lt_front seg rest hout
      rw [hout, Tiles.cons_iff] at htiles
      have hlen := htiles.1.2.2
      simp only [TCPConfig.MAX_PAYLOAD_SIZE] at hlen
      omega

/-- What is in flight after an acknowledgment has retired segments. -/
theorem InFlight.retires (hs : InFlight s base) (ha : a < 2 ^ 63) (hlo : s.confirmedSeqno ≤ a)
    (hhi : a ≤ s.nextSeqno) (hret : Retires (s.accept a win) popped u)
    (hends : ∀ seg ∈ popped,
      unwrap seg.header.seqno s.isn s.nextSeqno + seg.lengthInSequenceSpace ≤ a)
    (hstop : ∀ seg rest, u.outstandingSegments = seg :: rest →
      a < unwrap seg.header.seqno s.isn s.nextSeqno + seg.lengthInSequenceSpace) :
    ∃ base', InFlight u base' := by
  have hout : s.outstandingSegments = popped ++ u.outstandingSegments :=
    hret.outstandingSegments_eq
  have hbase := hs.base_le
  have hnear := hs.next_le_base
  have htiles := hs.tiles
  rw [hout, Tiles.append_iff] at htiles
  obtain ⟨c, hpop, hrest⟩ := htiles
  have hbc := hpop.le
  have hca : c ≤ a := tiles_popped_le ha (by omega) hnear hrest.le hpop hends
  refine ⟨c, ?_, ?_, ?_, ?_, ?_, ?_⟩
  · rw [hret.isn_eq, hret.nextSeqno_eq]
    exact hrest
  · rw [hret.confirmedSeqno_eq]
    exact hca
  · rw [hret.confirmedSeqno_eq, hret.nextSeqno_eq]
    exact hhi
  · intro seg rest hx
    have hlt := hstop seg rest hx
    rw [hx, Tiles.cons_iff] at hrest
    have hend := hrest.2.le
    rw [unwrap_seqno hrest.1 (by omega) (by omega) (by omega)] at hlt
    rw [hret.confirmedSeqno_eq]
    exact hlt
  · have hbytes : (s.accept a win).bytesInFlight = _ := hs.bytesInFlight_eq
    rw [hret.bytesInFlight_eq, hbytes, hout, List.map_append, List.sum_append,
      Nat.add_sub_cancel_left]
  · have hnext := hs.next_le
    rw [hret.confirmedSeqno_eq, hret.nextSeqno_eq]
    exact Nat.le_trans hnext (Nat.add_le_add_right hlo _)

/-- **Acknowledgments** keep the invariant, set the timer right and never move the
acknowledged position back. -/
theorem InFlight.absAckReceived (hs : InFlight s base) (ht : TimerRuns s)
    (ha : s.confirmedSeqno ≤ a → a ≤ s.nextSeqno → a < 2 ^ 63)
    (h : s.absAckReceived a win = t) :
    (∃ base', InFlight t base') ∧ TimerRuns t ∧ s.confirmedSeqno ≤ t.confirmedSeqno := by
  rcases absAckReceived_cases h with ⟨-, rfl⟩ | ⟨hlo, hhi, popped, u, hret, hends, hend⟩
  · exact ⟨⟨base, hs⟩, ht, Nat.le_refl _⟩
  have hconf : u.confirmedSeqno = a := hret.confirmedSeqno_eq
  have hout : s.outstandingSegments = popped ++ u.outstandingSegments :=
    hret.outstandingSegments_eq
  rcases hend with ⟨seg, rest, hu, hlt, rfl⟩ | ⟨hnil, v, hv, rfl⟩
  · refine ⟨hs.retires (ha hlo hhi) hlo hhi hret hends ?_, ?_, by omega⟩
    · intro x xs hx
      rw [hu, List.cons.injEq] at hx
      exact hx.1 ▸ hlt
    · have htimer : u.timingBegins = s.timingBegins := hret.timingBegins_eq
      rw [TimerRuns, htimer, ht, hout, hu]
      simp
  · obtain ⟨c, hc⟩ := hs.retires (ha hlo hhi) hlo hhi hret hends (by simp [hnil])
    have hvc : InFlight v c ∧ v.confirmedSeqno = a := by
      rw [← hv]
      split
      · exact ⟨hc, hconf⟩
      · exact ⟨hc.fillWindow, (fillWindow_confirmedSeqno u).trans hconf⟩
    obtain ⟨hv', hva⟩ := hvc
    refine ⟨⟨c, hv'.tiles, hv'.base_le, hv'.confirmed_le, hv'.lt_front, hv'.bytesInFlight_eq,
      hv'.next_le⟩, rfl, ?_⟩
    simp only
    omega

/-- A number that `ack_received` accepts was unwrapped without overflow. -/
theorem InFlight.ackno_lt (hs : InFlight s base) {ackno : WrappingInt32}
    (hlo : s.confirmedSeqno ≤ unwrap ackno s.isn s.nextSeqno)
    (hhi : unwrap ackno s.isn s.nextSeqno ≤ s.nextSeqno) :
    unwrap ackno s.isn s.nextSeqno < 2 ^ 63 := by
  have hnext := hs.next_le
  exact (unwrap_eq_of_window hlo hhi (by omega)).2

/-! ## Runs -/

/-- What is in flight is accounted for, and the timer runs for it. -/
def Accounted (s : TCPSender) : Prop := (∃ base, InFlight s base) ∧ TimerRuns s

/-- A new sender has nothing to account for. -/
theorem accounted_new (cap : Nat) (rt : UInt16) (i : Option WrappingInt32) (x : UInt32) :
    (new cap rt i x).Accounted := ⟨⟨0, inFlight_new cap rt i x⟩, rfl⟩

/-- Changing neither queue nor positions keeps the account. -/
theorem Accounted.congr (hs : Accounted s) (h1 : t.isn = s.isn)
    (h2 : t.outstandingSegments = s.outstandingSegments) (h3 : t.nextSeqno = s.nextSeqno)
    (h4 : t.confirmedSeqno = s.confirmedSeqno) (h5 : t.bytesInFlight = s.bytesInFlight)
    (h6 : t.timingBegins = s.timingBegins) : Accounted t := by
  obtain ⟨⟨base, hb⟩, ht⟩ := hs
  refine ⟨⟨base, ?_, ?_, ?_, ?_, ?_, ?_⟩, ?_⟩
  · rw [h1, h2, h3]; exact hb.tiles
  · rw [h4]; exact hb.base_le
  · rw [h3, h4]; exact hb.confirmed_le
  · rw [h2, h4]; exact hb.lt_front
  · rw [h2, h5]; exact hb.bytesInFlight_eq
  · rw [h3, h4]; exact hb.next_le
  · rw [TimerRuns, h2, h6]; exact ht

theorem Accounted.fillWindow (hs : Accounted s) : Accounted s.fillWindow := by
  obtain ⟨⟨base, hb⟩, ht⟩ := hs
  exact ⟨⟨base, hb.fillWindow⟩, ht.fillWindow⟩

/-- An acknowledgment never moves back. -/
theorem Accounted.ackReceived (hs : Accounted s) (h : s.ackReceived ackno win = t) :
    Accounted t ∧ s.confirmedSeqno ≤ t.confirmedSeqno := by
  obtain ⟨⟨base, hb⟩, ht⟩ := hs
  obtain ⟨hb', ht', hle⟩ := hb.absAckReceived ht hb.ackno_lt h
  exact ⟨⟨hb', ht'⟩, hle⟩

/-- A tick leaves queue and positions alone. -/
theorem tick_frame (s : TCPSender) (ms : Nat) :
    (s.tick ms).isn = s.isn ∧ (s.tick ms).outstandingSegments = s.outstandingSegments ∧
      (s.tick ms).nextSeqno = s.nextSeqno ∧ (s.tick ms).confirmedSeqno = s.confirmedSeqno ∧
      (s.tick ms).bytesInFlight = s.bytesInFlight ∧ (s.tick ms).timingBegins = s.timingBegins ∧
      (s.tick ms).stream = s.stream ∧ (s.tick ms).finSent = s.finSent ∧
      (s.tick ms).receiverWindowSize = s.receiverWindowSize := by
  rcases tick_cases (t := s.tick ms) rfl with ⟨_, h⟩ | ⟨_, _, _, _, _, -, h⟩ <;>
    rw [← h] <;> exact ⟨rfl, rfl, rfl, rfl, rfl, rfl, rfl, rfl, rfl⟩

/-- What is sent again stays in flight. -/
theorem Accounted.tick (hs : Accounted s) (ms : Nat) : Accounted (s.tick ms) := by
  obtain ⟨h1, h2, h3, h4, h5, h6, -⟩ := s.tick_frame ms
  exact hs.congr h1 h2 h3 h4 h5 h6

/-- **One operation** keeps the account and never moves the acknowledged position
back. -/
theorem Accounted.of_step {op : Op} (hs : Accounted s) (h : step s op = some t) :
    Accounted t ∧ s.confirmedSeqno ≤ t.confirmedSeqno := by
  cases op with
  | write data =>
      rw [TCPSender.step, Option.some.injEq] at h
      subst h
      exact ⟨hs.congr rfl rfl rfl rfl rfl rfl, Nat.le_refl _⟩
  | endInput =>
      rw [TCPSender.step, Option.some.injEq] at h
      subst h
      exact ⟨hs.congr rfl rfl rfl rfl rfl rfl, Nat.le_refl _⟩
  | fillWindow =>
      rw [TCPSender.step, Option.some.injEq] at h
      subst h
      exact ⟨hs.fillWindow, Nat.le_of_eq (fillWindow_confirmedSeqno s).symm⟩
  | ackReceived ackno win =>
      rw [TCPSender.step, Option.some.injEq] at h
      exact hs.ackReceived h
  | tick ms =>
      rw [TCPSender.step, Option.some.injEq] at h
      subst h
      exact ⟨hs.tick ms, Nat.le_of_eq (s.tick_frame ms).2.2.2.1.symm⟩
  | sendEmptySegment =>
      rw [TCPSender.step, Option.some.injEq] at h
      subst h
      exact ⟨hs.congr rfl rfl rfl rfl rfl rfl, Nat.le_refl _⟩
  | readASegment =>
      rw [TCPSender.step, readASegment_snd, Option.some.injEq] at h
      subst h
      exact ⟨hs.congr rfl rfl rfl rfl rfl rfl, Nat.le_refl _⟩

/-- **Every run** accounts for what is in flight. -/
theorem exec_accounted (h : exec step (new cap rt i x) ops = some s) : Accounted s :=
  exec_invariant (fun _ _ _ hs hstep => (hs.of_step hstep).1) (accounted_new cap rt i x) h

/-- From an accounted state on, the acknowledged position never moves back. -/
theorem Accounted.confirmedSeqno_le (hs : Accounted s) (h : exec step s ops = some t) :
    s.confirmedSeqno ≤ t.confirmedSeqno := by
  have hinit : Accounted s ∧ s.confirmedSeqno ≤ s.confirmedSeqno := ⟨hs, Nat.le_refl _⟩
  refine (exec_invariant (P := fun u => Accounted u ∧ s.confirmedSeqno ≤ u.confirmedSeqno)
    ?_ hinit h).2
  intro u op v hu hstep
  obtain ⟨hv, hle⟩ := hu.1.of_step hstep
  exact ⟨hv, Nat.le_trans hu.2 hle⟩

/-- **The account of what is in flight**, in every state a run reaches: the
outstanding segments lie end to end up to `_next_seqno`, `bytes_in_flight()`
is their total, the end of the oldest one is computed right and the
acknowledged position, which never moves back, is inside it; the timer runs
exactly while something is outstanding. -/
theorem outstanding_account (h : exec step (new cap rt i x) ops = some s)
    (hnext : s.nextSeqno < 2 ^ 63 - 2 ^ 31) :
    ∃ base, Tiles lengthInSequenceSpace (fun a seg => seg.header.seqno = wrap a s.isn) base
        s.outstandingSegments s.nextSeqno ∧
      s.bytesInFlight = (s.outstandingSegments.map lengthInSequenceSpace).sum ∧
      (∀ popped rest, s.outstandingSegments = popped ++ rest →
        (popped.map lengthInSequenceSpace).sum ≤ s.bytesInFlight) ∧
      (∀ front rest, s.outstandingSegments = front :: rest →
        s.frontSegOutstandingAckno = base + front.lengthInSequenceSpace ∧
        base ≤ s.confirmedSeqno ∧ s.confirmedSeqno < base + front.lengthInSequenceSpace) ∧
      (s.outstandingSegments = [] → s.confirmedSeqno = s.nextSeqno) ∧
      (∀ more t, exec step s more = some t → s.confirmedSeqno ≤ t.confirmedSeqno) ∧
      (s.timingBegins = true ↔ s.outstandingSegments ≠ []) := by
  obtain ⟨⟨base, hb⟩, ht⟩ := exec_accounted h
  refine ⟨base, hb.tiles.mono fun _ _ hn => hn.1, hb.bytesInFlight_eq, ?_, ?_, hb.confirmed_eq,
    fun more t hmore => (exec_accounted h).confirmedSeqno_le hmore, ?_⟩
  · intro popped rest hout
    rw [hb.bytesInFlight_eq, hout, List.map_append, List.sum_append]
    exact Nat.le_add_right _ _
  · intro front rest hout
    have htiles := hb.tiles
    have hnear := hb.next_le_base
    have hle := htiles.le
    rw [hout, Tiles.cons_iff] at htiles
    refine ⟨?_, hb.base_le, hb.lt_front front rest hout⟩
    rw [frontSegOutstandingAckno, hout]
    simp only
    rw [unwrap_seqno htiles.1 (by omega) hnear hle]
  · rw [ht]
    simp

/-- A sender whose numbers wrap, with `"ab"` sent in one segment and `"c"` in the next,
and the first byte acknowledged. -/
theorem outstanding_account_wrap :
    ∃ s, exec step (new 8 1000 (some ⟨4294967295⟩) 0)
        [.fillWindow, .ackReceived ⟨0⟩ 2, .write [97, 98, 99], .fillWindow,
          .ackReceived ⟨1⟩ 2, .fillWindow] = some s ∧
      s.outstandingSegments.length = 2 ∧ s.confirmedSeqno = 2 ∧
      ∃ base, Tiles lengthInSequenceSpace (fun a seg => seg.header.seqno = wrap a s.isn) base
        s.outstandingSegments s.nextSeqno :=
  have hrun : exec step (new 8 1000 (some ⟨4294967295⟩) 0)
      [.fillWindow, .ackReceived ⟨0⟩ 2, .write [97, 98, 99], .fillWindow,
        .ackReceived ⟨1⟩ 2, .fillWindow] = some _ := rfl
  have hacc := outstanding_account hrun (by decide)
  ⟨_, hrun, by decide, by decide, hacc.imp fun _ hb => hb.1⟩

end TCPSender

end Sponge
