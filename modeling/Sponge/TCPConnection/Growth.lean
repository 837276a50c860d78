import Sponge.TCPConnection.Wake
import Sponge.TCPSender.Fill

/-!
# Sponge.TCPConnection.Growth

Whether an acknowledgment that opens the window brings out the data that waits
for it.

`ack_received` calls `fill_window` only behind an acknowledgment that retires
every outstanding segment, and `segment_received` calls it once more only for a
segment that occupies sequence numbers.  So a bare acknowledgment of part of
what is in flight may grow the window without anything being sent into it.
And behind the FIN nothing is sent, although the stream still takes bytes.
`Idles` says when one of the two happens; in all other cases the window is
used.
-/

namespace Sponge

open TCPSegment (lengthInSequenceSpace)

namespace TCPSender

/-- The window `win` is used up, or nothing is left to send. -/
def UsesWindow (s : TCPSender) (win : UInt16) : Prop :=
  s.confirmedSeqno + max 1 win.toNat ≤ s.nextSeqno ∨
    (s.stream.bufferSize = 0 ∧ (s.stream.inputEnded = false ∨ s.finSent = true))

instance (s : TCPSender) (win : UInt16) : Decidable (s.UsesWindow win) :=
  inferInstanceAs (Decidable (_ ∨ _))

/-- Behind the acknowledged number there is room, and there is something to put into it,
but `fill_window` is not called, or does nothing because the FIN is out. -/
def Idles (s : TCPSender) (seg : TCPSegment) : Prop :=
  let a := unwrap seg.header.ackno s.isn s.nextSeqno
  s.nextSeqno < a + max 1 seg.header.win.toNat ∧
    (s.stream.bufferSize ≠ 0 ∨ (s.stream.inputEnded = true ∧ s.finSent = false)) ∧
    (s.finSent = true ∨ (seg.lengthInSequenceSpace = 0 ∧ a < s.nextSeqno))

instance (s : TCPSender) (seg : TCPSegment) : Decidable (s.Idles seg) :=
  inferInstanceAs (Decidable (_ ∧ _ ∧ _))

/-- Behind the FIN nothing is sent. -/
theorem fillWindow_of_finSent {s : TCPSender} (h : s.finSent = true) : s.fillWindow = s := by
  rw [fillWindow, if_pos h]

/-- With nothing in flight there is nothing to send. -/
theorem Wakes.nothing (hw : Wakes s) (hopen : s.finSent = false)
    (hnil : s.outstandingSegments = []) :
    s.stream.bufferSize = 0 ∧ s.stream.inputEnded = false := by
  by_contra hwork
  refine hw ?_ hopen hnil
  simpa [-not_and, not_and_or] using hwork

/-- `fill_window` uses the window, unless the FIN was sent before. -/
theorem fillWindow_usesWindow (hs : InFlight s base) (hopen : s.finSent = false)
    (hsyn : s.nextSeqno = 0 → s.stream.bufferSize = 0 ∧ s.stream.inputEnded = false) :
    UsesWindow s.fillWindow s.receiverWindowSize := by
  by_cases h0 : s.nextSeqno = 0
  · obtain ⟨hbuf, hended⟩ := hsyn h0
    rw [fillWindow, if_neg (by simp [hopen])]
    simp only [if_pos h0]
    exact .inr ⟨hbuf, .inl hended⟩
  have hW := s.receiverLogicalWindowSize_eq
  by_cases hfull : s.confirmedSeqno + s.receiverLogicalWindowSize ≤ s.nextSeqno
  · rw [fillWindow, if_neg (by simp [hopen])]
    simp only [if_neg h0, if_pos hfull]
    exact .inl (hW ▸ hfull)
  · rw [Nat.not_le] at hfull
    obtain ⟨segs, hsends⟩ := fillWindow_sends h0 hopen hfull
    rcases (hsends.room_used hs.confirmed_le hfull).2 with hend | ⟨hbuf, hfin⟩
    · refine .inl ?_
      rw [fillWindow_confirmedSeqno, hend, hW]
    · refine .inr ⟨hbuf, ?_⟩
      rw [hsends.inputEnded_eq]
      cases hended : s.stream.inputEnded with
      | false => exact .inl rfl
      | true => exact .inr (hfin hended)

/-- To fill the window uses all of it, as far as there is something to send. -/
theorem Wakes.fillWindow_uses (hw : Wakes s) (hs : InFlight s base) (hopen : s.finSent = false) :
    UsesWindow s.fillWindow s.receiverWindowSize := by
  refine fillWindow_usesWindow hs hopen fun h0 => hw.nothing hopen ?_
  by_contra hne
  exact hs.next_ne_zero hne h0

/-- `t` is `s` after the acknowledgment of `a`: it has retired segments and sent nothing, or
it has retired them all and filled the window. -/
def Acknowledges (s : TCPSender) (a : Nat) (win : UInt16) (t : TCPSender) : Prop :=
  t.confirmedSeqno = a ∧ t.receiverWindowSize = win ∧
    ((t.nextSeqno = s.nextSeqno ∧ t.stream = s.stream ∧ t.finSent = s.finSent ∧
        (a = s.nextSeqno → s.finSent = false → s.outstandingSegments = [])) ∨
      (a = s.nextSeqno ∧ s.finSent = false ∧ UsesWindow t win))

/-- What an acknowledgment within the range does. -/
theorem InFlight.acknowledges (hs : InFlight s base) (ha : a < 2 ^ 63)
    (hlo : s.confirmedSeqno ≤ a) (hhi : a ≤ s.nextSeqno) (h : s.absAckReceived a win = t) :
    Acknowledges s a win t := by
  rcases absAckReceived_cases h with ⟨hrej, -⟩ | ⟨-, -, popped, u, hret, hends, hend⟩
  · omega
  have hout : s.outstandingSegments = popped ++ u.outstandingSegments :=
    hret.outstandingSegments_eq
  have hconf : u.confirmedSeqno = a := hret.confirmedSeqno_eq
  have hwin : u.receiverWindowSize = win := hret.receiverWindowSize_eq
  have hnext : u.nextSeqno = s.nextSeqno := hret.nextSeqno_eq
  have hstream : u.stream = s.stream := hret.stream_eq
  have hfin : u.finSent = s.finSent := hret.finSent_eq
  rcases hend with ⟨seg, rest, hu, hlt, rfl⟩ | ⟨hnil, v, rfl, rfl⟩
  · -- the first segment left ends behind the acknowledged number
    obtain ⟨c, hc⟩ := hs.retires ha hlo hhi hret hends (by
      intro x xs hx
      rw [hu, List.cons.injEq] at hx
      exact hx.1 ▸ hlt)
    have hfront := hc.lt_front seg rest hu
    have htiles := hc.tiles
    rw [hu, Tiles.cons_iff] at htiles
    have hle := htiles.2.le
    exact ⟨hconf, hwin, .inl ⟨hnext, hstream, hfin, fun heq => by omega⟩⟩
  · obtain ⟨c, hc⟩ := hs.retires ha hlo hhi hret hends (by simp [hnil])
    have hall := hc.confirmed_eq hnil
    by_cases hpop : popped = []
    · simp only [hpop, List.isEmpty_nil, ↓reduceIte]
      refine ⟨hconf, hwin, .inl ⟨hnext, hstream, hfin, fun _ _ => ?_⟩⟩
      rw [hout, hpop, hnil]
      rfl
    · simp only [List.isEmpty_eq_false_iff.mpr hpop, Bool.false_eq_true, ↓reduceIte]
      by_cases hopen : s.finSent = true
      · rw [fillWindow_of_finSent (hfin.trans hopen)]
        exact ⟨hconf, hwin, .inl ⟨hnext, hstream, hfin, by simp [hopen]⟩⟩
      · rw [Bool.not_eq_true] at hopen
        have hsyn : s.nextSeqno ≠ 0 := hs.next_ne_zero (by simp [hout, hpop])
        have huses := fillWindow_usesWindow hc (hfin.trans hopen) fun h0 => by omega
        exact ⟨u.fillWindow_confirmedSeqno.trans hconf,
          u.fillWindow_receiverWindowSize.trans hwin, .inr ⟨by omega, hopen, hwin ▸ huses⟩⟩

end TCPSender

namespace TCPConnection

open TCPSender (Accounted Acknowledges Wakes UsesWindow Idles fillWindow_of_finSent)

/-- Only a segment that occupies sequence numbers makes `reply` fill the window. -/
theorem reply_usesWindow_iff (c : TCPConnection) (seg : TCPSegment) (win : UInt16) :
    UsesWindow (c.reply seg).sender win ↔
      UsesWindow (if seg.lengthInSequenceSpace > 0 then c.sender.fillWindow else c.sender) win := by
  unfold reply
  split
  · simp only
    split <;> exact Iff.rfl
  · exact Iff.rfl

/-- What the acknowledgment in a segment does to the sender. -/
theorem takeAck_acknowledges {c : TCPConnection} (hacc : Accounted c.sender)
    (hw : Wakes c.sender) (hack : seg.header.ack = true)
    (hlo : c.sender.confirmedSeqno ≤ unwrap seg.header.ackno c.sender.isn c.sender.nextSeqno)
    (hhi : unwrap seg.header.ackno c.sender.isn c.sender.nextSeqno ≤ c.sender.nextSeqno)
    (ht : (c.takeAck seg).sender = t) :
    Accounted t ∧ Wakes t ∧
      Acknowledges c.sender (unwrap seg.header.ackno c.sender.isn c.sender.nextSeqno)
        seg.header.win t := by
  obtain ⟨base, hs⟩ := hacc.1
  obtain ⟨u, hu⟩ : ∃ u, c.sender.ackReceived seg.header.ackno seg.header.win = u := ⟨_, rfl⟩
  have hflush : { u with segmentsOut := [] } = t := by rw [← ht, takeAck_sender c seg hack hu]
  obtain ⟨hconf, hwin, hcase⟩ := hs.acknowledges (hs.ackno_lt hlo hhi) hlo hhi hu
  have hwu : Wakes u := hw.absAckReceived hs hs.ackno_lt hu
  subst hflush
  exact ⟨(hacc.ackReceived hu).1.congr rfl rfl rfl rfl rfl rfl, hwu, hconf, hwin, hcase⟩

/-- The acknowledgment and the answer together use the window, unless the sender idles. -/
theorem answer_usesWindow_iff {c : TCPConnection} (hacc : Accounted c.sender)
    (hw : Wakes c.sender) (hack : seg.header.ack = true)
    (hlo : c.sender.confirmedSeqno ≤ unwrap seg.header.ackno c.sender.isn c.sender.nextSeqno)
    (hhi : unwrap seg.header.ackno c.sender.isn c.sender.nextSeqno ≤ c.sender.nextSeqno) :
    UsesWindow ((c.takeAck seg).reply seg).sender seg.header.win ↔ ¬ Idles c.sender seg := by
  rw [reply_usesWindow_iff]
  obtain ⟨t, ht⟩ : ∃ t, (c.takeAck seg).sender = t := ⟨_, rfl⟩
  obtain ⟨hacc', hw', hconf, hwin, hcase⟩ := takeAck_acknowledges hacc hw hack hlo hhi ht
  obtain ⟨base, hs⟩ := hacc'.1
  rw [ht]
  -- what `reply` does, if it fills the window
  have hfill : t.finSent = false → UsesWindow t.fillWindow seg.header.win :=
    fun hopen => hwin ▸ hw'.fillWindow_uses hs hopen
  rcases hcase with ⟨hnext, hstream, hfin, hnil⟩ | ⟨hall, hopen, huses⟩
  · by_cases hopen : c.sender.finSent = true
    · rw [fillWindow_of_finSent (hfin.trans hopen), ite_self]
      simp only [UsesWindow, Idles, hconf, hnext, hstream, hfin, hopen]
      grind
    · rw [Bool.not_eq_true] at hopen
      by_cases hlen : seg.lengthInSequenceSpace > 0
      · rw [if_pos hlen]
        refine iff_of_true (hfill (hfin.trans hopen)) ?_
        simp [Idles, hopen, Nat.pos_iff_ne_zero.mp hlen]
      · -- with everything acknowledged and nothing retired, nothing was in flight
        have hquiet := fun heq => hw.nothing hopen (hnil heq hopen)
        rw [if_neg hlen]
        simp only [UsesWindow, Idles, hconf, hnext, hstream, hfin, hopen]
        generalize unwrap seg.header.ackno c.sender.isn c.sender.nextSeqno = a at *
        grind
  · refine iff_of_true ?_ ?_
    · split
      · by_cases hfin : t.finSent = true
        · rw [fillWindow_of_finSent hfin]
          exact huses
        · exact hfill (Bool.not_eq_true _ ▸ hfin)
      · exact huses
    · rintro ⟨-, -, hfin | ⟨-, hlt⟩⟩
      · exact absurd (hopen.symm.trans hfin) Bool.false_ne_true
      · exact absurd hall (Nat.ne_of_lt hlt)

/-- **Window growth is used**, in every reachable state and for every acknowledgment that is
accepted, exactly unless the sender idles: after `segment_received` the window is used up
or nothing is left to send. -/
theorem usesWindow_iff_not_idles {conf : TCPConfig}
    (h : exec (step fuel) (new conf x) ops = some c) (seg : TCPSegment)
    (hrst : seg.header.rst = false) (hack : seg.header.ack = true)
    (hlo : c.sender.confirmedSeqno ≤ unwrap seg.header.ackno c.sender.isn c.sender.nextSeqno)
    (hhi : unwrap seg.header.ackno c.sender.isn c.sender.nextSeqno ≤ c.sender.nextSeqno)
    (hd : c.segmentReceived fuel seg = some d) :
    d.sender.UsesWindow seg.header.win ↔ ¬ c.sender.Idles seg := by
  obtain ⟨hacc, hw⟩ := exec_awake h
  rcases segmentReceived_cases hd with ⟨hrst', -⟩ | ⟨-, r, -, rfl⟩
  · exact absurd (hrst.symm.trans hrst') Bool.false_ne_true
  have hanswer := @answer_usesWindow_iff seg
    (noteInboundEnded { c with lastTickTime := 0, receiver := r })
  rw [noteInboundEnded_sender] at hanswer
  exact hanswer hacc hw hack hlo hhi

/-- Behind a window of one byte, `"b"` goes out when the acknowledgment of `"a"` opens it to
two. -/
theorem usesWindow_iff_not_idles_opened :
    ∃ c d, exec (step 9) (new { fixedIsn := some ⟨7⟩ } 0)
        [.connect, .segmentReceived { header := { syn := true, ack := true, ackno := ⟨8⟩ } },
          .write [97, 98]] = some c ∧
      c.segmentReceived 9 { header := { ack := true, ackno := ⟨9⟩, win := 2 } } = some d ∧
      c.sender.nextSeqno = 2 ∧ d.sender.nextSeqno = 3 ∧ d.sender.UsesWindow 2 :=
  have hrun : exec (step 9) (new { fixedIsn := some ⟨7⟩ } 0)
      [.connect, .segmentReceived { header := { syn := true, ack := true, ackno := ⟨8⟩ } },
        .write [97, 98]] = some _ := rfl
  ⟨_, _, hrun, rfl, rfl, rfl,
    (usesWindow_iff_not_idles hrun { header := { ack := true, ackno := ⟨9⟩, win := 2 } } rfl rfl
      (by decide) (by decide) rfl).mpr (by decide)⟩

/-- The acknowledgment is accepted, and the window it opens is not used. -/
def Wastes (conf : TCPConfig) (ops : List Op) (seg : TCPSegment) : Prop :=
  ∃ fuel c d, exec (step fuel) (new conf 0) ops = some c ∧
    seg.header.rst = false ∧ seg.header.ack = true ∧
    c.sender.confirmedSeqno ≤ unwrap seg.header.ackno c.sender.isn c.sender.nextSeqno ∧
    unwrap seg.header.ackno c.sender.isn c.sender.nextSeqno ≤ c.sender.nextSeqno ∧
    c.segmentReceived fuel seg = some d ∧ ¬ d.sender.UsesWindow seg.header.win

/-- With `"a"` in flight and `"b"` waiting, a window update; and, behind the FIN, an
acknowledgment with `"a"` in the stream. -/
theorem window_growth_unused :
    Wastes { fixedIsn := some ⟨7⟩ }
      [.connect, .segmentReceived { header := { syn := true, ack := true, ackno := ⟨8⟩ } },
        .write [97, 98]]
      { header := { ack := true, ackno := ⟨8⟩, win := 10 } } ∧
    Wastes { fixedIsn := some ⟨7⟩ }
      [.connect, .segmentReceived { header := { syn := true, ack := true, ackno := ⟨8⟩ } },
        .endInputStream, .write [97]]
      { header := { ack := true, ackno := ⟨9⟩, win := 10 } } := by
  constructor <;>
    exact ⟨9, _, _, rfl, rfl, rfl, by decide, by decide, rfl, by decide⟩

end TCPConnection

end Sponge
