import Sponge.StreamReassembler.Return
import Sponge.TCPConnection
import Sponge.TCPSender.Outstanding
import Sponge.TCPSender.Transmissions

/-!
# Sponge.TCPConnection.Reply

What `segment_received` answers.  A segment that occupies sequence numbers is
always answered, and everything sent carries the new acknowledgment number; a
segment that occupies none brings out new data at most.  So a connection sends
no more bare acknowledgments than it receives segments that ask for one, and
two connections cannot keep each other busy with them.

The answers come from two flushes of the sender's queue, around `ack_received`
and `fill_window`, and from the empty segment sent when both find nothing.
Both flushes add first transmissions only (`Emits`).

There is one way for a segment to stay unanswered: the push that the receiver
makes of its payload may not return (`TCPReceiver.Hangs`).
-/

namespace Sponge

open TCPSegment (lengthInSequenceSpace)

namespace TCPSender

/-! ## First transmissions -/

/-- From `s` to `t`, `segs` have been queued.  They are numbered on from where the
numbers given so far end, so none of them was sent before. -/
structure Queues (s : TCPSender) (segs : List TCPSegment) (t : TCPSender) : Prop where
  isn_eq : t.isn = s.isn
  segmentsOut_eq : t.segmentsOut = s.segmentsOut ++ segs
  tiles : Tiles lengthInSequenceSpace (Numbered s.isn) s.nextSeqno segs t.nextSeqno

/-- Segments that are sent one after the other are queued in order. -/
theorem queues_of_steps (h : Steps Transmit s segs t) : Queues s segs t := by
  refine ⟨?_, segmentsOut_of_steps h, ?_⟩
  · exact h.preserves (P := fun t => t.isn = s.isn) (fun _ _ _ hu htr => htr.isn_eq.trans hu) rfl
  · induction h with
    | nil s => rfl
    | cons htr _ ih =>
        rw [htr.isn_eq, htr.nextSeqno_eq] at ih
        exact ⟨htr.numbered, ih⟩

/-- To fill the window only adds segments. -/
theorem fillWindow_queues (s : TCPSender) : ∃ segs, Queues s segs s.fillWindow := by
  obtain ⟨segs, h⟩ := s.fillWindow_steps
  exact ⟨segs, queues_of_steps h⟩

/-- So does an acknowledgment. -/
theorem absAckReceived_queues (s : TCPSender) (a : Nat) (win : UInt16) :
    ∃ segs, Queues s segs (s.absAckReceived a win) := by
  rcases absAckReceived_cases (t := s.absAckReceived a win) rfl with ⟨-, heq⟩ |
      ⟨-, -, popped, u, hret, -, hend⟩
  · rw [← heq]
    exact ⟨[], rfl, (List.append_nil _).symm, rfl⟩
  have hu : ∀ segs v, Queues u segs v → Queues s segs v := fun segs v hq =>
    ⟨hq.isn_eq.trans hret.isn_eq, hq.segmentsOut_eq.trans (by rw [hret.segmentsOut_eq]; rfl),
      hret.isn_eq ▸ hret.nextSeqno_eq ▸ hq.tiles⟩
  have hself : Queues u [] u := ⟨rfl, (List.append_nil _).symm, rfl⟩
  rcases hend with ⟨_, _, -, -, heq⟩ | ⟨-, v, hv, heq⟩
  · rw [← heq]
    exact ⟨[], hu [] u hself⟩
  · -- setting the timer touches neither queue nor numbers
    have hq : ∃ segs, Queues u segs v := by
      rw [← hv]
      split
      · exact ⟨[], hself⟩
      · exact u.fillWindow_queues
    obtain ⟨segs, hsegs⟩ := hq
    rw [← heq]
    exact ⟨segs, hu segs _ ⟨hsegs.isn_eq, hsegs.segmentsOut_eq, hsegs.tiles⟩⟩

end TCPSender

namespace TCPReceiver

/-! ## Segments that are never done -/

/-- The push that `segment_received` makes for this segment does not return. -/
def Hangs (r : TCPReceiver) (seg : TCPSegment) : Prop :=
  (r.firstSegment = true → seg.header.syn = true) ∧
    ¬ ((r.listen seg).absSeqno = 1 ∧ (r.listen seg).tempAbsSeqno seg < (r.listen seg).absSeqno) ∧
    r.reassembler.Hangs seg.payload (streamIndex ((r.listen seg).tempAbsSeqno seg)) seg.header.fin

instance (r : TCPReceiver) (seg : TCPSegment) : Decidable (r.Hangs seg) :=
  inferInstanceAs (Decidable (_ ∧ _ ∧ _))

/-- On a sorted store, a segment runs out of every amount of fuel exactly when it
hangs. -/
theorem segmentReceived_eq_none_iff {r : TCPReceiver} (hs : SortedByIndex r.reassembler.storage) :
    (∀ fuel, r.segmentReceived fuel seg = none) ↔ r.Hangs seg := by
  unfold segmentReceived
  by_cases hearly : (r.firstSegment && !seg.header.syn) = true
  · simp only [if_pos hearly]
    refine iff_of_false (by simp) fun h => ?_
    have hsyn := h.1
    simp_all
  have hsyn : r.firstSegment = true → seg.header.syn = true := by
    simpa using hearly
  by_cases hlow : (r.listen seg).absSeqno = 1 ∧
      (r.listen seg).tempAbsSeqno seg < (r.listen seg).absSeqno
  · simp only [if_neg hearly, if_pos hlow]
    exact iff_of_false (by simp) fun h => h.2.1 hlow
  · rw [Hangs, ← StreamReassembler.pushSubstring_eq_none_iff hs]
    simp only [if_neg hearly, if_neg hlow, listen_reassembler]
    constructor
    · intro h
      refine ⟨hsyn, hlow, fun fuel => ?_⟩
      have hfuel := h fuel
      split at hfuel
      · assumption
      · contradiction
    · rintro ⟨-, -, h⟩ fuel
      rw [h fuel]

/-- A segment leaves the store sorted. -/
theorem segmentReceived_sorted {r r' : TCPReceiver} (hs : SortedByIndex r.reassembler.storage)
    (h : r.segmentReceived fuel seg = some r') : SortedByIndex r'.reassembler.storage := by
  rcases segmentReceived_cases h with ⟨-, -, rfl⟩ | ⟨-, -, -, rfl⟩ | ⟨ra, -, -, hpush, rfl⟩
  · exact hs
  · rwa [listen_reassembler]
  · rw [acknowledge_reassembler]
    exact (StreamReassembler.pushSubstring_pushes hpush).sorted hs

end TCPReceiver

namespace TCPConnection

open TCPSender (Numbered Queues)

/-! ## The two flushes -/

/-- From `c` to `d`, the segments `added` have gone out: first transmissions, with
what the receiver stamps on them. -/
structure Emits (c : TCPConnection) (added : List TCPSegment) (d : TCPConnection) : Prop where
  segmentsOut_eq : d.segmentsOut = c.segmentsOut ++ added
  stamped : ∀ seg ∈ added, ∃ bare, stamp c.receiver bare = seg
  isn_eq : d.sender.isn = c.sender.isn
  tiles : Tiles lengthInSequenceSpace (Numbered c.sender.isn) c.sender.nextSeqno added
    d.sender.nextSeqno
  receiver_eq : d.receiver = c.receiver

/-- Nothing is sent. -/
theorem Emits.refl (c : TCPConnection) : Emits c [] c :=
  ⟨(List.append_nil _).symm, by simp, rfl, rfl, rfl⟩

/-- One thing is sent after the other. -/
theorem Emits.trans {c d e : TCPConnection} (h : Emits c added d) (h' : Emits d added' e) :
    Emits c (added ++ added') e where
  segmentsOut_eq := by
    rw [h'.segmentsOut_eq, h.segmentsOut_eq, List.append_assoc]
  stamped := by
    have hr := h'.stamped
    rw [h.receiver_eq] at hr
    intro seg hseg
    exact (List.mem_append.mp hseg).elim (h.stamped seg) (hr seg)
  isn_eq := h'.isn_eq.trans h.isn_eq
  tiles := by
    have ht := h'.tiles
    rw [h.isn_eq] at ht
    exact Tiles.append_iff.mpr ⟨_, h.tiles, ht⟩
  receiver_eq := h'.receiver_eq.trans h.receiver_eq

/-- No segment that is emitted is bare. -/
theorem Emits.length_pos {c d : TCPConnection} (h : Emits c added d) (hseg : seg ∈ added) :
    0 < seg.lengthInSequenceSpace := by
  obtain ⟨a, ha⟩ := h.tiles.exists_start hseg
  exact ha.2.1

/-- The stamp leaves the numbers alone. -/
theorem tiles_map_stamp (r : TCPReceiver)
    (h : Tiles lengthInSequenceSpace (Numbered isn) a segs b) :
    Tiles lengthInSequenceSpace (Numbered isn) a (segs.map (stamp r)) b := by
  induction segs generalizing a with
  | nil => exact h
  | cons seg segs ih =>
      rw [Tiles.cons_iff] at h
      rw [List.map_cons, Tiles.cons_iff, stamp_lengthInSequenceSpace]
      refine ⟨?_, ih h.2⟩
      have hseg := h.1
      simpa [Numbered] using hseg

/-- Flushing what the sender has queued. -/
theorem emits_flush {c : TCPConnection} (hc : c.sender.segmentsOut = [])
    (h : Queues c.sender segs s) :
    Emits c (segs.map (stamp c.receiver)) { c with sender := s }.sendSegmentsOut.2 where
  segmentsOut_eq := by
    rw [sendSegmentsOut, h.segmentsOut_eq, hc, List.nil_append]
  stamped := by
    intro seg hseg
    obtain ⟨bare, -, rfl⟩ := List.mem_map.mp hseg
    exact ⟨bare, rfl⟩
  isn_eq := h.isn_eq
  tiles := tiles_map_stamp _ h.tiles
  receiver_eq := rfl

/-- What an acknowledgment brings out. -/
theorem takeAck_emits {c : TCPConnection} (hc : c.sender.segmentsOut = []) (seg : TCPSegment) :
    ∃ added, Emits c added (c.takeAck seg) := by
  by_cases hack : seg.header.ack = true
  · rw [takeAck, if_pos hack]
    obtain ⟨segs, hsegs⟩ := TCPSender.absAckReceived_queues c.sender
      (unwrap seg.header.ackno c.sender.isn c.sender.nextSeqno) seg.header.win
    exact ⟨_, emits_flush hc hsegs⟩
  · rw [takeAck, if_neg hack]
    exact ⟨[], .refl c⟩

/-- The empty segment of `reply`. -/
def bareSegment (c : TCPConnection) : TCPSegment :=
  stamp c.receiver { header := { seqno := wrap c.sender.nextSeqno c.sender.isn } }

/-- A segment that asks for an answer gets new data, or the empty segment. -/
theorem reply_emits {c : TCPConnection} (hc : c.sender.segmentsOut = [])
    (hseg : 0 < seg.lengthInSequenceSpace) :
    (∃ added, added ≠ [] ∧ Emits c added (c.reply seg)) ∨
      ((c.reply seg).segmentsOut = c.segmentsOut ++ [bareSegment c] ∧
        (c.reply seg).receiver = c.receiver) := by
  obtain ⟨segs, hsegs⟩ := c.sender.fillWindow_queues
  have hout : c.sender.fillWindow.segmentsOut = segs := by
    rw [hsegs.segmentsOut_eq, hc, List.nil_append]
  have hemit := emits_flush hc hsegs
  cases segs with
  | nil =>
      -- nothing fits: `fill_window` has left the sender as it was
      have hnext : c.sender.nextSeqno = c.sender.fillWindow.nextSeqno := hsegs.tiles
      refine .inr ⟨?_, reply_receiver c seg⟩
      rw [bareSegment, hnext, ← hsegs.isn_eq]
      simp [reply, hseg, sendSegmentsOut, TCPSender.isEmpty, hout, TCPSender.sendEmptySegment]
  | cons first rest =>
      refine .inl ⟨(first :: rest).map (stamp c.receiver), by simp, ?_⟩
      rw [reply, if_pos hseg]
      simpa [sendSegmentsOut, TCPSender.isEmpty, hout] using hemit

/-! ## The answer as a whole -/

/-- What `segment_received` owes a segment that is not a RST, `added` being what it
has put on the queue. -/
structure Answers (c : TCPConnection) (seg : TCPSegment) (added : List TCPSegment)
    (d : TCPConnection) : Prop where
  segmentsOut_eq : d.segmentsOut = c.segmentsOut ++ added
  /-- Everything carries the acknowledgment number, if there is one by now. -/
  ackno_eq : ∀ ackno, d.receiver.ackno = some ackno →
    ∀ x ∈ added, x.header.ack = true ∧ x.header.ackno = ackno
  /-- A segment with sequence numbers is answered. -/
  answered : 0 < seg.lengthInSequenceSpace → added ≠ []
  /-- One without brings out first transmissions only. -/
  fresh : seg.lengthInSequenceSpace = 0 →
    Tiles lengthInSequenceSpace (Numbered c.sender.isn) c.sender.nextSeqno added
      d.sender.nextSeqno
  /-- At most one segment is bare, and only as an answer. -/
  bare_le : added.countP (fun x => x.lengthInSequenceSpace = 0) ≤
    if 0 < seg.lengthInSequenceSpace then 1 else 0

/-- None of them is bare. -/
theorem Emits.countP_bare {c d : TCPConnection} (h : Emits c added d) :
    added.countP (fun x => x.lengthInSequenceSpace = 0) = 0 := by
  rw [List.countP_eq_zero]
  intro x hx
  have hpos := h.length_pos hx
  simp only [decide_eq_true_eq]
  omega

/-- What is added carries the receiver's number. -/
theorem ackno_of_stamped {r : TCPReceiver} (hack : r.ackno = some ackno)
    (h : ∃ bare, stamp r bare = x) : x.header.ack = true ∧ x.header.ackno = ackno := by
  obtain ⟨bare, rfl⟩ := h
  exact stamp_ackno r bare hack

/-- The answer to a segment that asks for one. -/
theorem answers_of_occupying {c : TCPConnection} (hc : c.sender.segmentsOut = [])
    (hseg : 0 < seg.lengthInSequenceSpace) :
    ∃ added, Answers c seg added ((c.takeAck seg).reply seg) := by
  obtain ⟨acked, hacked⟩ := takeAck_emits hc seg
  rcases reply_emits (takeAck_flushed hc seg) hseg with ⟨filled, hne, hfilled⟩ |
      ⟨hout, hrecv⟩
  · have hall := hacked.trans hfilled
    refine ⟨acked ++ filled, hall.segmentsOut_eq, ?_, ?_, by omega, ?_⟩
    · intro ackno hack x hx
      rw [hall.receiver_eq] at hack
      exact ackno_of_stamped hack (hall.stamped x hx)
    · intro _ hnil
      exact hne (List.append_eq_nil_iff.mp hnil).2
    · rw [hall.countP_bare]
      exact Nat.zero_le _
  · refine ⟨acked ++ [bareSegment (c.takeAck seg)], ?_, ?_, by simp, by omega, ?_⟩
    · rw [hout, hacked.segmentsOut_eq, List.append_assoc]
    · intro ackno hack x hx
      rw [hrecv, hacked.receiver_eq] at hack
      refine ackno_of_stamped hack ?_
      rcases List.mem_append.mp hx with hx' | hx'
      · exact hacked.stamped x hx'
      · rw [List.mem_singleton.mp hx', bareSegment, hacked.receiver_eq]
        exact ⟨_, rfl⟩
    · rw [List.countP_append, hacked.countP_bare, if_pos hseg, Nat.zero_add]
      exact List.countP_le_length

/-- The answer to a segment that asks for none. -/
theorem answers_of_bare {c : TCPConnection} (hc : c.sender.segmentsOut = [])
    (hseg : seg.lengthInSequenceSpace = 0) :
    ∃ added, Answers c seg added ((c.takeAck seg).reply seg) := by
  obtain ⟨acked, hacked⟩ := takeAck_emits hc seg
  have hsame : (c.takeAck seg).reply seg = c.takeAck seg := by
    simp [reply, hseg]
  rw [hsame]
  refine ⟨acked, hacked.segmentsOut_eq, ?_, by omega, fun _ => hacked.tiles, ?_⟩
  · intro ackno hack x hx
    rw [hacked.receiver_eq] at hack
    exact ackno_of_stamped hack (hacked.stamped x hx)
  · rw [hacked.countP_bare]
    exact Nat.zero_le _

/-- **A call that returns answers as it should.** -/
theorem segmentReceived_answers {c d : TCPConnection} (hc : c.sender.segmentsOut = [])
    (hrst : seg.header.rst = false) (h : segmentReceived fuel c seg = some d) :
    ∃ added, Answers c seg added d := by
  rcases segmentReceived_cases h with ⟨hr, -⟩ | ⟨-, r, -, rfl⟩
  · rw [hrst] at hr
    contradiction
  -- the receiver has the segment; what follows starts from the same queue and sender
  obtain ⟨c₁, hc₁, hsender, hqueue, -, -⟩ := c.noteInboundEnded_spec r
  have hanswer : ∃ added, Answers c₁ seg added ((c₁.takeAck seg).reply seg) := by
    rw [← hsender] at hc
    rcases Nat.eq_zero_or_pos seg.lengthInSequenceSpace with hseg | hseg
    · exact answers_of_bare hc hseg
    · exact answers_of_occupying hc hseg
  obtain ⟨added, hadded⟩ := hanswer
  rw [hc₁]
  exact ⟨added, hqueue ▸ hadded.segmentsOut_eq, hadded.ackno_eq, hadded.answered,
    hsender ▸ hadded.fresh, hadded.bare_le⟩

/-! ## Runs -/

/-- A connection with two counts: the bare segments it has put on its queue from
`segment_received`, and the segments with sequence numbers it has received. -/
structure Tally where
  conn : TCPConnection
  bare : Nat
  occupying : Nat

namespace Tally

def new (cfg : TCPConfig) (random : UInt32) : Tally := ⟨TCPConnection.new cfg random, 0, 0⟩

def step (fuel : Nat) (t : Tally) (op : Op) : Option Tally :=
  match t.conn.step fuel op with
  | none => none
  | some d =>
      match op with
      | .segmentReceived seg =>
          let added := d.segmentsOut.drop t.conn.segmentsOut.length
          some {
            conn := d
            bare := t.bare + added.countP fun x => x.lengthInSequenceSpace = 0
            occupying := t.occupying + if 0 < seg.lengthInSequenceSpace then 1 else 0 }
      | _ => some { t with conn := d }

/-- What holds between the operations of a counted run. -/
structure Balanced (t : Tally) : Prop where
  flushed : t.conn.sender.segmentsOut = []
  sorted : SortedByIndex t.conn.receiver.reassembler.storage
  bare_le : t.bare ≤ t.occupying

/-- At first nothing is counted. -/
theorem balanced_new (cfg : TCPConfig) (x : UInt32) : (new cfg x).Balanced :=
  ⟨rfl, List.Pairwise.nil, Nat.le_refl _⟩

/-- Only a received segment touches the reassembler's store. -/
theorem sorted_micro {c d : TCPConnection} {op : Op}
    (hs : SortedByIndex c.receiver.reassembler.storage) (h : Micro fuel r₀ op c d) :
    SortedByIndex d.receiver.reassembler.storage := by
  cases h with
  | receive seg _ r _ _ hr => exact TCPReceiver.segmentReceived_sorted hs hr
  | _ => exact hs

/-- A RST is not answered at all. -/
theorem segmentsOut_of_rst {c d : TCPConnection} (hrst : seg.header.rst = true)
    (h : segmentReceived fuel c seg = some d) : d.segmentsOut = c.segmentsOut := by
  rcases segmentReceived_cases h with ⟨-, rfl⟩ | ⟨hr, -⟩
  · rfl
  · rw [hrst] at hr
    contradiction

/-- **Each operation** keeps the counts in balance. -/
theorem Balanced.of_step {t t' : Tally} {op : Op} (ht : Balanced t)
    (h : t.step fuel op = some t') : Balanced t' := by
  unfold step at h
  cases hd : t.conn.step fuel op with
  | none => simp [hd] at h
  | some d =>
      have hflushed := step_flushed ht.flushed hd
      have hsorted : SortedByIndex d.receiver.reassembler.storage :=
        step_preserves (P := fun c => SortedByIndex c.receiver.reassembler.storage) ht.sorted
          (fun _ _ => sorted_micro) hd
      simp only [hd] at h
      cases op with
      | segmentReceived seg =>
          rw [Option.some.injEq] at h
          subst h
          refine ⟨hflushed, hsorted, ?_⟩
          have hbare := ht.bare_le
          cases hrst : seg.header.rst with
          | true =>
              simp only [segmentsOut_of_rst hrst hd, List.drop_length, List.countP_nil]
              omega
          | false =>
              obtain ⟨added, hadded⟩ := segmentReceived_answers ht.flushed hrst hd
              have hle := hadded.bare_le
              simp only [hadded.segmentsOut_eq, List.drop_left]
              omega
      | _ =>
          rw [Option.some.injEq] at h
          subst h
          exact ⟨hflushed, hsorted, ht.bare_le⟩

end Tally

/-- **Every run** keeps the balance. -/
theorem Tally.exec_balanced {conf : TCPConfig}
    (h : exec (Tally.step fuel) (Tally.new conf x) ops = some t) : t.Balanced :=
  exec_invariant (fun _ _ _ => Tally.Balanced.of_step) (Tally.balanced_new conf x) h

/-- On a sorted store, a segment without RST is never done exactly when the
receiver's push hangs. -/
theorem segmentReceived_eq_none_iff {c : TCPConnection} (hrst : seg.header.rst = false)
    (hs : SortedByIndex c.receiver.reassembler.storage) :
    (∀ fuel, c.segmentReceived fuel seg = none) ↔ c.receiver.Hangs seg := by
  rw [← TCPReceiver.segmentReceived_eq_none_iff hs]
  refine forall_congr' fun fuel => ?_
  simp only [segmentReceived, hrst, Bool.false_eq_true, ↓reduceIte]
  cases c.receiver.segmentReceived fuel seg <;> simp

/-- **Every segment is answered as it should**, exactly as far as the receiver's push
returns: in every state that operations lead to, a segment without RST comes
back with the answer it is owed if and only if it does not hang.  And the bare
segments sent from `segment_received` so far are no more than the segments with
sequence numbers received so far. -/
theorem answers_iff_not_hangs {conf : TCPConfig}
    (h : exec (Tally.step fuel) (Tally.new conf x) ops = some t) :
    t.bare ≤ t.occupying ∧
      ∀ seg : TCPSegment, seg.header.rst = false →
        ((∃ n d added, t.conn.segmentReceived n seg = some d ∧ Answers t.conn seg added d) ↔
          ¬ t.conn.receiver.Hangs seg) := by
  have ht := Tally.exec_balanced h
  refine ⟨ht.bare_le, fun seg hrst => ?_⟩
  rw [← segmentReceived_eq_none_iff hrst ht.sorted, not_forall]
  constructor
  · rintro ⟨n, d, added, hd, -⟩
    exact ⟨n, by simp [hd]⟩
  · rintro ⟨n, hn⟩
    obtain ⟨d, hd⟩ := Option.ne_none_iff_exists'.mp hn
    obtain ⟨added, hadded⟩ := segmentReceived_answers ht.flushed hrst hd
    exact ⟨n, d, added, hd, hadded⟩

/-- After a SYN that was answered and bytes that came too early, the bytes before them are
answered as well. -/
theorem answers_iff_not_hangs_data :
    ∃ t, exec (Tally.step 9) (Tally.new {} 7)
        [.segmentReceived { header := { syn := true } },
          .segmentReceived { header := { seqno := ⟨3⟩ }, payload := [99, 100] }] = some t ∧
      t.occupying = 2 ∧ t.bare ≤ 2 ∧ t.conn.receiver.ackno = some ⟨1⟩ ∧
      ∃ n d added, t.conn.segmentReceived n
          { header := { seqno := ⟨1⟩ }, payload := [97, 98] } = some d ∧
        Answers t.conn { header := { seqno := ⟨1⟩ }, payload := [97, 98] } added d :=
  have hrun : exec (Tally.step 9) (Tally.new {} 7)
      [.segmentReceived { header := { syn := true } },
        .segmentReceived { header := { seqno := ⟨3⟩ }, payload := [99, 100] }] = some _ := rfl
  have hanswers := answers_iff_not_hangs hrun
  ⟨_, hrun, rfl, hanswers.1, rfl, (hanswers.2 _ rfl).mpr (by decide)⟩

/-- After the SYN and the bytes `"abcde"` from number 11 on, `"abc"` with the same
number is never answered. -/
theorem segmentReceived_hangs_shorter :
    ∃ t, exec (Tally.step 9) (Tally.new {} 7)
        [.segmentReceived { header := { syn := true } },
          .segmentReceived { header := { seqno := ⟨11⟩ }, payload := [97, 98, 99, 100, 101] }] =
        some t ∧
      ∀ fuel, t.conn.segmentReceived fuel
        { header := { seqno := ⟨11⟩ }, payload := [97, 98, 99] } = none :=
  have hrun : exec (Tally.step 9) (Tally.new {} 7)
      [.segmentReceived { header := { syn := true } },
        .segmentReceived { header := { seqno := ⟨11⟩ }, payload := [97, 98, 99, 100, 101] }] =
      some _ := rfl
  ⟨_, hrun, (segmentReceived_eq_none_iff rfl (Tally.exec_balanced hrun).sorted).mpr (by decide)⟩

end TCPConnection

end Sponge
