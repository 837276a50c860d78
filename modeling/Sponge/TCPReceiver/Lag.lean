import Sponge.StreamReassembler.Return
import Sponge.TCPReceiver.Ackno

/-!
# Sponge.TCPReceiver.Lag

What the receiver has consumed, it acknowledges: the counterpart of
`Sponge.TCPReceiver.Ackno`.

`segment_received` moves `abs_seqno` only for a segment that starts exactly
there.  One that starts before or behind it can still add to the stream, by new
bytes behind an overlap or by what it sets free in the store, and then `abs_seqno`
stays behind (`Lags`).  Where it was exact before, that is just what happens
(`absSeqno_lt_of_lags`).
-/

namespace Sponge

namespace StreamReassembler

/-- The push writes bytes, or ends an input that has not ended. -/
def AddsAt (ended : Bool) (next _room : Nat) (d : Datagram) (_ : List Datagram) : Prop :=
  d.index ≤ next ∧ (d.fresh next ≠ [] ∨ (d.eof = true ∧ ended = false))

instance (ended : Bool) (next room : Nat) (d : Datagram) (l : List Datagram) :
    Decidable (AddsAt ended next room d l) :=
  inferInstanceAs (Decidable (_ ∧ _))

/-- The call adds to the output. -/
def Adds (r : StreamReassembler) (d : Datagram) : Prop :=
  r.CallMakes (AddsAt r.output.inputEnded) d

instance (r : StreamReassembler) (d : Datagram) : Decidable (r.Adds d) :=
  inferInstanceAs (Decidable (CallMakes ..))

section adds

variable {r r' : StreamReassembler} {d : Datagram}

/-- A piece without fresh bytes leaves the output as it is. -/
theorem assemble_output_of_nil (h : d.fresh r.nextAssemblingIndex = []) :
    (r.assemble d.data d.index d.eof).1.output = r.output := by
  rw [assemble_output, Datagram.ofData_self, h]
  simp [ByteStream.write]

/-- Without a new end, the stream stays as it is. -/
theorem finish_output_of_not (h : eof = true → r.output.inputEnded = true) (ex : Bool) :
    (r.finish eof ex).output = r.output := by
  unfold finish
  split
  · next hc =>
      rw [Bool.and_eq_true] at hc
      simp only [ByteStream.endInput, ← h hc.1]
  · rfl

theorem popFront_assemble_inputEnded (r : StreamReassembler) (d front : Datagram)
    (rest : List Datagram) :
    ((r.assemble d.data d.index d.eof).1.popFront front rest).output.inputEnded =
      r.output.inputEnded := by
  simp [popFront]

/-- A call that adds nothing leaves the output as it is. -/
theorem Pushes.output_eq (h : Pushes r d r') (hno : ¬ r.Adds d) : r'.output = r.output := by
  induction h with
  | refuse => rfl
  | store _ _ hmm => exact (missingMiddleHandler_frame hmm).1
  | @take r d href hle =>
      have hown := not_own_of_not_callMakes hno href
      simp only [AddsAt, hle, true_and, not_or, not_not, not_and, Bool.not_eq_false] at hown
      have hmid := assemble_output_of_nil hown.1
      rw [finish_output_of_not (by rw [hmid]; exact hown.2), hmid]
  | @drain r r' d front rest href hle hdata hst hgap hrec ih =>
      have hown := not_own_of_not_callMakes hno href
      have hfront := not_callMakes_front hno href hle hdata hst hgap
      simp only [AddsAt, hle, true_and, not_or, not_not, not_and, Bool.not_eq_false] at hown
      have hmid := assemble_output_of_nil hown.1
      have hrest : r'.output = r.output := by
        refine (ih ?_).trans hmid
        rw [Adds, popFront_assemble_inputEnded]
        exact hfront
      rw [finish_output_of_not (by rw [hrest]; exact hown.2), hrest]

/-- A push that adds writes a byte or ends the input. -/
theorem grows_of_addsAt (h : Pushes r d r') (href : ¬ r.Refuses d.index)
    (hadd : AddsAt r.output.inputEnded r.nextAssemblingIndex r.output.remainingCapacity d
      r.storage) :
    r.output.bytesWritten < r'.output.bytesWritten ∨
      (r.output.inputEnded = false ∧ r'.output.inputEnded = true) := by
  obtain ⟨hle, hadd⟩ := hadd
  by_cases hfresh : d.fresh r.nextAssemblingIndex = []
  · obtain ⟨heof, hopen⟩ := hadd.resolve_left (not_not.mpr hfresh)
    refine .inr ⟨hopen, h.inputEnded_of_eof href hle heof ?_⟩
    rw [← Bool.not_eq_true, assemble_snd_eq_true]
    rintro ⟨hne, htail, -⟩
    -- an overlap that exceeds would have fresh bytes
    rw [Datagram.ofData_self] at htail
    rw [Datagram.fresh, if_neg hne, if_pos htail, List.drop_eq_nil_iff, ← d.size_eq] at hfresh
    have := d.tail_le
    omega
  · have hroom := ((r.not_refuses_iff d.index).mp href).1
    have hmid : r.output.bytesWritten <
        (r.assemble d.data d.index d.eof).1.output.bytesWritten := by
      rw [assemble_output, ByteStream.write_bytesWritten, Datagram.ofData_self]
      have := List.length_pos_iff.mpr hfresh
      omega
    refine .inl ?_
    cases h with
    | refuse hc => contradiction
    | store _ hgt => omega
    | take =>
        rw [finish_bytesWritten]
        exact hmid
    | drain _ _ _ _ _ hrec =>
        rw [finish_bytesWritten]
        exact Nat.lt_of_lt_of_le hmid hrec.output_extends.bytesWritten_le

/-- A call that adds writes a byte or ends the input. -/
theorem Pushes.grows (h : Pushes r d r') (hadd : r.Adds d) :
    r.output.bytesWritten < r'.output.bytesWritten ∨
      (r.output.inputEnded = false ∧ r'.output.inputEnded = true) := by
  have hcall := h
  induction h with
  | refuse href => exact absurd hadd (not_callMakes_of_refuses href)
  | store href hgt =>
      rcases (callMakes_iff href).mp hadd with hown | ⟨_, _, _, hle, _⟩
      · exact grows_of_addsAt hcall href hown
      · omega
  | take href hle hstop =>
      refine grows_of_addsAt hcall href (((callMakes_iff href).mp hadd).resolve_right ?_)
      rintro ⟨front, rest, hst, -, hdata, hgap, -⟩
      rcases hstop with hnil | hnil | hlt
      · rw [hnil] at hst
        contradiction
      · exact hdata hnil
      · omega
  | @drain r r' d front rest href hle hdata hst hgap hrec ih =>
      rcases (callMakes_iff href).mp hadd with hown | ⟨_, _, heq, _, _, _, hfront⟩
      · exact grows_of_addsAt hcall href hown
      obtain ⟨rfl, rfl⟩ := List.cons.inj (hst.symm.trans heq)
      have hmid := r.assemble_extends d.data d.index d.eof
      have hended := r.popFront_assemble_inputEnded d front rest
      have hend := finish_extends r' d.eof (r.assemble d.data d.index d.eof).2
      refine (ih (by rw [Adds, hended]; exact hfront) hrec).imp (fun hlt => ?_) fun hopen => ?_
      · rw [finish_bytesWritten]
        exact Nat.lt_of_le_of_lt hmid.bytesWritten_le hlt
      · exact ⟨hended ▸ hopen.1, hend.inputEnded_mono hopen.2⟩

/-- A push without data writes nothing. -/
theorem Pushes.bytesWritten_of_nil (h : Pushes r d r') (hnil : d.data = []) :
    r'.output.bytesWritten = r.output.bytesWritten := by
  cases h with
  | refuse => rfl
  | store _ _ hmm => rw [(missingMiddleHandler_frame hmm).1]
  | take => rw [finish_bytesWritten, assemble_output_of_nil (Datagram.fresh_of_nil hnil _)]
  | drain _ _ hdata => contradiction

end adds

end StreamReassembler

namespace TCPReceiver

/-- The segment does not start at `abs_seqno` and adds to the stream all the same. -/
def Lags (r : TCPReceiver) (seg : TCPSegment) : Prop :=
  let t := (r.listen seg).tempAbsSeqno seg
  r.Takes seg ∧ t ≠ r.absSeqno ∧
    r.reassembler.Adds (Datagram.ofData seg.payload (streamIndex t) seg.header.fin)

instance (r : TCPReceiver) (seg : TCPSegment) : Decidable (r.Lags seg) :=
  inferInstanceAs (Decidable (_ ∧ _ ∧ _))

def Op.Lags (r : TCPReceiver) : Op → Prop
  | .segment seg => r.Lags seg
  | .read _ => False

instance (r : TCPReceiver) : (op : Op) → Decidable (op.Lags r)
  | .segment seg => inferInstanceAs (Decidable (r.Lags seg))
  | .read _ => inferInstanceAs (Decidable False)

/-! ## The invariant -/

/-- What is consumed has been acknowledged. -/
structure AcksWritten (r : TCPReceiver) : Prop where
  fresh : r.firstSegment = true →
    r.absSeqno = 0 ∧ r.streamOut.bytesWritten = 0 ∧ r.streamOut.inputEnded = false
  written_le : r.firstSegment = false →
    1 + r.streamOut.bytesWritten + r.streamOut.inputEnded.toNat ≤ r.absSeqno

/-- At first nothing is acknowledged. -/
theorem acksWritten_new (cap : Nat) : (new cap).AcksWritten :=
  ⟨fun _ => ⟨rfl, rfl, rfl⟩, by simp [new]⟩

section step

variable {r r' : TCPReceiver} {reassembler : StreamReassembler}

/-- The first SYN starts at 0. -/
theorem tempAbsSeqno_of_first (hfirst : r.firstSegment = true) (habs : r.absSeqno = 0)
    (hsyn : seg.header.syn = true) : (r.listen seg).tempAbsSeqno seg = 0 := by
  have hunwrap := unwrap_wrap_of_near (v := 0) (c := 0) seg.header.seqno (by decide) (by decide)
    (by decide)
  rw [wrap_zero] at hunwrap
  simp only [listen, hfirst, hsyn, Bool.and_self, ↓reduceIte, tempAbsSeqno, habs]
  exact hunwrap

/-- A segment that does not start at `abs_seqno` is not the first. -/
theorem AcksWritten.not_first (hr : r.AcksWritten)
    (hsyn : r.firstSegment = true → seg.header.syn = true)
    (ht : (r.listen seg).tempAbsSeqno seg ≠ r.absSeqno) : r.firstSegment = false := by
  rw [← Bool.not_eq_true]
  intro hfirst
  have habs := (hr.fresh hfirst).1
  exact ht ((tempAbsSeqno_of_first hfirst habs (hsyn hfirst)).trans habs.symm)

/-- **One segment**: after the push, `abs_seqno` covers what has been consumed. -/
theorem le_acknowledge_absSeqno (hr : r.AcksWritten)
    (hsyn : r.firstSegment = true → seg.header.syn = true)
    (hnew : ¬ (r.absSeqno = 1 ∧ (r.listen seg).tempAbsSeqno seg < 1)) (hok : ¬ r.Lags seg)
    (hpush : StreamReassembler.pushSubstring fuel r.reassembler seg.payload
      (streamIndex ((r.listen seg).tempAbsSeqno seg)) seg.header.fin = some reassembler) :
    1 + reassembler.output.bytesWritten + reassembler.output.inputEnded.toNat ≤
      ({ r.listen seg with reassembler := reassembler }.acknowledge
        ((r.listen seg).tempAbsSeqno seg) seg).absSeqno := by
  have hpushes := StreamReassembler.pushSubstring_pushes hpush
  rcases acknowledge_absSeqno_cases { r.listen seg with reassembler := reassembler }
      ((r.listen seg).tempAbsSeqno seg) seg with ⟨ht, heq⟩ | ⟨ht, n, hn, heq⟩
  · -- `abs_seqno` stays, and so does the stream
    rw [listen_absSeqno] at ht
    rw [heq, listen_absSeqno, hpushes.output_eq fun hadd => hok ⟨⟨hsyn, hnew⟩, ht, hadd⟩]
    exact hr.written_le (hr.not_first hsyn ht)
  rw [listen_absSeqno] at ht
  simp only [streamOut, ht] at heq hn
  rw [ht, heq]
  have hmono : reassembler.output.inputEnded.toNat ≤
      (seg.header.fin || reassembler.output.inputEnded).toNat :=
    Bool.toNat_le_toNat fun h => by rw [h, Bool.or_true]
  rcases hn with ⟨-, rfl⟩ | ⟨hnil, h0, rfl⟩ | ⟨hnil, h0, rfl⟩
  · omega
  · -- only the first SYN finds `abs_seqno` at 0, and the stream empty
    have hwritten : r.streamOut.bytesWritten = 0 := by
      cases hfirst : r.firstSegment with
      | true => exact (hr.fresh hfirst).2.1
      | false =>
          have := hr.written_le hfirst
          omega
    have hsame := hpushes.bytesWritten_of_nil hnil
    simp only [streamOut] at hwritten
    omega
  · have hsame := hpushes.bytesWritten_of_nil hnil
    have hle := hr.written_le (by
      rw [← Bool.not_eq_true]
      exact fun hfirst => h0 (hr.fresh hfirst).1)
    simp only [streamOut] at hle
    omega

/-- A segment that is acknowledged as it should be keeps the number up to date. -/
theorem AcksWritten.segmentReceived (hr : r.AcksWritten) (hok : ¬ r.Lags seg)
    (h : r.segmentReceived fuel seg = some r') : r'.AcksWritten := by
  rcases segmentReceived_cases h with ⟨-, -, rfl⟩ | ⟨hsyn, habs, -, rfl⟩ |
      ⟨reassembler, hsyn, hnew, hpush, rfl⟩
  · exact hr
  · refine ⟨fun hf => ?_, fun _ => ?_⟩
    · rw [listen_firstSegment hsyn] at hf
      contradiction
    · rw [listen_absSeqno] at habs
      rw [listen_streamOut, listen_absSeqno]
      refine hr.written_le (Bool.eq_false_iff.mpr fun hfirst => ?_)
      have := (hr.fresh hfirst).1
      omega
  · refine ⟨fun hf => ?_, fun _ => ?_⟩
    · rw [acknowledge_firstSegment] at hf
      simp [listen_firstSegment hsyn] at hf
    · rw [acknowledge_streamOut]
      rw [listen_absSeqno] at hnew
      exact le_acknowledge_absSeqno hr hsyn hnew hok hpush

/-- A read does not move the number. -/
theorem AcksWritten.readOut (hr : r.AcksWritten) (len : Nat) : (r.readOut len).2.AcksWritten :=
  ⟨fun h => by simpa using hr.fresh h, fun h => by simpa using hr.written_le h⟩

/-- **The condition is exact**: where `abs_seqno` covers just what has been consumed, a
segment that lags leaves it behind. -/
theorem absSeqno_lt_of_lags
    (hexact : r.absSeqno = 1 + r.streamOut.bytesWritten + r.streamOut.inputEnded.toNat)
    (hlags : r.Lags seg) (h : r.segmentReceived fuel seg = some r') :
    r'.absSeqno < 1 + r'.streamOut.bytesWritten + r'.streamOut.inputEnded.toNat := by
  obtain ⟨⟨hsyn, hnew⟩, ht, hadd⟩ := hlags
  rcases segmentReceived_cases h with ⟨hfirst, hno, -⟩ | ⟨-, habs, hlow, -⟩ |
      ⟨reassembler, -, -, hpush, rfl⟩
  · exact absurd (hsyn hfirst) (by simp [hno])
  · rw [listen_absSeqno] at habs
    exact absurd ⟨habs, hlow⟩ hnew
  · have hpushes := StreamReassembler.pushSubstring_pushes hpush
    have hgrow := hpushes.output_extends
    have hmono := Bool.toNat_le_toNat hgrow.inputEnded_mono
    have hstay : ({ r.listen seg with reassembler := reassembler }.acknowledge
        ((r.listen seg).tempAbsSeqno seg) seg).absSeqno = r.absSeqno := by
      rw [acknowledge, if_pos (by simpa using ht)]
      exact r.listen_absSeqno seg
    rw [hstay, acknowledge_streamOut, hexact]
    have hwritten := hgrow.bytesWritten_le
    simp only [streamOut]
    rcases hpushes.grows hadd with hlt | ⟨hopen, hended⟩
    · omega
    · rw [hopen, hended, Bool.toNat_false, Bool.toNat_true]
      omega

end step

/-! ## Runs -/

/-- **What is consumed is acknowledged**: in every run of segments and reads in which no
segment lags, once a SYN has been received `abs_seqno` covers the SYN, every byte
written and the FIN of a stream that has ended. -/
theorem consumed_le_absSeqno
    (hok : Along (step fuel) (fun r op => ¬ op.Lags r) (new cap) ops)
    (h : exec (step fuel) (new cap) ops = some r) (hsyn : r.firstSegment = false) :
    1 + r.streamOut.bytesWritten + r.streamOut.inputEnded.toNat ≤ r.absSeqno := by
  refine (exec_invariant_along (P := AcksWritten) ?_ (acksWritten_new cap) hok h).written_le hsyn
  intro r op r' hr hop hstep
  cases op with
  | segment seg => exact hr.segmentReceived hop hstep
  | read len =>
      rw [step, Option.some.injEq] at hstep
      exact hstep ▸ hr.readOut len

/-- SYN, `"b"` with FIN ahead of its turn, then `"a"`, and the FIN once more. -/
theorem consumed_le_absSeqno_hole :
    ∃ r, exec (step 9) (new 4)
        [.segment { header := { seqno := ⟨7⟩, syn := true } },
          .segment { header := { seqno := ⟨9⟩, fin := true }, payload := [98] },
          .segment { header := { seqno := ⟨8⟩ }, payload := [97] }, .read 1,
          .segment { header := { seqno := ⟨9⟩, fin := true }, payload := [98] }] = some r ∧
      r.absSeqno = 4 ∧
      1 + r.streamOut.bytesWritten + r.streamOut.inputEnded.toNat ≤ r.absSeqno :=
  have hrun : exec (step 9) (new 4)
      [.segment { header := { seqno := ⟨7⟩, syn := true } },
        .segment { header := { seqno := ⟨9⟩, fin := true }, payload := [98] },
        .segment { header := { seqno := ⟨8⟩ }, payload := [97] }, .read 1,
        .segment { header := { seqno := ⟨9⟩, fin := true }, payload := [98] }] = some _ := rfl
  ⟨_, hrun, rfl, consumed_le_absSeqno (by decide) hrun rfl⟩

/-- After `"ab"`, the longer `"abc"` from the same place is delivered and not
acknowledged; and so is a FIN that comes with a repetition. -/
theorem absSeqno_lags_behind :
    (∃ r, exec (step 9) (new 4)
        [.segment { header := { seqno := ⟨0⟩, syn := true } },
          .segment { header := { seqno := ⟨1⟩ }, payload := [97, 98] },
          .segment { header := { seqno := ⟨1⟩ }, payload := [97, 98, 99] }] = some r ∧
      r.firstSegment = false ∧
      ¬ 1 + r.streamOut.bytesWritten + r.streamOut.inputEnded.toNat ≤ r.absSeqno) ∧
    (∃ r, exec (step 9) (new 4)
        [.segment { header := { seqno := ⟨0⟩, syn := true } },
          .segment { header := { seqno := ⟨1⟩ }, payload := [97, 98] },
          .segment { header := { seqno := ⟨2⟩, fin := true }, payload := [98] }] = some r ∧
      r.firstSegment = false ∧
      ¬ 1 + r.streamOut.bytesWritten + r.streamOut.inputEnded.toNat ≤ r.absSeqno) :=
  ⟨⟨_, rfl, rfl, by decide⟩, ⟨_, rfl, rfl, by decide⟩⟩

end TCPReceiver

end Sponge
