import Sponge.Lib.Run
import Sponge.TCPReceiver

/-!
# Sponge.TCPReceiver.Ackno

What the receiver acknowledges, it has consumed: `abs_seqno` stays within the
SYN, the bytes written to the stream and, once the stream has ended, the FIN.

`abs_seqno` is a counter of its own, set in one branch of `segment_received`
and incremented in two others, and it can run ahead in two ways (`Overacks`).
Each segment without payload that starts at `abs_seqno` increments it once
the stream has ended, a bare ACK after the FIN included; and a FIN counts as
received even when the reassembler has dropped it.
-/

namespace Sponge

namespace StreamReassembler

/-- An overlapping piece leaves the next index ahead of the bytes written, so that
`push_substring` does not end the input. -/
def Exceeds (r : StreamReassembler) (data : List UInt8) (index : Nat) : Prop :=
  index ≠ r.nextAssemblingIndex ∧
  r.nextAssemblingIndex < (index + data.length) % 2 ^ 64 ∧
  r.output.bytesWritten +
      min (data.length - (r.nextAssemblingIndex - index)) r.output.remainingCapacity <
    r.nextAssemblingIndex + (data.length - (r.nextAssemblingIndex - index))

instance (r : StreamReassembler) (data : List UInt8) (index : Nat) :
    Decidable (r.Exceeds data index) :=
  inferInstanceAs (Decidable (_ ∧ _ ∧ _))

/-- `Exceeds` is the `data_exceeded` of the code. -/
theorem exceeds_iff (r : StreamReassembler) (data : List UInt8) (index : Nat) (eof : Bool) :
    (r.assemble data index eof).2 = true ↔ r.Exceeds data index := by
  have htail : (Datagram.ofData data index eof).tail = (index + data.length) % 2 ^ 64 := rfl
  rw [assemble_snd_eq_true, htail, Exceeds]
  refine and_congr_right fun hne => and_congr_right fun hlt => ?_
  have hfresh : ((Datagram.ofData data index eof).fresh r.nextAssemblingIndex).length =
      data.length - (r.nextAssemblingIndex - index) := by
    rw [Datagram.fresh, Datagram.ofData_index, if_neg hne, htail, if_pos hlt, List.length_drop,
      Datagram.ofData_data]
  rw [assemble_output, assemble_nextAssemblingIndex, ByteStream.write_bytesWritten,
    Datagram.nextAfter, Datagram.ofData_index, if_neg hne, hfresh]

end StreamReassembler

namespace TCPReceiver

/-- The segment makes `abs_seqno` count something the stream has not got: it
starts at `abs_seqno`, and either it has no payload and the FIN is counted
already, or it has a FIN that the reassembler drops. -/
def Overacks (r : TCPReceiver) (seg : TCPSegment) : Prop :=
  let t := (r.listen seg).tempAbsSeqno seg
  let out := r.streamOut
  (r.firstSegment = true → seg.header.syn = true) ∧ t = r.absSeqno ∧
  ((seg.payload = [] ∧ t ≠ 0 ∧ out.inputEnded = true ∧ out.bytesWritten + 1 < r.absSeqno) ∨
    (seg.header.fin = true ∧ out.inputEnded = false ∧
      (seg.payload = [] → t = 0 ∨ out.bytesWritten < r.absSeqno) ∧
      (r.reassembler.Refuses (streamIndex t) ∨
        r.reassembler.Exceeds seg.payload (streamIndex t))))

instance (r : TCPReceiver) (seg : TCPSegment) : Decidable (r.Overacks seg) :=
  inferInstanceAs (Decidable (_ ∧ _ ∧ _))

/-- A read never acknowledges too much. -/
def Op.Overacks (r : TCPReceiver) : Op → Prop
  | .segment seg => r.Overacks seg
  | .read _ => False

instance (r : TCPReceiver) : (op : Op) → Decidable (op.Overacks r)
  | .segment seg => inferInstanceAs (Decidable (r.Overacks seg))
  | .read _ => inferInstanceAs (Decidable False)

/-! ## The invariant -/

/-- What is acknowledged has been consumed. -/
structure AcksConsumed (r : TCPReceiver) : Prop where
  fresh : r.firstSegment = true → r.absSeqno = 0
  absSeqno_le : r.absSeqno ≤ 1 + r.streamOut.bytesWritten + r.streamOut.inputEnded.toNat
  next_ge : r.streamOut.bytesWritten ≤ r.reassembler.nextAssemblingIndex

section step

variable {r : TCPReceiver} {reassembler : StreamReassembler}

/-- A FIN that starts at `abs_seqno` ends the stream, unless it overacks. -/
theorem inputEnded_of_fin (hr : r.AcksConsumed)
    (hsyn : r.firstSegment = true → seg.header.syn = true) (hok : ¬ r.Overacks seg)
    (hpush : StreamReassembler.pushSubstring fuel r.reassembler seg.payload
      (streamIndex ((r.listen seg).tempAbsSeqno seg)) seg.header.fin = some reassembler)
    (ht : (r.listen seg).tempAbsSeqno seg = r.absSeqno) (hfin : seg.header.fin = true)
    (hnew : seg.payload = [] → r.absSeqno = 0 ∨ r.streamOut.bytesWritten < r.absSeqno) :
    reassembler.output.inputEnded = true := by
  have hgrow := (StreamReassembler.pushSubstring_pushes hpush).output_extends
  cases hended : r.streamOut.inputEnded with
  | true => exact hgrow.inputEnded_mono hended
  | false =>
      have hle := hr.absSeqno_le
      have hnext := hr.next_ge
      rw [hended, Bool.toNat_false] at hle
      have hdrop : ¬ (r.reassembler.Refuses (streamIndex r.absSeqno) ∨
          r.reassembler.Exceeds seg.payload (streamIndex r.absSeqno)) := fun hc =>
        hok ⟨hsyn, ht, .inr ⟨hfin, hended, by rw [ht]; exact hnew, by rw [ht]; exact hc⟩⟩
      rw [hfin, ht] at hpush
      refine (StreamReassembler.pushSubstring_pushes hpush).inputEnded_of_eof
        (fun hc => hdrop (.inl hc)) ?_ rfl ?_
      · rw [Datagram.ofData_index]
        unfold streamIndex
        split <;> omega
      · rw [← Bool.not_eq_true, StreamReassembler.exceeds_iff]
        exact fun hc => hdrop (.inr hc)

/-- Past the FIN, a segment without payload that does not overack finds it not
yet counted. -/
theorem absSeqno_le_of_nil (hr : r.AcksConsumed)
    (hsyn : r.firstSegment = true → seg.header.syn = true) (hok : ¬ r.Overacks seg)
    (ht : (r.listen seg).tempAbsSeqno seg = r.absSeqno) (hnil : seg.payload = [])
    (h0 : r.absSeqno ≠ 0) : r.absSeqno ≤ 1 + r.streamOut.bytesWritten := by
  cases hended : r.streamOut.inputEnded with
  | true =>
      refine Nat.not_lt.mp fun hc => hok ⟨hsyn, ht, .inl ⟨hnil, by rwa [ht], hended, ?_⟩⟩
      omega
  | false =>
      have hle := hr.absSeqno_le
      rwa [hended, Bool.toNat_false, Nat.add_zero] at hle

/-- **One segment**: after the push, `abs_seqno` moves to something consumed. -/
theorem acknowledge_absSeqno_le (hr : r.AcksConsumed)
    (hsyn : r.firstSegment = true → seg.header.syn = true) (hok : ¬ r.Overacks seg)
    (hpush : StreamReassembler.pushSubstring fuel r.reassembler seg.payload
      (streamIndex ((r.listen seg).tempAbsSeqno seg)) seg.header.fin = some reassembler) :
    ({ r.listen seg with reassembler := reassembler }.acknowledge
      ((r.listen seg).tempAbsSeqno seg) seg).absSeqno ≤
      1 + reassembler.output.bytesWritten + reassembler.output.inputEnded.toNat := by
  have hgrow := (StreamReassembler.pushSubstring_pushes hpush).output_extends
  have hle := hr.absSeqno_le
  have hwritten := hgrow.bytesWritten_le
  have hmono : r.streamOut.inputEnded.toNat ≤ reassembler.output.inputEnded.toNat :=
    Bool.toNat_le_toNat hgrow.inputEnded_mono
  simp only [streamOut] at hle hmono
  rcases acknowledge_absSeqno_cases { r.listen seg with reassembler := reassembler }
      ((r.listen seg).tempAbsSeqno seg) seg with ⟨-, heq⟩ | ⟨ht, n, hn, heq⟩
  · rw [heq, listen_absSeqno]
    omega
  rw [listen_absSeqno] at ht
  simp only [streamOut, ht] at heq hn
  rw [ht, heq]
  have hfin := inputEnded_of_fin hr hsyn hok hpush ht
  -- the last increment counts the FIN of a stream that has ended
  have hbump (hle : n ≤ 1 + reassembler.output.bytesWritten)
      (hnew : seg.payload = [] → r.absSeqno = 0 ∨ r.streamOut.bytesWritten < r.absSeqno) :
      n + (seg.header.fin || reassembler.output.inputEnded).toNat ≤
        1 + reassembler.output.bytesWritten + reassembler.output.inputEnded.toNat := by
    cases hor : seg.header.fin || reassembler.output.inputEnded with
    | true =>
        have hended : reassembler.output.inputEnded = true :=
          (Bool.or_eq_true_iff.mp hor).elim (hfin · hnew) id
        rw [hended, Bool.toNat_true]
        omega
    | false =>
        rw [Bool.toNat_false]
        omega
  rcases hn with ⟨hne, rfl⟩ | ⟨hnil, h0, rfl⟩ | ⟨hnil, h0, rfl⟩
  · exact hbump (by omega) fun hc => absurd hc hne
  · exact hbump (by omega) fun _ => .inl h0
  · have hone := absSeqno_le_of_nil hr hsyn hok ht hnil h0
    simp only [streamOut] at hone
    by_cases hnew : r.streamOut.bytesWritten < r.absSeqno
    · exact hbump (by omega) fun _ => .inr hnew
    · -- bytes written but not yet acknowledged leave room for the increment
      have hbit := (seg.header.fin || reassembler.output.inputEnded).toNat_le
      simp only [streamOut] at hnew
      omega

end step

/-- A segment that does not acknowledge too much keeps the number in bounds. -/
theorem AcksConsumed.segmentReceived {r r' : TCPReceiver} (hr : r.AcksConsumed)
    (hok : ¬ r.Overacks seg) (h : r.segmentReceived fuel seg = some r') : r'.AcksConsumed := by
  rcases segmentReceived_cases h with ⟨-, -, rfl⟩ | ⟨hsyn, habs, -, rfl⟩ |
      ⟨reassembler, hsyn, -, hpush, rfl⟩
  · exact hr
  · refine ⟨?_, ?_, ?_⟩
    · intro hf
      rw [listen_firstSegment hsyn] at hf
      contradiction
    · simpa using hr.absSeqno_le
    · simpa using hr.next_ge
  · refine ⟨?_, ?_, ?_⟩
    · intro hf
      rw [acknowledge_firstSegment] at hf
      simp [listen_firstSegment hsyn] at hf
    · rw [acknowledge_streamOut]
      exact acknowledge_absSeqno_le hr hsyn hok hpush
    · rw [acknowledge_streamOut, acknowledge_reassembler]
      exact (StreamReassembler.pushSubstring_pushes hpush).bytesWritten_le hr.next_ge

/-! ## Runs -/

/-- A read does not move the number. -/
theorem AcksConsumed.readOut {r : TCPReceiver} (hr : r.AcksConsumed) (len : Nat) :
    (r.readOut len).2.AcksConsumed :=
  ⟨hr.fresh, by simpa using hr.absSeqno_le, by simpa using hr.next_ge⟩

end TCPReceiver

end Sponge
