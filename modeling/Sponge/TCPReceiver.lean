import Sponge.StreamReassembler
import Sponge.TCPSegment

/-!
# Sponge.TCPReceiver

The receiving half of a connection (`tcp_receiver.hh`, `tcp_receiver.cc`): it
finds the place of each segment in the stream, hands its payload to the
reassembler and keeps the absolute sequence number to acknowledge.

A call to `segment_received` returns when the push it makes does, so it runs
on the same fuel.
-/

namespace Sponge

/-- The members of the class. -/
structure TCPReceiver where
  reassembler : StreamReassembler
  capacity : Nat
  absSeqno : Nat
  ISN : WrappingInt32
  firstSegment : Bool

namespace TCPReceiver

/-- Nothing has been received. -/
def new (capacity : Nat) : TCPReceiver where
  reassembler := StreamReassembler.new capacity
  capacity := capacity
  absSeqno := 0
  ISN := ⟨0⟩
  firstSegment := true

def streamOut (r : TCPReceiver) : ByteStream := r.reassembler.output

/-- Before the SYN there is nothing to acknowledge. -/
def ackno (r : TCPReceiver) : Option WrappingInt32 :=
  if r.firstSegment then none else some (wrap r.absSeqno r.ISN)

/-- The room that is left, by the capacity of the receiver. -/
def windowSize (r : TCPReceiver) : Nat := r.capacity - r.streamOut.bufferSize

def unassembledBytes (r : TCPReceiver) : Nat := r.reassembler.unassembledBytes

/-- The first SYN fixes the initial sequence number. -/
def listen (r : TCPReceiver) (seg : TCPSegment) : TCPReceiver :=
  if r.firstSegment && seg.header.syn then
    { r with firstSegment := false, ISN := seg.header.seqno }
  else r

/-- `temp_abs_seqno`: where the segment starts, as far as the receiver can tell. -/
def tempAbsSeqno (r : TCPReceiver) (seg : TCPSegment) : Nat :=
  unwrap seg.header.seqno r.ISN r.absSeqno

/-- The place in the stream of the byte at an absolute sequence number. -/
def streamIndex (tempAbsSeqno : Nat) : Nat :=
  if tempAbsSeqno > 0 then tempAbsSeqno - 1 else tempAbsSeqno

/-- The last part of `segment_received`, which moves `abs_seqno` when the segment
started there. -/
def acknowledge (r : TCPReceiver) (tempAbsSeqno : Nat) (seg : TCPSegment) : TCPReceiver :=
  if tempAbsSeqno ≠ r.absSeqno then r
  else
    let absSeqno :=
      if seg.payload.length ≠ 0 then r.streamOut.bytesWritten + 1
      else if tempAbsSeqno = 0 then r.absSeqno + 1
      else r.absSeqno
    { r with absSeqno :=
        if seg.header.fin || r.streamOut.inputEnded then absSeqno + 1 else absSeqno }

/-- Without the SYN, nothing is accepted. -/
def segmentReceived (fuel : Nat) (r : TCPReceiver) (seg : TCPSegment) : Option TCPReceiver :=
  if r.firstSegment && !seg.header.syn then some r
  else
    let r := r.listen seg
    let tempAbsSeqno := r.tempAbsSeqno seg
    if r.absSeqno = 1 ∧ tempAbsSeqno < r.absSeqno then some r
    else
      match r.reassembler.pushSubstring fuel seg.payload (streamIndex tempAbsSeqno)
          seg.header.fin with
      | none => none
      | some reassembler => some ({ r with reassembler := reassembler }.acknowledge tempAbsSeqno seg)

/-- `stream_out().read(len)`. -/
def readOut (r : TCPReceiver) (len : Nat) : List UInt8 × TCPReceiver :=
  ((r.reassembler.readOut len).1, { r with reassembler := (r.reassembler.readOut len).2 })

/-! ## Runs -/

/-- What a run does to a receiver. -/
inductive Op where
  | segment (seg : TCPSegment)
  | read (len : Nat)

def step (fuel : Nat) (r : TCPReceiver) : Op → Option TCPReceiver
  | .segment seg => r.segmentReceived fuel seg
  | .read len => some (r.readOut len).2

/-! ## What one call does -/

@[simp] theorem listen_reassembler (r : TCPReceiver) (seg : TCPSegment) :
    (r.listen seg).reassembler = r.reassembler := by
  unfold listen; split <;> rfl

@[simp] theorem listen_streamOut (r : TCPReceiver) (seg : TCPSegment) :
    (r.listen seg).streamOut = r.streamOut := by
  unfold listen; split <;> rfl

@[simp] theorem listen_absSeqno (r : TCPReceiver) (seg : TCPSegment) :
    (r.listen seg).absSeqno = r.absSeqno := by
  unfold listen; split <;> rfl

@[simp] theorem listen_capacity (r : TCPReceiver) (seg : TCPSegment) :
    (r.listen seg).capacity = r.capacity := by
  unfold listen; split <;> rfl

/-- Once a segment is taken in, the first one is behind. -/
theorem listen_firstSegment {r : TCPReceiver} (h : r.firstSegment = true → seg.header.syn = true) :
    (r.listen seg).firstSegment = false := by
  unfold listen
  split
  · rfl
  · next hn =>
      cases hf : r.firstSegment with
      | false => rfl
      | true => simp [hf, h hf] at hn

@[simp] theorem readOut_streamOut (r : TCPReceiver) (len : Nat) :
    (r.readOut len).2.streamOut = (r.streamOut.read len).2 := rfl

@[simp] theorem readOut_nextAssemblingIndex (r : TCPReceiver) (len : Nat) :
    (r.readOut len).2.reassembler.nextAssemblingIndex = r.reassembler.nextAssemblingIndex := rfl

@[simp] theorem readOut_absSeqno (r : TCPReceiver) (len : Nat) :
    (r.readOut len).2.absSeqno = r.absSeqno := rfl

section acknowledge

variable (r : TCPReceiver) (t : Nat) (seg : TCPSegment)

@[simp] theorem acknowledge_reassembler : (r.acknowledge t seg).reassembler = r.reassembler := by
  unfold acknowledge; split <;> rfl

@[simp] theorem acknowledge_streamOut : (r.acknowledge t seg).streamOut = r.streamOut := by
  unfold acknowledge; split <;> rfl

@[simp] theorem acknowledge_capacity : (r.acknowledge t seg).capacity = r.capacity := by
  unfold acknowledge; split <;> rfl

@[simp] theorem acknowledge_firstSegment :
    (r.acknowledge t seg).firstSegment = r.firstSegment := by
  unfold acknowledge; split <;> rfl

@[simp] theorem acknowledge_ISN : (r.acknowledge t seg).ISN = r.ISN := by
  unfold acknowledge; split <;> rfl

/-- Everything `acknowledge` can do to `abs_seqno`: leave it, or set it behind the
bytes written, behind the SYN or where it was, and count a FIN. -/
theorem acknowledge_absSeqno_cases :
    (t ≠ r.absSeqno ∧ (r.acknowledge t seg).absSeqno = r.absSeqno) ∨
    (t = r.absSeqno ∧ ∃ n,
      ((seg.payload ≠ [] ∧ n = r.streamOut.bytesWritten + 1) ∨
        (seg.payload = [] ∧ t = 0 ∧ n = 1) ∨ (seg.payload = [] ∧ t ≠ 0 ∧ n = t)) ∧
      (r.acknowledge t seg).absSeqno =
        n + (seg.header.fin || r.streamOut.inputEnded).toNat) := by
  by_cases heq : t = r.absSeqno
  · refine .inr ⟨heq, if seg.payload.length ≠ 0 then r.streamOut.bytesWritten + 1
      else if t = 0 then r.absSeqno + 1 else r.absSeqno, ?_, ?_⟩
    · by_cases hnil : seg.payload = []
      · by_cases h0 : t = 0
        · exact .inr (.inl ⟨hnil, h0, by simp [hnil, h0, ← heq]⟩)
        · exact .inr (.inr ⟨hnil, h0, by simp [hnil, h0, ← heq]⟩)
      · exact .inl ⟨hnil, by simp [hnil]⟩
    · rw [acknowledge, if_neg (by simpa using heq)]
      simp only
      cases seg.header.fin || r.streamOut.inputEnded <;> rfl
  · exact .inl ⟨heq, by rw [acknowledge, if_pos heq]⟩

end acknowledge

/-- `segment_received` hands the segment to the reassembler: it does not come before
the SYN, and does not land on it. -/
def Takes (r : TCPReceiver) (seg : TCPSegment) : Prop :=
  (r.firstSegment = true → seg.header.syn = true) ∧
    ¬ (r.absSeqno = 1 ∧ (r.listen seg).tempAbsSeqno seg < 1)

instance (r : TCPReceiver) (seg : TCPSegment) : Decidable (r.Takes seg) :=
  inferInstanceAs (Decidable (_ ∧ _))

/-- Everything `segment_received` can do: ignore a segment before the SYN, ignore
one that would land on the SYN, or push. -/
theorem segmentReceived_cases {r r' : TCPReceiver} (h : r.segmentReceived fuel seg = some r') :
    (r.firstSegment = true ∧ seg.header.syn = false ∧ r = r') ∨
    ((r.firstSegment = true → seg.header.syn = true) ∧
      (r.listen seg).absSeqno = 1 ∧ (r.listen seg).tempAbsSeqno seg < 1 ∧ r.listen seg = r') ∨
    (∃ reassembler, (r.firstSegment = true → seg.header.syn = true) ∧
      ¬ ((r.listen seg).absSeqno = 1 ∧ (r.listen seg).tempAbsSeqno seg < 1) ∧
      StreamReassembler.pushSubstring fuel r.reassembler seg.payload
        (streamIndex ((r.listen seg).tempAbsSeqno seg)) seg.header.fin = some reassembler ∧
      { r.listen seg with reassembler := reassembler }.acknowledge
        ((r.listen seg).tempAbsSeqno seg) seg = r') := by
  unfold segmentReceived at h
  by_cases hearly : (r.firstSegment && !seg.header.syn) = true
  · rw [if_pos hearly, Option.some.injEq] at h
    simp only [Bool.and_eq_true, Bool.not_eq_true'] at hearly
    exact .inl ⟨hearly.1, hearly.2, h⟩
  rw [if_neg hearly] at h
  have hsyn : r.firstSegment = true → seg.header.syn = true := by
    simpa using hearly
  simp only at h
  by_cases hlow : (r.listen seg).absSeqno = 1 ∧
      (r.listen seg).tempAbsSeqno seg < (r.listen seg).absSeqno
  · rw [if_pos hlow, Option.some.injEq] at h
    exact .inr (.inl ⟨hsyn, hlow.1, hlow.1 ▸ hlow.2, h⟩)
  rw [if_neg hlow, listen_reassembler] at h
  split at h
  · contradiction
  · next reassembler hpush =>
      rw [Option.some.injEq] at h
      exact .inr (.inr ⟨reassembler, hsyn, fun hc => hlow ⟨hc.1, by omega⟩, hpush, h⟩)

end TCPReceiver

end Sponge
