import Sponge.StreamReassembler.Window
import Sponge.TCPConnection

/-!
# Sponge.Network.Wire

What one direction of a connection has on the wire.

`Outgoing` is what a sender has sent so far.  It only grows (`Before`), so a
segment that was right about it when it was sent stays right, however late
and however often it is delivered: `Genuine` says this of the data in a
segment and `AcksWithin` of the acknowledgment it carries.  Both also respect
the peer's window, whose end only moves forward.
-/

namespace Sponge

open TCPSegment (lengthInSequenceSpace)

/-- What a sender has sent: the bytes, the next absolute sequence number, and
whether the FIN is among it. -/
structure Outgoing where
  isn : WrappingInt32
  sent : List UInt8
  next : Nat
  fin : Bool

namespace Outgoing

/-- `o'` is `o` at a later time. -/
structure Before (o o' : Outgoing) : Prop where
  isn_eq : o'.isn = o.isn
  sent_prefix : o.sent <+: o'.sent
  next_le : o.next ≤ o'.next
  fin_mono : o.fin = true → o'.fin = true ∧ o'.next = o.next ∧ o'.sent = o.sent

/-- Nothing was sent in between. -/
theorem Before.refl (o : Outgoing) : Before o o :=
  ⟨rfl, List.prefix_refl _, Nat.le_refl _, fun h => ⟨h, rfl, rfl⟩⟩

/-- More was sent, and then more again. -/
theorem Before.trans {o o' o'' : Outgoing} (h : Before o o') (h' : Before o' o'') :
    Before o o'' where
  isn_eq := h'.isn_eq.trans h.isn_eq
  sent_prefix := h.sent_prefix.trans h'.sent_prefix
  next_le := Nat.le_trans h.next_le h'.next_le
  fin_mono := by
    intro hf
    obtain ⟨h1, h2, h3⟩ := h.fin_mono hf
    obtain ⟨h1', h2', h3'⟩ := h'.fin_mono h1
    exact ⟨h1', h2'.trans h2, h3'.trans h3⟩

/-- The next number counts the SYN, the bytes and the FIN, and there are not so
many bytes that numbers half the space apart could be mixed up. -/
structure Proper (o : Outgoing) : Prop where
  next_eq : (o.next = 0 ∧ o.sent = [] ∧ o.fin = false) ∨
    o.next = 1 + o.sent.length + o.fin.toNat
  short : o.sent.length < 2 ^ 31

/-- The SYN, the bytes and the FIN take one number each. -/
theorem Proper.next_le {o : Outgoing} (h : o.Proper) :
    o.next ≤ 1 + o.sent.length + o.fin.toNat := by
  rcases h.next_eq with ⟨h0, -, -⟩ | h1 <;> omega

/-- All bytes that were sent have a number. -/
theorem Proper.length_le_next {o : Outgoing} (h : o.Proper) : o.sent.length ≤ o.next := by
  rcases h.next_eq with ⟨-, h1, -⟩ | h1
  · simp [h1]
  · omega

/-- Once the FIN is sent, all numbers are given. -/
theorem Proper.next_eq_of_fin {o : Outgoing} (h : o.Proper) (hfin : o.fin = true) :
    o.next = o.sent.length + 2 := by
  rcases h.next_eq with ⟨-, -, h2⟩ | h1
  · rw [hfin] at h2
    contradiction
  · rw [h1, hfin, Bool.toNat_true]
    omega

/-- The numbers end where half the range does, but for the SYN and the FIN. -/
theorem Proper.next_lt {o : Outgoing} (h : o.Proper) : o.next < 2 ^ 31 + 2 := by
  have hle := h.next_le
  have hs := h.short
  have hf := o.fin.toNat_le
  omega

/-- Stream indices from here on are never assembled: behind the FIN, or while it is
not sent, so far away that only a misplaced repetition ends up there. -/
def top (o : Outgoing) : Nat := if o.fin then o.sent.length + 1 else 2 ^ 32 - 1

/-- The stream ends below the top. -/
theorem Proper.length_lt_top {o : Outgoing} (h : o.Proper) : o.sent.length < o.top := by
  have := h.short
  unfold top
  split <;> omega

/-- The top is below the range. -/
theorem Proper.top_le {o : Outgoing} (h : o.Proper) : o.top ≤ 2 ^ 32 - 1 := by
  have := h.short
  unfold top
  split <;> omega

/-- The top only comes down, when the FIN is sent. -/
theorem Before.top_le {o o' : Outgoing} (h : Before o o') (ho : o'.Proper) : o'.top ≤ o.top := by
  cases hfin : o.fin with
  | true =>
      obtain ⟨h1, -, h3⟩ := h.fin_mono hfin
      rw [top, top, h1, h3, hfin]
  | false =>
      rw [top.eq_def o, hfin]
      exact ho.top_le

end Outgoing

/-! ## Segments -/

/-- `seg` is a segment of the sender behind `o` and starts at `start`: it carries
what was sent there, and unless it occupies a single sequence number it ends
within the peer's window. -/
structure Genuine (o : Outgoing) (W : Nat) (seg : TCPSegment) (start : Nat) : Prop where
  seqno_eq : seg.header.seqno = wrap start o.isn
  end_le : start + seg.lengthInSequenceSpace ≤ o.next
  syn : seg.header.syn = true → start = 0 ∧ seg.payload = [] ∧ seg.header.fin = false
  payload : seg.payload ≠ [] → 1 ≤ start ∧ Excerpt o.sent (start - 1) seg.payload
  payload_le : seg.payload.length ≤ TCPConfig.MAX_PAYLOAD_SIZE
  fin : seg.header.fin = true →
    o.fin = true ∧ 1 ≤ start ∧ start + seg.lengthInSequenceSpace = o.next
  fits : seg.lengthInSequenceSpace ≤ 1 ∨ start + seg.lengthInSequenceSpace ≤ W + 1

/-- What `seg` acknowledges to the sender behind `o` is at most one past what was
sent and, until the FIN is sent, opens no more than the window. -/
def AcksWithin (o : Outgoing) (W : Nat) (seg : TCPSegment) : Prop :=
  seg.header.ack = true → ∃ a, seg.header.ackno = wrap a o.isn ∧ a ≤ o.next + 1 ∧
    (o.fin = true ∨ a + seg.header.win.toNat ≤ W + 1)

/-- A segment stays genuine while more is sent. -/
theorem Genuine.mono {o o' : Outgoing} (h : Genuine o W seg start) (ho : o.Before o')
    (hW : W ≤ W') : Genuine o' W' seg start where
  seqno_eq := ho.isn_eq ▸ h.seqno_eq
  end_le := Nat.le_trans h.end_le ho.next_le
  syn := h.syn
  payload := fun hne => ⟨(h.payload hne).1, (h.payload hne).2.mono ho.sent_prefix⟩
  payload_le := h.payload_le
  fin := by
    intro hf
    obtain ⟨hfin, hpos, hend⟩ := h.fin hf
    obtain ⟨hfin', hnext, -⟩ := ho.fin_mono hfin
    exact ⟨hfin', hpos, hend.trans hnext.symm⟩
  fits := h.fits.imp_right fun hle => by omega

/-- An acknowledgment stays within what may be acknowledged. -/
theorem AcksWithin.mono {o o' : Outgoing} (h : AcksWithin o W seg) (ho : o.Before o')
    (hW : W ≤ W') : AcksWithin o' W' seg := by
  intro hack
  obtain ⟨a, hackno, hle, hwin⟩ := h hack
  have hnext := ho.next_le
  refine ⟨a, ho.isn_eq ▸ hackno, by omega, ?_⟩
  rcases hwin with hfin | hwin
  · exact .inl (ho.fin_mono hfin).1
  · exact .inr (by omega)

/-- An empty segment at the end of what was sent is genuine. -/
theorem genuine_empty (o : Outgoing) (W : Nat) (hseqno : seg.header.seqno = wrap o.next o.isn)
    (hpayload : seg.payload = []) (hsyn : seg.header.syn = false)
    (hfin : seg.header.fin = false) : Genuine o W seg o.next := by
  have hlen : seg.lengthInSequenceSpace = 0 := by
    simp [lengthInSequenceSpace, hpayload, hsyn, hfin]
  refine ⟨hseqno, by omega, ?_, ?_, ?_, ?_, .inl (by omega)⟩
  · simp [hsyn]
  · simp [hpayload]
  · simp [hpayload]
  · simp [hfin]

end Sponge
