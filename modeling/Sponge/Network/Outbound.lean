import Sponge.Network.Wire
import Sponge.TCPSender.Transmissions

/-!
# Sponge.Network.Outbound

The sending end of one direction: whatever a sender puts on its queue is
genuine and respects the window, if the acknowledgments it gets do.

Only `Transmit` adds to what has been sent.  A zero window lets a single
sequence number through, to try; any other window is the one the peer
advertised, relative to a position it had reached by then.
-/

namespace Sponge

open TCPSegment (lengthInSequenceSpace)
open TCPSender (Carries Counted Transmit Retires)

/-- What the sender has sent of the bytes `written` to its stream. -/
def TCPSender.outgoing (s : TCPSender) (written : List UInt8) : Outgoing :=
  ⟨s.isn, written.take s.stream.bytesRead, s.nextSeqno, s.finSent⟩

/-- A segment on one of the sender's own queues: genuine, and not yet stamped. -/
def Unstamped (o : Outgoing) (W : Nat) (seg : TCPSegment) : Prop :=
  seg.header.ack = false ∧ ∃ start, Genuine o W seg start

/-- What is true of a segment stays true. -/
theorem Unstamped.mono {o o' : Outgoing} (h : Unstamped o W seg) (ho : o.Before o')
    (hW : W ≤ W') : Unstamped o' W' seg :=
  ⟨h.1, h.2.imp fun _ hg => hg.mono ho hW⟩

/-- The sender of the bytes `written`, when the peer's window ends at `W`. -/
structure Sends (written : List UInt8) (W : Nat) (s : TCPSender) : Prop where
  counted : s.Counted
  confirmed_le : s.confirmedSeqno ≤ s.nextSeqno
  stream_eq : written.drop s.stream.bytesRead = s.stream.stream
  length_eq : written.length = s.stream.bytesWritten
  window : s.finSent = true ∨ s.receiverWindowSize = 0 ∨
    s.confirmedSeqno + s.receiverWindowSize.toNat ≤ W + 1
  queued : ∀ seg ∈ s.segmentsOut, Unstamped (s.outgoing written) W seg
  outstanding : ∀ seg ∈ s.outstandingSegments, Unstamped (s.outgoing written) W seg

/-- A new sender has sent nothing. -/
theorem sends_new (W cap : Nat) (rt : UInt16) (i : Option WrappingInt32) (x : UInt32) :
    Sends [] W (TCPSender.new cap rt i x) where
  counted := TCPSender.counted_new cap rt i x
  confirmed_le := Nat.le_refl _
  stream_eq := rfl
  length_eq := rfl
  window := .inr (.inl rfl)
  queued := by simp [TCPSender.new]
  outstanding := by simp [TCPSender.new]

section

variable {s t : TCPSender}

/-- Only what was written is sent. -/
theorem Sends.bytesRead_le (hs : Sends written W s) : s.stream.bytesRead ≤ written.length := by
  have := s.stream.bytesWritten_eq
  rw [hs.length_eq]
  omega

/-- What is sent was read from the stream. -/
theorem Sends.length_sent (hs : Sends written W s) :
    (s.outgoing written).sent.length = s.stream.bytesRead := by
  rw [TCPSender.outgoing, List.length_take, Nat.min_eq_left hs.bytesRead_le]

/-- The numbers do not go around. -/
theorem Sends.proper (hs : Sends written W s) (hshort : written.length < 2 ^ 31) :
    (s.outgoing written).Proper := by
  refine ⟨?_, ?_⟩
  · rw [hs.length_sent]
    rcases hs.counted with ⟨h0, hread, hfin⟩ | hnext
    · exact .inl ⟨h0, by simp [TCPSender.outgoing, hread], hfin⟩
    · exact .inr hnext
  · have := hs.bytesRead_le
    rw [hs.length_sent]
    omega

/-- The peer's window may have moved on. -/
theorem Sends.mono_window (hs : Sends written W s) (hW : W ≤ W') : Sends written W' s where
  counted := hs.counted
  confirmed_le := hs.confirmed_le
  stream_eq := hs.stream_eq
  length_eq := hs.length_eq
  window := hs.window.imp_right (Or.imp_right fun h => by omega)
  queued := fun seg hseg => (hs.queued seg hseg).mono (.refl _) hW
  outstanding := fun seg hseg => (hs.outstanding seg hseg).mono (.refl _) hW

/-- What the invariant speaks of, besides the two queues. -/
theorem outgoing_congr (h1 : t.isn = s.isn) (h2 : t.nextSeqno = s.nextSeqno)
    (h3 : t.finSent = s.finSent) (h4 : t.stream.bytesRead = s.stream.bytesRead) :
    t.outgoing written = s.outgoing written := by
  rw [TCPSender.outgoing, TCPSender.outgoing, h1, h2, h3, h4]

/-- Nothing new is sent and the queues hold only what was sent. -/
theorem Sends.congr (hs : Sends written W s) (h1 : t.isn = s.isn)
    (h2 : t.nextSeqno = s.nextSeqno) (h3 : t.finSent = s.finSent)
    (h4 : t.stream.bytesRead = s.stream.bytesRead) (h5 : t.stream.stream = s.stream.stream)
    (h6 : t.confirmedSeqno = s.confirmedSeqno)
    (h7 : t.receiverWindowSize = s.receiverWindowSize)
    (h8 : ∀ seg ∈ t.segmentsOut, Unstamped (s.outgoing written) W seg)
    (h9 : ∀ seg ∈ t.outstandingSegments, seg ∈ s.outstandingSegments) : Sends written W t where
  counted := hs.counted.congr h2 h4 h3
  confirmed_le := by rw [h6, h2]; exact hs.confirmed_le
  stream_eq := by rw [h4, h5]; exact hs.stream_eq
  length_eq := by
    rw [hs.length_eq, s.stream.bytesWritten_eq, t.stream.bytesWritten_eq, s.stream.bufferSize_eq,
      t.stream.bufferSize_eq, h4, h5]
  window := by rw [h3, h6, h7]; exact hs.window
  queued := by rw [outgoing_congr h1 h2 h3 h4]; exact h8
  outstanding := by
    rw [outgoing_congr h1 h2 h3 h4]
    exact fun seg hseg => hs.outstanding seg (h9 seg hseg)

/-! ## Transmissions -/

/-- What was sent before a transmission is sent after it. -/
theorem before_transmit (htr : Transmit s seg t) :
    (s.outgoing written).Before (t.outgoing written) := by
  have hread : s.stream.bytesRead ≤ t.stream.bytesRead := by
    rcases htr.kind with ho | hc
    · rw [ho.stream_eq]
    · rw [hc.stream_eq, ByteStream.read_bytesRead]
      omega
  refine ⟨htr.isn_eq, List.take_prefix_take_left hread, ?_, ?_⟩
  · simp only [TCPSender.outgoing, htr.nextSeqno_eq]
    omega
  · intro hfin
    simp only [TCPSender.outgoing, htr.notFinSent] at hfin
    contradiction

/-- Once the SYN is sent and before the FIN is, the sender stands one past the bytes it
has taken from its stream. -/
theorem Sends.nextSeqno_sub_one (hs : Sends written W s) (hopen : s.finSent = false)
    (hne : s.nextSeqno ≠ 0) : s.nextSeqno - 1 = s.stream.bytesRead := by
  rcases hs.counted with ⟨h0, -, -⟩ | hnext
  · exact absurd h0 hne
  · rw [hnext, hopen, Bool.toNat_false]
    omega

/-- The payload of a segment is what the stream had next. -/
theorem Sends.excerpt_payload (hs : Sends written W s) (hc : Carries s seg t) :
    Excerpt (t.outgoing written).sent s.stream.bytesRead seg.payload := by
  have hbuf := hc.payload_length_le
  have hlen : s.stream.bytesRead + seg.payload.length ≤ written.length := by
    have := s.stream.bytesWritten_eq
    rw [hs.length_eq]
    omega
  have hsent : (t.outgoing written).sent =
      written.take (s.stream.bytesRead + seg.payload.length) := by
    simp only [TCPSender.outgoing, hc.stream_eq, ByteStream.read_bytesRead]
    rw [Nat.min_eq_left hbuf]
  have hpay : (written.drop s.stream.bytesRead).take seg.payload.length = seg.payload := by
    rw [hs.stream_eq]
    exact hc.payload_eq.symm
  rw [hsent]
  refine ⟨by rw [List.length_take]; omega, ?_⟩
  rw [List.drop_take, Nat.add_sub_cancel_left, List.take_take, Nat.min_self]
  exact hpay.symm

/-- A segment occupies one sequence number, to try a closed window, or ends within
the window. -/
theorem Sends.fits_window (hs : Sends written W s) (hopen : s.finSent = false)
    (hc : Carries s seg t) :
    seg.lengthInSequenceSpace ≤ 1 ∨ s.nextSeqno + seg.lengthInSequenceSpace ≤ W + 1 := by
  have hfits := hc.fits
  have hconf := hs.confirmed_le
  unfold TCPSender.receiverLogicalWindowSize at hfits
  rcases hs.window with hfin | hzero | hwin
  · rw [hopen] at hfin
    contradiction
  · rw [if_pos hzero] at hfits
    exact .inl (by omega)
  · split at hfits
    · exact .inl (by omega)
    · exact .inr (by omega)

/-- A transmitted segment is genuine. -/
theorem Sends.genuine_transmit (hs : Sends written W s) (htr : Transmit s seg t) :
    Genuine (t.outgoing written) W seg s.nextSeqno := by
  have hend : s.nextSeqno + seg.lengthInSequenceSpace = t.nextSeqno := htr.nextSeqno_eq.symm
  have hisn : (t.outgoing written).isn = s.isn := htr.isn_eq
  have hseqno : seg.header.seqno = wrap s.nextSeqno (t.outgoing written).isn := by
    rw [hisn]
    exact htr.seqno_eq
  rcases htr.kind with ho | hc
  · refine ⟨hseqno, Nat.le_of_eq hend, fun _ => ⟨ho.nextSeqno_eq, ho.payload_eq, ho.fin_eq⟩,
      fun hne => absurd ho.payload_eq hne, ?_, ?_, .inl ?_⟩
    · simp [ho.payload_eq]
    · simp [ho.fin_eq]
    · simp [lengthInSequenceSpace, ho.payload_eq, ho.syn_eq, ho.fin_eq]
  · have hpos : 1 ≤ s.nextSeqno := Nat.one_le_iff_ne_zero.mpr hc.nextSeqno_ne
    have hstart := hs.nextSeqno_sub_one htr.notFinSent hc.nextSeqno_ne
    refine ⟨hseqno, Nat.le_of_eq hend, ?_, fun _ => ⟨hpos, ?_⟩, hc.payload_le, ?_,
      hs.fits_window htr.notFinSent hc⟩
    · simp [hc.syn_eq]
    · rw [hstart]
      exact hs.excerpt_payload hc
    · exact fun hf => ⟨hc.finSent_eq.trans hf, hpos, hend⟩

/-- **Each segment** that is sent is the next piece of the stream. -/
theorem Sends.transmit (hs : Sends written W s) (htr : Transmit s seg t) : Sends written W t := by
  have hnew : Unstamped (t.outgoing written) W seg :=
    ⟨by rw [htr.header_eq], s.nextSeqno, hs.genuine_transmit htr⟩
  have hold : ∀ x, Unstamped (s.outgoing written) W x → Unstamped (t.outgoing written) W x :=
    fun x hx => hx.mono (before_transmit htr) (Nat.le_refl _)
  have hfront : ∀ l : List TCPSegment, (∀ x ∈ l, Unstamped (s.outgoing written) W x) →
      ∀ x ∈ l ++ [seg], Unstamped (t.outgoing written) W x := by
    intro l hl x hx
    rcases List.mem_append.mp hx with hx | hx
    · exact hold x (hl x hx)
    · exact List.mem_singleton.mp hx ▸ hnew
  refine ⟨hs.counted.transmit htr, ?_, ?_, ?_, ?_, ?_, ?_⟩
  · have := hs.confirmed_le
    rw [htr.confirmedSeqno_eq, htr.nextSeqno_eq]
    omega
  · rcases htr.kind with ho | hc
    · rw [ho.stream_eq]
      exact hs.stream_eq
    · rw [hc.stream_eq, ByteStream.read_bytesRead, ByteStream.read_stream,
        Nat.min_eq_left hc.payload_length_le, ← List.drop_drop, hs.stream_eq]
  · rcases htr.kind with ho | hc
    · rw [ho.stream_eq]
      exact hs.length_eq
    · rw [hc.stream_eq, ByteStream.read_bytesWritten]
      exact hs.length_eq
  · rw [htr.confirmedSeqno_eq, htr.receiverWindowSize_eq]
    exact .inr (hs.window.resolve_left (by simp [htr.notFinSent]))
  · rw [htr.segmentsOut_eq]
    exact hfront _ hs.queued
  · rw [htr.outstandingSegments_eq]
    exact hfront _ hs.outstanding

/-- To fill the window is to send pieces, one after the other. -/
theorem Sends.fillWindow (hs : Sends written W s) :
    Sends written W s.fillWindow ∧
      (s.outgoing written).Before (s.fillWindow.outgoing written) := by
  obtain ⟨segs, hsteps⟩ := s.fillWindow_steps
  refine hsteps.preserves (P := fun t => Sends written W t ∧
    (s.outgoing written).Before (t.outgoing written)) ?_ ⟨hs, .refl _⟩
  intro u seg v hu htr
  exact ⟨hu.1.transmit htr, hu.2.trans (before_transmit htr)⟩

/-! ## Acknowledgments -/

/-- An acknowledgment within bounds that the sender accepts is unwrapped to what was
meant. -/
theorem unwrap_ackno {o : Outgoing} (hp : o.Proper) (ha : a ≤ o.next + 1)
    (hle : unwrap (wrap a o.isn) o.isn o.next ≤ o.next) :
    unwrap (wrap a o.isn) o.isn o.next = a := by
  have hnext := hp.next_lt
  have hwrap := unwrap_wrap_of_lt (v := a) (c := o.next) o.isn (by omega) (by omega)
  rw [hwrap] at hle ⊢
  split at hle
  · omega
  · next hnear => exact if_neg hnear

/-- **Acknowledgments** within bounds keep what is sent within bounds. -/
theorem Sends.absAckReceived (hs : Sends written W s)
    (hwin : a ≤ s.nextSeqno → s.finSent = true ∨ a + win.toNat ≤ W + 1)
    (h : s.absAckReceived a win = t) :
    Sends written W t ∧ (s.outgoing written).Before (t.outgoing written) := by
  rcases TCPSender.absAckReceived_cases h with ⟨-, rfl⟩ | ⟨-, hhi, popped, u, hret, -, hend⟩
  · exact ⟨hs, .refl _⟩
  have hout : s.outstandingSegments = popped ++ u.outstandingSegments :=
    hret.outstandingSegments_eq
  have hsame : u.outgoing written = s.outgoing written :=
    outgoing_congr hret.isn_eq hret.nextSeqno_eq hret.finSent_eq (by rw [hret.stream_eq]; rfl)
  have hu : Sends written W u := by
    refine ⟨?_, ?_, ?_, ?_, ?_, ?_, ?_⟩
    · exact hs.counted.congr hret.nextSeqno_eq (by rw [hret.stream_eq]; rfl) hret.finSent_eq
    · rw [hret.confirmedSeqno_eq, hret.nextSeqno_eq]
      exact hhi
    · rw [hret.stream_eq]
      exact hs.stream_eq
    · rw [hret.stream_eq]
      exact hs.length_eq
    · rw [hret.finSent_eq, hret.confirmedSeqno_eq, hret.receiverWindowSize_eq]
      exact (hwin hhi).imp_right .inr
    · rw [hsame, hret.segmentsOut_eq]
      exact hs.queued
    · rw [hsame]
      exact fun seg hseg => hs.outstanding seg (hout ▸ List.mem_append_right popped hseg)
  rcases hend with ⟨_, _, -, -, rfl⟩ | ⟨-, v, hv, rfl⟩
  · exact ⟨hu, hsame ▸ .refl _⟩
  · have hvs : Sends written W v ∧ (s.outgoing written).Before (v.outgoing written) := by
      rw [← hv]
      split
      · exact ⟨hu, hsame ▸ .refl _⟩
      · exact ⟨hu.fillWindow.1, hsame ▸ hu.fillWindow.2⟩
    exact ⟨hvs.1.congr rfl rfl rfl rfl rfl rfl rfl hvs.1.queued fun _ hseg => hseg, hvs.2⟩

/-- An acknowledgment of the peer is taken for the number it stands for. -/
theorem Sends.ackReceived (hs : Sends written W s) (hshort : written.length < 2 ^ 31)
    (hack : AcksWithin (s.outgoing written) W seg) (h : seg.header.ack = true) :
    Sends written W (s.ackReceived seg.header.ackno seg.header.win) ∧
      (s.outgoing written).Before
        ((s.ackReceived seg.header.ackno seg.header.win).outgoing written) := by
  obtain ⟨a, hackno, hle, hwin⟩ := hack h
  refine hs.absAckReceived (fun hacc => ?_) rfl
  rw [hackno] at hacc ⊢
  have heq : unwrap (wrap a (s.outgoing written).isn) s.isn s.nextSeqno = a :=
    unwrap_ackno (hs.proper hshort) hle hacc
  rw [heq]
  exact hwin

/-! ## The other operations -/

/-- What is sent again is what was sent before. -/
theorem Sends.tick (hs : Sends written W s) (ms : Nat) :
    Sends written W (s.tick ms) ∧ (s.tick ms).outgoing written = s.outgoing written := by
  rcases TCPSender.tick_cases (t := s.tick ms) rfl with ⟨time, htick⟩ |
      ⟨seg, rest, time, timeout, count, hst, htick⟩
  · rw [← htick]
    exact ⟨hs.congr rfl rfl rfl rfl rfl rfl rfl hs.queued fun _ hseg => hseg, rfl⟩
  · rw [← htick]
    refine ⟨hs.congr rfl rfl rfl rfl rfl rfl rfl ?_ fun _ hseg => hseg, rfl⟩
    intro x hx
    rcases List.mem_append.mp hx with hx | hx
    · exact hs.queued x hx
    · -- the oldest outstanding segment again
      rw [List.mem_singleton.mp hx]
      exact hs.outstanding seg (hst ▸ List.mem_cons_self)

/-- An empty segment takes no number. -/
theorem Sends.sendEmptySegment (hs : Sends written W s) :
    Sends written W s.sendEmptySegment := by
  refine hs.congr rfl rfl rfl rfl rfl rfl rfl ?_ fun _ hseg => hseg
  intro x hx
  rcases List.mem_append.mp hx with hx | hx
  · exact hs.queued x hx
  · rw [List.mem_singleton.mp hx]
    exact ⟨rfl, _, genuine_empty (s.outgoing written) W rfl rfl rfl rfl⟩

/-- Writing to the stream sends nothing yet. -/
theorem Sends.write (hs : Sends written W s) (data : List UInt8) :
    Sends (written ++ data.take (s.stream.write data).1) W
        { s with stream := (s.stream.write data).2 } ∧
      { s with stream := (s.stream.write data).2 }.outgoing
        (written ++ data.take (s.stream.write data).1) = s.outgoing written := by
  have hle := hs.bytesRead_le
  have hsame : { s with stream := (s.stream.write data).2 }.outgoing
      (written ++ data.take (s.stream.write data).1) = s.outgoing written := by
    simp only [TCPSender.outgoing, ByteStream.write_bytesRead]
    rw [List.take_append_of_le_length hle]
  refine ⟨⟨?_, hs.confirmed_le, ?_, ?_, hs.window, ?_, ?_⟩, hsame⟩
  · exact hs.counted.congr rfl (ByteStream.write_bytesRead _ data) rfl
  · simp only [ByteStream.write_bytesRead, ByteStream.write_stream, ByteStream.write_fst]
    rw [List.drop_append_of_le_length hle, hs.stream_eq, Nat.min_comm, ← List.take_take,
      List.take_length]
  · simp only [ByteStream.write_bytesWritten, ByteStream.write_fst, List.length_append,
      List.length_take, hs.length_eq]
    omega
  · rw [hsame]
    exact hs.queued
  · rw [hsame]
    exact hs.outstanding

end

end Sponge
