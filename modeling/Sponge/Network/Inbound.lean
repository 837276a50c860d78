import Sponge.Network.Wire

/-!
# Sponge.Network.Inbound

The receiving end of one direction: a receiver that gets only genuine segments
of the sender behind `o`, in any order and number, assembles what was sent.

The number of a segment is unwrapped next to `abs_seqno`, which is close enough
to its place unless the segment repeats the very first bytes of a stream of
almost `2 ^ 31` bytes; such a repetition lands `2 ^ 32` too far, where it does
no harm.
-/

namespace Sponge

open TCPReceiver (streamIndex)

/-- What the receiver knows of the sender behind `o`, after `consumed` has been read. -/
structure Receives (o : Outgoing) (consumed : List UInt8) (r : TCPReceiver) : Prop where
  isn_eq : r.firstSegment = false → r.ISN = o.isn
  fresh : r.firstSegment = true → r.absSeqno = 0
  capacity_eq : r.streamOut.capacity = r.capacity
  windowed : r.reassembler.Windowed o.sent o.top o.fin consumed
  absSeqno_le : r.absSeqno ≤ o.next + 1
  absSeqno_le_written : o.fin = false → r.absSeqno ≤ r.streamOut.bytesWritten + 1

/-- At first nothing has arrived. -/
theorem receives_new (o : Outgoing) (cap : Nat) : Receives o [] (TCPReceiver.new cap) where
  isn_eq := by simp [TCPReceiver.new]
  fresh := fun _ => rfl
  capacity_eq := rfl
  windowed := StreamReassembler.windowed_new _ _ _ _
  absSeqno_le := Nat.zero_le _
  absSeqno_le_written := fun _ => Nat.zero_le _

/-- The sender may have sent more. -/
theorem Receives.mono {o o' : Outgoing} (hr : Receives o consumed r) (ho : o.Before o')
    (hp : o'.Proper) : Receives o' consumed r where
  isn_eq := fun hf => (hr.isn_eq hf).trans ho.isn_eq.symm
  fresh := hr.fresh
  capacity_eq := hr.capacity_eq
  windowed := hr.windowed.mono ho.sent_prefix (fun hf => ⟨(ho.fin_mono hf).1, (ho.fin_mono hf).2.2⟩)
    (ho.top_le hp)
  absSeqno_le := Nat.le_trans hr.absSeqno_le (Nat.succ_le_succ ho.next_le)
  absSeqno_le_written := by
    intro hf
    refine hr.absSeqno_le_written ?_
    cases hfin : o.fin with
    | false => rfl
    | true => exact absurd (ho.fin_mono hfin).1 (by simp [hf])

/-! ## Where a segment is put -/

/-- The receiver finds the place of a genuine segment, or one `2 ^ 32` behind it if
the segment is far in the past. -/
theorem Genuine.tempAbsSeqno_eq {r : TCPReceiver} (hg : Genuine o W seg start) (hp : o.Proper)
    (hisn : r.ISN = o.isn) (habs : r.absSeqno ≤ o.next + 1) :
    r.tempAbsSeqno seg = start ∨
      (start + 2 ^ 31 < r.absSeqno ∧ r.tempAbsSeqno seg = start + 2 ^ 32) := by
  have hend := hg.end_le
  have hnext := hp.next_lt
  have hstart : start < 2 ^ 32 := by omega
  have hcheck : r.absSeqno < 2 ^ 32 := by omega
  rw [TCPReceiver.tempAbsSeqno, hg.seqno_eq, hisn, unwrap_wrap_of_lt _ hstart hcheck]
  by_cases hfar : start + 2 ^ 31 < r.absSeqno
  · exact .inr ⟨hfar, if_pos hfar⟩
  · exact .inl (if_neg hfar)

/-- A genuine FIN is the end of what was sent. -/
theorem Genuine.end_eq_of_fin (hg : Genuine o W seg start) (hp : o.Proper)
    (hf : seg.header.fin = true) :
    o.fin = true ∧ start - 1 + seg.payload.length = o.sent.length := by
  obtain ⟨hfin, hpos, heq⟩ := hg.fin hf
  have hsyn : seg.header.syn = false := by
    cases hs : seg.header.syn with
    | false => rfl
    | true => exact absurd (hg.syn hs).1 (by omega)
  have hcount := hp.next_eq_of_fin hfin
  simp only [TCPSegment.lengthInSequenceSpace, hsyn, hf, if_true, Bool.false_eq_true,
    if_false] at heq
  exact ⟨hfin, by omega⟩

/-- Only behind the FIN can a segment start past what was sent. -/
theorem Genuine.fin_of_past (hg : Genuine o W seg start) (hp : o.Proper)
    (hpast : o.sent.length < start - 1) : o.fin = true := by
  have hend := hg.end_le
  have hnext := hp.next_le
  cases hf : o.fin with
  | true => rfl
  | false =>
      rw [hf, Bool.toNat_false] at hnext
      omega

/-- A genuine segment put at its place is within the window. -/
theorem Genuine.inWindow_start (hg : Genuine o W seg start) (hp : o.Proper) :
    InWindow o.sent o.top o.fin W
      (Datagram.ofData seg.payload (streamIndex start) seg.header.fin) := by
  have hshort := hp.short
  have hindex : streamIndex start = start - 1 := by
    unfold streamIndex
    split <;> omega
  rw [hindex]
  have hlast := hg.end_eq_of_fin hp
  by_cases hnil : seg.payload = []
  · by_cases hin : start - 1 ≤ o.sent.length
    · refine .inl ⟨?_, .inr ?_, hlast⟩
      · rw [Datagram.ofData_index, Datagram.ofData_data, hnil]
        exact Excerpt.nil hin
      · simp [hnil]
    · -- an empty segment behind the FIN
      refine .inr ⟨?_, ?_⟩
      · rw [Outgoing.top, if_pos (hg.fin_of_past hp (Nat.not_le.mp hin)), Datagram.ofData_index]
        omega
      · cases hf : seg.header.fin with
        | false => rfl
        | true =>
            have := (hlast hf).2
            omega
  · obtain ⟨hpos, hex⟩ := hg.payload hnil
    refine .inl ⟨hex, ?_, hlast⟩
    rw [Datagram.tail_of_excerpt (by omega) hex, Datagram.ofData_index, Datagram.ofData_size]
    have hlen : seg.payload.length ≤ seg.lengthInSequenceSpace := by
      unfold TCPSegment.lengthInSequenceSpace
      omega
    rcases hg.fits with h1 | h2
    · exact .inr (by omega)
    · exact .inl (by omega)

/-- So does one put `2 ^ 32` too far. -/
theorem Genuine.inWindow_far (hg : Genuine o W seg start) (hp : o.Proper)
    (hfar : start + 2 ^ 31 ≤ o.next) :
    InWindow o.sent o.top o.fin W
      (Datagram.ofData seg.payload (streamIndex (start + 2 ^ 32)) seg.header.fin) := by
  refine .inr ⟨?_, ?_⟩
  · have htop := hp.top_le
    rw [Datagram.ofData_index, streamIndex, if_pos (by omega)]
    omega
  · cases hf : seg.header.fin with
    | false => rfl
    | true =>
        -- the FIN is too close to the end
        have hlast := (hg.fin hf).2.2
        have hle := hg.payload_le
        simp only [TCPConfig.MAX_PAYLOAD_SIZE, TCPSegment.lengthInSequenceSpace] at hle hlast
        rw [if_pos hf] at hlast
        split at hlast <;> omega

/-! ## One segment -/

/-- The first SYN sets the initial number; nothing else does. -/
theorem Receives.listen (hr : Receives o consumed r) (hg : Genuine o W seg start)
    (hsyn : r.firstSegment = true → seg.header.syn = true) :
    Receives o consumed (r.listen seg) := by
  refine ⟨fun _ => ?_, ?_, ?_, ?_, ?_, ?_⟩
  · unfold TCPReceiver.listen
    split
    · next hc =>
        have hzero := (hg.syn (Bool.and_eq_true_iff.mp hc).2).1
        rw [hg.seqno_eq, hzero, wrap_zero]
    · next hc =>
        refine hr.isn_eq ?_
        cases hf : r.firstSegment with
        | false => rfl
        | true => simp [hf, hsyn hf] at hc
  · intro hf
    rw [TCPReceiver.listen_firstSegment hsyn] at hf
    contradiction
  · simpa using hr.capacity_eq
  · simpa using hr.windowed
  · simpa using hr.absSeqno_le
  · simpa using hr.absSeqno_le_written

/-- What is acknowledged after a genuine segment has been pushed: at most the end of
what was sent, or one more for an empty segment behind the FIN. -/
theorem Receives.acknowledge (hr : Receives o consumed r) (hp : o.Proper)
    (hfirst : r.firstSegment = false) (hg : Genuine o W seg start)
    (ht : t = start ∨ (start + 2 ^ 31 < r.absSeqno ∧ t = start + 2 ^ 32)) :
    Receives o consumed (r.acknowledge t seg) := by
  have hle : (r.acknowledge t seg).absSeqno ≤ o.next + 1 ∧
      (o.fin = false → (r.acknowledge t seg).absSeqno ≤ r.streamOut.bytesWritten + 1) := by
    have habs := hr.absSeqno_le
    rcases r.acknowledge_absSeqno_cases t seg with ⟨-, heq⟩ | ⟨hat, n, hn, heq⟩
    · rw [heq]
      exact ⟨habs, hr.absSeqno_le_written⟩
    have hstart : t = start := by
      have hlt := hp.next_lt
      omega
    have hend := hg.end_le
    have hwritten : r.streamOut.bytesWritten ≤ o.sent.length :=
      hr.windowed.next_eq ▸ hr.windowed.next_le
    rw [heq]
    cases hcount : seg.header.fin || r.streamOut.inputEnded with
    | true =>
        -- a FIN that is counted has been sent
        have hfin : o.fin = true := by
          rcases Bool.or_eq_true_iff.mp hcount with hf | he
          · exact (hg.fin hf).1
          · exact (hr.windowed.ended he).1
        have hnext := hp.next_eq_of_fin hfin
        rw [Bool.toNat_true]
        refine ⟨?_, fun hopen => absurd hfin (by simp [hopen])⟩
        rcases hn with ⟨-, rfl⟩ | ⟨-, -, rfl⟩ | ⟨-, -, rfl⟩ <;> omega
    | false =>
        have hsent := hp.length_le_next
        have hopen := hr.absSeqno_le_written
        rw [Bool.toNat_false]
        refine ⟨?_, fun hf => ?_⟩
        · rcases hn with ⟨-, rfl⟩ | ⟨-, -, rfl⟩ | ⟨-, -, rfl⟩ <;> omega
        · have := hopen hf
          rcases hn with ⟨-, rfl⟩ | ⟨-, -, rfl⟩ | ⟨-, -, rfl⟩ <;> omega
  refine ⟨?_, ?_, ?_, ?_, hle.1, ?_⟩
  · simpa using hr.isn_eq
  · simp [hfirst]
  · simpa using hr.capacity_eq
  · simpa using hr.windowed
  · simpa using hle.2

/-- **One segment**: a genuine one keeps what the receiver knows right, and the
window where it is. -/
theorem Receives.segmentReceived {r r' : TCPReceiver} (hr : Receives o consumed r)
    (hp : o.Proper) (hg : Genuine o r.reassembler.windowEnd seg start)
    (h : r.segmentReceived fuel seg = some r') :
    Receives o consumed r' ∧ r'.reassembler.windowEnd = r.reassembler.windowEnd := by
  rcases TCPReceiver.segmentReceived_cases h with ⟨-, -, rfl⟩ | ⟨hsyn, -, -, rfl⟩ |
      ⟨reassembler, hsyn, -, hpush, rfl⟩
  · exact ⟨hr, rfl⟩
  · exact ⟨hr.listen hg hsyn, by rw [TCPReceiver.listen_reassembler]⟩
  · have hl := hr.listen hg hsyn
    have hfirst := TCPReceiver.listen_firstSegment hsyn
    have ht := hg.tempAbsSeqno_eq hp (hl.isn_eq hfirst) hl.absSeqno_le
    have hwin : InWindow o.sent o.top o.fin r.reassembler.windowEnd (Datagram.ofData seg.payload
        (streamIndex ((r.listen seg).tempAbsSeqno seg)) seg.header.fin) := by
      rcases ht with ht | ⟨hfar, ht⟩
      · exact ht ▸ hg.inWindow_start hp
      · have := hl.absSeqno_le
        exact ht ▸ hg.inWindow_far hp (by omega)
    have hshort := hp.short
    have hgrow := (StreamReassembler.pushSubstring_pushes hpush).output_extends
    have hpushed : Receives o consumed { r.listen seg with reassembler := reassembler } := by
      refine ⟨hl.isn_eq, hl.fresh, ?_, ?_, hl.absSeqno_le, ?_⟩
      · have hcap := hl.capacity_eq
        rw [TCPReceiver.listen_streamOut] at hcap
        exact hgrow.capacity_eq.trans hcap
      · exact hr.windowed.pushes (StreamReassembler.pushSubstring_pushes hpush) (by omega)
          hp.length_lt_top hwin
      · intro hf
        have hle := hl.absSeqno_le_written hf
        rw [TCPReceiver.listen_streamOut] at hle
        exact Nat.le_trans hle (Nat.succ_le_succ hgrow.bytesWritten_le)
    refine ⟨hpushed.acknowledge hp hfirst hg ht, ?_⟩
    rw [TCPReceiver.acknowledge_reassembler, StreamReassembler.windowEnd, hgrow.bytesRead_eq,
      hgrow.capacity_eq, StreamReassembler.windowEnd]

/-- A read moves the window on. -/
theorem Receives.readOut (hr : Receives o consumed r) (len : Nat) :
    Receives o (consumed ++ (r.readOut len).1) (r.readOut len).2 ∧
      r.reassembler.windowEnd ≤ (r.readOut len).2.reassembler.windowEnd := by
  refine ⟨⟨hr.isn_eq, hr.fresh, ?_, hr.windowed.readOut len, hr.absSeqno_le, ?_⟩,
    r.reassembler.windowEnd_le_readOut len⟩
  · rw [TCPReceiver.readOut_streamOut, ByteStream.read_capacity]
    exact hr.capacity_eq
  · simpa using hr.absSeqno_le_written

/-- An error leaves the bytes alone. -/
theorem Receives.setError (hr : Receives o consumed r) :
    Receives o consumed { r with reassembler :=
      { r.reassembler with output := r.reassembler.output.setError } } :=
  have hw := hr.windowed
  ⟨hr.isn_eq, hr.fresh, hr.capacity_eq,
    ⟨⟨hw.sorted, hw.next_eq, hw.next_le, hw.prefix_eq, hw.placed⟩, hw.stored, hw.ended⟩,
    hr.absSeqno_le, hr.absSeqno_le_written⟩

/-! ## What goes back -/

section stamp

variable (r : TCPReceiver) (seg : TCPSegment)

open TCPConnection (stamp)

/-- The stamp leaves alone what makes a segment genuine. -/
theorem Genuine.stamp {seg : TCPSegment} (hg : Genuine o W seg start) :
    Genuine o W (stamp r seg) start := by
  refine ⟨?_, ?_, ?_, ?_, ?_, ?_, ?_⟩
  · simpa using hg.seqno_eq
  · simpa using hg.end_le
  · simpa using hg.syn
  · simpa using hg.payload
  · simpa using hg.payload_le
  · simpa using hg.fin
  · simpa using hg.fits

/-- What the receiver stamps on a segment acknowledges within bounds. -/
theorem Receives.acksWithin (hr : Receives o consumed r) (hack : seg.header.ack = false) :
    AcksWithin o r.reassembler.windowEnd (stamp r seg) := by
  intro h
  cases hfirst : r.firstSegment with
  | true =>
      simp [TCPConnection.stamp, TCPReceiver.ackno, hfirst, hack] at h
  | false =>
      refine ⟨r.absSeqno, ?_, hr.absSeqno_le, ?_⟩
      · simp [TCPConnection.stamp, TCPReceiver.ackno, hfirst, hr.isn_eq hfirst]
      · cases hfin : o.fin with
        | true => exact .inl rfl
        | false =>
            have habs := hr.absSeqno_le_written hfin
            have hcap := hr.capacity_eq
            have hbuf := r.streamOut.bufferSize_le
            have hwritten := r.streamOut.bytesWritten_eq
            have hwin : (UInt16.ofNat r.windowSize).toNat ≤ r.windowSize := by
              rw [UInt16.toNat_ofNat']
              exact Nat.mod_le _ _
            rw [TCPReceiver.windowSize] at hwin
            right
            rw [TCPConnection.stamp_win, StreamReassembler.windowEnd]
            simp only [TCPReceiver.streamOut, TCPReceiver.windowSize] at *
            omega

end stamp

end Sponge
