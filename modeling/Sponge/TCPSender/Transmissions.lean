import Sponge.Lib.Tiles
import Sponge.TCPSender

/-!
# Sponge.TCPSender.Transmissions

The first transmissions of a sender, i.e. the segments that leave through
`send_tcp_segment`, tile the sequence space: a lone SYN, then the bytes of the
stream in order, then the FIN.  Whatever else is put on `segments_out` and
occupies sequence numbers is one of them again.

`Trace` records beside the sender which segments were pushed by whom and which
bytes the stream accepted.  The invariant `Sent` is kept by each `Transmit`,
hence by `fill_window`, and the other operations do not touch what it speaks
of, apart from retiring outstanding segments.
-/

namespace Sponge

namespace TCPSender

open TCPSegment (lengthInSequenceSpace)

/-! ## Traces -/

/-- A sender with what it has sent so far and what its stream has accepted:
`firsts` are the segments pushed by `send_tcp_segment` (in `fill_window`, also
when `ack_received` calls it), `others` those pushed by `tick` and
`send_empty_segment`. -/
structure Trace where
  sender : TCPSender
  firsts : List TCPSegment
  others : List TCPSegment
  written : List UInt8

namespace Trace

def new (capacity : Nat) (retxTimeout : UInt16) (fixedIsn : Option WrappingInt32)
    (random : UInt32) : Trace :=
  ⟨TCPSender.new capacity retxTimeout fixedIsn random, [], [], []⟩

/-- One operation, and what it has put on the queue. -/
def step (t : Trace) (op : Op) : Option Trace :=
  match TCPSender.step t.sender op with
  | none => none
  | some s =>
      let pushed := s.segmentsOut.drop t.sender.segmentsOut.length
      match op with
      | .write data =>
          some { t with
            sender := s
            written := t.written ++ data.take (t.sender.stream.write data).1 }
      | .fillWindow => some { t with sender := s, firsts := t.firsts ++ pushed }
      | .ackReceived _ _ => some { t with sender := s, firsts := t.firsts ++ pushed }
      | .tick _ => some { t with sender := s, others := t.others ++ pushed }
      | .sendEmptySegment => some { t with sender := s, others := t.others ++ pushed }
      | .endInput => some { t with sender := s }
      | .readASegment => some { t with sender := s }

end Trace

/-! ## The invariant -/

/-- `firsts` are the first transmissions of `s`, whose stream has accepted the bytes
`written`. -/
structure Sent (firsts : List TCPSegment) (written : List UInt8) (s : TCPSender) : Prop where
  tiles : Tiles lengthInSequenceSpace (fun a seg => seg.header.seqno = wrap a s.isn) 0 firsts
    s.nextSeqno
  opened : ∀ seg rest, firsts = seg :: rest →
    seg = { header := { seqno := wrap 0 s.isn, syn := true } } ∧
      ∀ x ∈ rest, x.header.syn = false
  payloads : (firsts.map (·.payload)).flatten ++ s.stream.stream = written
  payload_le : ∀ seg ∈ firsts, seg.payload.length ≤ TCPConfig.MAX_PAYLOAD_SIZE
  finSent : s.finSent = false → ∀ seg ∈ firsts, seg.header.fin = false
  fin_last : ∀ seg ∈ firsts.dropLast, seg.header.fin = false
  outstanding : ∃ acked, firsts = acked ++ s.outstandingSegments

/-- At first nothing is sent. -/
theorem sent_new (cap : Nat) (rt : UInt16) (i : Option WrappingInt32) (x : UInt32) :
    Sent [] [] (new cap rt i x) where
  tiles := rfl
  opened := by simp
  payloads := rfl
  payload_le := by simp
  finSent := by simp
  fin_last := by simp
  outstanding := ⟨[], rfl⟩

/-- The invariant speaks of these members only. -/
theorem Sent.congr (h : Sent firsts written s) (h1 : t.isn = s.isn)
    (h2 : t.nextSeqno = s.nextSeqno) (h3 : t.stream.stream = s.stream.stream)
    (h4 : t.finSent = s.finSent) (h5 : t.outstandingSegments = s.outstandingSegments) :
    Sent firsts written t where
  tiles := by rw [h1, h2]; exact h.tiles
  opened := by rw [h1]; exact h.opened
  payloads := by rw [h3]; exact h.payloads
  payload_le := h.payload_le
  finSent := by rw [h4]; exact h.finSent
  fin_last := h.fin_last
  outstanding := by rw [h5]; exact h.outstanding

/-- Something has been sent as soon as the next number is not 0. -/
theorem Sent.eq_nil_iff (h : Sent firsts written s) : firsts = [] ↔ s.nextSeqno = 0 := by
  have htiles := h.tiles
  cases firsts with
  | nil => exact iff_of_true rfl htiles.symm
  | cons seg rest =>
      refine iff_of_false (by simp) fun h0 => ?_
      have hle := htiles.2.le
      rw [h0, (h.opened seg rest rfl).1] at hle
      simp [lengthInSequenceSpace] at hle

/-- A lone SYN is sent first; nothing sent after it is a SYN. -/
theorem Sent.opened_concat (h : Sent firsts written s) (htr : Transmit s seg t)
    (hx : firsts ++ [seg] = x :: rest) :
    x = { header := { seqno := wrap 0 t.isn, syn := true } } ∧ ∀ y ∈ rest, y.header.syn = false := by
  rw [htr.isn_eq]
  rcases htr.kind with ho | hc
  · rw [h.eq_nil_iff.mpr ho.nextSeqno_eq, List.nil_append, List.cons.injEq] at hx
    obtain ⟨rfl, rfl⟩ := hx
    have hheader := htr.header_eq
    rw [ho.nextSeqno_eq, ho.syn_eq, ho.fin_eq] at hheader
    refine ⟨?_, by simp⟩
    rw [← hheader, ← ho.payload_eq]
  · cases firsts with
    | nil => exact absurd (h.eq_nil_iff.mp rfl) hc.nextSeqno_ne
    | cons y ys =>
        rw [List.cons_append, List.cons.injEq] at hx
        obtain ⟨rfl, rfl⟩ := hx
        obtain ⟨hsyn, hrest⟩ := h.opened y ys rfl
        refine ⟨hsyn, fun z hz => ?_⟩
        rcases List.mem_append.mp hz with hz | hz
        · exact hrest z hz
        · exact List.mem_singleton.mp hz ▸ hc.syn_eq

/-- **One transmission** prolongs the list by one. -/
theorem Sent.transmit (h : Sent firsts written s) (htr : Transmit s seg t) :
    Sent (firsts ++ [seg]) written t where
  tiles := by
    rw [htr.nextSeqno_eq, htr.isn_eq]
    exact h.tiles.concat htr.seqno_eq
  opened := fun _ _ hx => h.opened_concat htr hx
  payloads := by
    have hpay := h.payloads
    simp only [List.map_append, List.map_cons, List.map_nil, List.flatten_append,
      List.flatten_cons, List.flatten_nil, List.append_nil, List.append_assoc]
    rcases htr.kind with ho | hc
    · rw [ho.payload_eq, ho.stream_eq, List.nil_append, hpay]
    · rw [hc.stream_eq, ByteStream.read_stream]
      conv => lhs; rhs; lhs; rw [hc.payload_eq]
      rw [List.take_append_drop, hpay]
  payload_le := by
    intro x hx
    rcases List.mem_append.mp hx with hx | hx
    · exact h.payload_le x hx
    · rw [List.mem_singleton.mp hx]
      rcases htr.kind with ho | hc
      · rw [ho.payload_eq]
        exact Nat.zero_le _
      · exact hc.payload_le
  finSent := by
    intro hfs x hx
    rcases List.mem_append.mp hx with hx | hx
    · exact h.finSent htr.notFinSent x hx
    · rw [List.mem_singleton.mp hx]
      rcases htr.kind with ho | hc
      · exact ho.fin_eq
      · exact hc.finSent_eq.symm.trans hfs
  fin_last := by
    rw [List.dropLast_concat]
    exact h.finSent htr.notFinSent
  outstanding := by
    obtain ⟨acked, hacked⟩ := h.outstanding
    exact ⟨acked, by rw [htr.outstandingSegments_eq, hacked, List.append_assoc]⟩

/-- A run of transmissions prolongs the list by what it sends. -/
theorem Sent.steps (h : Sent firsts written s) (hsteps : Steps Transmit s segs t) :
    Sent (firsts ++ segs) written t :=
  hsteps.invariant (P := fun t l => Sent l written t) (fun _ _ _ _ h htr => h.transmit htr) h

/-- Retiring outstanding segments leaves the list alone. -/
theorem Sent.retires (h : Sent firsts written s) (hret : Retires (s.accept a win) popped u) :
    Sent firsts written u := by
  have hout : s.outstandingSegments = popped ++ u.outstandingSegments :=
    hret.outstandingSegments_eq
  obtain ⟨acked, hacked⟩ := h.outstanding
  refine ⟨?_, ?_, ?_, h.payload_le, ?_, h.fin_last, acked ++ popped, ?_⟩
  · rw [hret.nextSeqno_eq, hret.isn_eq]
    exact h.tiles
  · rw [hret.isn_eq]
    exact h.opened
  · rw [hret.stream_eq]
    exact h.payloads
  · rw [hret.finSent_eq]
    exact h.finSent
  · rw [hacked, hout, List.append_assoc]

/-! ## Where the next number stands -/

/-- Nothing has been sent yet, or the next number counts the SYN, the bytes taken
from the stream and the FIN. -/
def Counted (s : TCPSender) : Prop :=
  (s.nextSeqno = 0 ∧ s.stream.bytesRead = 0 ∧ s.finSent = false) ∨
    s.nextSeqno = 1 + s.stream.bytesRead + s.finSent.toNat

/-- At first nothing is counted. -/
theorem counted_new (cap : Nat) (rt : UInt16) (i : Option WrappingInt32) (x : UInt32) :
    (new cap rt i x).Counted := .inl ⟨rfl, rfl, rfl⟩

/-- A segment is counted when it is sent. -/
theorem Counted.transmit (h : Counted s) (htr : Transmit s seg t) : Counted t := by
  have hopen := htr.notFinSent
  right
  rw [htr.nextSeqno_eq, lengthInSequenceSpace]
  rcases htr.kind with ho | hc
  · have hread : s.stream.bytesRead = 0 := by
      rcases h with h | h
      · exact h.2.1
      · rw [ho.nextSeqno_eq] at h
        omega
    simp [ho.nextSeqno_eq, ho.stream_eq, ho.finSent_eq, ho.payload_eq, ho.syn_eq, ho.fin_eq, hread]
  · have hnext : s.nextSeqno = 1 + s.stream.bytesRead := by
      rcases h with h | h
      · exact absurd h.1 hc.nextSeqno_ne
      · simpa [hopen] using h
    rw [hc.stream_eq, ByteStream.read_bytesRead, hc.finSent_eq, hc.syn_eq, hnext,
      Nat.min_eq_left hc.payload_length_le]
    cases seg.header.fin <;> simp <;> omega

theorem Counted.congr (h : Counted s) (h1 : t.nextSeqno = s.nextSeqno)
    (h2 : t.stream.bytesRead = s.stream.bytesRead) (h3 : t.finSent = s.finSent) : Counted t := by
  unfold Counted
  rw [h1, h2, h3]
  exact h

theorem Counted.fillWindow (h : Counted s) : Counted s.fillWindow := by
  obtain ⟨segs, hsteps⟩ := s.fillWindow_steps
  exact hsteps.preserves (fun _ _ _ h htr => h.transmit htr) h

theorem Counted.absAckReceived (h : Counted s) (hack : s.absAckReceived a win = t) :
    Counted t := by
  rcases absAckReceived_cases hack with ⟨-, rfl⟩ | ⟨-, -, popped, u, hret, -, hend⟩
  · exact h
  have hu : Counted u := h.congr hret.nextSeqno_eq (by rw [hret.stream_eq]; rfl) hret.finSent_eq
  rcases hend with ⟨_, _, -, -, rfl⟩ | ⟨-, v, hv, rfl⟩
  · exact hu
  · have hvc : Counted v := by
      rw [← hv]
      split
      · exact hu
      · exact hu.fillWindow
    exact hvc

/-! ## What a run of transmissions pushes -/

/-- Segments are queued in order. -/
theorem segmentsOut_of_steps (hsteps : Steps Transmit s segs t) :
    t.segmentsOut = s.segmentsOut ++ segs := by
  have hinit : s.segmentsOut = s.segmentsOut ++ [] := (List.append_nil _).symm
  refine hsteps.invariant (P := fun t l => t.segmentsOut = s.segmentsOut ++ l) ?_ hinit
  intro u seg v l hu htr
  rw [htr.segmentsOut_eq, hu, List.append_assoc]

/-- A FIN is the end of a run of transmissions, with the stream at its end. -/
theorem eof_of_steps (hsteps : Steps Transmit s segs t) (hseg : seg ∈ segs)
    (hfin : seg.header.fin = true) : t.stream.eof = true := by
  have hinit : ∀ seg ∈ ([] : List TCPSegment), seg.header.fin = true →
      s.finSent = true ∧ s.stream.eof = true := by simp
  refine (hsteps.invariant (P := fun t l => ∀ seg ∈ l, seg.header.fin = true →
    t.finSent = true ∧ t.stream.eof = true) ?_ hinit seg hseg hfin).2
  intro u x v l hu htr y hy hf
  rcases List.mem_append.mp hy with hy | hy
  · -- after a FIN nothing is transmitted
    have hnot := htr.notFinSent
    rw [(hu y hy hf).1] at hnot
    contradiction
  · rw [List.mem_singleton.mp hy] at hf
    rcases htr.kind with ho | hc
    · rw [ho.fin_eq] at hf
      contradiction
    · exact ⟨hc.finSent_eq.trans hf, hc.eof_of_fin hf⟩

/-- What `fill_window` pushes are first transmissions. -/
theorem Sent.fillWindow (h : Sent firsts written s) :
    ∃ segs, s.fillWindow.segmentsOut = s.segmentsOut ++ segs ∧
      Sent (firsts ++ segs) written s.fillWindow ∧
      ∀ seg ∈ segs, seg.header.fin = true → s.fillWindow.stream.eof = true := by
  obtain ⟨segs, hsteps⟩ := s.fillWindow_steps
  exact ⟨segs, segmentsOut_of_steps hsteps, h.steps hsteps, fun _ => eof_of_steps hsteps⟩

/-- So is what `ack_received` pushes. -/
theorem Sent.absAckReceived (h : Sent firsts written s) (hack : s.absAckReceived a win = t) :
    ∃ segs, t.segmentsOut = s.segmentsOut ++ segs ∧ Sent (firsts ++ segs) written t ∧
      ∀ seg ∈ segs, seg.header.fin = true → t.stream.eof = true := by
  have hnone : ∀ u : TCPSender, Sent firsts written u → u.segmentsOut = s.segmentsOut →
      ∃ segs, u.segmentsOut = s.segmentsOut ++ segs ∧ Sent (firsts ++ segs) written u ∧
        ∀ seg ∈ segs, seg.header.fin = true → u.stream.eof = true :=
    fun u hu hout => ⟨[], by simpa using hout, by simpa using hu, by simp⟩
  rcases absAckReceived_cases hack with ⟨-, rfl⟩ | ⟨-, -, popped, u, hret, -, hend⟩
  · exact hnone s h rfl
  have hu := h.retires hret
  have hout : u.segmentsOut = s.segmentsOut := hret.segmentsOut_eq
  rcases hend with ⟨_, _, -, -, rfl⟩ | ⟨-, v, hv, rfl⟩
  · exact hnone u hu hout
  · -- the timer that is set last is not part of the record
    have hset : ∃ segs, v.segmentsOut = s.segmentsOut ++ segs ∧ Sent (firsts ++ segs) written v ∧
        ∀ seg ∈ segs, seg.header.fin = true → v.stream.eof = true := by
      rw [← hv]
      split
      · exact hnone u hu hout
      · exact hout ▸ hu.fillWindow
    obtain ⟨segs, h1, h2, h3⟩ := hset
    exact ⟨segs, h1, h2.congr rfl rfl rfl rfl rfl, h3⟩

/-! ## Runs -/

/-- The record of a trace is right. -/
structure Recorded (t : Trace) : Prop where
  sent : Sent t.firsts t.written t.sender
  others_mem : ∀ seg ∈ t.others, seg.lengthInSequenceSpace ≠ 0 → seg ∈ t.firsts
  out_mem : ∀ seg ∈ t.sender.segmentsOut, seg ∈ t.firsts ∨ seg ∈ t.others

/-- At first nothing is recorded. -/
theorem recorded_new (cap : Nat) (rt : UInt16) (i : Option WrappingInt32) (x : UInt32) :
    Recorded (Trace.new cap rt i x) :=
  ⟨sent_new cap rt i x, by simp [Trace.new], by simp [Trace.new, new]⟩

/-- New first transmissions keep the record. -/
theorem Recorded.push_firsts {t : Trace} (ht : Recorded t)
    (hout : s.segmentsOut = t.sender.segmentsOut ++ segs)
    (hs : Sent (t.firsts ++ segs) t.written s) :
    Recorded { t with
      sender := s
      firsts := t.firsts ++ s.segmentsOut.drop t.sender.segmentsOut.length } := by
  rw [hout, List.drop_left]
  refine ⟨hs, ?_, ?_⟩
  · exact fun seg hseg hlen => List.mem_append_left _ (ht.others_mem seg hseg hlen)
  · intro seg hseg
    rw [hout] at hseg
    rcases List.mem_append.mp hseg with hseg | hseg
    · exact (ht.out_mem seg hseg).imp_left (List.mem_append_left _)
    · exact .inl (List.mem_append_right _ hseg)

/-- So does any other segment that is empty or was sent before. -/
theorem Recorded.push_other {t : Trace} (ht : Recorded t)
    (hout : s.segmentsOut = t.sender.segmentsOut ++ [x])
    (hs : Sent t.firsts t.written s) (hx : x.lengthInSequenceSpace ≠ 0 → x ∈ t.firsts) :
    Recorded { t with
      sender := s
      others := t.others ++ s.segmentsOut.drop t.sender.segmentsOut.length } := by
  rw [hout, List.drop_left]
  refine ⟨hs, ?_, ?_⟩
  · intro seg hseg hlen
    rcases List.mem_append.mp hseg with hseg | hseg
    · exact ht.others_mem seg hseg hlen
    · exact List.mem_singleton.mp hseg ▸ hx (List.mem_singleton.mp hseg ▸ hlen)
  · intro seg hseg
    rw [hout] at hseg
    rcases List.mem_append.mp hseg with hseg | hseg
    · exact (ht.out_mem seg hseg).imp_right (List.mem_append_left _)
    · exact .inr (List.mem_append_right _ hseg)

/-- Writing to the stream appends what it accepts. -/
theorem Sent.write (h : Sent firsts written s) (data : List UInt8) :
    Sent firsts (written ++ data.take (s.stream.write data).1)
      { s with stream := (s.stream.write data).2 } where
  tiles := h.tiles
  opened := h.opened
  payloads := by
    simp only [ByteStream.write_stream, ByteStream.write_fst, ← List.append_assoc, h.payloads]
    rw [Nat.min_comm, ← List.take_take, List.take_length]
  payload_le := h.payload_le
  finSent := h.finSent
  fin_last := h.fin_last
  outstanding := h.outstanding

/-- **One operation** keeps the record, and a FIN sent by it leaves the stream at its
end. -/
theorem Recorded.of_step {t t' : Trace} {op : Op} (ht : Recorded t) (h : t.step op = some t') :
    Recorded t' ∧ ∀ seg ∈ t'.firsts.drop t.firsts.length, seg.header.fin = true →
      t'.sender.stream.eof = true := by
  have hs := ht.sent
  cases op with
  | write data =>
      simp only [Trace.step, TCPSender.step, Option.some.injEq] at h
      subst h
      exact ⟨⟨hs.write data, ht.others_mem, ht.out_mem⟩, by simp⟩
  | endInput =>
      simp only [Trace.step, TCPSender.step, Option.some.injEq] at h
      subst h
      exact ⟨⟨hs.congr rfl rfl rfl rfl rfl, ht.others_mem, ht.out_mem⟩, by simp⟩
  | fillWindow =>
      simp only [Trace.step, TCPSender.step, Option.some.injEq] at h
      subst h
      obtain ⟨segs, hout, hsent, hfin⟩ := hs.fillWindow
      refine ⟨ht.push_firsts hout hsent, ?_⟩
      simpa [hout] using hfin
  | ackReceived ackno win =>
      simp only [Trace.step, TCPSender.step, Option.some.injEq] at h
      subst h
      obtain ⟨segs, hout, hsent, hfin⟩ := hs.absAckReceived rfl
      refine ⟨ht.push_firsts hout hsent, ?_⟩
      simpa [TCPSender.ackReceived, hout] using hfin
  | tick ms =>
      simp only [Trace.step, TCPSender.step, Option.some.injEq] at h
      subst h
      refine ⟨?_, by simp⟩
      rcases tick_cases (t := t.sender.tick ms) rfl with ⟨time, htick⟩ |
          ⟨seg, rest, time, timeout, count, hst, htick⟩
      · rw [← htick]
        simp only [List.drop_length, List.append_nil]
        exact ⟨hs.congr rfl rfl rfl rfl rfl, ht.others_mem, ht.out_mem⟩
      · obtain ⟨acked, hacked⟩ := hs.outstanding
        have hmem : seg ∈ t.firsts := by
          rw [hacked, hst]
          simp
        refine ht.push_other (x := seg) (by rw [← htick]) ?_ fun _ => hmem
        rw [← htick]
        exact hs.congr rfl rfl rfl rfl rfl
  | sendEmptySegment =>
      simp only [Trace.step, TCPSender.step, Option.some.injEq] at h
      subst h
      exact ⟨ht.push_other rfl (hs.congr rfl rfl rfl rfl rfl) fun hne => absurd rfl hne, by simp⟩
  | readASegment =>
      simp only [Trace.step, TCPSender.step, readASegment_snd, Option.some.injEq] at h
      subst h
      exact ⟨⟨hs.congr rfl rfl rfl rfl rfl, ht.others_mem,
        fun seg hseg => ht.out_mem seg (List.mem_of_mem_tail hseg)⟩, by simp⟩

/-- **Every run** is recorded. -/
theorem exec_recorded (h : exec Trace.step (Trace.new cap rt i x) ops = some t) : Recorded t :=
  exec_invariant (fun _ _ _ ht hstep => (ht.of_step hstep).1) (recorded_new cap rt i x) h

/-- **First transmissions tile the sequence space**: in every state a run reaches,
they start with a lone SYN at 0 and lie end to end up to `_next_seqno`, each
with the number of its place; their payloads, none too long, are the bytes
popped from the stream; a FIN is the last of them and is sent with the stream
at its end; and every other segment on `segments_out` that occupies sequence
numbers is one of them. -/
theorem first_transmissions_tile (h : exec Trace.step (Trace.new cap rt i x) ops = some t) :
    Tiles lengthInSequenceSpace (fun a seg => seg.header.seqno = wrap a t.sender.isn) 0 t.firsts
      t.sender.nextSeqno ∧
    (∀ seg rest, t.firsts = seg :: rest →
      seg = { header := { seqno := wrap 0 t.sender.isn, syn := true } } ∧
        ∀ y ∈ rest, y.header.syn = false) ∧
    (t.firsts.map (·.payload)).flatten ++ t.sender.stream.stream = t.written ∧
    (∀ seg ∈ t.firsts, seg.payload.length ≤ TCPConfig.MAX_PAYLOAD_SIZE) ∧
    (∀ l seg m, t.firsts = l ++ seg :: m → seg.header.fin = true → m = []) ∧
    (∀ op t', Trace.step t op = some t' →
      ∀ seg ∈ t'.firsts.drop t.firsts.length, seg.header.fin = true →
        t'.sender.stream.inputEnded = true ∧ t'.sender.stream.bufferSize = 0) ∧
    (∀ seg ∈ t.others, seg.lengthInSequenceSpace ≠ 0 → seg ∈ t.firsts) ∧
    (∀ seg ∈ t.sender.segmentsOut, seg ∈ t.firsts ∨ seg ∈ t.others) := by
  have ht := exec_recorded h
  have hs := ht.sent
  refine ⟨hs.tiles, hs.opened, hs.payloads, hs.payload_le, ?_, ?_, ht.others_mem, ht.out_mem⟩
  · intro l seg m heq hfin
    cases m with
    | nil => rfl
    | cons y ys =>
        have hmem : seg ∈ t.firsts.dropLast := by
          rw [heq, List.dropLast_append_of_ne_nil (by simp),
            List.dropLast_cons_of_ne_nil (by simp)]
          simp
        rw [hs.fin_last seg hmem] at hfin
        contradiction
  · intro op t' hstep seg hseg hfin
    exact (ByteStream.eof_eq_true _).mp ((ht.of_step hstep).2 seg hseg hfin)

/-- `"abc"` and the FIN through windows of 2 and 3, with a retransmission. -/
theorem first_transmissions_tile_close :
    ∃ t, exec Trace.step (Trace.new 8 10 (some ⟨4294967295⟩) 0)
        [.fillWindow, .ackReceived ⟨0⟩ 2, .write [97, 98, 99], .fillWindow, .tick 10, .endInput,
          .ackReceived ⟨2⟩ 3] = some t ∧
      t.firsts.length = 3 ∧ t.others.length = 1 ∧
      (t.firsts.map (·.payload)).flatten ++ t.sender.stream.stream = [97, 98, 99] :=
  have hrun : exec Trace.step (Trace.new 8 10 (some ⟨4294967295⟩) 0)
      [.fillWindow, .ackReceived ⟨0⟩ 2, .write [97, 98, 99], .fillWindow, .tick 10, .endInput,
        .ackReceived ⟨2⟩ 3] = some _ := rfl
  ⟨_, hrun, by decide, by decide, (first_transmissions_tile hrun).2.2.1⟩

end TCPSender

end Sponge
