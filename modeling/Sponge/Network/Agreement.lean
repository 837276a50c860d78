import Sponge.Network.Delivery
import Sponge.TCPConnection.Close

/-!
# Sponge.Network.Agreement

What one side counts as acknowledged, the other side has consumed.

The number that goes back is `abs_seqno`, which is not tied to the reassembler.
Two things can put it ahead of what was consumed.  After the FIN, an empty
segment moves it past the end of all that was sent; such a number is out of
bounds for the sender, which ignores it, so it does no harm (`Covered`).  And a
FIN that finds the buffer full is acknowledged although `push_substring` has
turned it away; the theorem is about runs in which this does not happen
(`DropsFin`).
-/

namespace Sponge

open TCPConnection (Op stamp)
open TCPReceiver (streamIndex)

namespace TCPReceiver

/-- The sequence numbers consumed: the SYN, the bytes written to the stream and the
FIN of a stream that has ended. -/
def consumedTo (r : TCPReceiver) : Nat :=
  1 + r.streamOut.bytesWritten + r.streamOut.inputEnded.toNat

/-- The segment has a FIN, starts at `abs_seqno` and is turned away by
`push_substring`, with nothing in front of the FIN that is still to be
acknowledged. -/
def DropsFin (r : TCPReceiver) (seg : TCPSegment) : Prop :=
  let t := (r.listen seg).tempAbsSeqno seg
  (r.firstSegment = true → seg.header.syn = true) ∧ seg.header.fin = true ∧ t = r.absSeqno ∧
    r.streamOut.inputEnded = false ∧
    (seg.payload = [] → r.streamOut.bytesWritten < r.absSeqno) ∧
    r.reassembler.Refuses (streamIndex t)

instance (r : TCPReceiver) (seg : TCPSegment) : Decidable (r.DropsFin seg) :=
  inferInstanceAs (Decidable (_ ∧ _ ∧ _ ∧ _ ∧ _ ∧ _))

end TCPReceiver

/-- The operation is the delivery of a FIN that `r` drops. -/
def TCPConnection.Op.DropsFin (r : TCPReceiver) : Op → Prop
  | .segmentReceived seg => seg.header.rst = false ∧ r.DropsFin seg
  | _ => False

instance (r : TCPReceiver) : (op : Op) → Decidable (op.DropsFin r)
  | .segmentReceived seg => inferInstanceAs (Decidable (seg.header.rst = false ∧ r.DropsFin seg))
  | .connect | .write _ | .endInputStream | .tick _ | .readInbound _ | .dequeue =>
      inferInstanceAs (Decidable False)

/-- The operation can happen and drops no FIN. -/
def Endpoint.Keeps (wire : List TCPSegment) (r : TCPReceiver) (op : Op) : Prop :=
  CanHappen wire op ∧ ¬ op.DropsFin r

/-! ## Acknowledgments that are covered -/

/-- `n` covers the acknowledgment of `a`, or the sender behind `o` will ignore it. -/
def Covered (o : Outgoing) (n a : Nat) : Prop := a ≤ n ∨ (o.fin = true ∧ o.next < a)

/-- What is covered stays covered. -/
theorem Covered.mono {o o' : Outgoing} (h : Covered o n a) (ho : o.Before o') (hn : n ≤ n') :
    Covered o' n' a := by
  rcases h with hle | ⟨hfin, hlt⟩
  · exact .inl (Nat.le_trans hle hn)
  · obtain ⟨hfin', hnext, -⟩ := ho.fin_mono hfin
    exact .inr ⟨hfin', by omega⟩

/-- What the segment acknowledges to the sender behind `o` is covered by `n`. -/
def AcksCovered (o : Outgoing) (n : Nat) (seg : TCPSegment) : Prop :=
  seg.header.ack = true → ∃ a, seg.header.ackno = wrap a o.isn ∧ a ≤ o.next + 1 ∧ Covered o n a

/-- The same of an acknowledgment on the wire. -/
theorem AcksCovered.mono {o o' : Outgoing} (h : AcksCovered o n seg) (ho : o.Before o')
    (hn : n ≤ n') : AcksCovered o' n' seg := by
  intro hack
  obtain ⟨a, hackno, hle, hcov⟩ := h hack
  exact ⟨a, ho.isn_eq ▸ hackno, Nat.le_trans hle (Nat.succ_le_succ ho.next_le), hcov.mono ho hn⟩

/-! ## The receiver -/

/-- A genuine FIN that is not turned away ends the stream. -/
theorem Receives.inputEnded_of_fin {r : TCPReceiver} {reassembler : StreamReassembler}
    (hr : Receives o consumed r) (hp : o.Proper)
    (hg : Genuine o r.reassembler.windowEnd seg start) (hfin : seg.header.fin = true)
    (hle : start ≤ r.streamOut.bytesWritten + 1)
    (hkeep : ¬ r.reassembler.Refuses (streamIndex start))
    (hpush : StreamReassembler.pushSubstring fuel r.reassembler seg.payload (streamIndex start)
      seg.header.fin = some reassembler) : reassembler.output.inputEnded = true := by
  have hshort := hp.short
  have hfits := hg.inWindow_start hp
  have hindex : streamIndex start ≤ r.reassembler.nextAssemblingIndex := by
    rw [hr.windowed.next_eq]
    simp only [TCPReceiver.streamOut] at hle
    unfold streamIndex
    split <;> omega
  rw [hfin] at hpush hfits
  refine (StreamReassembler.pushSubstring_pushes hpush).inputEnded_of_eof hkeep hindex rfl ?_
  -- within the window the index does not run ahead of the bytes written
  rw [← Bool.not_eq_true, StreamReassembler.assemble_snd_eq_true]
  rintro ⟨-, -, hlt⟩
  have heq := (hr.windowed.assemble (by omega) hp.length_lt_top hfits hindex).next_eq
  omega

/-- Once the stream has ended, `abs_seqno` goes up to the end of what was sent or, by
an empty segment there, one past it. -/
theorem Receives.covered_of_ended {r : TCPReceiver} (hr : Receives o consumed r) (hp : o.Proper)
    (hended : r.streamOut.inputEnded = true) (hle : r.absSeqno ≤ r.consumedTo)
    (hw : r.streamOut.bytesWritten ≤ w) (hn : n ≤ w + 1 ∨ n = r.absSeqno) :
    Covered o (1 + w + 1) (n + 1) := by
  obtain ⟨hfin, hall⟩ := hr.windowed.ended hended
  have hnext := hp.next_eq_of_fin hfin
  rw [TCPReceiver.consumedTo, hended, Bool.toNat_true] at hle
  simp only [TCPReceiver.streamOut] at hle hw
  rcases hn with hn | rfl
  · exact .inl (by omega)
  · by_cases hlast : r.absSeqno = o.next
    · exact .inr ⟨hfin, by omega⟩
    · exact .inl (by omega)

section push

variable {r : TCPReceiver} {reassembler : StreamReassembler}

/-- A FIN at `abs_seqno` that is not dropped ends the stream, or it comes without
payload when there are still bytes to acknowledge. -/
theorem Receives.ends_or_behind (hr : Receives o consumed r) (hp : o.Proper)
    (hg : Genuine o r.reassembler.windowEnd seg r.absSeqno)
    (hsyn : r.firstSegment = true → seg.header.syn = true) (hok : ¬ r.DropsFin seg)
    (ht : (r.listen seg).tempAbsSeqno seg = r.absSeqno)
    (hended : r.streamOut.inputEnded = false) (hle : r.absSeqno ≤ r.streamOut.bytesWritten + 1)
    (hpush : StreamReassembler.pushSubstring fuel r.reassembler seg.payload
      (streamIndex r.absSeqno) seg.header.fin = some reassembler)
    (hfin : seg.header.fin = true) :
    reassembler.output.inputEnded = true ∨
      (seg.payload = [] ∧ r.absSeqno ≤ r.streamOut.bytesWritten) := by
  by_cases hbehind : seg.payload = [] ∧ r.absSeqno ≤ r.streamOut.bytesWritten
  · exact .inr hbehind
  · refine .inl (hr.inputEnded_of_fin hp hg hfin hle (fun href => hok ?_) hpush)
    refine ⟨hsyn, hfin, ht, hended, fun hnil => ?_, by rwa [ht]⟩
    exact Nat.not_le.mp fun hc => hbehind ⟨hnil, hc⟩

/-- Where a segment that starts at `abs_seqno` moves it. -/
theorem Receives.covered_acknowledge (hr : Receives o consumed r) (hp : o.Proper)
    (hg : Genuine o r.reassembler.windowEnd seg r.absSeqno)
    (hsyn : r.firstSegment = true → seg.header.syn = true) (hok : ¬ r.DropsFin seg)
    (hc : Covered o r.consumedTo r.absSeqno)
    (ht : (r.listen seg).tempAbsSeqno seg = r.absSeqno)
    (hpush : StreamReassembler.pushSubstring fuel r.reassembler seg.payload
      (streamIndex r.absSeqno) seg.header.fin = some reassembler)
    (hn : (seg.payload ≠ [] ∧ n = reassembler.output.bytesWritten + 1) ∨
      (seg.payload = [] ∧ r.absSeqno = 0 ∧ n = 1) ∨
      (seg.payload = [] ∧ r.absSeqno ≠ 0 ∧ n = r.absSeqno)) :
    Covered o (1 + reassembler.output.bytesWritten + reassembler.output.inputEnded.toNat)
      (n + (seg.header.fin || reassembler.output.inputEnded).toNat) := by
  have hgrow := (StreamReassembler.pushSubstring_pushes hpush).output_extends
  have hwritten : r.streamOut.bytesWritten ≤ reassembler.output.bytesWritten :=
    hgrow.bytesWritten_le
  have hend := hg.end_le
  -- a segment does not start past the end of what was sent
  have hle : r.absSeqno ≤ r.consumedTo := hc.resolve_right fun hc => by omega
  have hn' : n ≤ reassembler.output.bytesWritten + 1 ∨ n = r.absSeqno := by omega
  cases hended : r.streamOut.inputEnded with
  | true =>
      rw [hgrow.inputEnded_mono hended, Bool.or_true, Bool.toNat_true]
      exact hr.covered_of_ended hp hended hle hwritten hn'
  | false =>
      rw [TCPReceiver.consumedTo, hended, Bool.toNat_false] at hle
      have hcount := hr.ends_or_behind hp hg hsyn hok ht hended (by omega) hpush
      left
      cases hended' : reassembler.output.inputEnded with
      | true =>
          rw [Bool.or_true, Bool.toNat_true]
          omega
      | false =>
          rw [Bool.or_false, Bool.toNat_false]
          cases hfin : seg.header.fin with
          | false =>
              rw [Bool.toNat_false]
              omega
          | true =>
              -- the FIN is counted in place of the byte that is to be acknowledged
              obtain ⟨hnil, hbehind⟩ := (hcount hfin).resolve_left (by simp [hended'])
              have hpos := (hg.fin hfin).2.1
              rw [Bool.toNat_true]
              rcases hn with ⟨hne, -⟩ | ⟨-, h0, -⟩ | ⟨-, -, rfl⟩
              · exact absurd hnil hne
              · omega
              · omega

end push

/-- **One segment**: what is acknowledged stays covered, unless a FIN is dropped. -/
theorem Receives.covered_segmentReceived {r r' : TCPReceiver} (hr : Receives o consumed r)
    (hp : o.Proper) (hg : Genuine o r.reassembler.windowEnd seg start)
    (hok : ¬ r.DropsFin seg) (hc : Covered o r.consumedTo r.absSeqno)
    (h : r.segmentReceived fuel seg = some r') :
    Covered o r'.consumedTo r'.absSeqno ∧ r.consumedTo ≤ r'.consumedTo := by
  rcases TCPReceiver.segmentReceived_cases h with ⟨-, -, rfl⟩ | ⟨-, -, -, rfl⟩ |
      ⟨reassembler, hsyn, -, hpush, rfl⟩
  · exact ⟨hc, Nat.le_refl _⟩
  · rw [TCPReceiver.consumedTo, TCPReceiver.listen_streamOut, TCPReceiver.listen_absSeqno]
    exact ⟨hc, Nat.le_refl _⟩
  have hgrow := (StreamReassembler.pushSubstring_pushes hpush).output_extends
  have hl := hr.listen hg hsyn
  have hplace := hg.tempAbsSeqno_eq hp (hl.isn_eq (TCPReceiver.listen_firstSegment hsyn))
    hl.absSeqno_le
  have hmono : r.consumedTo ≤
      1 + reassembler.output.bytesWritten + reassembler.output.inputEnded.toNat :=
    Nat.add_le_add (Nat.add_le_add_left hgrow.bytesWritten_le 1)
      (Bool.toNat_le_toNat hgrow.inputEnded_mono)
  rw [TCPReceiver.consumedTo, TCPReceiver.acknowledge_streamOut]
  refine ⟨?_, hmono⟩
  rcases TCPReceiver.acknowledge_absSeqno_cases
      { r.listen seg with reassembler := reassembler } ((r.listen seg).tempAbsSeqno seg) seg with
    ⟨-, heq⟩ | ⟨ht, n, hn, heq⟩
  · rw [heq, TCPReceiver.listen_absSeqno]
    exact hc.mono (.refl _) hmono
  · rw [heq]
    simp only [TCPReceiver.listen_absSeqno] at ht
    have hstart : start = r.absSeqno := by
      have habs := hr.absSeqno_le
      have hlt := hp.next_lt
      rw [TCPReceiver.listen_absSeqno] at hplace
      omega
    subst hstart
    rw [ht] at hpush hn
    exact hr.covered_acknowledge hp hg hsyn hok hc ht hpush hn

/-- What the receiver stamps on a segment is covered. -/
theorem Receives.acksCovered {r : TCPReceiver} (hr : Receives o consumed r)
    (hack : seg.header.ack = false) (hc : Covered o r.consumedTo r.absSeqno) :
    AcksCovered o r.consumedTo (stamp r seg) := by
  intro h
  cases hfirst : r.firstSegment with
  | true => simp [stamp, TCPReceiver.ackno, hfirst, hack] at h
  | false =>
      refine ⟨r.absSeqno, ?_, hr.absSeqno_le, hc⟩
      simp [stamp, TCPReceiver.ackno, hfirst, hr.isn_eq hfirst]

/-! ## The sender -/

/-- The acknowledged position of the sender stays covered. -/
theorem Sends.confirmedSeqno_ackReceived {s : TCPSender} (hs : Sends written W s)
    (hshort : written.length < 2 ^ 31) (hack : AcksCovered (s.outgoing written) n seg)
    (h : seg.header.ack = true) (hle : s.confirmedSeqno ≤ n) :
    (s.ackReceived seg.header.ackno seg.header.win).confirmedSeqno ≤ n := by
  obtain ⟨a, hackno, hbound, hcov⟩ := hack h
  rw [TCPSender.ackReceived, TCPSender.absAckReceived_confirmedSeqno, hackno]
  split
  · next hin =>
      have heq : unwrap (wrap a (s.outgoing written).isn) s.isn s.nextSeqno = a :=
        unwrap_ackno (hs.proper hshort) hbound hin.2
      rw [heq] at hin ⊢
      -- a number past the end is not accepted
      refine hcov.resolve_right fun hpast => ?_
      have hlt : s.nextSeqno < a := hpast.2
      omega
  · exact hle

/-! ## The network -/

/-- What `p` counts as acknowledged and what `q` acknowledges is covered by what `q`
has consumed. -/
structure Agrees (p q : Endpoint) : Prop where
  confirmed_le : p.conn.sender.confirmedSeqno ≤ q.conn.receiver.consumedTo
  absSeqno : Covered p.outgoing q.conn.receiver.consumedTo q.conn.receiver.absSeqno
  queue : ∀ seg ∈ q.conn.segmentsOut, AcksCovered p.outgoing q.conn.receiver.consumedTo seg
  wire : ∀ seg ∈ q.wire, AcksCovered p.outgoing q.conn.receiver.consumedTo seg

/-- At first nothing is acknowledged. -/
theorem agrees_new (cfgA cfgB : TCPConfig) (x y : UInt32) :
    Agrees (.new cfgA x) (.new cfgB y) where
  confirmed_le := Nat.zero_le _
  absSeqno := .inl (Nat.zero_le _)
  queue := by simp [Endpoint.new, TCPConnection.new]
  wire := by simp [Endpoint.new]

/-- Each small change of the sending side. -/
theorem Agrees.micro_sender {p p' q : Endpoint} (h : Agrees p q) (hpq : Sound p q)
    (hshort : p.written.length < 2 ^ 31) (hbefore : p.Before p')
    (hm : p.Micro fuel r₀ (Endpoint.CanHappen q.wire) p') : Agrees p' q := by
  have hconf : p'.conn.sender.confirmedSeqno ≤ q.conn.receiver.consumedTo := by
    have hle := h.confirmed_le
    cases hm with
    | conn op c hquiet hcan hm =>
        cases hm with
        | fill => exact (TCPSender.fillWindow_confirmedSeqno _).symm ▸ hle
        | write data => exact hquiet.elim
        | endInput => exact (TCPSender.fillWindow_confirmedSeqno _).symm ▸ hle
        | ack seg _ hrst hack =>
            exact hpq.sends.confirmedSeqno_ackReceived hshort (h.wire seg hcan) hack hle
        | tick ms => exact (p.conn.sender.tick_frame ms).2.2.2.1.symm ▸ hle
        | _ => exact hle
    | write data => exact hle
    | read len => exact hle
    | publish => exact hle
  exact ⟨hconf, h.absSeqno.mono hbefore.outgoing (Nat.le_refl _),
    fun seg hseg => (h.queue seg hseg).mono hbefore.outgoing (Nat.le_refl _),
    fun seg hseg => (h.wire seg hseg).mono hbefore.outgoing (Nat.le_refl _)⟩

/-- A change of the receiver that consumes on. -/
theorem Agrees.receiver {p q : Endpoint} {r : TCPReceiver} (h : Agrees p q)
    (hc : Covered p.outgoing r.consumedTo r.absSeqno)
    (hle : q.conn.receiver.consumedTo ≤ r.consumedTo) :
    Agrees p { q with conn := { q.conn with receiver := r }, consumed := consumed } where
  confirmed_le := Nat.le_trans h.confirmed_le hle
  absSeqno := hc
  queue := fun seg hseg => (h.queue seg hseg).mono (.refl _) hle
  wire := fun seg hseg => (h.wire seg hseg).mono (.refl _) hle

/-- The other side's sender does not matter. -/
theorem Agrees.sender {p q : Endpoint} (h : Agrees p q) (s : TCPSender) :
    Agrees p { q with conn := { q.conn with sender := s } } :=
  ⟨h.confirmed_le, h.absSeqno, h.queue, h.wire⟩

/-- Each small change of the receiving side, in an operation that drops no FIN. -/
theorem Agrees.micro_receiver {p q q' : Endpoint} (h : Agrees p q) (hpq : Sound p q)
    (hqp : Sound q p) (hshort : p.written.length < 2 ^ 31)
    (hm : q.Micro fuel r₀ (Endpoint.Keeps p.wire r₀) q') :
    Agrees p q' := by
  cases hm with
  | conn op c hquiet hcan hm =>
      cases hm with
      | fill => exact h.sender _
      | write data => exact hquiet.elim
      | endInput => exact h.sender _
      | ack seg _ hrst hack => exact h.sender _
      | tick ms => exact h.sender _
      | empty => exact h.sender _
      | flush =>
          refine ⟨h.confirmed_le, h.absSeqno, fun seg hseg => ?_, h.wire⟩
          rcases List.mem_append.mp hseg with hold | hnew
          · exact h.queue seg hold
          · obtain ⟨x, hx, rfl⟩ := List.mem_map.mp hnew
            exact hqp.receives.acksCovered (hqp.sends.queued x hx).1 h.absSeqno
      | receive seg _ r hrst hbefore hr =>
          obtain ⟨start, hg⟩ := (hpq.wire seg hcan.1).1
          have hok : ¬ q.conn.receiver.DropsFin seg :=
            fun hdrop => hcan.2 ⟨hrst, hbefore ▸ hdrop⟩
          obtain ⟨hc, hle⟩ := hqp.receives.covered_segmentReceived (hpq.sends.proper hshort) hg hok
            h.absSeqno hr
          exact h.receiver hc hle
      | read len => exact hquiet.elim
      | sendRst =>
          refine ⟨h.confirmed_le, h.absSeqno, fun seg hseg => ?_, h.wire⟩
          rw [List.mem_singleton.mp hseg]
          simp [AcksCovered, TCPConnection.rstSegment]
      | dequeue =>
          exact ⟨h.confirmed_le, h.absSeqno,
            fun seg hseg => h.queue seg (List.mem_of_mem_tail hseg), h.wire⟩
      | reset => exact ⟨h.confirmed_le, h.absSeqno, h.queue, h.wire⟩
      | note => exact ⟨h.confirmed_le, h.absSeqno, h.queue, h.wire⟩
  | write data => exact ⟨h.confirmed_le, h.absSeqno, h.queue, h.wire⟩
  | read len =>
      have hsame : (q.conn.receiver.readOut len).2.consumedTo = q.conn.receiver.consumedTo := by
        simp [TCPReceiver.consumedTo]
      have hc : Covered p.outgoing (q.conn.receiver.readOut len).2.consumedTo
          (q.conn.receiver.readOut len).2.absSeqno := hsame ▸ h.absSeqno
      exact h.receiver hc (Nat.le_of_eq hsame.symm)
  | publish =>
      refine ⟨h.confirmed_le, h.absSeqno, h.queue, fun seg hseg => ?_⟩
      exact (List.mem_append.mp hseg).elim (h.wire seg) (h.queue seg)

namespace Network

/-- The step delivers to `B` a FIN that its receiver drops. -/
def DropsFin (n : Network) : Side × Op → Prop
  | (.A, _) => False
  | (.B, op) => op.DropsFin n.b.conn.receiver

instance (n : Network) : (act : Side × Op) → Decidable (n.DropsFin act)
  | (.A, _) => inferInstanceAs (Decidable False)
  | (.B, op) => inferInstanceAs (Decidable (op.DropsFin n.b.conn.receiver))

/-- **One step** keeps what `A` counts as acknowledged covered by what `B` has
consumed, unless a FIN is dropped. -/
theorem agrees_step {n n' : Network} (hn : n.Sound) (h : Agrees n.a n.b) (hshort : n'.Short)
    (hok : ¬ n.DropsFin act) (hstep : n.step fuel act = some n') : Agrees n'.a n'.b := by
  obtain ⟨side, op⟩ := act
  cases side with
  | A =>
      obtain ⟨a, ha, rfl⟩ := Option.map_eq_some_iff.mp hstep
      refine (Endpoint.step_preserves (P := fun u => u.written.length < 2 ^ 31 →
          (Sponge.Sound u n.b ∧ Sponge.Sound n.b u) ∧ Agrees u n.b)
        (Endpoint.step_eq_some.mp ha).1 trivial (fun _ => ⟨hn, h⟩) ?_ ha hshort.1).2
      intro u v hu hm hv
      have hlen := Nat.lt_of_le_of_lt hm.written_le hv
      obtain ⟨⟨hub, hbu⟩, hagree⟩ := hu hlen
      obtain ⟨-, hbefore⟩ := hub.micro_self hbu hv hshort.2 hm
      exact ⟨hub.micro hbu hv hshort.2 hm, hagree.micro_sender hub hlen hbefore hm⟩
  | B =>
      obtain ⟨b, hb, rfl⟩ := Option.map_eq_some_iff.mp hstep
      have hkeep : Endpoint.Keeps n.a.wire n.b.conn.receiver op :=
        ⟨(Endpoint.step_eq_some.mp hb).1, hok⟩
      refine (Endpoint.step_preserves (P := fun u => u.written.length < 2 ^ 31 →
          (Sponge.Sound u n.a ∧ Sponge.Sound n.a u) ∧ Agrees n.a u)
        hkeep ⟨trivial, id⟩ (fun _ => ⟨hn.symm, h⟩) ?_ hb hshort.2).2
      intro u v hu hm hv
      obtain ⟨⟨hua, hau⟩, hagree⟩ := hu (Nat.lt_of_le_of_lt hm.written_le hv)
      exact ⟨hua.micro hau hv hshort.1 (hm.imp fun _ => And.left),
        hagree.micro_receiver hau hua hshort.1 hm⟩

/-- **Every run** that loses no FIN keeps both sides in agreement. -/
theorem exec_agrees
    (hok : Along (step fuel) (fun n act => ¬ n.DropsFin act) (new cfgA cfgB randomA randomB) acts)
    (h : exec (step fuel) (new cfgA cfgB randomA randomB) acts = some n) (hshort : n.Short) :
    n.Sound ∧ Agrees n.a n.b := by
  refine exec_invariant_along (P := fun n => n.Short → n.Sound ∧ Agrees n.a n.b) ?_ ?_ hok h hshort
  · intro n act n' hn hact hstep hs
    obtain ⟨hsound, hagree⟩ := hn (hs.of_step hstep)
    exact ⟨hsound.of_step hs hstep, agrees_step hsound hagree hs hact hstep⟩
  · exact fun _ => ⟨⟨sound_new _ _ _, sound_new _ _ _⟩, agrees_new _ _ _ _⟩

/-- Both senders account for what they have in flight. -/
theorem exec_accounted
    (h : exec (step fuel) (new cfgA cfgB randomA randomB) acts = some n) :
    n.a.conn.sender.Accounted ∧ n.b.conn.sender.Accounted := by
  have hstep : ∀ (p p' : Endpoint) (wire : List TCPSegment) (op : Op), p.conn.Awake →
      p.step fuel wire op = some p' → p'.conn.Awake := by
    intro p p' wire op hp hstep
    obtain ⟨-, c, hc, rfl⟩ := Endpoint.step_eq_some.mp hstep
    exact TCPConnection.step_preserves hp (fun _ _ => TCPConnection.Awake.micro) hc
  obtain ⟨ha, hb⟩ := exec_both (P := fun p => p.conn.Awake) (TCPConnection.awake_new _ _)
    (TCPConnection.awake_new _ _) hstep h
  exact ⟨ha.accounted, hb.accounted⟩

/-- **Agreement**: in every run in which `B` drops no FIN, what `A` counts as
acknowledged `B` has consumed; and when `A` counts its stream as ended, `B` has
received every byte of it and has ended its own. -/
theorem confirmed_le_consumed
    (hok : Along (step fuel) (fun n act => ¬ n.DropsFin act) (new cfgA cfgB randomA randomB) acts)
    (h : exec (step fuel) (new cfgA cfgB randomA randomB) acts = some n)
    (ha : n.a.written.length < 2 ^ 31) (hb : n.b.written.length < 2 ^ 31) :
    n.a.conn.sender.confirmedSeqno ≤ 1 + n.b.conn.inboundStream.bytesWritten +
        n.b.conn.inboundStream.inputEnded.toNat ∧
      (n.a.conn.checkOutboundEnded = true →
        n.b.consumed ++ n.b.conn.inboundStream.stream = n.a.written ∧
          n.b.conn.inboundStream.inputEnded = true) := by
  obtain ⟨⟨hab, hba⟩, hagree⟩ := exec_agrees hok h ⟨ha, hb⟩
  have hle : n.a.conn.sender.confirmedSeqno ≤ 1 + n.b.conn.inboundStream.bytesWritten +
      n.b.conn.inboundStream.inputEnded.toNat := hagree.confirmed_le
  refine ⟨hle, fun hended => ?_⟩
  -- everything is acknowledged, the FIN included
  obtain ⟨⟨base, hflight⟩, -⟩ := (exec_accounted h).1
  simp only [TCPConnection.checkOutboundEnded, Bool.and_eq_true, beq_iff_eq] at hended
  obtain ⟨⟨-, hnext⟩, hzero⟩ := hended
  have hconf := hflight.confirmed_eq (hflight.outstanding_eq_nil hzero)
  have hlength := hab.sends.length_eq
  -- which leaves nothing that `B` could be missing
  have hpre : n.b.consumed ++ n.b.conn.inboundStream.stream = _ :=
    hba.receives.windowed.prefix_eq
  have hwritten : n.b.conn.inboundStream.bytesWritten ≤ n.a.outgoing.sent.length :=
    hba.receives.windowed.next_eq ▸ hba.receives.windowed.next_le
  have hsent : n.a.outgoing.sent <+: n.a.written := List.take_prefix _ _
  have hlen := hsent.length_le
  have hflag := n.b.conn.inboundStream.inputEnded.toNat_le
  refine ⟨?_, ?_⟩
  · have hall : n.a.outgoing.sent = n.a.written := hsent.eq_of_length (by omega)
    have heq : n.b.conn.receiver.reassembler.nextAssemblingIndex =
        n.b.conn.inboundStream.bytesWritten := hba.receives.windowed.next_eq
    rw [hpre, hall, heq, List.take_of_length_le (by omega)]
  · cases hf : n.b.conn.inboundStream.inputEnded with
    | true => rfl
    | false =>
        rw [hf, Bool.toNat_false] at hle
        omega

/-- A byte and the FIN through a window of two, the FIN first and once more at the
end. -/
def finFirst : List (Side × Op) :=
  [(.A, .connect),
    (.B, .segmentReceived { header := { seqno := ⟨7⟩, syn := true, win := 64000 } }),
    (.A, .segmentReceived { header := {
      seqno := ⟨100⟩, ackno := ⟨8⟩, ack := true, syn := true, win := 2 } }),
    (.A, .write [97]), (.A, .endInputStream),
    (.B, .segmentReceived { header := {
      seqno := ⟨9⟩, ackno := ⟨101⟩, ack := true, fin := true, win := 64000 } }),
    (.B, .segmentReceived { header := {
      seqno := ⟨8⟩, ackno := ⟨101⟩, ack := true, win := 64000 }, payload := [97] }),
    (.B, .segmentReceived { header := {
      seqno := ⟨9⟩, ackno := ⟨101⟩, ack := true, fin := true, win := 64000 } }),
    (.A, .segmentReceived { header := { seqno := ⟨101⟩, ackno := ⟨10⟩, ack := true, win := 1 } })]

/-- The FIN arrives before the bytes, and is acknowledged with them. -/
theorem confirmed_le_consumed_finFirst :
    ∃ n, exec (step 9) (new { fixedIsn := some ⟨7⟩ } { fixedIsn := some ⟨100⟩, recvCapacity := 2 }
          0 0) finFirst = some n ∧
      n.a.conn.sender.confirmedSeqno = 3 ∧
      n.b.consumed ++ n.b.conn.inboundStream.stream = n.a.written ∧
        n.b.conn.inboundStream.inputEnded = true :=
  have hrun : exec (step 9) (new { fixedIsn := some ⟨7⟩ }
      { fixedIsn := some ⟨100⟩, recvCapacity := 2 } 0 0) finFirst = some _ := rfl
  ⟨_, hrun, by decide,
    (confirmed_le_consumed (by decide) hrun (by decide) (by decide)).2 (by decide)⟩

/-- A byte fills `B`'s buffer of one; the FIN sent into the closed window is turned
away and acknowledged. -/
def finRefused : List (Side × Op) :=
  [(.A, .connect),
    (.B, .segmentReceived { header := { seqno := ⟨7⟩, syn := true, win := 64000 } }),
    (.A, .segmentReceived { header := {
      seqno := ⟨100⟩, ackno := ⟨8⟩, ack := true, syn := true, win := 1 } }),
    (.A, .write [97]),
    (.B, .segmentReceived { header := {
      seqno := ⟨8⟩, ackno := ⟨101⟩, ack := true, win := 64000 }, payload := [97] }),
    (.A, .segmentReceived { header := { seqno := ⟨101⟩, ackno := ⟨9⟩, ack := true, win := 0 } }),
    (.A, .endInputStream),
    (.B, .segmentReceived { header := {
      seqno := ⟨9⟩, ackno := ⟨101⟩, ack := true, fin := true, win := 64000 } }),
    (.A, .segmentReceived { header := { seqno := ⟨101⟩, ackno := ⟨10⟩, ack := true, win := 0 } })]

/-- Then `A` counts more as acknowledged than `B` has consumed, and takes its stream
for ended while `B`'s goes on. -/
theorem confirmed_ahead_of_refused_fin :
    ∃ n, exec (step 9) (new { fixedIsn := some ⟨7⟩ } { fixedIsn := some ⟨100⟩, recvCapacity := 1 }
          0 0) finRefused = some n ∧
      n.a.written = [97] ∧ n.b.written = [] ∧ n.b.conn.receiver.firstSegment = false ∧
      ¬ n.a.conn.sender.confirmedSeqno ≤ 1 + n.b.conn.inboundStream.bytesWritten +
        n.b.conn.inboundStream.inputEnded.toNat ∧
      n.a.conn.checkOutboundEnded = true ∧ n.b.conn.inboundStream.inputEnded = false :=
  ⟨_, rfl, by decide, by decide, by decide, by decide, by decide, by decide⟩

end Network

end Sponge
