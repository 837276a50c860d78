import Sponge.TCPConnection.Reply
import Sponge.TCPReceiver.Lag

/-!
# Sponge.TCPConnection.Stamp

What a segment says about the receiver when it leaves: the acknowledgment
number, once there is one, and the window.

The sender makes segments without either (`Plain`), new ones, empty ones and those
it keeps for retransmission.  `send_segments_out` fills both in, from
the receiver as the operation leaves it, so a retransmission carries the
number of today.  The window is narrowed to 16 bits by leaving the others out,
which is right just as long as it fits.
-/

namespace Sponge

/-- A segment as the sender makes it. -/
def TCPSegment.Plain (seg : TCPSegment) : Prop :=
  seg.header.ack = false ∧ seg.header.rst = false

namespace TCPSender

/-! ## The sender's segments -/

/-- The sender holds plain segments only. -/
def Plain (s : TCPSender) : Prop :=
  ∀ seg, seg ∈ s.segmentsOut ∨ seg ∈ s.outstandingSegments → seg.Plain

/-- A new sender has sent nothing. -/
theorem plain_new (cap : Nat) (rt : UInt16) (i : Option WrappingInt32) (x : UInt32) :
    (new cap rt i x).Plain := by
  simp [Plain, new]

/-- What is sent is plain. -/
theorem Plain.transmit (hs : Plain s) (h : Transmit s seg t) : Plain t := by
  have hseg : seg.Plain := by
    rw [TCPSegment.Plain, h.header_eq]
    exact ⟨rfl, rfl⟩
  intro x hx
  simp only [h.segmentsOut_eq, h.outstandingSegments_eq, List.mem_append, List.mem_singleton] at hx
  rcases hx with (hx | rfl) | (hx | rfl)
  · exact hs x (.inl hx)
  · exact hseg
  · exact hs x (.inr hx)
  · exact hseg

theorem Plain.fillWindow (hs : Plain s) : Plain s.fillWindow := by
  obtain ⟨segs, hsegs⟩ := s.fillWindow_steps
  exact hsegs.preserves (fun _ _ _ => Plain.transmit) hs

theorem Plain.absAckReceived (hs : Plain s) (a : Nat) (win : UInt16) :
    Plain (s.absAckReceived a win) := by
  rcases absAckReceived_cases (t := s.absAckReceived a win) rfl with ⟨-, h⟩ |
      ⟨-, -, popped, u, hret, -, hend⟩
  · exact h ▸ hs
  have hu : Plain u := by
    intro x hx
    refine hs x (hx.imp (fun hx => ?_) fun hx => ?_)
    · rw [hret.segmentsOut_eq] at hx
      exact hx
    · have hout : s.outstandingSegments = popped ++ u.outstandingSegments :=
        hret.outstandingSegments_eq
      rw [hout]
      exact List.mem_append_right popped hx
  rcases hend with ⟨_, _, -, -, h⟩ | ⟨-, v, hv, h⟩
  · exact h ▸ hu
  · have hplain : Plain v := by
      rw [← hv]
      split
      · exact hu
      · exact hu.fillWindow
    exact h ▸ hplain

/-- What is sent again was sent before. -/
theorem Plain.tick (hs : Plain s) (ms : Nat) : Plain (s.tick ms) := by
  rcases tick_cases (t := s.tick ms) rfl with ⟨_, h⟩ | ⟨seg, rest, _, _, _, hout, h⟩
  · exact h ▸ hs
  · rw [← h]
    intro x hx
    simp only [List.mem_append, List.mem_singleton] at hx
    rcases hx with (hx | rfl) | hx
    · exact hs x (.inl hx)
    · exact hs x (.inr (hout ▸ List.mem_cons_self))
    · exact hs x (.inr hx)

/-- An empty segment is plain. -/
theorem Plain.sendEmptySegment (hs : Plain s) : Plain s.sendEmptySegment := by
  intro x hx
  simp only [TCPSender.sendEmptySegment, List.mem_append, List.mem_singleton] at hx
  rcases hx with (hx | rfl) | hx
  · exact hs x (.inl hx)
  · exact ⟨rfl, rfl⟩
  · exact hs x (.inr hx)

end TCPSender

namespace TCPReceiver

/-- No segment changes the capacity. -/
theorem segmentReceived_capacity {r r' : TCPReceiver}
    (h : r.segmentReceived fuel seg = some r') : r'.capacity = r.capacity := by
  rcases segmentReceived_cases h with ⟨-, -, rfl⟩ | ⟨-, -, -, rfl⟩ | ⟨ra, -, -, -, rfl⟩
  · rfl
  · exact listen_capacity r seg
  · rw [acknowledge_capacity]
    exact listen_capacity r seg

/-- The window closes as the stream grows. -/
theorem windowSize_le_of_extends {r r' : TCPReceiver} (hcap : r'.capacity = r.capacity)
    (h : r.streamOut.Extends r'.streamOut) : r'.windowSize ≤ r.windowSize := by
  have hwritten := h.bytesWritten_le
  have hread := h.bytesRead_eq
  have hr := r.streamOut.bytesWritten_eq
  have hr' := r'.streamOut.bytesWritten_eq
  simp only [windowSize, hcap]
  omega

/-- Taking in a segment never widens the window. -/
theorem segmentReceived_windowSize_le {r r' : TCPReceiver}
    (h : r.segmentReceived fuel seg = some r') : r'.windowSize ≤ r.windowSize := by
  rcases segmentReceived_cases h with ⟨-, -, rfl⟩ | ⟨-, -, -, rfl⟩ | ⟨ra, -, -, hpush, rfl⟩
  · exact Nat.le_refl _
  · simp [windowSize]
  · refine windowSize_le_of_extends (segmentReceived_capacity h) ?_
    rw [acknowledge_streamOut]
    exact (StreamReassembler.pushSubstring_pushes hpush).output_extends

/-- The first SYN is taken in. -/
theorem segmentReceived_firstSegment {r r' : TCPReceiver}
    (h : r.segmentReceived fuel seg = some r') :
    r'.firstSegment = false ↔ r.firstSegment = false ∨ seg.header.syn = true := by
  rcases segmentReceived_cases h with ⟨hf, hs, rfl⟩ | ⟨hsyn, -, -, rfl⟩ | ⟨ra, hsyn, -, -, rfl⟩
  · simp [hf, hs]
  · rw [listen_firstSegment hsyn]
    cases hf : r.firstSegment <;> simp_all
  · rw [acknowledge_firstSegment, listen_firstSegment hsyn]
    cases hf : r.firstSegment <;> simp_all

end TCPReceiver

namespace TCPConnection

open TCPSender (Plain)

/-! ## The flushes -/

/-- From `c` to `d`, plain segments have gone out under the receiver's stamp. -/
structure Flushes (c d : TCPConnection) : Prop where
  plain : Plain d.sender
  receiver_eq : d.receiver = c.receiver
  segmentsOut_eq : ∃ bare : List TCPSegment, (∀ seg ∈ bare, seg.Plain) ∧
    d.segmentsOut = c.segmentsOut ++ bare.map (stamp c.receiver)

/-- Nothing is sent. -/
theorem Flushes.refl {c : TCPConnection} (h : Plain c.sender) : Flushes c c :=
  ⟨h, rfl, [], by simp, by simp⟩

/-- One thing is sent after the other. -/
theorem Flushes.trans {c d e : TCPConnection} (h : Flushes c d) (h' : Flushes d e) :
    Flushes c e := by
  obtain ⟨bare, hplain, hout⟩ := h.segmentsOut_eq
  obtain ⟨bare', hplain', hout'⟩ := h'.segmentsOut_eq
  refine ⟨h'.plain, h'.receiver_eq.trans h.receiver_eq, bare ++ bare', ?_, ?_⟩
  · intro seg hseg
    exact (List.mem_append.mp hseg).elim (hplain seg) (hplain' seg)
  · rw [hout', hout, h.receiver_eq, List.map_append, List.append_assoc]

/-- Putting a sender with plain segments in place and flushing it. -/
theorem flushes_sendSegmentsOut (c : TCPConnection) {s : TCPSender} (hs : Plain s) :
    Flushes c { c with sender := s }.sendSegmentsOut.2 where
  plain := fun seg hseg => hs seg (.inr (hseg.resolve_left List.not_mem_nil))
  receiver_eq := rfl
  segmentsOut_eq := ⟨s.segmentsOut, fun seg hseg => hs seg (.inl hseg), rfl⟩

/-- What an acknowledgment sets free is stamped. -/
theorem takeAck_flushes {c : TCPConnection} (hc : Plain c.sender) (seg : TCPSegment) :
    Flushes c (c.takeAck seg) := by
  unfold takeAck
  split
  · exact flushes_sendSegmentsOut c (hc.absAckReceived _ _)
  · exact .refl hc

/-- The answer is stamped. -/
theorem reply_flushes {c : TCPConnection} (hc : Plain c.sender) (seg : TCPSegment) :
    Flushes c (c.reply seg) := by
  unfold reply
  split
  · simp only
    have hfill := flushes_sendSegmentsOut c hc.fillWindow
    split
    · exact hfill.trans (flushes_sendSegmentsOut _ hfill.plain.sendEmptySegment)
    · exact hfill
  · exact .refl hc

/-- What is sent again is stamped again. -/
theorem ticked_flushes {c : TCPConnection} (hc : Plain c.sender) (ms : Nat) :
    Flushes c (c.ticked ms) := by
  have hf := flushes_sendSegmentsOut
    { c with lastTickTime := (c.lastTickTime + ms) % 2 ^ 64 } (hc.tick ms)
  exact ⟨hf.plain, hf.receiver_eq, hf.segmentsOut_eq⟩

/-! ## The receiver -/

/-- The operation hands the receiver a SYN. -/
def Op.BringsSyn : Op → Prop
  | .segmentReceived seg => seg.header.rst = false ∧ seg.header.syn = true
  | _ => False

/-- What an operation does to the receiver: hand it a segment, read from it, or at most
mark its stream as failed. -/
theorem step_receiver {c d : TCPConnection} {op : Op} (h : step fuel c op = some d) :
    (∃ seg, op = .segmentReceived seg ∧ seg.header.rst = false ∧
      c.receiver.segmentReceived fuel seg = some d.receiver) ∨
    (∃ len, op = .readInbound len ∧ d.receiver = (c.receiver.readOut len).2) ∨
    (¬ op.BringsSyn ∧ (d.receiver = c.receiver ∨ d.receiver = c.reset.receiver)) := by
  cases op with
  | connect =>
      rw [step, Option.some.injEq] at h
      exact .inr (.inr ⟨id, .inl (h ▸ rfl)⟩)
  | write data =>
      rw [step, Option.some.injEq] at h
      refine .inr (.inr ⟨id, .inl ?_⟩)
      rw [← h, write]
      split <;> rfl
  | endInputStream =>
      rw [step, Option.some.injEq] at h
      exact .inr (.inr ⟨id, .inl (h ▸ rfl)⟩)
  | segmentReceived seg =>
      rcases segmentReceived_cases h with ⟨hrst, rfl⟩ | ⟨hrst, r, hr, rfl⟩
      · exact .inr (.inr ⟨by simp [Op.BringsSyn, hrst], .inr rfl⟩)
      · refine .inl ⟨seg, rfl, hrst, ?_⟩
        rw [reply_receiver, takeAck_receiver, noteInboundEnded_receiver]
        exact hr
  | tick ms =>
      rcases tick_cases h with rfl | rfl
      · exact .inr (.inr ⟨id, .inl (by rw [finish_receiver]; rfl)⟩)
      · exact .inr (.inr ⟨id, .inr (by rw [finish_receiver]; rfl)⟩)
  | readInbound len =>
      rw [step, Option.some.injEq] at h
      exact .inr (.inl ⟨len, rfl, h ▸ rfl⟩)
  | dequeue =>
      rw [step, Option.some.injEq] at h
      exact .inr (.inr ⟨id, .inl (h ▸ rfl)⟩)

/-- The receiver has seen a SYN once one was brought. -/
theorem step_firstSegment {op : Op} (h : step fuel c op = some d) :
    d.receiver.firstSegment = false ↔ c.receiver.firstSegment = false ∨ op.BringsSyn := by
  rcases step_receiver h with ⟨seg, rfl, hrst, hr⟩ | ⟨len, rfl, hr⟩ | ⟨hno, hr | hr⟩
  · rw [TCPReceiver.segmentReceived_firstSegment hr]
    simp [Op.BringsSyn, hrst]
  · rw [hr]
    simp [Op.BringsSyn, TCPReceiver.readOut]
  · simp [hr, hno]
  · simp [hr, hno, reset]

/-- Only reading widens the window. -/
theorem step_windowSize_le {op : Op} (hop : ∀ len, op ≠ .readInbound len)
    (h : step fuel c op = some d) : d.receiver.windowSize ≤ c.receiver.windowSize := by
  rcases step_receiver h with ⟨seg, rfl, hrst, hr⟩ | ⟨len, rfl, hr⟩ | ⟨-, hr | hr⟩
  · exact TCPReceiver.segmentReceived_windowSize_le hr
  · exact absurd rfl (hop len)
  · rw [hr]
  · exact Nat.le_of_eq (hr ▸ rfl)

/-- The receiver is past its first segment just if a SYN was among the operations. -/
theorem exec_firstSegment {conf : TCPConfig} (h : exec (step fuel) (new conf x) ops = some c) :
    c.receiver.firstSegment = false ↔ ∃ op ∈ ops, op.BringsSyn := by
  suffices ∀ {s : TCPConnection}, exec (step fuel) s ops = some c →
      (c.receiver.firstSegment = false ↔
        s.receiver.firstSegment = false ∨ ∃ op ∈ ops, op.BringsSyn) by
    simpa [new, TCPReceiver.new] using this h
  clear h
  intro s h
  induction ops generalizing s with
  | nil =>
      rw [exec_nil, Option.some.injEq] at h
      simp [h]
  | cons op ops ih =>
      obtain ⟨t, ht, hrest⟩ := exec_cons_eq_some.mp h
      rw [ih hrest, step_firstSegment ht, or_assoc]
      simp

/-! ## Operations -/

/-- From `c` to `d`, the operation has added segments as `P` says; beyond that `dequeue`
takes the first segment away, and giving up leaves a single RST. -/
def Adds (c : TCPConnection) (op : Op) (d : TCPConnection) (P : TCPSegment → Prop) : Prop :=
  (∃ added, d.segmentsOut = c.segmentsOut ++ added ∧
    ∀ seg ∈ added, seg.header.rst = false → P seg) ∨
  (∃ seg : TCPSegment, d.segmentsOut = [seg] ∧ seg.header.rst = true) ∨
  (op = .dequeue ∧ d.segmentsOut = c.segmentsOut.tail)

/-- The segments put on the queue, none of them a RST, bear the receiver's stamp. -/
def Stamps (c : TCPConnection) (op : Op) (d : TCPConnection) : Prop :=
  Adds c op d fun seg => (∀ len, op ≠ .readInbound len) ∧
    ∃ bare, TCPSegment.Plain bare ∧ stamp d.receiver bare = seg

/-- What a call adds was stamped at its end. -/
theorem Flushes.stamps {c d : TCPConnection} (h : Flushes c d) (op : Op)
    (hop : ∀ len, op ≠ .readInbound len) : Stamps c op d := by
  obtain ⟨bare, hplain, hout⟩ := h.segmentsOut_eq
  refine .inl ⟨_, hout, fun seg hseg _ => ⟨hop, ?_⟩⟩
  obtain ⟨b, hb, rfl⟩ := List.mem_map.mp hseg
  exact ⟨b, hplain b hb, by rw [h.receiver_eq]⟩

/-- **Every operation** keeps the sender's segments plain and adds stamped ones. -/
theorem step_stamps {c d : TCPConnection} {op : Op} (hc : Plain c.sender)
    (h : step fuel c op = some d) : Plain d.sender ∧ Stamps c op d := by
  have hflush : (∀ len, op ≠ .readInbound len) → Flushes c d → Plain d.sender ∧ Stamps c op d :=
    fun hop hf => ⟨hf.plain, hf.stamps _ hop⟩
  cases op with
  | connect =>
      rw [step, Option.some.injEq] at h
      exact hflush (by simp) (h ▸ flushes_sendSegmentsOut c hc.fillWindow)
  | write data =>
      rw [step, Option.some.injEq] at h
      refine hflush (by simp) ?_
      rw [← h, write]
      split
      · exact .refl hc
      · have hs : Plain { c.sender with stream := (c.sender.stream.write data).2 } := hc
        exact flushes_sendSegmentsOut c hs.fillWindow
  | endInputStream =>
      rw [step, Option.some.injEq] at h
      have hs : Plain { c.sender with stream := c.sender.stream.endInput } := hc
      exact hflush (by simp) (h ▸ flushes_sendSegmentsOut c hs.fillWindow)
  | segmentReceived seg =>
      rcases segmentReceived_cases h with ⟨-, rfl⟩ | ⟨-, r, -, rfl⟩
      · exact ⟨hc, .inl ⟨[], (List.append_nil _).symm, by simp⟩⟩
      · obtain ⟨c₁, hc₁, hsender, hqueue, -, -⟩ := c.noteInboundEnded_spec r
        rw [hc₁]
        have htake := takeAck_flushes (hsender ▸ hc) seg
        have hall := htake.trans (reply_flushes htake.plain seg)
        refine ⟨hall.plain, ?_⟩
        have hst := hall.stamps (.segmentReceived seg) (by simp)
        rwa [Stamps, Adds, hqueue] at hst
  | tick ms =>
      rcases tick_cases h with rfl | rfl
      · have hf := ticked_flushes hc ms
        have hst := hf.stamps (.tick ms) (by simp)
        refine ⟨by rw [finish_sender]; exact hf.plain, ?_⟩
        rw [Stamps, Adds, finish_segmentsOut, finish_receiver]
        exact hst
      · refine ⟨?_, .inr (.inl ⟨_, by rw [finish_segmentsOut]; rfl, rfl⟩)⟩
        rw [finish_sender]
        exact (ticked_flushes hc ms).plain
  | readInbound len =>
      rw [step, Option.some.injEq] at h
      subst h
      exact ⟨hc, .inl ⟨[], (List.append_nil _).symm, by simp⟩⟩
  | dequeue =>
      rw [step, Option.some.injEq] at h
      subst h
      exact ⟨hc, .inr (.inr ⟨rfl, rfl⟩)⟩

/-- **Every run** leaves only plain segments in the sender. -/
theorem exec_plain {conf : TCPConfig} (h : exec (step fuel) (new conf x) ops = some c) :
    Plain c.sender :=
  exec_invariant (P := fun c => Plain c.sender) (fun _ _ _ hc hstep => (step_stamps hc hstep).1)
    (TCPSender.plain_new _ _ _ _) h

/-- What a segment is to say about the receiver `r`, after the operations `ops`: the number
to acknowledge, just if a SYN was among them, and the window as far as 16 bits can
tell. -/
structure Advertises (ops : List Op) (r : TCPReceiver) (seg : TCPSegment) : Prop where
  ack_iff : seg.header.ack = true ↔ ∃ op ∈ ops, op.BringsSyn
  ackno_eq : seg.header.ack = true → r.ackno = some seg.header.ackno
  win_eq : seg.header.win.toNat = min r.windowSize 65535
  win_ne_zero : 0 < r.windowSize → seg.header.win ≠ 0
  win_le : seg.header.win.toNat ≤ r.windowSize

/-- The stamp says what the receiver knows. -/
theorem advertises_stamp {r : TCPReceiver} (hplain : TCPSegment.Plain bare)
    (hsyn : r.firstSegment = false ↔ ∃ op ∈ ops, op.BringsSyn) (hwin : r.windowSize ≤ 65535) :
    Advertises ops r (stamp r bare) := by
  have htoNat : (stamp r bare).header.win.toNat = r.windowSize := by
    rw [stamp_win, UInt16.toNat_ofNat']
    omega
  refine ⟨?_, ?_, by omega, ?_, by omega⟩
  · rw [← hsyn]
    cases hf : r.firstSegment <;> simp [stamp, TCPReceiver.ackno, hf, hplain.1]
  · cases hf : r.firstSegment <;> simp [stamp, TCPReceiver.ackno, hf, hplain.1]
  · intro hpos h0
    rw [h0] at htoNat
    simp at htoNat
    omega

/-- **One operation** in a state whose window fits into 16 bits. -/
theorem step_advertises {conf : TCPConfig} (h : exec (step fuel) (new conf x) ops = some c)
    (hwin : c.receiver.windowSize ≤ 65535) (hstep : step fuel c op = some d) :
    Adds c op d (Advertises (ops ++ [op]) d.receiver) := by
  have hrun : exec (step fuel) (new conf x) (ops ++ [op]) = some d :=
    exec_append_eq_some.mpr ⟨c, h, exec_cons_eq_some.mpr ⟨d, hstep, rfl⟩⟩
  refine (step_stamps (exec_plain h) hstep).2.imp_left fun ⟨added, hout, hadded⟩ => ?_
  refine ⟨added, hout, fun seg hseg hrst => ?_⟩
  obtain ⟨hop, bare, hplain, rfl⟩ := hadded seg hseg hrst
  exact advertises_stamp hplain (exec_firstSegment hrun)
    (Nat.le_trans (step_windowSize_le hop hstep) hwin)

/-- The window is never larger than the capacity. -/
theorem exec_windowSize_le {conf : TCPConfig} (h : exec (step fuel) (new conf x) ops = some c) :
    c.receiver.windowSize ≤ conf.recvCapacity := by
  have hcap : c.receiver.capacity = conf.recvCapacity := by
    refine exec_invariant (P := fun c => c.receiver.capacity = conf.recvCapacity) ?_ rfl h
    intro c op d hc hstep
    rcases step_receiver hstep with ⟨seg, rfl, hrst, hr⟩ | ⟨len, rfl, hr⟩ | ⟨-, hr | hr⟩
    · exact (TCPReceiver.segmentReceived_capacity hr).trans hc
    · exact hr ▸ hc
    · exact hr ▸ hc
    · exact hr ▸ hc
  rw [TCPReceiver.windowSize, hcap]
  exact Nat.sub_le _ _

/-! ## Windows that do not fit -/

/-- A SYN with one byte of data. -/
def synWithByte : TCPSegment := { header := { syn := true }, payload := [97] }

/-- A fresh receiver with space takes in the byte. -/
theorem segmentReceived_synWithByte (hcap : 0 < cap % 2 ^ 64) :
    ∃ r, (TCPReceiver.new cap).segmentReceived 1 synWithByte = some r ∧
      r.windowSize = cap - 1 := by
  obtain ⟨ra, hpush, hbuf⟩ : ∃ ra, (StreamReassembler.new cap).pushSubstring 1 [97] 0 false =
      some ra ∧ ra.output.bufferSize = 1 := by
    have href : ¬ (StreamReassembler.new cap).Refuses 0 := by
      simp [StreamReassembler.Refuses, StreamReassembler.new, StreamReassembler.indicator,
        StreamReassembler.firstUnassembleByteIndex, ByteStream.remainingCapacity, ByteStream.new]
      omega
    rw [StreamReassembler.pushSubstring_succ, if_neg href]
    refine ⟨_, rfl, ?_⟩
    show ((StreamReassembler.new cap).assemble [97] 0 false).1.output.bufferSize = 1
    simp [StreamReassembler.new, ByteStream.new, ByteStream.remainingCapacity, Datagram.fresh,
      Datagram.ofData]
    omega
  have hplace : ((TCPReceiver.new cap).listen synWithByte).tempAbsSeqno synWithByte = 0 :=
    TCPReceiver.tempAbsSeqno_of_first rfl rfl rfl
  have hcall : (TCPReceiver.new cap).segmentReceived 1 synWithByte = some (TCPReceiver.acknowledge
      { (TCPReceiver.new cap).listen synWithByte with reassembler := ra } 0 synWithByte) := by
    have hpayload : StreamReassembler.pushSubstring 1 (TCPReceiver.new cap).reassembler
        synWithByte.payload (TCPReceiver.streamIndex 0) synWithByte.header.fin = some ra := hpush
    rw [TCPReceiver.segmentReceived, if_neg (by simp [synWithByte])]
    simp only [hplace]
    rw [if_neg (by simp [TCPReceiver.new]), TCPReceiver.listen_reassembler, hpayload]
  refine ⟨_, hcall, ?_⟩
  rw [TCPReceiver.windowSize, TCPReceiver.segmentReceived_capacity hcall,
    TCPReceiver.acknowledge_streamOut]
  show cap - ra.output.bufferSize = _
  rw [hbuf]

/-- The SYN that a fresh sender sends. -/
def firstSyn (conf : TCPConfig) (x : UInt32) : TCPSegment :=
  { header := { seqno := wrap 0 (new conf x).sender.isn, syn := true } }

/-- The SYN is all that `connect` sends. -/
theorem connect_segmentsOut (conf : TCPConfig) (x : UInt32) :
    (new conf x).connect.segmentsOut =
      [stamp (new conf x).connect.receiver (firstSyn conf x)] := rfl

/-- A fresh connection answers it with its own SYN. -/
theorem step_synWithByte (conf : TCPConfig) (hcap : 0 < conf.recvCapacity % 2 ^ 64) (x : UInt32) :
    ∃ d, step 1 (new conf x) (.segmentReceived synWithByte) = some d ∧
      d.receiver.windowSize = conf.recvCapacity - 1 ∧
      d.segmentsOut = [stamp d.receiver (firstSyn conf x)] := by
  obtain ⟨r, hr, hwin⟩ := segmentReceived_synWithByte hcap
  obtain ⟨c, hc, hsender, hqueue, hrecv, -⟩ := (new conf x).noteInboundEnded_spec r
  have hempty : (new conf x).segmentsOut = [] := rfl
  refine ⟨c.reply synWithByte, ?_, ?_, ?_⟩
  · show segmentReceived 1 (new conf x) synWithByte = _
    rw [segmentReceived]
    simp only [show (new conf x).receiver = TCPReceiver.new conf.recvCapacity from rfl, hr, hc]
    rfl
  · rw [reply_receiver, hrecv, hwin]
  · have hfill : (new conf x).sender.fillWindow.segmentsOut = [firstSyn conf x] := rfl
    rw [reply_receiver, hrecv, reply, if_pos (by decide), hsender]
    simp [sendSegmentsOut, TCPSender.isEmpty, hfill, hqueue, hempty, hrecv]

theorem windowSize_of_adds {c d : TCPConnection} {op : Op} (hop : op ≠ .dequeue)
    (hc : c.segmentsOut = []) (hplain : TCPSegment.Plain bare)
    (hout : d.segmentsOut = [stamp d.receiver bare])
    (h : Adds c op d (Advertises ops d.receiver)) :
    d.receiver.windowSize % 2 ^ 16 = min d.receiver.windowSize 65535 := by
  rcases h with ⟨added, hadded, hP⟩ | ⟨seg, hseg, hrst⟩ | ⟨hdeq, -⟩
  · rw [hc, List.nil_append, hout] at hadded
    have hwin := (hP (stamp d.receiver bare) (by simp [← hadded]) (by simp [hplain.2])).win_eq
    rwa [stamp_win, UInt16.toNat_ofNat'] at hwin
  · rw [hout, List.singleton_inj] at hseg
    rw [← hseg, stamp_rst, hplain.2] at hrst
    contradiction
  · contradiction

/-- **What segments say about the receiver**: in every reachable state whose window fits
into 16 bits, each segment that an operation adds, RSTs apart, bears the receiver's
number after the operation, just if a SYN has been received, and its window.  All
windows of a connection fit, and all its segments are right, exactly if the capacity
does. -/
theorem adds_advertises_iff (conf : TCPConfig) :
    (∀ fuel x ops c op d, exec (step fuel) (new conf x) ops = some c →
      c.receiver.windowSize ≤ 65535 → step fuel c op = some d →
      Adds c op d (Advertises (ops ++ [op]) d.receiver)) ∧
    ((∀ fuel x ops c op d, exec (step fuel) (new conf x) ops = some c →
      step fuel c op = some d → Adds c op d (Advertises (ops ++ [op]) d.receiver)) ↔
        conf.recvCapacity ≤ 65535) := by
  refine ⟨fun fuel x ops c op d h hwin => step_advertises h hwin, fun hall => ?_, ?_⟩
  · -- the SYN of a fresh connection, and its answer to a SYN with a byte
    have hsyn := windowSize_of_adds (by simp) rfl ⟨rfl, rfl⟩ (connect_segmentsOut conf 0)
      (hall 0 0 [] _ .connect _ rfl rfl)
    have hconnect : (new conf 0).connect.receiver.windowSize = conf.recvCapacity := rfl
    rw [hconnect] at hsyn
    by_contra hbig
    obtain ⟨d, hd, hwin, hout⟩ := step_synWithByte conf (by omega) 0
    have hbyte := windowSize_of_adds (by simp) rfl ⟨rfl, rfl⟩ hout (hall 1 0 [] _ _ d rfl hd)
    omega
  · intro hcap fuel x ops c op d h
    exact step_advertises h (Nat.le_trans (exec_windowSize_le h) hcap)

/-- With 65536 bytes of space, the first SYN says that there is none. -/
theorem window_truncated :
    ∃ d seg, step 0 (new { recvCapacity := 65536 } 0) .connect = some d ∧
      d.segmentsOut = [seg] ∧ seg.header.rst = false ∧ d.receiver.windowSize = 65536 ∧
      seg.header.win = 0 ∧
      ¬ Adds (new { recvCapacity := 65536 } 0) .connect d
        (Advertises [.connect] d.receiver) :=
  ⟨_, _, rfl, rfl, rfl, rfl, rfl, fun h => absurd
    (windowSize_of_adds (by simp) rfl ⟨rfl, rfl⟩ (connect_segmentsOut _ 0) h) (by decide)⟩

end TCPConnection

end Sponge
