import Sponge.Network
import Sponge.Network.Inbound
import Sponge.Network.Outbound

/-!
# Sponge.Network.Delivery

Over a network that loses, repeats and reorders segments, each side reads a
prefix of what the other side has written.

`Sound p q` is what holds of the endpoint `p` with respect to its peer `q`.
It mentions of `q` only what `q` has sent and where its window ends, both of
which only grow, so it survives whatever `q` does (`Sound.mono`).  What `p`
does is followed small change by small change (`Sound.micro`).
-/

namespace Sponge

open TCPConnection (Op Micro stamp)

def TCPConnection.windowEnd (c : TCPConnection) : Nat := c.receiver.reassembler.windowEnd

namespace Endpoint

/-- The stream that an endpoint has sent so far. -/
def outgoing (p : Endpoint) : Outgoing := p.conn.sender.outgoing p.written

def windowEnd (p : Endpoint) : Nat := p.conn.windowEnd

end Endpoint

/-- A segment for the network: genuine as to its data, and within bounds as to what
it acknowledges. -/
def Stamped (o : Outgoing) (W : Nat) (o' : Outgoing) (W' : Nat) (seg : TCPSegment) : Prop :=
  (∃ start, Genuine o W seg start) ∧ AcksWithin o' W' seg

/-- What is true of a segment on the wire stays true. -/
theorem Stamped.mono {o₁ o₂ o₁' o₂' : Outgoing} (h : Stamped o₁ W₁ o₁' W₁' seg)
    (ho : o₁.Before o₂) (hW : W₁ ≤ W₂) (ho' : o₁'.Before o₂') (hW' : W₁' ≤ W₂') :
    Stamped o₂ W₂ o₂' W₂' seg :=
  ⟨h.1.imp fun _ hg => hg.mono ho hW, h.2.mono ho' hW'⟩

/-- What holds of `p` with respect to its peer `q`. -/
structure Sound (p q : Endpoint) : Prop where
  sends : Sends p.written q.windowEnd p.conn.sender
  receives : Receives q.outgoing p.consumed p.conn.receiver
  queue : ∀ seg ∈ p.conn.segmentsOut, Stamped p.outgoing q.windowEnd q.outgoing p.windowEnd seg
  wire : ∀ seg ∈ p.wire, Stamped p.outgoing q.windowEnd q.outgoing p.windowEnd seg

/-- A new endpoint is sound against any peer. -/
theorem sound_new (cfg : TCPConfig) (x : UInt32) (q : Endpoint) :
    Sound (.new cfg x) q where
  sends := sends_new _ _ _ _ _
  receives := receives_new _ _
  queue := by simp [Endpoint.new, TCPConnection.new]
  wire := by simp [Endpoint.new]

/-- It survives whatever the peer does. -/
theorem Sound.mono {p q q' : Endpoint} (h : Sound p q) (ho : q.outgoing.Before q'.outgoing)
    (hp : q'.outgoing.Proper) (hW : q.windowEnd ≤ q'.windowEnd) : Sound p q' where
  sends := h.sends.mono_window hW
  receives := h.receives.mono ho hp
  queue := fun seg hseg => (h.queue seg hseg).mono (.refl _) hW ho (Nat.le_refl _)
  wire := fun seg hseg => (h.wire seg hseg).mono (.refl _) hW ho (Nat.le_refl _)

/-! ## One operation -/

/-- `p'` is `p` at a later time, as far as the peer is concerned. -/
structure Endpoint.Before (p p' : Endpoint) : Prop where
  outgoing : p.outgoing.Before p'.outgoing
  window_le : p.windowEnd ≤ p'.windowEnd

/-- A change of the sender that sends on. -/
theorem Sound.sender {p q : Endpoint} {s : TCPSender} (h : Sound p q)
    (hs : Sends p.written q.windowEnd s) (ho : p.outgoing.Before (s.outgoing p.written)) :
    Sound { p with conn := { p.conn with sender := s } } q ∧
      p.Before { p with conn := { p.conn with sender := s } } :=
  ⟨⟨hs, h.receives,
    fun seg hseg => (h.queue seg hseg).mono ho (Nat.le_refl _) (.refl _) (Nat.le_refl _),
    fun seg hseg => (h.wire seg hseg).mono ho (Nat.le_refl _) (.refl _) (Nat.le_refl _)⟩,
    ho, Nat.le_refl _⟩

/-- A change of the receiver that moves its window forward, if at all. -/
theorem Sound.receiver {p q : Endpoint} {r : TCPReceiver} (h : Sound p q)
    (hr : Receives q.outgoing consumed r) (hW : p.windowEnd ≤ r.reassembler.windowEnd) :
    Sound { p with conn := { p.conn with receiver := r }, consumed := consumed } q ∧
      p.Before { p with conn := { p.conn with receiver := r }, consumed := consumed } :=
  ⟨⟨h.sends, hr,
    fun seg hseg => (h.queue seg hseg).mono (.refl _) (Nat.le_refl _) (.refl _) hW,
    fun seg hseg => (h.wire seg hseg).mono (.refl _) (Nat.le_refl _) (.refl _) hW⟩,
    .refl _, hW⟩

/-- A change of the queue. -/
theorem Sound.segmentsOut {p q : Endpoint} {segs : List TCPSegment} (h : Sound p q)
    (hsegs : ∀ seg ∈ segs, Stamped p.outgoing q.windowEnd q.outgoing p.windowEnd seg) :
    Sound { p with conn := { p.conn with segmentsOut := segs } } q :=
  ⟨h.sends, h.receives, hsegs, h.wire⟩

/-- The queue of the sender goes out. -/
theorem Sound.flush {p q : Endpoint} (h : Sound p q) :
    Sound { p with conn := p.conn.sendSegmentsOut.2 } q ∧
      p.Before { p with conn := p.conn.sendSegmentsOut.2 } := by
  have hs : Sends p.written q.windowEnd { p.conn.sender with segmentsOut := [] } :=
    h.sends.congr rfl rfl rfl rfl rfl rfl rfl (by simp) fun _ hx => hx
  have hqueue : ∀ seg ∈ p.conn.segmentsOut ++ p.conn.sender.segmentsOut.map (stamp p.conn.receiver),
      Stamped p.outgoing q.windowEnd q.outgoing p.windowEnd seg := by
    intro seg hseg
    rcases List.mem_append.mp hseg with hold | hnew
    · exact h.queue seg hold
    · obtain ⟨x, hx, rfl⟩ := List.mem_map.mp hnew
      obtain ⟨hack, start, hg⟩ := h.sends.queued x hx
      exact ⟨⟨start, hg.stamp p.conn.receiver⟩, h.receives.acksWithin p.conn.receiver x hack⟩
  exact ⟨⟨hs, h.receives, hqueue, h.wire⟩, .refl _, Nat.le_refl _⟩

/-- Each small change of the connection in an operation that neither writes nor
reads. -/
theorem Sound.conn {p q : Endpoint} {op : Op} (hpq : Sound p q) (hqp : Sound q p)
    (hp : p.written.length < 2 ^ 31) (hq : q.written.length < 2 ^ 31)
    (hquiet : Endpoint.Quiet op) (hcan : Endpoint.CanHappen q.wire op)
    (hm : Micro fuel r₀ op p.conn c) :
    Sound { p with conn := c } q ∧ p.Before { p with conn := c } := by
  have hs := hpq.sends
  cases hm with
  | fill => exact hpq.sender hs.fillWindow.1 hs.fillWindow.2
  | write data => exact hquiet.elim
  | endInput =>
      have hended : Sends p.written q.windowEnd
          { p.conn.sender with stream := p.conn.sender.stream.endInput } :=
        hs.congr rfl rfl rfl rfl rfl rfl rfl hs.queued fun _ hx => hx
      exact hpq.sender hended.fillWindow.1 hended.fillWindow.2
  | ack seg _ hrst hack =>
      obtain ⟨hs', ho⟩ := hs.ackReceived hp (hqp.wire seg hcan).2 hack
      exact hpq.sender hs' ho
  | tick ms =>
      obtain ⟨hs', ho⟩ := hs.tick ms
      exact hpq.sender hs' (ho ▸ .refl _)
  | empty => exact hpq.sender hs.sendEmptySegment (.refl _)
  | flush => exact hpq.flush
  | receive seg _ r hrst hbefore hr =>
      obtain ⟨start, hg⟩ := (hqp.wire seg hcan).1
      obtain ⟨hrec, hW⟩ := hpq.receives.segmentReceived (hqp.sends.proper hq) hg hr
      exact hpq.receiver hrec (Nat.le_of_eq hW.symm)
  | read len => exact hquiet.elim
  | reset =>
      have herror : Sends p.written q.windowEnd
          { p.conn.sender with stream := p.conn.sender.stream.setError } :=
        hs.congr rfl rfl rfl rfl rfl rfl rfl hs.queued fun _ hx => hx
      exact ⟨⟨herror, hpq.receives.setError, hpq.queue, hpq.wire⟩, .refl _, Nat.le_refl _⟩
  | sendRst =>
      refine ⟨hpq.segmentsOut fun seg hseg => ?_, .refl _, Nat.le_refl _⟩
      rw [List.mem_singleton.mp hseg]
      exact ⟨⟨_, genuine_empty _ _ rfl rfl rfl rfl⟩, by simp [AcksWithin, TCPConnection.rstSegment]⟩
  | note => exact ⟨⟨hs, hpq.receives, hpq.queue, hpq.wire⟩, .refl _, Nat.le_refl _⟩
  | dequeue =>
      exact ⟨hpq.segmentsOut fun seg hseg => hpq.queue seg (List.mem_of_mem_tail hseg), .refl _,
        Nat.le_refl _⟩

/-- Each small change of an endpoint keeps what holds of it, and only adds to what
the peer sees. -/
theorem Sound.micro_self {p p' q : Endpoint} (hpq : Sound p q) (hqp : Sound q p)
    (hp' : p'.written.length < 2 ^ 31) (hq : q.written.length < 2 ^ 31)
    (hm : p.Micro fuel r₀ (Endpoint.CanHappen q.wire) p') : Sound p' q ∧ p.Before p' := by
  cases hm with
  | conn op c hquiet hcan hm => exact hpq.conn hqp hp' hq hquiet hcan hm
  | write data =>
      obtain ⟨hs, ho⟩ := hpq.sends.write data
      have hbefore : p.outgoing.Before ({ p.conn.sender with
          stream := (p.conn.sender.stream.write data).2 }.outgoing
            (p.written ++ data.take (p.conn.sender.stream.write data).1)) := ho ▸ .refl _
      exact ⟨⟨hs, hpq.receives,
        fun seg hseg => (hpq.queue seg hseg).mono hbefore (Nat.le_refl _) (.refl _) (Nat.le_refl _),
        fun seg hseg => (hpq.wire seg hseg).mono hbefore (Nat.le_refl _) (.refl _) (Nat.le_refl _)⟩,
        hbefore, Nat.le_refl _⟩
  | read len =>
      obtain ⟨hrec, hle⟩ := hpq.receives.readOut len
      exact hpq.receiver hrec hle
  | publish =>
      refine ⟨⟨hpq.sends, hpq.receives, hpq.queue, fun seg hseg => ?_⟩, .refl _, Nat.le_refl _⟩
      exact (List.mem_append.mp hseg).elim (hpq.wire seg) (hpq.queue seg)

/-- **Each small change** of an endpoint keeps what holds of both. -/
theorem Sound.micro {p p' q : Endpoint} (hpq : Sound p q) (hqp : Sound q p)
    (hp' : p'.written.length < 2 ^ 31) (hq : q.written.length < 2 ^ 31)
    (hm : p.Micro fuel r₀ (Endpoint.CanHappen q.wire) p') : Sound p' q ∧ Sound q p' := by
  obtain ⟨hself, hbefore⟩ := hpq.micro_self hqp hp' hq hm
  exact ⟨hself, hqp.mono hbefore.outgoing (hself.sends.proper hp') hbefore.window_le⟩

/-- The bytes written only grow. -/
theorem Endpoint.Micro.written_le {p p' : Endpoint} {can : Op → Prop}
    (hm : p.Micro fuel r₀ can p') : p.written.length ≤ p'.written.length := by
  cases hm with
  | write data => simp
  | conn | read | publish => exact Nat.le_refl _

/-- **One operation** of an endpoint keeps what holds of both. -/
theorem Sound.of_step {p p' q : Endpoint} {op : Op} (hpq : Sound p q) (hqp : Sound q p)
    (hp' : p'.written.length < 2 ^ 31) (hq : q.written.length < 2 ^ 31)
    (h : p.step fuel q.wire op = some p') : Sound p' q ∧ Sound q p' := by
  refine Endpoint.step_preserves (P := fun u => u.written.length < 2 ^ 31 → Sound u q ∧ Sound q u)
    (Endpoint.step_eq_some.mp h).1 trivial (fun _ => ⟨hpq, hqp⟩) (fun u v hu hm hv => ?_) h hp'
  obtain ⟨huq, hqu⟩ := hu (Nat.lt_of_le_of_lt hm.written_le hv)
  exact huq.micro hqu hv hq hm

/-! ## Runs -/

/-- What was read and what is there to read are the beginning of what the peer wrote. -/
theorem Sound.consumed_append_stream {p q : Endpoint} (h : Sound p q) :
    p.consumed ++ p.conn.inboundStream.stream <+: q.written := by
  have heq : p.consumed ++ p.conn.inboundStream.stream = _ := h.receives.windowed.prefix_eq
  rw [heq]
  exact (List.take_prefix _ _).trans (List.take_prefix _ _)

namespace Network

/-- What holds of the whole network. -/
def Sound (n : Network) : Prop := Sponge.Sound n.a n.b ∧ Sponge.Sound n.b n.a

/-- Fewer than `2 ^ 31` bytes have been written in either direction. -/
def Short (n : Network) : Prop := n.a.written.length < 2 ^ 31 ∧ n.b.written.length < 2 ^ 31

/-- Streams only grow, so they were short before. -/
theorem Short.of_step {n n' : Network} (h : n.step fuel act = some n') (hn : n'.Short) :
    n.Short := by
  have hle : ∀ {p p' : Endpoint} {wire : List TCPSegment} {op : Op},
      p.step fuel wire op = some p' → p.written.length ≤ p'.written.length := by
    intro p p' wire op hp
    obtain ⟨-, c, -, rfl⟩ := Endpoint.step_eq_some.mp hp
    simp
  obtain ⟨side, op⟩ := act
  cases side with
  | A =>
      obtain ⟨a, ha, rfl⟩ := Option.map_eq_some_iff.mp h
      exact ⟨Nat.lt_of_le_of_lt (hle ha) hn.1, hn.2⟩
  | B =>
      obtain ⟨b, hb, rfl⟩ := Option.map_eq_some_iff.mp h
      exact ⟨hn.1, Nat.lt_of_le_of_lt (hle hb) hn.2⟩

/-- **Each step** keeps both sides sound. -/
theorem Sound.of_step {n n' : Network} (hn : n.Sound) (hshort : n'.Short)
    (h : n.step fuel act = some n') : n'.Sound := by
  obtain ⟨side, op⟩ := act
  cases side with
  | A =>
      obtain ⟨a, ha, rfl⟩ := Option.map_eq_some_iff.mp h
      exact hn.1.of_step hn.2 hshort.1 hshort.2 ha
  | B =>
      obtain ⟨b, hb, rfl⟩ := Option.map_eq_some_iff.mp h
      exact (hn.2.of_step hn.1 hshort.2 hshort.1 hb).symm

/-- **Every run** with short streams is sound. -/
theorem exec_sound
    (h : exec (step fuel) (new cfgA cfgB randomA randomB) acts = some n) (hshort : n.Short) :
    n.Sound := by
  refine exec_invariant (P := fun n => n.Short → n.Sound) ?_ ?_ h hshort
  · exact fun _ _ _ hn hstep hs => (hn (hs.of_step hstep)).of_step hs hstep
  · exact fun _ => ⟨sound_new _ _ _, sound_new _ _ _⟩

/-- **Reliable delivery**: whatever the network drops, repeats, delays and reorders,
the bytes read from one side's inbound stream followed by those still buffered
in it are a prefix of the bytes written on the other side. -/
theorem delivered_prefix_of_written
    (h : exec (step fuel) (new cfgA cfgB randomA randomB) acts = some n)
    (ha : n.a.written.length < 2 ^ 31) (hb : n.b.written.length < 2 ^ 31) :
    n.b.consumed ++ n.b.conn.inboundStream.stream <+: n.a.written ∧
      n.a.consumed ++ n.a.conn.inboundStream.stream <+: n.b.written := by
  obtain ⟨hab, hba⟩ := exec_sound h ⟨ha, hb⟩
  exact ⟨hba.consumed_append_stream, hab.consumed_append_stream⟩

/-- A handshake across the wrap of the raw sequence numbers, then two segments of
which the second arrives first, and once more later. -/
def outOfOrder : List (Side × Op) :=
  [(.A, .connect),
    (.B, .segmentReceived { header := { seqno := ⟨4294967295⟩, syn := true, win := 64000 } }),
    (.A, .segmentReceived { header := {
      seqno := ⟨100⟩, ackno := ⟨0⟩, ack := true, syn := true, win := 4 } }),
    (.A, .write [97, 98, 99]), (.A, .write [100]),
    (.B, .segmentReceived { header := {
      seqno := ⟨3⟩, ackno := ⟨101⟩, ack := true, win := 64000 }, payload := [100] }),
    (.B, .segmentReceived { header := {
      seqno := ⟨0⟩, ackno := ⟨101⟩, ack := true, win := 64000 }, payload := [97, 98, 99] }),
    (.B, .segmentReceived { header := {
      seqno := ⟨3⟩, ackno := ⟨101⟩, ack := true, win := 64000 }, payload := [100] }),
    (.B, .readInbound 2)]

/-- Two bytes are read, the other two are still in the stream. -/
theorem delivered_prefix_of_written_outOfOrder :
    ∃ n, exec (step 9) (new { fixedIsn := some ⟨4294967295⟩ }
          { fixedIsn := some ⟨100⟩, recvCapacity := 4 } 0 0) outOfOrder = some n ∧
      n.b.consumed = [97, 98] ∧
      n.b.consumed ++ n.b.conn.inboundStream.stream <+: n.a.written :=
  have hrun : exec (step 9) (new { fixedIsn := some ⟨4294967295⟩ }
      { fixedIsn := some ⟨100⟩, recvCapacity := 4 } 0 0) outOfOrder = some _ := rfl
  ⟨_, hrun, by decide, (delivered_prefix_of_written hrun (by decide) (by decide)).1⟩

end Network

end Sponge
