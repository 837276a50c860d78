import Sponge.Carrier
import Sponge.TCPSpongeSocket.Closing

/-!
# Sponge.Hosts

Two sockets, each with its owner, and a network between them.

What can happen is a turn of one of the threads, the beginning of the thread
proper when `connect` or `listen_and_accept` is done, an event on the network,
and anything at all at the owner's end of the stream socket.  A turn is one
step: it reads from the network before it writes to it, so the turns of two
threads that overlap can be put in an order.  A turn that throws ends the
process and is no step.

Every run of the sockets is a run of two endpoints (`Refines.run`), so what
holds of `Sponge.Network` holds here.
-/

namespace Sponge

open TCPSpongeSocket (Host Opening Turn Follows Move turn rules)
open Relation (ReflTransGen)

/-- Two sockets that are open. -/
structure Hosts (α : Type) where
  a : Host α
  b : Host α

def Side.peer : Side → Side
  | .A => .B
  | .B => .A

namespace Hosts

def host (n : Hosts α) : Side → Host α
  | .A => n.a
  | .B => n.b

/-- The socket on one side. -/
def sock (n : Hosts α) (side : Side) : TCPSpongeSocket α := (n.host side).running.sock

/-- What can happen to one of the sockets. -/
inductive Act (ε : Type) where
  | turn (t : Turn)
  /-- The loop of `connect` or `listen_and_accept` is over and that of `_tcp_main` begins. -/
  | main (time : Nat)
  | happen (e : ε)
  /-- The kernel's coming answers at the owner's end. -/
  | owner (reads : List (Nat → Except Nat (List UInt8))) (writes : List (Nat → Except Nat Nat))
      (controls : List (Option Nat))

/-- A turn at a time when the descriptor of one rule is ready. -/
def Act.ready (rule time : Nat) : Act ε :=
  .turn {
    answer := .ready (.replicate rule {} ++ [{ pollIn := true, pollOut := true }])
    nextTime := time }

section
variable (C : Carrier α π ε) (A : FdAdapter α) (fuel : Nat)

/-- The loop that the socket is in is over. -/
def isOver (h : Host α) : Bool :=
  h.left || !h.phase.condition h.running.sock.tcp

/-- One thread takes a turn, or something happens to it; `there` is what the other side has put
out. -/
def stepHost (there : List π) (h : Host α) : Act ε → Option (Host α)
  | .turn t =>
      if isOver h then none
      else (turn A fuel h.running t).result?.map fun r => { h with running := r.2, left := !r.1 }
  | .main time =>
      if isOver h && h.phase != .main then
        some { running := { h.running with baseTime := time }, phase := .main }
      else none
  | .happen e =>
      if C.allowed there e then
        some { h with running := { h.running with sock := { h.running.sock with
          datagramAdapter := C.happen h.running.sock.datagramAdapter e } } }
      else none
  | .owner reads writes controls =>
      some { h with running := { h.running with sock := { h.running.sock with
        threadData := { h.running.sock.threadData with
          reads := reads, writes := writes, controls := controls } } } }

def step (n : Hosts α) : Side × Act ε → Option (Hosts α)
  | (.A, act) => (stepHost C A fuel (C.packets n.b.running.sock.datagramAdapter) n.a act).map
      fun a => { n with a := a }
  | (.B, act) => (stepHost C A fuel (C.packets n.a.running.sock.datagramAdapter) n.b act).map
      fun b => { n with b := b }

end

/-! ## Endpoints -/

section
variable {p p' q : Endpoint}

/-- What has been sent stays on the wire. -/
theorem wire_subset_of_step (h : p.step fuel wire op = some p') : p.wire ⊆ p'.wire := by
  obtain ⟨-, c, -, rfl⟩ := Endpoint.step_eq_some.mp h
  exact List.subset_append_left _ _

/-- The same over a run. -/
theorem wire_subset_of_exec (h : exec (Endpoint.step fuel wire) p ops = some p') :
    p.wire ⊆ p'.wire :=
  exec_invariant (P := fun q => p.wire ⊆ q.wire)
    (fun _ _ _ hq hstep _ hseg => wire_subset_of_step hstep (hq hseg)) (List.Subset.refl _) h

/-- What was written stays written. -/
theorem written_le_of_step (h : p.step fuel wire op = some p') :
    p.written.length ≤ p'.written.length := by
  obtain ⟨-, c, -, rfl⟩ := Endpoint.step_eq_some.mp h
  simp

/-- The same over a run. -/
theorem written_le_of_exec (h : exec (Endpoint.step fuel wire) p ops = some p') :
    p.written.length ≤ p'.written.length :=
  exec_invariant (P := fun q => p.written.length ≤ q.written.length)
    (fun _ _ _ hq hstep => Nat.le_trans hq (written_le_of_step hstep)) (Nat.le_refl _) h

/-- A run of an endpoint keeps what holds of both. -/
theorem sound_of_exec (hpq : Sound p q) (hqp : Sound q p) (hp' : p'.written.length < 2 ^ 31)
    (hq : q.written.length < 2 ^ 31) (h : exec (Endpoint.step fuel q.wire) p ops = some p') :
    Sound p' q ∧ Sound q p' := by
  refine exec_invariant (P := fun u => u.written.length < 2 ^ 31 → Sound u q ∧ Sound q u)
    (fun u op v hu hstep hv => ?_) (fun _ => ⟨hpq, hqp⟩) h hp'
  obtain ⟨huq, hqu⟩ := hu (Nat.lt_of_le_of_lt (written_le_of_step hstep) hv)
  exact huq.of_step hqu hv hq hstep

end

/-! ## One socket -/

section
variable {C : Carrier α π ε} {A : FdAdapter α} (law : C.Law A)

/-- The endpoint `p` is where the socket is, and the adapter deals in segments of `p` and of
its peer `q`. While both streams are short, the endpoints are sound and the socket closes in
order. -/
structure Tracks (q p : Endpoint) (s : TCPSpongeSocket α) : Prop where
  follows : Follows p s
  adapter : law.Sound q.wire p.wire s.datagramAdapter
  modest : p.Modest
  settled : p.written.length < 2 ^ 31 → q.written.length < 2 ^ 31 →
    Sound p q ∧ Sound q p ∧ s.Closes

variable {law} {p q : Endpoint} {s s' : TCPSpongeSocket α}

/-- What a move does to the adapter. -/
theorem Tracks.adapter_move (h : Tracks law q p s) (hmove : Move A fuel s s') :
    law.Sound q.wire p.wire s'.datagramAdapter := by
  cases hmove with
  | nothing a hread => exact (law.read h.adapter hread).1
  | receive seg a tcp hread => exact (law.read h.adapter hread).1
  | send seg segs a hout hwrite =>
      have hseg : seg ∈ p.wire := h.follows.queued seg (hout ▸ List.mem_cons_self)
      exact law.write h.adapter hseg (h.modest.wire seg hseg) hwrite
  | tick ms tcp a _ _ htick => exact law.tick h.adapter htick
  | acked | take | finish | give | shut => exact h.adapter

/-- What holds of both endpoints after a move. -/
theorem Tracks.settled_move (h : Tracks law q p s) (hmove : Move A fuel s s')
    (hexec : exec (Endpoint.step fuel q.wire) p ops = some p') (hfollows : Follows p' s')
    (hp' : p'.written.length < 2 ^ 31) (hq : q.written.length < 2 ^ 31) :
    Sound p' q ∧ Sound q p' ∧ s'.Closes := by
  obtain ⟨hpq, hqp, hcloses⟩ := h.settled (Nat.lt_of_le_of_lt (written_le_of_exec hexec) hp') hq
  obtain ⟨hpq', hqp'⟩ := sound_of_exec hpq hqp hp' hq hexec
  refine ⟨hpq', hqp', hcloses.move hmove fun heof => ?_⟩
  have hlater := hmove.inbound_later
  rw [← h.follows.conn] at hlater heof
  rw [← hfollows.conn] at hlater ⊢
  exact hpq.eof_of_later hpq' hlater heof

/-- **Each move** is a run of the endpoint. -/
theorem Tracks.move (h : Tracks law q p s) (hmove : Move A fuel s s') :
    ∃ ops p', exec (Endpoint.step fuel q.wire) p ops = some p' ∧ Tracks law q p' s' := by
  have hadapter := h.adapter_move hmove
  have hread : ∀ seg a, Returns (A.read s.datagramAdapter) (some seg, a) →
      ∃ w ∈ q.wire, seg.Same w := fun seg a hseg => (law.read h.adapter hseg).2 seg rfl
  rcases h.follows.move hmove hread with hfollows | ⟨op, p', hstep, hfollows⟩
  · exact ⟨[], p, rfl, hfollows, hadapter, h.modest, h.settled_move hmove (exec_nil _ p) hfollows⟩
  · have hexec : exec (Endpoint.step fuel q.wire) p [op] = some p' :=
      exec_cons_eq_some.mpr ⟨p', hstep, rfl⟩
    refine ⟨[op], p', hexec, hfollows, ?_, h.modest.of_step hstep, h.settled_move hmove hexec hfollows⟩
    exact law.sound_mono hadapter (List.Subset.refl _) (wire_subset_of_step hstep)

/-- The endpoint follows every move of the socket. -/
theorem Tracks.moves (h : Tracks law q p s) (hmoves : ReflTransGen (Move A fuel) s s') :
    ∃ ops p', exec (Endpoint.step fuel q.wire) p ops = some p' ∧ Tracks law q p' s' := by
  induction hmoves with
  | refl => exact ⟨[], p, rfl, h⟩
  | tail _ hmove ih =>
      obtain ⟨ops, u, hu, hs⟩ := ih
      obtain ⟨ops', p', hp', hs'⟩ := hs.move hmove
      exact ⟨ops ++ ops', p', exec_append_eq_some.mpr ⟨u, hu, hp'⟩, hs'⟩

/-- What the peer does. -/
theorem Tracks.peer {t : TCPSpongeSocket α} (h : Tracks law q p s)
    (hexec : exec (Endpoint.step fuel p.wire) q ops = some q') (ht : Tracks law p q' t) :
    Tracks law q' p s := by
  refine ⟨h.follows, ?_, h.modest, fun hp hq' => ?_⟩
  · exact law.sound_mono h.adapter (wire_subset_of_exec hexec) (List.Subset.refl _)
  · obtain ⟨hqp, hpq, -⟩ := ht.settled hq' hp
    exact ⟨hpq, hqp, (h.settled hp (Nat.lt_of_le_of_lt (written_le_of_exec hexec) hq')).2.2⟩

/-- All that can happen to a socket, in terms of moves. -/
theorem stepHost_cases {h h' : Host α} {there : List π} {act : Act ε}
    (hrules : h.running.rules.Sublist (rules A fuel)) (hstep : stepHost C A fuel there h act = some h') :
    h'.running.rules.Sublist (rules A fuel) ∧
      (ReflTransGen (Move A fuel) h.running.sock h'.running.sock ∨
        (∃ e, C.allowed there e = true ∧ h'.running.sock = { h.running.sock with
          datagramAdapter := C.happen h.running.sock.datagramAdapter e }) ∨
        ∃ reads writes controls, h'.running.sock = { h.running.sock with
          threadData := { h.running.sock.threadData with
            reads := reads, writes := writes, controls := controls } }) := by
  cases act with
  | turn t =>
      simp only [stepHost] at hstep
      split at hstep
      · contradiction
      · obtain ⟨⟨goes, r⟩, hturn, rfl⟩ := Option.map_eq_some_iff.mp hstep
        obtain ⟨hsub, hmoves⟩ := TCPSpongeSocket.turn_moves hrules (result?_eq_some_iff.mp hturn)
        exact ⟨hsub, .inl hmoves⟩
  | main time =>
      simp only [stepHost] at hstep
      split at hstep
      · rw [← Option.some.inj hstep]
        exact ⟨hrules, .inl .refl⟩
      · contradiction
  | happen e =>
      simp only [stepHost] at hstep
      split at hstep
      · next hallowed =>
          rw [← Option.some.inj hstep]
          exact ⟨hrules, .inr (.inl ⟨e, hallowed, rfl⟩)⟩
      · contradiction
  | owner reads writes controls =>
      rw [← Option.some.inj hstep]
      exact ⟨hrules, .inr (.inr ⟨reads, writes, controls, rfl⟩)⟩

/-- **Each step** of a host is a run of its endpoint. -/
theorem Tracks.stepHost {h h' : Host α} {there : List π} {act : Act ε}
    (ht : Tracks law q p h.running.sock) (hthere : ∀ packet ∈ there, law.From q.wire packet)
    (hrules : h.running.rules.Sublist (rules A fuel))
    (hstep : Hosts.stepHost C A fuel there h act = some h') :
    h'.running.rules.Sublist (rules A fuel) ∧
      ∃ ops p', exec (Endpoint.step fuel q.wire) p ops = some p' ∧
        Tracks law q p' h'.running.sock := by
  obtain ⟨hsub, hcases⟩ := stepHost_cases hrules hstep
  refine ⟨hsub, ?_⟩
  have hf := ht.follows
  have hcloses : ∀ {s : TCPSpongeSocket α}, s.tcp = h.running.sock.tcp →
      s.outboundShutdown = h.running.sock.outboundShutdown →
      s.inboundShutdown = h.running.sock.inboundShutdown → h.running.sock.Closes → s.Closes := by
    intro s htcp hout hin hc
    exact ⟨htcp ▸ hc.finished, htcp ▸ hout ▸ hc.outbound, htcp ▸ hin ▸ hc.inbound⟩
  rcases hcases with hmoves | ⟨e, hallowed, heq⟩ | ⟨reads, writes, controls, heq⟩
  · exact ht.moves hmoves
  · rw [heq]
    exact ⟨[], p, rfl, ⟨hf.conn, hf.written, hf.consumed, hf.queued⟩,
      law.happen ht.adapter hthere hallowed, ht.modest, fun hp hq =>
        (ht.settled hp hq).imp_right (And.imp_right (hcloses rfl rfl rfl))⟩
  · rw [heq]
    exact ⟨[], p, rfl, ⟨hf.conn, hf.written, hf.consumed, hf.queued⟩, ht.adapter, ht.modest,
      fun hp hq => (ht.settled hp hq).imp_right (And.imp_right (hcloses rfl rfl rfl))⟩

end

/-! ## Both sockets -/

section
variable {C : Carrier α π ε} {A : FdAdapter α} (law : C.Law A)

/-- The network of endpoints is where the sockets are. -/
structure Refines (fuel : Nat) (n : Hosts α) (m : Network) : Prop where
  a : Tracks law m.b m.a n.a.running.sock
  b : Tracks law m.a m.b n.b.running.sock
  rulesA : n.a.running.rules.Sublist (rules A fuel)
  rulesB : n.b.running.rules.Sublist (rules A fuel)

variable {law}

/-- What an endpoint does, the network does. -/
theorem exec_network_a {m : Network} (h : exec (Endpoint.step fuel m.b.wire) m.a ops = some p) :
    exec (Network.step fuel) m (ops.map fun op => (Side.A, op)) = some { m with a := p } := by
  have hmap : exec (Network.step fuel) { m with a := m.a } (ops.map fun op => (Side.A, op)) =
      (exec (Endpoint.step fuel m.b.wire) m.a ops).map fun a => { m with a := a } :=
    exec_map (f := fun a => { m with a := a }) (fun _ _ => rfl) m.a ops
  rw [h] at hmap
  exact hmap

/-- A run of one endpoint is a run of the network. -/
theorem exec_network_b {m : Network} (h : exec (Endpoint.step fuel m.a.wire) m.b ops = some p) :
    exec (Network.step fuel) m (ops.map fun op => (Side.B, op)) = some { m with b := p } := by
  have hmap : exec (Network.step fuel) { m with b := m.b } (ops.map fun op => (Side.B, op)) =
      (exec (Endpoint.step fuel m.a.wire) m.b ops).map fun b => { m with b := b } :=
    exec_map (f := fun b => { m with b := b }) (fun _ _ => rfl) m.b ops
  rw [h] at hmap
  exact hmap

/-- **Each step** of the sockets is a run of the network. -/
theorem Refines.step {n n' : Hosts α} {m : Network} (h : Refines law fuel n m)
    (hstep : step C A fuel n act = some n') :
    ∃ ops m', exec (Network.step fuel) m ops = some m' ∧ Refines law fuel n' m' := by
  obtain ⟨side, act⟩ := act
  cases side with
  | A =>
      obtain ⟨a, ha, rfl⟩ := Option.map_eq_some_iff.mp hstep
      obtain ⟨hrules, ops, p, hp, ht⟩ := h.a.stepHost (law.packets h.b.adapter) h.rulesA ha
      exact ⟨_, _, exec_network_a hp, ht, h.b.peer hp ht, hrules, h.rulesB⟩
  | B =>
      obtain ⟨b, hb, rfl⟩ := Option.map_eq_some_iff.mp hstep
      obtain ⟨hrules, ops, p, hp, ht⟩ := h.b.stepHost (law.packets h.a.adapter) h.rulesB hb
      exact ⟨_, _, exec_network_b hp, h.a.peer hp ht, ht, h.rulesA, hrules⟩

variable (law)

/-- A socket that was opened as `o` says, on a stream socket and a network that nothing has
gone over. -/
def Opened (fuel : Nat) (o : Opening) (h : Host α) : Prop :=
  ∃ threadData adapter, threadData.got = [] ∧ threadData.put = [] ∧ law.Sound [] [] adapter ∧
    Returns (TCPSpongeSocket.start A fuel o threadData adapter) h

variable {law}

/-- The endpoint follows the socket while it is opened. -/
theorem Opened.tracks {h : Host α} {q : Endpoint} (ho : Opened law fuel o h)
    (hq : q.written.length < 2 ^ 31 → Sound q (Endpoint.new o.cTcp o.random)) :
    h.running.rules = rules A fuel ∧
      ∃ ops p, exec (Endpoint.step fuel q.wire) (Endpoint.new o.cTcp o.random) ops = some p ∧
        Tracks law q p h.running.sock := by
  obtain ⟨threadData, adapter, hgot, hput, hadapter, hstart⟩ := ho
  obtain ⟨hrules, hopen, hthread, -⟩ := TCPSpongeSocket.start_returns A fuel hstart
  have htracks : ∀ {ops p}, exec (Endpoint.step fuel q.wire) (Endpoint.new o.cTcp o.random) ops =
      some p → p.Modest → p.written = [] → p.consumed = [] → p.conn = h.running.sock.tcp →
      (∀ seg ∈ p.conn.segmentsOut, seg ∈ p.wire) →
      law.Sound [] [] h.running.sock.datagramAdapter → Tracks law q p h.running.sock := by
    intro ops p hexec hmodest hwritten hconsumed hconn hqueued hsound
    refine ⟨⟨hconn, ?_, ?_, hconn ▸ hqueued⟩, ?_, hmodest, fun hp hq' => ?_⟩
    · rw [hwritten, hthread, hgot]
    · rw [hconsumed, hthread, hput]
      rfl
    · exact law.sound_mono hsound (List.nil_subset _) (List.nil_subset _)
    · obtain ⟨hpq, hqp⟩ := sound_of_exec (sound_new _ _ q) (hq hq') hp hq' hexec
      exact ⟨hpq, hqp, TCPSpongeSocket.closes_start hstart⟩
  refine ⟨hrules, ?_⟩
  rcases hopen with ⟨htcp, heq⟩ | ⟨htcp, heq⟩
  · have hstep : (Endpoint.new o.cTcp o.random).step fuel q.wire .connect = some _ :=
      Endpoint.step_eq_some.mpr ⟨trivial, _, rfl, rfl⟩
    have hexec := exec_cons_eq_some.mpr ⟨_, hstep, exec_nil (Endpoint.step fuel q.wire) _⟩
    refine ⟨_, _, hexec, htracks hexec ((Endpoint.modest_new _ _).of_step hstep) rfl rfl htcp.symm
      (fun seg hseg => hseg) ?_⟩
    rw [heq]
    exact law.configure hadapter _
  · have hexec := exec_nil (Endpoint.step fuel q.wire) (Endpoint.new o.cTcp o.random)
    refine ⟨_, _, hexec, htracks hexec (Endpoint.modest_new _ _) rfl rfl htcp.symm
      (by simp [Endpoint.new, TCPConnection.new]) ?_⟩
    rw [heq]
    exact law.setListening (law.configure hadapter _) true

/-- Two sockets that were opened. -/
theorem Refines.start {n : Hosts α} (ha : Opened law fuel oa n.a) (hb : Opened law fuel ob n.b) :
    ∃ ops m, exec (Network.step fuel) (Network.new oa.cTcp ob.cTcp oa.random ob.random) ops =
      some m ∧ Refines law fuel n m := by
  obtain ⟨hrulesA, opsA, p, hp, hpn⟩ := ha.tracks (q := Endpoint.new ob.cTcp ob.random)
    fun _ => sound_new _ _ _
  obtain ⟨hrulesB, opsB, q, hq, hqn⟩ := hb.tracks (q := p)
    fun hshort => (hpn.settled hshort (by simp [Endpoint.new])).1
  have hfirst := exec_network_a (m := Network.new oa.cTcp ob.cTcp oa.random ob.random) hp
  have hsecond := exec_network_b (m := ⟨p, Endpoint.new ob.cTcp ob.random⟩) hq
  refine ⟨_, _, exec_append_eq_some.mpr ⟨_, hfirst, hsecond⟩, hpn.peer hq hqn, hqn, ?_, ?_⟩
  · exact hrulesA ▸ List.Sublist.refl _
  · exact hrulesB ▸ List.Sublist.refl _

/-- A whole run. -/
theorem Refines.run {n n' : Hosts α} (ha : Opened law fuel oa n.a) (hb : Opened law fuel ob n.b)
    (h : exec (Hosts.step C A fuel) n acts = some n') :
    ∃ ops m, exec (Network.step fuel) (Network.new oa.cTcp ob.cTcp oa.random ob.random) ops =
      some m ∧ Refines law fuel n' m := by
  obtain ⟨ops, m, hm, hn⟩ := Refines.start ha hb
  obtain ⟨ops', m', hm', hn'⟩ := exec_simulates (R := Refines law fuel)
    (fun _ _ _ _ hR hstep => hR.step hstep) hn h
  exact ⟨ops ++ ops', m', exec_append_eq_some.mpr ⟨m, hm, hm'⟩, hn'⟩

end

/-! ## From one owner to the other -/

section
variable {C : Carrier α π ε} {A : FdAdapter α} {law : C.Law A}

/-- Both sides are followed, each with the other as its peer. -/
theorem Refines.tracks {n : Hosts α} {m : Network} (h : Refines law fuel n m) (side : Side) :
    ∃ p q, Tracks law q p (n.sock side) ∧ Tracks law p q (n.sock side.peer) := by
  cases side with
  | A => exact ⟨m.a, m.b, h.a, h.b⟩
  | B => exact ⟨m.b, m.a, h.b, h.a⟩

variable {p q : Endpoint} {s t : TCPSpongeSocket α} (hs : Tracks law q p s) (ht : Tracks law p q t)
  (hshort : s.threadData.got.length < 2 ^ 31) (hshort' : t.threadData.got.length < 2 ^ 31)
include hs ht hshort hshort'

/-- What was given to the owner, with what is still in the stream, is the beginning of what was
read from the other owner. -/
theorem Tracks.given_append_stream :
    s.threadData.put.flatten ++ s.tcp.inboundStream.stream <+: t.threadData.got := by
  rw [← hs.follows.written] at hshort
  rw [← ht.follows.written] at hshort' ⊢
  rw [← hs.follows.consumed, ← hs.follows.conn]
  exact (hs.settled hshort hshort').1.consumed_append_stream

/-- At the end of the inbound stream, the peer's owner has closed its side. -/
theorem Tracks.given_whole (heof : s.tcp.inboundStream.eof = true) :
    s.threadData.put.flatten = t.threadData.got ∧ t.outboundShutdown = true := by
  rw [← hs.follows.written] at hshort
  rw [← ht.follows.written] at hshort' ⊢
  rw [← hs.follows.conn] at heof
  obtain ⟨hconsumed, hfin⟩ := (hs.settled hshort hshort').1.consumed_of_eof heof
  obtain ⟨hqp, -, hcloses⟩ := ht.settled hshort' hshort
  obtain ⟨hsent, hended⟩ := hqp.sent_of_fin (ht.follows.conn ▸ hcloses.outbound) hfin
  rw [← hs.follows.consumed]
  exact ⟨hconsumed.trans hsent, hended⟩

/-- The flags of the socket say what its streams say. -/
theorem Tracks.closes : s.Closes := by
  rw [← hs.follows.written] at hshort
  rw [← ht.follows.written] at hshort'
  exact (hs.settled hshort hshort').2.2

end

end Hosts

end Sponge
