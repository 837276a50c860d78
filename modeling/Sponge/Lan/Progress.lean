import Sponge.Lan
import Sponge.NetworkInterface.Tables
import Sponge.NetworkInterface.Total

/-!
# Sponge.Lan.Progress

Whatever the wire has lost, a datagram that waits for an address can still get
there.  From every reachable state, and with nothing left of the frames there
have been, there is a way on in which the interface that has the address returns
all that waits for it, in order (`waiting_get_through`): the countdown of the
pending request runs out and the request is repeated, the other answers it, and
the reply lets the datagrams go.

An interface among others lives through a run of its own (`exec_interface`), so
what is proved of every run of one interface holds of each on the wire.
-/

namespace Sponge

open NetworkInterface (Carries requestFrame replyFrame makeARP ARP_RESPONSE_DEFAULT_TTL nextTtl)
open TCPOverIPv4OverEthernetAdapter (emptyFrame)

/-! ## Requests that are repeated -/

namespace NetworkInterface

/-- **A pending request is repeated** within five seconds. -/
theorem exists_ticks_request {s : NetworkInterface} {ip : UInt32} (hs : s.Orderly)
    (hip : s.waitingArpResponseIpAddr[ip]? = some ttl) :
    ∃ fuel s₁ s₂, Returns (s.tick fuel 4999) s₁ ∧ Returns (s₁.tick fuel 1) s₂ ∧
      s₂.ethernetAddress = s.ethernetAddress ∧ s₂.ipAddress = s.ipAddress ∧
      s₂.waitingArpInternetDatagrams = s.waitingArpInternetDatagrams ∧
      requestFrame s.ethernetAddress s.ipAddress ip ∈ s₂.framesOut := by
  obtain ⟨f₁, s₁, h₁⟩ : ∃ fuel d, Returns (s.tick fuel 4999) d :=
    exists_requestLoop_returns _ _ (.inl (by decide))
  obtain ⟨f₂, s₂, h₂⟩ : ∃ fuel d, Returns (s₁.tick fuel 1) d :=
    exists_requestLoop_returns _ _ (.inl (by decide))
  have h₁' := requestLoop_mono (Nat.le_max_left f₁ f₂) _ _ h₁
  have h₂' := requestLoop_mono (Nat.le_max_right f₁ f₂) _ _ h₂
  refine ⟨max f₁ f₂, s₁, s₂, h₁', h₂', ?_⟩
  obtain ⟨pending₁, rfl, hpending⟩ := tick_returns h₁
  obtain ⟨pending₂, rfl, -⟩ := tick_returns h₂
  -- The first tick leaves one millisecond on the countdown, whether it was due or not.
  have hone : pending₁[ip]? = some 1 := by
    have hle : ttl ≤ 5000 := (hs.countdown ip ttl hip).2
    rw [hpending, hip, Option.map_some, nextTtl]
    by_cases hdue : ttl ≤ 4999
    · rw [if_pos hdue]
      rfl
    · rw [if_neg hdue]
      exact congrArg some (by omega)
  refine ⟨rfl, rfl, rfl, List.mem_append_right _ (List.mem_map.mpr ⟨(ip, 1), ?_, rfl⟩)⟩
  exact List.mem_filter.mpr ⟨Std.TreeMap.mem_toList_iff_getElem?_eq_some.mpr hone, rfl⟩

end NetworkInterface

namespace Lan

variable {ι : Type} [DecidableEq ι] {eth : ι → EthernetAddress} {own : ι → Address} {n n' : Lan ι}

/-! ## One interface among others -/

@[simp] theorem set_interface_self (n : Lan ι) (i : ι) (s : NetworkInterface) :
    (n.set i s).interface i = s := by
  simp [set]

/-- The other interfaces stay as they are. -/
theorem set_interface_of_ne (n : Lan ι) (s : NetworkInterface) (h : j ≠ i) :
    (n.set i s).interface j = n.interface j := by
  simp [set, h]

/-- Each step is nothing or one call for one of the interfaces, and nothing for the others. -/
theorem step_interface {act : ι × Act} (h : n.step fuel act = some n') (j : ι) :
    ∃ ops, exec (NetworkInterface.step fuel) (n.interface j) ops = some (n'.interface j) := by
  obtain ⟨i, act⟩ := act
  have hset : ∀ op s, (n.interface i).step fuel op = some s → ∃ ops,
      exec (NetworkInterface.step fuel) (n.interface j) ops = some ((n.set i s).interface j) := by
    intro op s hs
    by_cases hj : j = i
    · subst hj
      exact ⟨[op], exec_cons_eq_some.mpr ⟨s, hs, by simp⟩⟩
    · exact ⟨[], by simp [set_interface_of_ne n s hj]⟩
  cases act with
  | send dgram nextHop =>
      obtain ⟨s, hs, rfl⟩ := Option.map_eq_some_iff.mp h
      exact hset (.sendDatagram dgram nextHop) s hs
  | receive packet =>
      simp only [step] at h
      split at h
      · split at h
        · next frame hparse =>
            obtain ⟨r, hr, rfl⟩ := Option.map_eq_some_iff.mp h
            exact hset (.recvFrame frame) r.2 (Option.map_eq_some_iff.mpr ⟨r, hr, rfl⟩)
        · exact ⟨[], by rw [exec_nil, Option.some.inj h]⟩
      · contradiction
  | tick ms =>
      obtain ⟨s, hs, rfl⟩ := Option.map_eq_some_iff.mp h
      exact hset (.tick ms) s hs
  | transmit =>
      rw [← Option.some.inj h]
      exact hset .dequeue _ rfl

/-- **An interface among others** has a run of its own. -/
theorem exec_interface (h : exec (step fuel) (new eth own) acts = some n) (j : ι) :
    ∃ ops, exec (NetworkInterface.step fuel) (.new (eth j) (own j)) ops =
      some (n.interface j) := by
  refine exec_invariant (P := fun m : Lan ι => ∃ ops,
    exec (NetworkInterface.step fuel) (.new (eth j) (own j)) ops = some (m.interface j))
    (fun m act m' hm hstep => ?_) ⟨[], rfl⟩ h
  obtain ⟨ops, hops⟩ := hm
  obtain ⟨ops', hops'⟩ := step_interface hstep j
  exact ⟨ops ++ ops', exec_append_eq_some.mpr ⟨_, hops, hops'⟩⟩

/-! ## Ways on -/

/-- A call that returns, whatever fuel it takes. -/
def Step (n : Lan ι) (act : ι × Act) (n' : Lan ι) : Prop := ∃ fuel, n.step fuel act = some n'

/-- More fuel never changes a result. -/
theorem fuelMono : FuelMono (step : Nat → Lan ι → ι × Act → Option (Lan ι)) := by
  intro m k n act n' hle h
  obtain ⟨i, act⟩ := act
  cases act with
  | send | transmit => exact h
  | receive packet =>
      simp only [step] at h ⊢
      split at h
      · next hmem =>
          rw [if_pos hmem]
          split at h
          · obtain ⟨r, hr, rfl⟩ := Option.map_eq_some_iff.mp h
            rw [result?_eq_some_iff] at hr
            have hr' := NetworkInterface.recvFrame_mono hle _ _ hr
            simp [*, result?_eq_some_iff.mpr hr']
          · simp [*]
      · contradiction
  | tick ms =>
      obtain ⟨s, hs, rfl⟩ := Option.map_eq_some_iff.mp h
      rw [result?_eq_some_iff] at hs
      exact Option.map_eq_some_iff.mpr
        ⟨s, result?_eq_some_iff.mpr (NetworkInterface.requestLoop_mono hle _ _ hs), rfl⟩

/-- The bytes of a frame. -/
def packet (frame : EthernetFrame) : List UInt8 := frame.serialize.concatenate

/-- All frames of an interface go out. -/
def flush (n : Lan ι) (i : ι) : Lan ι :=
  { n.set i { n.interface i with framesOut := [] } with
    wire := n.wire ++ (n.interface i).framesOut.map packet }

@[simp] theorem flush_interface_self (n : Lan ι) (i : ι) :
    (n.flush i).interface i = { n.interface i with framesOut := [] } :=
  set_interface_self n i _

/-- The other interfaces stay as they are. -/
theorem flush_interface_of_ne (n : Lan ι) (h : j ≠ i) :
    (n.flush i).interface j = n.interface j :=
  set_interface_of_ne n _ h

/-- What was waiting is on the wire. -/
theorem packet_mem_flush {n : Lan ι} (h : frame ∈ (n.interface i).framesOut) :
    packet frame ∈ (n.flush i).wire :=
  List.mem_append_right _ (List.mem_map_of_mem h)

/-- All frames of one interface go out, one step for each. -/
theorem steps_flush (n : Lan ι) (i : ι) : ∃ acts, Steps Step n acts (n.flush i) := by
  generalize hout : (n.interface i).framesOut = out
  induction out generalizing n with
  | nil =>
      have hsame : { n.interface i with framesOut := [] } = n.interface i := by rw [← hout]
      refine ⟨[], ?_⟩
      rw [flush, set, hsame, hout, List.map_nil, List.append_nil, Function.update_eq_self]
      exact .nil n
  | cons frame rest ih =>
      have hstep : Step n (i, .transmit) { n.set i { n.interface i with framesOut := rest } with
          wire := n.wire ++ [packet frame] } := ⟨0, by simp [step, hout, packet]⟩
      obtain ⟨acts, hacts⟩ := ih { n.set i { n.interface i with framesOut := rest } with
        wire := n.wire ++ [packet frame] } (by simp)
      refine ⟨(i, .transmit) :: acts, .cons hstep ?_⟩
      simpa [flush, set, hout] using hacts

/-- A frame on the wire can be received. -/
theorem step_receive {i : ι} {s : NetworkInterface} (hmem : packet frame ∈ n.wire)
    (hrecv : Returns ((n.interface i).recvFrame fuel ⟨frame.header, [frame.payload.concatenate]⟩)
      (res, s)) :
    Step n (i, .receive (packet frame))
      { n.set i s with returned := n.returned ++ res.toList.map fun d => (i, d) } := by
  have hparse : emptyFrame.parse (packet frame) =
      .ok (.NoError, ⟨frame.header, [frame.payload.concatenate]⟩) := by
    rw [packet, EthernetFrame.concatenate_serialize, EthernetFrame.parse_bytes_append]
  refine ⟨fuel, ?_⟩
  simp [step, hmem, hparse, result?_eq_some_iff.mpr hrecv]

/-- Datagrams that are on the wire are returned one after the other. -/
theorem steps_receive {i : ι} (hdst : (n.interface i).ethernetAddress = dst)
    (hframes : List.Forall₂ (fun p : Address × IPv4Datagram => Carries dst src p.2) dgrams frames)
    (hfits : ∀ p ∈ dgrams, p.2.Fits) (hwire : ∀ frame ∈ frames, packet frame ∈ n.wire) :
    ∃ acts, Steps Step n acts
      { n with returned := n.returned ++ dgrams.map fun p => (i, p.2.received) } := by
  induction hframes generalizing n with
  | nil =>
      rw [List.map_nil, List.append_nil]
      exact ⟨[], .nil n⟩
  | @cons p frame dgrams frames hcarries hrest ih =>
      have hstep := step_receive (hwire frame List.mem_cons_self) (NetworkInterface.recvFrame_carries
        (hfits p List.mem_cons_self) (hdst ▸ hcarries) 0)
      have hsame : n.set i (n.interface i) = n := by rw [set, Function.update_eq_self]
      rw [hsame] at hstep
      obtain ⟨acts, hacts⟩ := ih (n := { n with returned := n.returned ++ [(i, p.2.received)] }) hdst
        (fun q hq => hfits q (List.mem_cons_of_mem _ hq))
        (fun f hf => hwire f (List.mem_cons_of_mem _ hf))
      refine ⟨_ :: acts, .cons hstep ?_⟩
      simpa using hacts

/-- An interface gets an ARP message that is for it, and sends out all it has. -/
theorem steps_learn {i : ι} {arpMsg : ARPMessage} (hsup : arpMsg.supported = true)
    (hdst : dst = (n.interface i).ethernetAddress ∨ dst = ETHERNET_BROADCAST)
    (hvalid : (n.interface i).Valid arpMsg)
    (hfits : ∀ p ∈ (n.interface i).waitingArpInternetDatagrams, p.2.Fits)
    (hmem : packet ⟨⟨dst, src, EthernetHeader.TYPE_ARP⟩, [arpMsg.bytes]⟩ ∈ n.wire) :
    ∃ acts frames, Steps Step n acts
        ((n.set i ((n.interface i).learn arpMsg frames)).flush i) ∧
      List.Forall₂ (fun p => Carries arpMsg.senderEthernetAddress
        (n.interface i).ethernetAddress p.2)
        ((n.interface i).waitingFor arpMsg.senderIpAddress) frames := by
  obtain ⟨frames, hframes, hrecv⟩ := NetworkInterface.exists_recvFrame_learn arpMsg hsup hdst hvalid
    hfits (Nat.lt_succ_self _) src
  have hpayload : BufferList.concatenate [arpMsg.bytes] = arpMsg.bytes := by
    simp [BufferList.concatenate]
  have hstep := step_receive (i := i) hmem (by rw [hpayload]; exact hrecv)
  obtain ⟨acts, hacts⟩ := steps_flush (n.set i ((n.interface i).learn arpMsg frames)) i
  refine ⟨_ :: acts, frames, .cons hstep ?_, hframes⟩
  rwa [Option.toList_none, List.map_nil, List.append_nil]

/-- An interface with a pending request repeats it. -/
theorem steps_request {i : ι} {ip : UInt32} (hord : (n.interface i).Orderly)
    (hip : (n.interface i).waitingArpResponseIpAddr[ip]? = some ttl) :
    ∃ acts s, Steps Step n acts ((n.set i s).flush i) ∧
      s.ethernetAddress = (n.interface i).ethernetAddress ∧
      s.ipAddress = (n.interface i).ipAddress ∧
      s.waitingArpInternetDatagrams = (n.interface i).waitingArpInternetDatagrams ∧
      requestFrame (n.interface i).ethernetAddress (n.interface i).ipAddress ip ∈ s.framesOut := by
  obtain ⟨fuel, s₁, s₂, h₁, h₂, hs₂⟩ := NetworkInterface.exists_ticks_request hord hip
  have hstep₁ : Step n (i, .tick 4999) (n.set i s₁) :=
    ⟨fuel, by simp [step, result?_eq_some_iff.mpr h₁]⟩
  have hstep₂ : Step (n.set i s₁) (i, .tick 1) (n.set i s₂) :=
    ⟨fuel, by simp [step, result?_eq_some_iff.mpr h₂, set]⟩
  obtain ⟨acts, hacts⟩ := steps_flush (n.set i s₂) i
  exact ⟨_, s₂, .cons hstep₁ (.cons hstep₂ hacts), hs₂⟩

/-! ## Nothing is stuck -/

/-- **What waits can get through**: even if nothing is left on the wire, there is a way on from
every reachable state, without another datagram being sent, in which the interface
with the address returns the datagrams that wait for it, in order. -/
theorem waiting_get_through (hfits : ∀ act ∈ acts, act.2.Sendable)
    (h : exec (step fuel) (new eth own) acts = some n) (hij : i ≠ j) :
    ∃ fuel' more n', exec (step fuel') { n with wire := [] } more = some n' ∧
      n'.given = n.given ∧
      n'.returned = n.returned ++
        ((n.interface i).waitingFor (own j).ipv4Numeric).map (fun p => (j, p.2.received)) ∧
      (n'.interface i).waitingFor (own j).ipv4Numeric = [] := by
  have hn := exec_honest hfits h
  have hwaiting : ∀ k, ∀ p ∈ (n.interface k).waitingArpInternetDatagrams, p.2.Fits :=
    fun k p hp => hn.fits _ ((hn.station k).waiting p hp)
  by_cases hnone : (n.interface i).waitingFor (own j).ipv4Numeric = []
  · exact ⟨0, [], _, rfl, rfl, by simp [hnone], hnone⟩
  obtain ⟨p, hp⟩ := List.exists_mem_of_ne_nil _ hnone
  obtain ⟨hwaits, hip⟩ := List.mem_filter.mp hp
  obtain ⟨ops, hops⟩ := exec_interface h i
  have hord := NetworkInterface.exec_orderly hops
  obtain ⟨ttl, httl⟩ := hord.awaited p hwaits
  rw [of_decide_eq_true hip] at httl
  -- The request goes out again ...
  obtain ⟨asks, s, hasks, hseth, hsip, hswaiting, hrequest⟩ :=
    steps_request (n := { n with wire := [] }) (i := i) hord httl
  generalize hn₁ : ({ n with wire := [] }.set i s).flush i = n₁ at hasks
  have hi₁ : n₁.interface i = { s with framesOut := [] } := by
    simp [← hn₁]
  have hj₁ : n₁.interface j = n.interface j := by
    rw [← hn₁, flush_interface_of_ne _ hij.symm, set_interface_of_ne _ _ hij.symm]
  have hrequest₁ : packet (requestFrame (n.interface i).ethernetAddress (n.interface i).ipAddress
      (own j).ipv4Numeric) ∈ n₁.wire := by
    rw [← hn₁]
    exact packet_mem_flush (by simpa using hrequest)
  -- ... and is answered, ...
  obtain ⟨answers, back, hanswers, -⟩ := steps_learn (i := j) rfl (.inr rfl)
    (.inl ⟨rfl, by rw [hj₁, (hn.station j).own_eq]; rfl⟩) (by rw [hj₁]; exact hwaiting j) hrequest₁
  generalize hn₂ : (n₁.set j _).flush j = n₂ at hanswers
  have hi₂ : n₂.interface i = { s with framesOut := [] } := by
    rw [← hn₂, flush_interface_of_ne _ hij, set_interface_of_ne _ _ hij, hi₁]
  have hj₂ : (n₂.interface j).ethernetAddress = (n.interface j).ethernetAddress := by
    simp [← hn₂, NetworkInterface.learn, hj₁]
  have hreply₂ : packet (replyFrame (n.interface j).ethernetAddress (n.interface j).ipAddress
      (makeARP ARPMessage.OPCODE_REQUEST (n.interface i).ethernetAddress
        (n.interface i).ipAddress.ipv4Numeric (.replicate 6 0) (own j).ipv4Numeric)) ∈ n₂.wire := by
    rw [← hn₂]
    refine packet_mem_flush ?_
    simp [NetworkInterface.learn, makeARP, hj₁]
  -- ... and the reply lets the datagrams go.
  obtain ⟨goes, there, hgoes, hthere⟩ := steps_learn (i := i) rfl
    (.inl (by rw [hi₂]; exact hseth.symm)) (.inr ⟨rfl, by rw [hi₂]; exact hseth.symm⟩)
    (by rw [hi₂]; exact hswaiting ▸ hwaiting i) hreply₂
  generalize hn₃ : (n₂.set i _).flush i = n₃ at hgoes
  have hj₃ : (n₃.interface j).ethernetAddress = (n.interface j).ethernetAddress := by
    rw [← hn₃, flush_interface_of_ne _ hij.symm, set_interface_of_ne _ _ hij.symm, hj₂]
  have hwaits₂ : (n₂.interface i).waitingFor (own j).ipv4Numeric =
      (n.interface i).waitingFor (own j).ipv4Numeric := by
    rw [hi₂]
    exact congrArg (List.filter _) hswaiting
  have hthere' : List.Forall₂ (fun p => Carries (n.interface j).ethernetAddress
      (n₂.interface i).ethernetAddress p.2) ((n.interface i).waitingFor (own j).ipv4Numeric) there := by
    rw [← hwaits₂, ← (hn.station j).own_eq]
    exact hthere
  obtain ⟨arrives, harrives⟩ := steps_receive hj₃ hthere'
    (fun q hq => hwaiting i q (List.mem_filter.mp hq).1) fun frame hframe => by
      rw [← hn₃]
      refine packet_mem_flush ?_
      rw [set_interface_self]
      exact List.mem_append_right _ hframe
  obtain ⟨fuel', hexec⟩ := fuelMono.exists_exec_iff.mpr
    (hasks.append (hanswers.append (hgoes.append harrives)))
  refine ⟨fuel', _, _, hexec, ?_, ?_, ?_⟩
  · rw [← hn₃, ← hn₂, ← hn₁]
    rfl
  · rw [← hn₃, ← hn₂, ← hn₁]
    rfl
  · simp [← hn₃, NetworkInterface.waitingFor, NetworkInterface.learn, NetworkInterface.waitingElse,
      makeARP, (hn.station j).own_eq]

/-- The request is lost, and asked again after five seconds. -/
theorem waiting_get_through_lost :
    ∃ n, exec (step 9) (new pairEth pairOwn) (askAndSend.take 2) = some n ∧ n.returned = [] ∧
      ∃ fuel more n', exec (step fuel) { n with wire := [] } more = some n' ∧
        n'.returned.map (fun p => (p.1, p.2.header.ttl)) = [(true, 7)] := by
  have hrun : (exec (step 9) (new pairEth pairOwn) (askAndSend.take 2)).map
      (fun n => (n.returned.length, ((n.interface false).waitingFor 2).map fun p => p.2.header.ttl)) =
      some (0, [7]) := by
    decide +kernel
  obtain ⟨n, hn, heq⟩ := Option.map_eq_some_iff.mp hrun
  obtain ⟨hreturned, hwaiting⟩ := Prod.mk.inj heq
  have hnil : n.returned = [] := List.length_eq_zero_iff.mp hreturned
  obtain ⟨fuel, more, n', hmore, -, heq, -⟩ := waiting_get_through (i := false) (j := true)
    (fun act hact => sendable_askAndSend act (List.mem_of_mem_take hact)) hn (by decide)
  refine ⟨n, hn, hnil, fuel, more, n', hmore, ?_⟩
  have httl := congrArg (List.map (Prod.mk true)) hwaiting
  rw [heq, hnil, List.nil_append, List.map_map]
  rw [List.map_map] at httl
  exact httl

end Lan

end Sponge
