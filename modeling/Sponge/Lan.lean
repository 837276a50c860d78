import Mathlib.Logic.Function.Basic
import Sponge.IPv4Datagram.Roundtrip
import Sponge.NetworkInterface.Requests
import Sponge.TunTapAdapter

/-!
# Sponge.Lan

Interfaces on one Ethernet.  Frames travel as bytes; the wire loses, repeats,
delays and reorders them, and every interface may see every frame.

As long as nobody else is on the wire, address resolution tells the truth:
every entry of an ARP table is the address of the interface that has the IP
address (`Station.table`), whatever the order in which requests, replies and
timeouts come.  So a datagram is returned by an interface only if it was sent to
the IP address of that interface (`returned_to_next_hop`).
-/

namespace Sponge

open NetworkInterface (Op Change Carries Accepts arp? requestFrame replyFrame makeARP)
open TCPOverIPv4OverEthernetAdapter (emptyFrame)

/-- The interfaces, all frames there ever were on the wire, the datagrams that the interfaces
were given with their next hops, and the datagrams they have returned. -/
structure Lan (ι : Type) where
  interface : ι → NetworkInterface
  wire : List (List UInt8) := []
  given : List (ι × Address × IPv4Datagram) := []
  returned : List (ι × IPv4Datagram) := []

namespace Lan

/-- What can happen to an interface. -/
inductive Act where
  | send (dgram : IPv4Datagram) (nextHop : Address)
  | receive (packet : List UInt8)
  | tick (ms : Nat)
  /-- The next frame goes out on the wire. -/
  | transmit

section
variable {ι : Type} [DecidableEq ι]

def new (eth : ι → EthernetAddress) (own : ι → Address) : Lan ι where
  interface i := NetworkInterface.new (eth i) (own i)

/-- An interface that has changed. -/
def set (n : Lan ι) (i : ι) (s : NetworkInterface) : Lan ι :=
  { n with interface := Function.update n.interface i s }

/-- What an interface is given, what it puts on the wire, and what it takes from there. -/
def step (fuel : Nat) (n : Lan ι) : ι × Act → Option (Lan ι)
  | (i, .send dgram nextHop) =>
      ((n.interface i).sendDatagram dgram nextHop).toOption.map fun s =>
        { n.set i s with given := n.given ++ [(i, nextHop, dgram)] }
  | (i, .receive packet) =>
      if n.wire.contains packet then
        match emptyFrame.parse packet with
        | .ok (.NoError, frame) => ((n.interface i).recvFrame fuel frame).result?.map fun r =>
            { n.set i r.2 with returned := n.returned ++ r.1.toList.map fun d => (i, d) }
        | _ => some n
      else none
  | (i, .tick ms) => ((n.interface i).tick fuel ms).result?.map (n.set i)
  | (i, .transmit) =>
      some { n.set i { n.interface i with framesOut := (n.interface i).framesOut.drop 1 } with
        wire := n.wire ++ (n.interface i).framesOut.head?.toList.map fun f => f.serialize.concatenate }

end

/-! ## Frames that tell the truth -/

section
variable {ι : Type} (eth : ι → EthernetAddress) (own : ι → Address)

/-- The IP address is that of an interface with the Ethernet address. -/
def Owns (ip : UInt32) (e : EthernetAddress) : Prop := ∃ j, (own j).ipv4Numeric = ip ∧ eth j = e

/-- An ARP message that names its sender, or a datagram on the way to its next hop. -/
inductive Truthful (given : List (ι × Address × IPv4Datagram)) : EthernetFrame → Prop
  | arp (dst src : EthernetAddress) (arpMsg : ARPMessage) : arpMsg.supported = true →
      Owns eth own arpMsg.senderIpAddress arpMsg.senderEthernetAddress →
      Truthful given ⟨⟨dst, src, EthernetHeader.TYPE_ARP⟩, [arpMsg.bytes]⟩
  | ipv4 (i : ι) (nextHop : Address) (dgram : IPv4Datagram) (dst src : EthernetAddress)
      (frame : EthernetFrame) : (i, nextHop, dgram) ∈ given → Owns eth own nextHop.ipv4Numeric dst →
      Carries dst src dgram frame → Truthful given frame

variable {eth own} {given given' : List (ι × Address × IPv4Datagram)}

/-- More may have been given. -/
theorem Truthful.mono {frame : EthernetFrame} (h : Truthful eth own given frame)
    (hsub : given ⊆ given') : Truthful eth own given' frame := by
  cases h with
  | arp dst src arpMsg hsup howns => exact .arp dst src arpMsg hsup howns
  | ipv4 i nextHop dgram dst src _ hmem howns hcarries =>
      exact .ipv4 i nextHop dgram dst src frame (hsub hmem) howns hcarries

/-- An ARP message as it is read from the wire. -/
theorem Truthful.owns {frame : EthernetFrame} (h : Truthful eth own given frame)
    (harp : arp? ⟨frame.header, [frame.payload.concatenate]⟩ = some arpMsg) :
    Owns eth own arpMsg.senderIpAddress arpMsg.senderEthernetAddress := by
  cases h with
  | arp dst src m hsup howns =>
      have hpayload : BufferList.concatenate [m.bytes] = m.bytes := by simp [BufferList.concatenate]
      rw [hpayload, NetworkInterface.arp?_bytes hsup, Option.some.injEq] at harp
      exact harp ▸ howns
  | ipv4 i nextHop dgram dst src _ hmem howns hcarries =>
      rw [arp?, hcarries.header_eq] at harp
      simp [EthernetHeader.TYPE_IPv4, EthernetHeader.TYPE_ARP] at harp

/-- A datagram as it is read from the wire. -/
theorem Truthful.received {frame : EthernetFrame} {s s' : NetworkInterface}
    (h : Truthful eth own given frame) (hfits : ∀ g ∈ given, g.2.2.Fits)
    (hrecv : Returns (s.recvFrame fuel ⟨frame.header, [frame.payload.concatenate]⟩)
      (some dgram, s')) :
    ∃ i nextHop d, (i, nextHop, d) ∈ given ∧ dgram = d.received ∧
      ∃ dst, Owns eth own nextHop.ipv4Numeric dst ∧
        (dst = s.ethernetAddress ∨ dst = ETHERNET_BROADCAST) := by
  obtain ⟨hdst, hip, payload, hpayload, hparse⟩ := NetworkInterface.recvFrame_some hrecv
  cases h with
  | arp dst src m hsup howns => exact absurd hip (by simp [EthernetHeader.TYPE_IPv4, EthernetHeader.TYPE_ARP])
  | ipv4 i nextHop d dst src _ hmem howns hcarries =>
      have hd := hfits _ hmem
      simp only [hcarries.header_eq] at hdst
      exact ⟨i, nextHop, d, hmem, hd.eq_received hcarries.payload_eq hpayload hparse, dst, howns, hdst⟩

/-! ## One interface -/

variable (eth own)

/-- What holds of the interface `i`. -/
structure Station (given : List (ι × Address × IPv4Datagram)) (i : ι) (s : NetworkInterface) :
    Prop where
  eth_eq : s.ethernetAddress = eth i
  own_eq : s.ipAddress = own i
  table : ∀ ip entry, s.arpTable[ip]? = some entry → Owns eth own ip entry.ethAddr
  waiting : ∀ p ∈ s.waitingArpInternetDatagrams, (i, p.1, p.2) ∈ given
  frames : ∀ frame ∈ s.framesOut, Truthful eth own given frame

variable {eth own} {s d : NetworkInterface}

/-- More may have been given. -/
theorem Station.mono (h : Station eth own given i s) (hsub : given ⊆ given') :
    Station eth own given' i s :=
  ⟨h.eth_eq, h.own_eq, h.table, fun p hp => hsub (h.waiting p hp),
    fun f hf => (h.frames f hf).mono hsub⟩

/-- New frames join those that are waiting. -/
theorem Station.append (h : Station eth own given i s)
    (hmore : ∀ frame ∈ more, Truthful eth own given frame) :
    ∀ frame ∈ s.framesOut ++ more, Truthful eth own given frame :=
  fun frame hf => (List.mem_append.mp hf).elim (h.frames frame) (hmore frame)

/-- The messages that an interface makes name it as their sender. -/
theorem Station.request (h : Station eth own given i s) (ip : UInt32) :
    Truthful eth own given (requestFrame s.ethernetAddress s.ipAddress ip) :=
  .arp _ _ _ rfl ⟨i, congrArg Address.ipv4Numeric h.own_eq.symm, h.eth_eq.symm⟩

/-- A reply tells the interface's own address. -/
theorem Station.reply (h : Station eth own given i s) (arpMsg : ARPMessage) :
    Truthful eth own given (replyFrame s.ethernetAddress s.ipAddress arpMsg) :=
  .arp _ _ _ rfl ⟨i, congrArg Address.ipv4Numeric h.own_eq.symm, h.eth_eq.symm⟩

/-- **Every change** of an interface keeps to the truth. -/
theorem Station.change (h : Station eth own given i s) (hchange : Change s op d)
    (hsend : ∀ dgram nextHop, op = .sendDatagram dgram nextHop → (i, nextHop, dgram) ∈ given)
    (hrecv : ∀ frame arpMsg, op = .recvFrame frame → arp? frame = some arpMsg →
      Owns eth own arpMsg.senderIpAddress arpMsg.senderEthernetAddress) :
    Station eth own given i d := by
  cases hchange with
  | forward dgram nextHop entry frame hentry hcarries =>
      refine ⟨h.eth_eq, h.own_eq, h.table, h.waiting, h.append fun f hf => ?_⟩
      rw [List.mem_singleton.mp hf]
      exact .ipv4 i nextHop dgram _ _ frame (hsend dgram nextHop rfl) (h.table _ _ hentry) hcarries
  | hold dgram nextHop =>
      refine ⟨h.eth_eq, h.own_eq, h.table, fun p hp => ?_, h.frames⟩
      rcases List.mem_append.mp hp with hold | hnew
      · exact h.waiting p hold
      · exact List.mem_singleton.mp hnew ▸ hsend dgram nextHop rfl
  | ask dgram nextHop =>
      refine ⟨h.eth_eq, h.own_eq, h.table, fun p hp => ?_, h.append fun f hf => ?_⟩
      · rcases List.mem_append.mp hp with hold | hnew
        · exact h.waiting p hold
        · exact List.mem_singleton.mp hnew ▸ hsend dgram nextHop rfl
      · rw [List.mem_singleton.mp hf]
        exact h.request _
  | ignore => exact h
  | learn frame arpMsg frames haccepts hframes =>
      have howns := hrecv frame arpMsg rfl haccepts.arp
      refine ⟨h.eth_eq, h.own_eq, fun ip entry hentry => ?_,
        fun p hp => h.waiting p (List.mem_filter.mp hp).1, fun f hf => ?_⟩
      · rw [NetworkInterface.getElem?_learn_arpTable] at hentry
        split at hentry
        · next heq => exact heq ▸ Option.some.inj hentry ▸ howns
        · exact h.table ip entry hentry
      · rcases List.mem_append.mp hf with hf | hf
        · refine h.append (fun f hf => ?_) f hf
          split at hf
          · rw [List.mem_singleton.mp hf]
            exact h.reply arpMsg
          · simp at hf
        · obtain ⟨p, hp, hcarries⟩ := NetworkInterface.exists_of_forall₂ hframes hf
          obtain ⟨hwaits, hip⟩ := List.mem_filter.mp hp
          exact .ipv4 i p.1 p.2 _ _ f (h.waiting p hwaits) (of_decide_eq_true hip ▸ howns) hcarries
  | pass ms pending =>
      refine ⟨h.eth_eq, h.own_eq, fun ip entry hentry => ?_, h.waiting, h.append fun f hf => ?_⟩
      · rw [NetworkInterface.pass_arpTable, NetworkInterface.getElem?_age, Option.bind_eq_some_iff]
          at hentry
        obtain ⟨old, hold, hentry⟩ := hentry
        split at hentry
        · contradiction
        · exact Option.some.inj hentry ▸ h.table ip old hold
      · obtain ⟨p, -, rfl⟩ := List.mem_map.mp hf
        exact h.request _
  | dequeue =>
      exact ⟨h.eth_eq, h.own_eq, h.table, h.waiting, fun f hf => h.frames f (List.mem_of_mem_drop hf)⟩

/-! ## All of them -/

variable (eth own)

/-- What holds of the whole Ethernet. -/
structure Honest (n : Lan ι) : Prop where
  station : ∀ i, Station eth own n.given i (n.interface i)
  wire : ∀ packet ∈ n.wire,
    ∃ frame, Truthful eth own n.given frame ∧ packet = frame.serialize.concatenate
  fits : ∀ g ∈ n.given, g.2.2.Fits
  returned : ∀ p ∈ n.returned, ∃ i nextHop d, (i, nextHop, d) ∈ n.given ∧ p.2 = d.received ∧
    ∃ dst, Owns eth own nextHop.ipv4Numeric dst ∧ (dst = eth p.1 ∨ dst = ETHERNET_BROADCAST)

/-- A datagram that is sent fits its format. -/
def Act.Sendable : Act → Prop
  | .send dgram _ => dgram.Fits
  | _ => True

variable {eth own} {n n' : Lan ι}

/-- At first there is nothing to be wrong about. -/
theorem honest_new : Honest eth own (new eth own) where
  station _ := ⟨rfl, rfl, by simp [new, NetworkInterface.new], by simp [new, NetworkInterface.new],
    by simp [new, NetworkInterface.new]⟩
  wire := by simp [new]
  fits := by simp [new]
  returned := by simp [new]

/-- One more datagram is given to an interface. -/
theorem Honest.give (h : Honest eth own n) (hfits : dgram.Fits) (i : ι) (nextHop : Address) :
    Honest eth own { n with given := n.given ++ [(i, nextHop, dgram)] } where
  station j := (h.station j).mono (List.subset_append_left _ _)
  wire packet hp := (h.wire packet hp).imp fun _ hf => ⟨hf.1.mono (List.subset_append_left _ _), hf.2⟩
  fits g hg := by
    rcases List.mem_append.mp hg with hold | hnew
    · exact h.fits g hold
    · exact List.mem_singleton.mp hnew ▸ hfits
  returned p hp := by
    obtain ⟨i, nextHop, d, hmem, hrest⟩ := h.returned p hp
    exact ⟨i, nextHop, d, List.mem_append_left _ hmem, hrest⟩

variable [DecidableEq ι]

/-- A change of one interface. -/
theorem Honest.set (h : Honest eth own n) (hs : Station eth own n.given i s) :
    Honest eth own (n.set i s) where
  station j := by
    by_cases hj : j = i
    · subst hj
      simpa [Lan.set] using hs
    · simpa [Lan.set, hj] using h.station j
  wire := h.wire
  fits := h.fits
  returned := h.returned

/-- What an interface learns from an honest packet is true. -/
theorem Honest.receive (h : Honest eth own n) (hpacket : packet ∈ n.wire)
    (hstep : n.step fuel (i, .receive packet) = some n') : Honest eth own n' := by
  obtain ⟨frame, htruth, rfl⟩ := h.wire packet hpacket
  have hparse : emptyFrame.parse frame.serialize.concatenate =
      .ok (.NoError, ⟨frame.header, [frame.payload.concatenate]⟩) := by
    rw [EthernetFrame.concatenate_serialize, EthernetFrame.parse_bytes_append]
  simp only [step, List.contains_iff_mem, if_pos hpacket, hparse] at hstep
  obtain ⟨⟨res, s⟩, hrecv, rfl⟩ := Option.map_eq_some_iff.mp hstep
  rw [result?_eq_some_iff] at hrecv
  have hs : Station eth own n.given i s := by
    refine (h.station i).change (NetworkInterface.recvFrame_change hrecv) (by simp) ?_
    intro f arpMsg heq harp
    injection heq with heq
    exact htruth.owns (heq ▸ harp)
  have hset := h.set hs
  refine ⟨hset.station, hset.wire, hset.fits, fun p hp => ?_⟩
  rcases List.mem_append.mp hp with hold | hnew
  · exact h.returned p hold
  · obtain ⟨dgram, hdgram, rfl⟩ := List.mem_map.mp hnew
    obtain rfl : res = some dgram := Option.mem_toList.mp hdgram
    obtain ⟨j, nextHop, d, hmem, heq, dst, howns, hdst⟩ := htruth.received h.fits hrecv
    rw [(h.station i).eth_eq] at hdst
    exact ⟨j, nextHop, d, hmem, heq, dst, howns, hdst⟩

/-- **Each step** keeps to the truth. -/
theorem Honest.step (h : Honest eth own n) {act : ι × Act} (hfits : act.2.Sendable)
    (hstep : n.step fuel act = some n') : Honest eth own n' := by
  obtain ⟨i, act⟩ := act
  cases act with
  | send dgram nextHop =>
      obtain ⟨s, hs, rfl⟩ := Option.map_eq_some_iff.mp hstep
      have hsend : NetworkInterface.step fuel (n.interface i) (.sendDatagram dgram nextHop) =
          some s := hs
      have hgive := h.give hfits i nextHop
      refine hgive.set ((hgive.station i).change (NetworkInterface.step_change hsend) ?_ (by simp))
      intro dgram' nextHop' heq
      injection heq with hd hh
      subst hd hh
      simp
  | receive packet =>
      by_cases hpacket : packet ∈ n.wire
      · exact h.receive hpacket hstep
      · simp [Lan.step, hpacket] at hstep
  | tick ms =>
      obtain ⟨s, hs, rfl⟩ := Option.map_eq_some_iff.mp hstep
      have htick : NetworkInterface.step fuel (n.interface i) (.tick ms) = some s := hs
      exact h.set ((h.station i).change (NetworkInterface.step_change htick) (by simp) (by simp))
  | transmit =>
      rw [← Option.some.inj hstep]
      have hset := h.set ((h.station i).change .dequeue (by simp) (by simp))
      refine ⟨hset.station, fun packet hp => ?_, hset.fits, hset.returned⟩
      rcases List.mem_append.mp hp with hold | hnew
      · exact h.wire packet hold
      · obtain ⟨frame, hframe, rfl⟩ := List.mem_map.mp hnew
        have hhead := List.mem_of_mem_head? (Option.mem_toList.mp hframe)
        exact ⟨frame, (h.station i).frames frame hhead, rfl⟩

/-- **Every run** keeps all interfaces honest. -/
theorem exec_honest (hfits : ∀ act ∈ acts, act.2.Sendable)
    (h : exec (step fuel) (new eth own) acts = some n) : Honest eth own n :=
  exec_invariant_along (C := fun _ act => act.2.Sendable) (P := Honest eth own)
    (fun _ _ _ hn hact hstep => hn.step hact hstep) honest_new (along_of_forall hfits) h

/-- **Resolution tells the truth**: every entry of an ARP table is the address of the interface
with that IP address, and every datagram that an interface returns was given to
some interface to be sent to the IP address of this one. -/
theorem returned_to_next_hop (hinj : Function.Injective eth)
    (hunicast : ∀ i, eth i ≠ ETHERNET_BROADCAST) (hfits : ∀ act ∈ acts, act.2.Sendable)
    (h : exec (step fuel) (new eth own) acts = some n) :
    (∀ i ip entry, (n.interface i).arpTable[ip]? = some entry → Owns eth own ip entry.ethAddr) ∧
    ∀ k dgram, (k, dgram) ∈ n.returned → ∃ i nextHop d, (i, nextHop, d) ∈ n.given ∧
      nextHop.ipv4Numeric = (own k).ipv4Numeric ∧ dgram = d.received := by
  have hn := exec_honest hfits h
  refine ⟨fun i => (hn.station i).table, fun k dgram hk => ?_⟩
  obtain ⟨i, nextHop, d, hmem, heq, dst, ⟨j, hip, rfl⟩, hdst⟩ := hn.returned _ hk
  obtain rfl : j = k := hinj (hdst.resolve_right (hunicast j))
  exact ⟨i, nextHop, d, hmem, hip.symm, heq⟩

end

/-- Two interfaces. -/
def pairEth (i : Bool) : EthernetAddress := .replicate 6 (if i then 2 else 1)

def pairOwn (i : Bool) : Address := ⟨if i then 2 else 1, 0⟩

/-- The first of them asks for the second, which replies, and a datagram goes across. -/
def askAndSend : List (Bool × Act) :=
  let dgram : IPv4Datagram := { header := { len := 20, ttl := 7 } }
  let request := requestFrame (pairEth false) (pairOwn false) 2
  let reply := replyFrame (pairEth true) (pairOwn true)
    (makeARP ARPMessage.OPCODE_REQUEST (pairEth false) 1 (.replicate 6 0) 2)
  let frame : EthernetFrame := ⟨⟨pairEth true, pairEth false, EthernetHeader.TYPE_IPv4⟩,
    [dgram.header.checksummed.bytes]⟩
  [(false, .send dgram (pairOwn true)), (false, .transmit),
    (true, .receive request.serialize.concatenate), (true, .transmit),
    (false, .receive reply.serialize.concatenate), (false, .transmit),
    (true, .receive frame.serialize.concatenate)]

/-- The two Ethernet addresses differ. -/
theorem injective_pairEth : Function.Injective pairEth := by
  intro i j
  cases i <;> cases j <;> decide

/-- The datagram that is given fits its format. -/
theorem sendable_askAndSend (act : Bool × Act) (hact : act ∈ askAndSend) : act.2.Sendable := by
  simp only [askAndSend, List.mem_cons, List.not_mem_nil, or_false] at hact
  rcases hact with rfl | rfl | rfl | rfl | rfl | rfl | rfl
  · exact ⟨⟨rfl, by decide, by decide, by decide⟩, rfl⟩
  all_goals trivial

/-- The address is asked for, and the datagram gets to its owner. -/
theorem returned_to_next_hop_askAndSend :
    ∃ n, exec (step 9) (new pairEth pairOwn) askAndSend = some n ∧
      n.returned.map (fun p => (p.1, p.2.header.ttl)) = [(true, 7)] ∧
      ∀ k dgram, (k, dgram) ∈ n.returned → ∃ i nextHop d, (i, nextHop, d) ∈ n.given ∧
        nextHop.ipv4Numeric = (pairOwn k).ipv4Numeric ∧ dgram = d.received := by
  have hrun : (exec (step 9) (new pairEth pairOwn) askAndSend).map
      (fun n => n.returned.map fun p => (p.1, p.2.header.ttl)) = some [(true, 7)] := by
    decide +kernel
  obtain ⟨n, hn, hreturned⟩ := Option.map_eq_some_iff.mp hrun
  exact ⟨n, hn, hreturned, (returned_to_next_hop injective_pairEth (by decide) sendable_askAndSend hn).2⟩

end Lan

end Sponge
