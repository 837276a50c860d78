import Mathlib.Data.List.Forall2
import Sponge.NetworkInterface

/-!
# Sponge.NetworkInterface.Fifo

Datagrams leave the interface in the order they were given to it, next hop by
next hop, and none is lost or doubled.

A log of a run records the datagrams given to `send_datagram` and the IPv4
frames pushed.  A frame is for the next hop of the call that pushed it, or, if
it was pushed on receipt of an ARP message, for the sender of that message.

The waiting list is shared by all next hops, and the mappings come and go.
What keeps the order is that nothing waits for an address that is in the table
(`Fifo.resolved`): a datagram is sent at once only when no earlier one is still
waiting.
-/

namespace Sponge

namespace NetworkInterface

/-! ## Logs -/

/-- The address for which a call sends datagrams. -/
def Op.hop : Op → Option UInt32
  | .sendDatagram _ nextHop => some nextHop.ipv4Numeric
  | .recvFrame frame => (arp? frame).map ARPMessage.senderIpAddress
  | .tick _ | .dequeue => none

/-- The datagram that a call is given. -/
def Op.given : Op → List (UInt32 × IPv4Datagram)
  | .sendDatagram dgram nextHop => [(nextHop.ipv4Numeric, dgram)]
  | .recvFrame _ | .tick _ | .dequeue => []

/-- The IPv4 frames among them. -/
def pushedIPv4 (s d : NetworkInterface) : List EthernetFrame :=
  (pushed s d).filter fun frame => frame.header.type = EthernetHeader.TYPE_IPv4

/-- An interface with the datagrams it was given and the IPv4 frames it has emitted. -/
structure Log where
  iface : NetworkInterface
  sent : List (UInt32 × IPv4Datagram)
  emitted : List (Option UInt32 × EthernetFrame)

namespace Log

def new (eth : EthernetAddress) (ip : Address) : Log := ⟨NetworkInterface.new eth ip, [], []⟩

/-- The log after a call that has led to `d`. -/
def note (l : Log) (op : Op) (d : NetworkInterface) : Log where
  iface := d
  sent := l.sent ++ op.given
  emitted := l.emitted ++ (pushedIPv4 l.iface d).map fun frame => (op.hop, frame)

def step (fuel : Nat) (l : Log) (op : Op) : Option Log := (l.iface.step fuel op).map (l.note op)

/-- More fuel never changes a result. -/
theorem fuelMono : FuelMono Log.step := NetworkInterface.fuelMono.record Log.iface Log.note

/-- The datagrams given for `ip`. -/
def sentTo (l : Log) (ip : UInt32) : List IPv4Datagram :=
  (l.sent.filter fun p => p.1 = ip).map Prod.snd

/-- The frames emitted for `ip`. -/
def framesFor (l : Log) (ip : UInt32) : List EthernetFrame :=
  (l.emitted.filter fun p => p.1 = some ip).map Prod.snd

/-- What was given to a hop. -/
theorem sentTo_note (l : Log) (op : Op) (d : NetworkInterface) (ip : UInt32) :
    (l.note op d).sentTo ip =
      l.sentTo ip ++ (op.given.filter fun p => p.1 = ip).map Prod.snd := by
  simp [sentTo, note]

/-- What was pushed for a hop. -/
theorem framesFor_note (l : Log) (op : Op) (d : NetworkInterface) (ip : UInt32) :
    (l.note op d).framesFor ip =
      l.framesFor ip ++ if op.hop = some ip then pushedIPv4 l.iface d else [] := by
  have hnew : (((pushedIPv4 l.iface d).map fun frame => (op.hop, frame)).filter
      fun p => p.1 = some ip).map Prod.snd = if op.hop = some ip then pushedIPv4 l.iface d else [] := by
    by_cases hop : op.hop = some ip <;> simp [List.filter_map, Function.comp_def, hop]
  rw [framesFor, note, List.filter_append, List.map_append, hnew]
  rfl

end Log

/-! ## What the calls push -/

/-- ARP frames do not count. -/
theorem pushedIPv4_of_append {s d : NetworkInterface}
    (h : d.framesOut = s.framesOut ++ (arps ++ frames))
    (harp : ∀ frame ∈ arps, frame.header.type = EthernetHeader.TYPE_ARP)
    (hipv4 : ∀ frame ∈ frames, frame.header.type = EthernetHeader.TYPE_IPv4) :
    pushedIPv4 s d = frames := by
  rw [pushedIPv4, pushed_of_append h, List.filter_append, List.filter_eq_nil_iff.mpr,
    List.filter_eq_self.mpr, List.nil_append]
  · intro frame hframe
    simpa using hipv4 frame hframe
  · intro frame hframe
    rw [harp frame hframe]
    decide

/-- ARP messages do not count. -/
theorem pushedIPv4_of_arp {s d : NetworkInterface} (h : d.framesOut = s.framesOut ++ arps)
    (harp : ∀ frame ∈ arps, frame.header.type = EthernetHeader.TYPE_ARP) :
    pushedIPv4 s d = [] :=
  pushedIPv4_of_append (by rw [h, List.append_nil]) harp (by simp)

/-- A datagram that is sent at once. -/
theorem pushedIPv4_push {s : NetworkInterface} (h : Carries dst src dgram frame) :
    pushedIPv4 s (s.push frame) = [frame] := by
  have hout : (s.push frame).framesOut = s.framesOut ++ ([] ++ [frame]) := rfl
  exact pushedIPv4_of_append hout (by simp) (by simp [h.header_eq])

/-- A datagram that waits. -/
theorem pushedIPv4_keep (s : NetworkInterface) (nextHop : Address) (dgram : IPv4Datagram) :
    pushedIPv4 s (s.keep nextHop dgram) = [] :=
  pushedIPv4_of_arp (List.append_nil _).symm (by simp)

/-- A datagram that waits for an answer. -/
theorem pushedIPv4_ask (s : NetworkInterface) (nextHop : Address) (dgram : IPv4Datagram) :
    pushedIPv4 s (((s.push (requestFrame s.ethernetAddress s.ipAddress
      nextHop.ipv4Numeric)).await nextHop.ipv4Numeric).keep nextHop dgram) = [] :=
  pushedIPv4_of_arp rfl (by simp [requestFrame])

/-- The datagrams that an answer sets free. -/
theorem pushedIPv4_learn {s : NetworkInterface}
    (h : List.Forall₂ (fun p => Carries arpMsg.senderEthernetAddress s.ethernetAddress p.2)
      (s.waitingFor arpMsg.senderIpAddress) frames) :
    pushedIPv4 s (s.learn arpMsg frames) = frames := by
  refine pushedIPv4_of_append (List.append_assoc _ _ _) ?_ ?_
  · split <;> simp [replyFrame]
  · intro frame hframe
    obtain ⟨p, -, hcarries⟩ := exists_of_forall₂ h hframe
    rw [hcarries.header_eq]

/-- A tick sends no datagram. -/
theorem pushedIPv4_pass (s : NetworkInterface) (ms : Nat) (pending : Std.TreeMap UInt32 Nat) :
    pushedIPv4 s (s.pass ms pending) = [] :=
  pushedIPv4_of_arp rfl (List.forall_mem_map.mpr fun _ _ => rfl)

/-! ## One call -/

/-- The datagrams that wait for `ip`, without the address. -/
def queueFor (s : NetworkInterface) (ip : UInt32) : List IPv4Datagram :=
  (s.waitingFor ip).map Prod.snd

/-- Nothing waits for an address that is in the table. -/
def Resolved (s : NetworkInterface) : Prop :=
  ∀ ip entry, s.arpTable[ip]? = some entry → s.queueFor ip = []

/-- The frames carry the datagrams, in order. -/
def Emit (dgrams : List IPv4Datagram) (frames : List EthernetFrame) : Prop :=
  List.Forall₂ (fun dgram frame => dgram.serialize = .ok frame.payload) dgrams frames

/-- A datagram that waits is the last of its queue. -/
theorem queueFor_keep (s : NetworkInterface) (nextHop : Address) (dgram : IPv4Datagram)
    (ip : UInt32) : (s.keep nextHop dgram).queueFor ip =
      s.queueFor ip ++ ((Op.given (.sendDatagram dgram nextHop)).filter fun p => p.1 = ip).map
        Prod.snd := by
  by_cases hip : nextHop.ipv4Numeric = ip <;> simp [queueFor, waitingFor, keep, Op.given, hip]

/-- An answer empties the queue of its sender. -/
theorem queueFor_learn (s : NetworkInterface) (arpMsg : ARPMessage) (frames : List EthernetFrame)
    (ip : UInt32) : (s.learn arpMsg frames).queueFor ip =
      if arpMsg.senderIpAddress = ip then [] else s.queueFor ip := by
  by_cases hip : arpMsg.senderIpAddress = ip
  · simp [queueFor, waitingFor, learn, waitingElse, hip]
  · have hsame : (s.waitingElse arpMsg.senderIpAddress).filter (fun p => p.1.ipv4Numeric = ip) =
        s.waitingFor ip := by
      rw [waitingElse, List.filter_filter]
      apply List.filter_congr
      intro p _
      by_cases hp : p.1.ipv4Numeric = ip <;> simp [hp, Ne.symm hip]
    rw [if_neg hip, queueFor, waitingFor, learn, hsame]
    rfl

/-- **One call**: for each address, what waited for it and what it is given is what is
emitted for it and what then waits for it, in order. -/
theorem Change.emit {s d : NetworkInterface} {op : Op} (h : Change s op d) (hs : s.Resolved)
    (ip : UInt32) : ∃ gone, Emit gone (if op.hop = some ip then pushedIPv4 s d else []) ∧
      s.queueFor ip ++ (op.given.filter fun p => p.1 = ip).map Prod.snd =
        gone ++ d.queueFor ip := by
  cases h with
  | forward dgram nextHop entry frame hentry hcarries =>
      have hpush := pushedIPv4_push (s := s) hcarries
      have hq : (s.push frame).queueFor ip = s.queueFor ip := rfl
      by_cases hip : nextHop.ipv4Numeric = ip
      · -- nothing is waiting before the new datagram
        have hnil := hs _ _ (hip ▸ hentry)
        refine ⟨[dgram], ?_, ?_⟩
        · simpa [hpush, Op.hop, hip, Emit] using hcarries.payload_eq
        · simp [hq, hnil, Op.given, hip]
      · exact ⟨[], by simp [Op.hop, hip, Emit], by simp [hq, Op.given, hip]⟩
  | hold dgram nextHop ttl hentry hpending =>
      have hnone := pushedIPv4_keep s nextHop dgram
      exact ⟨[], by simp [hnone, Emit], (queueFor_keep s nextHop dgram ip).symm⟩
  | ask dgram nextHop hentry hpending =>
      have hnone := pushedIPv4_ask s nextHop dgram
      exact ⟨[], by simp [hnone, Emit], (queueFor_keep _ nextHop dgram ip).symm⟩
  | ignore frame hnot =>
      have hnone : pushedIPv4 s s = [] := pushedIPv4_of_arp (List.append_nil _).symm (by simp)
      exact ⟨[], by simp [hnone, Emit], by simp [Op.given]⟩
  | learn frame arpMsg frames haccepts hframes =>
      have hhop : Op.hop (.recvFrame frame) = some arpMsg.senderIpAddress := by
        simp [Op.hop, haccepts.arp]
      rw [hhop, pushedIPv4_learn hframes, queueFor_learn]
      by_cases hip : arpMsg.senderIpAddress = ip
      · refine ⟨s.queueFor ip, ?_, by simp [hip, Op.given]⟩
        rw [hip] at hframes
        simpa [hip, Emit, queueFor, List.forall₂_map_left_iff] using
          hframes.imp fun _ _ hcarries => hcarries.payload_eq
      · exact ⟨[], by simp [hip, Emit], by simp [hip, Op.given]⟩
  | pass ms pending hpending =>
      have hnone := pushedIPv4_pass s ms pending
      exact ⟨[], by simp [hnone, Emit], by simp [Op.given]; rfl⟩
  | dequeue => exact ⟨[], by simp [Op.hop, Emit], by simp [Op.given]; rfl⟩

/-- Whatever is emitted is for some address. -/
theorem Change.hop_ne_none {s d : NetworkInterface} {op : Op} (h : Change s op d)
    (hne : pushedIPv4 s d ≠ []) : op.hop ≠ none := by
  cases h with
  | learn frame arpMsg frames haccepts hframes => simp [Op.hop, haccepts.arp]
  | ignore frame hnot => simp [pushedIPv4] at hne
  | pass ms pending hpending => exact absurd (pushedIPv4_pass s ms pending) hne
  | dequeue =>
      rw [pushedIPv4, pushed_dequeue] at hne
      contradiction
  | _ => simp [Op.hop]

/-- A datagram for an address that is not in the table may wait. -/
theorem Resolved.keep {s : NetworkInterface} (hs : s.Resolved)
    (hentry : s.arpTable[nextHop.ipv4Numeric]? = none) : (s.keep nextHop dgram).Resolved := by
  intro ip entry hip
  have hne : nextHop.ipv4Numeric ≠ ip := by
    rintro rfl
    have hboth := hentry.symm.trans hip
    contradiction
  rw [queueFor_keep, hs ip entry hip]
  simp [Op.given, hne]

/-- **One call** keeps the table and the waiting list apart. -/
theorem Change.resolved {s d : NetworkInterface} {op : Op} (h : Change s op d) (hs : s.Resolved) :
    d.Resolved := by
  cases h with
  | hold dgram nextHop ttl hentry hpending => exact hs.keep hentry
  | ask dgram nextHop hentry hpending =>
      have hs' : ((s.push (requestFrame s.ethernetAddress s.ipAddress nextHop.ipv4Numeric)).await
          nextHop.ipv4Numeric).Resolved := hs
      exact hs'.keep hentry
  | learn frame arpMsg frames haccepts hframes =>
      intro ip entry hip
      rw [queueFor_learn]
      split
      · rfl
      · next hne =>
          simp only [NetworkInterface.learn, Std.TreeMap.getElem?_insert] at hip
          rw [if_neg (by simpa using hne)] at hip
          exact hs ip entry hip
  | pass ms pending hpending =>
      intro ip entry hip
      simp only [NetworkInterface.pass, getElem?_age] at hip
      cases hold : s.arpTable[ip]? with
      | none => simp [hold] at hip
      | some old => exact hs ip old hold
  | _ => exact hs

/-! ## Runs -/

namespace Log

/-- What holds between the calls of a run. -/
structure Fifo (l : Log) : Prop where
  resolved : l.iface.Resolved
  attributed : ∀ p ∈ l.emitted, p.1 ≠ none
  order : ∀ ip, ∃ gone, Emit gone (l.framesFor ip) ∧
    l.sentTo ip = gone ++ l.iface.queueFor ip

/-- At first there is nothing to keep in order. -/
theorem fifo_new (eth : EthernetAddress) (ip : Address) : (new eth ip).Fifo where
  resolved := by simp [Resolved, new, NetworkInterface.new]
  attributed := by simp [new]
  order _ := ⟨[], .nil, rfl⟩

/-- **Each step** keeps the order, hop by hop. -/
theorem Fifo.of_step {l l' : Log} {op : Op} (hl : l.Fifo) (h : l.step fuel op = some l') :
    l'.Fifo := by
  obtain ⟨d, hd, rfl⟩ := Option.map_eq_some_iff.mp h
  have hchange := step_change hd
  refine ⟨hchange.resolved hl.resolved, fun p hp => ?_, fun ip => ?_⟩
  · rcases List.mem_append.mp hp with hold | hnew
    · exact hl.attributed p hold
    · obtain ⟨frame, hframe, rfl⟩ := List.mem_map.mp hnew
      exact hchange.hop_ne_none (List.ne_nil_of_mem hframe)
  · obtain ⟨gone, hgone, hsent⟩ := hl.order ip
    obtain ⟨more, hmore, hqueue⟩ := hchange.emit hl.resolved ip
    refine ⟨gone ++ more, ?_, ?_⟩
    · rw [framesFor_note]
      exact List.rel_append hgone hmore
    · rw [sentTo_note, hsent, List.append_assoc, hqueue, List.append_assoc]
      rfl

/-- **First in, first out, for every next hop**: in every run, the datagrams emitted for
an address, in the order of their frames, followed by those that wait for it,
are the datagrams given for it in order; and every IPv4 frame is emitted for an
address. -/
theorem fifo_per_hop {eth : EthernetAddress} {own : Address}
    (h : exec (step fuel) (new eth own) ops = some l) :
    (∀ p ∈ l.emitted, p.1 ≠ none) ∧
      ∀ ip, ∃ gone, Emit gone (l.framesFor ip) ∧ l.sentTo ip = gone ++ l.iface.queueFor ip := by
  have hl : l.Fifo := exec_invariant (fun _ _ _ => Fifo.of_step) (fifo_new eth own) h
  exact ⟨hl.attributed, hl.order⟩

/-- Two datagrams wait for an address until its owner replies. -/
def resolution : List Op :=
  [.sendDatagram { header := { len := 20 } } ⟨2, 0⟩,
    .sendDatagram { header := { len := 20, ttl := 7 } } ⟨2, 0⟩,
    .recvFrame ⟨⟨.replicate 6 1, .replicate 6 2, EthernetHeader.TYPE_ARP⟩,
      [(makeARP ARPMessage.OPCODE_REPLY (.replicate 6 2) 2 (.replicate 6 1) 1).bytes]⟩]

/-- Two datagrams wait for the same hop, and are sent when the answer comes. -/
theorem fifo_per_hop_resolution :
    ∃ l, exec (step 9) (new (.replicate 6 1) ⟨1, 0⟩) resolution = some l ∧
      (l.framesFor 2).length = 2 ∧
      ∃ gone, Emit gone (l.framesFor 2) ∧ l.sentTo 2 = gone ++ l.iface.queueFor 2 := by
  have hrun : (exec (step 9) (new (.replicate 6 1) ⟨1, 0⟩) resolution).map
      (fun l => (l.framesFor 2).length) = some 2 := by
    decide +kernel
  obtain ⟨l, hl, hlen⟩ := Option.map_eq_some_iff.mp hrun
  exact ⟨l, hl, hlen, (fifo_per_hop hl).2 2⟩

end Log

end NetworkInterface

end Sponge
