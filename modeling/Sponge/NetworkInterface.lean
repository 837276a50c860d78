import Sponge.ARPMessage
import Sponge.Address
import Sponge.IPv4Datagram
import Sponge.Lib.Call
import Sponge.Lib.Run

/-!
# Sponge.NetworkInterface

The network interface (`network_interface.hh`, `network_interface.cc`): it
finds out the Ethernet address of a next hop by ARP and keeps datagrams back
until it has it.

The two maps of the source are tree maps, whose entries come in the order of
their keys as in the source's loops.  The loops of `recv_frame` and `tick` run
on fuel: nothing in them bounds how often they turn.  A call that returns with
some fuel does the same with more (`fuelMono`).  What is written to `cerr` is
left out.
-/

namespace Sponge

/-- An Ethernet address, and how long it is still taken for right. -/
structure ARPEntry where
  ethAddr : EthernetAddress
  ttl : Nat
  deriving DecidableEq, Repr

/-- The members of the class, with the two maps ordered by address. -/
structure NetworkInterface where
  ethernetAddress : EthernetAddress
  ipAddress : Address
  framesOut : List EthernetFrame := []
  arpTable : Std.TreeMap UInt32 ARPEntry := ∅
  waitingArpResponseIpAddr : Std.TreeMap UInt32 Nat := ∅
  waitingArpInternetDatagrams : List (Address × IPv4Datagram) := []

namespace NetworkInterface

def ARP_ENTRY_DEFAULT_TTL : Nat := 30 * 1000
def ARP_RESPONSE_DEFAULT_TTL : Nat := 5 * 1000

def new (ethernetAddress : EthernetAddress) (ipAddress : Address) : NetworkInterface where
  ethernetAddress := ethernetAddress
  ipAddress := ipAddress

/-! ## Frames -/

/-- The fields that differ between a request and a reply. -/
def makeARP (opcode : UInt16) (senderEthernetAddress : EthernetAddress) (senderIpAddress : UInt32)
    (targetEthernetAddress : EthernetAddress) (targetIpAddress : UInt32) : ARPMessage where
  opcode := opcode
  senderEthernetAddress := senderEthernetAddress
  senderIpAddress := senderIpAddress
  targetEthernetAddress := targetEthernetAddress
  targetIpAddress := targetIpAddress

def push (self : NetworkInterface) (frame : EthernetFrame) : NetworkInterface :=
  { self with framesOut := self.framesOut ++ [frame] }

/-- `make_and_send_ETHframe` for an ARP message to one address. -/
def makeAndSendARPTo (self : NetworkInterface) (dst : EthernetAddress) (arp : ARPMessage) :
    Except Exception NetworkInterface := do
  let payload ← arp.serialize
  return self.push ⟨⟨dst, self.ethernetAddress, EthernetHeader.TYPE_ARP⟩, [payload]⟩

/-- `make_and_send_ETHframe` for an ARP message to all. -/
def makeAndSendARP (self : NetworkInterface) (arp : ARPMessage) :
    Except Exception NetworkInterface :=
  self.makeAndSendARPTo ETHERNET_BROADCAST arp

/-- `make_and_send_ETHframe` for a datagram. -/
def makeAndSendIPv4 (self : NetworkInterface) (dgram : IPv4Datagram) (entry : ARPEntry) :
    Except Exception NetworkInterface := do
  let payload ← dgram.serialize
  return self.push ⟨⟨entry.ethAddr, self.ethernetAddress, EthernetHeader.TYPE_IPv4⟩, payload⟩

/-- The ARP request that `send_datagram` and `tick` make and send. -/
def sendRequest (self : NetworkInterface) (ip : UInt32) : Except Exception NetworkInterface :=
  self.makeAndSendARP (makeARP ARPMessage.OPCODE_REQUEST self.ethernetAddress
    self.ipAddress.ipv4Numeric (.replicate 6 0) ip)

/-! ## The methods -/

/-- Known addresses are sent to at once.  Others are asked for, unless they were already, and the
datagram waits. -/
def sendDatagram (self : NetworkInterface) (dgram : IPv4Datagram) (nextHop : Address) :
    Except Exception NetworkInterface := do
  let nextHopIpAddress := nextHop.ipv4Numeric
  match self.arpTable[nextHopIpAddress]? with
  | none =>
      let mut self := self
      if !self.waitingArpResponseIpAddr.contains nextHopIpAddress then
        self ← self.sendRequest nextHopIpAddress
        self := { self with waitingArpResponseIpAddr :=
          self.waitingArpResponseIpAddr.insert nextHopIpAddress ARP_RESPONSE_DEFAULT_TTL }
      return { self with waitingArpInternetDatagrams :=
        self.waitingArpInternetDatagrams ++ [(nextHop, dgram)] }
  | some entry => self.makeAndSendIPv4 dgram entry

/-- The loop of `recv_frame`; `i` is the position of the iterator. -/
def flushLoop (srcIpAddr : UInt32) : Nat → Nat → NetworkInterface → Call Exception NetworkInterface
  | 0, _, _ => .outOfFuel
  | fuel + 1, i, self =>
      match self.waitingArpInternetDatagrams[i]? with
      | none => return self
      | some (nextHop, dgram) =>
          if nextHop.ipv4Numeric = srcIpAddr then do
            let self ← self.sendDatagram dgram nextHop
            flushLoop srcIpAddr fuel i { self with
              waitingArpInternetDatagrams := self.waitingArpInternetDatagrams.eraseIdx i }
          else flushLoop srcIpAddr fuel (i + 1) self

/-- What `recv_frame` does with an address it has learnt. -/
def resolve (fuel : Nat) (self : NetworkInterface) (arpMsg : ARPMessage) :
    Call Exception NetworkInterface := do
  let entry : ARPEntry := ⟨arpMsg.senderEthernetAddress, ARP_ENTRY_DEFAULT_TTL⟩
  let self ← flushLoop arpMsg.senderIpAddress fuel 0
    { self with arpTable := self.arpTable.insert arpMsg.senderIpAddress entry }
  return { self with waitingArpResponseIpAddr :=
    self.waitingArpResponseIpAddr.erase arpMsg.senderIpAddress }

/-- What `recv_frame` does with an ARP message. -/
def recvARP (fuel : Nat) (self : NetworkInterface) (arpMsg : ARPMessage) :
    Call Exception NetworkInterface := do
  let isValidArpRequest := arpMsg.opcode == ARPMessage.OPCODE_REQUEST &&
    arpMsg.targetIpAddress == self.ipAddress.ipv4Numeric
  let isValidArpResponse := arpMsg.opcode == ARPMessage.OPCODE_REPLY &&
    arpMsg.targetEthernetAddress == self.ethernetAddress
  let mut self := self
  if isValidArpRequest then
    self ← self.makeAndSendARPTo arpMsg.senderEthernetAddress
      (makeARP ARPMessage.OPCODE_REPLY self.ethernetAddress self.ipAddress.ipv4Numeric
        arpMsg.senderEthernetAddress arpMsg.senderIpAddress)
  if isValidArpRequest || isValidArpResponse then
    self ← self.resolve fuel arpMsg
  return self

/-- What is returned, and the interface after that. -/
def recvFrame (fuel : Nat) (self : NetworkInterface) (frame : EthernetFrame) :
    Call Exception (Option IPv4Datagram × NetworkInterface) := do
  if frame.header.dst ≠ self.ethernetAddress ∧ frame.header.dst ≠ ETHERNET_BROADCAST then
    return (none, self)
  if frame.header.type = EthernetHeader.TYPE_IPv4 then
    let payload ← frame.payload.toBuffer
    let (result, datagram) ← IPv4Datagram.parse {} payload
    if result ≠ .NoError then return (none, self)
    return (some datagram, self)
  else if frame.header.type = EthernetHeader.TYPE_ARP then
    let payload ← frame.payload.toBuffer
    let (result, arpMsg) ← ARPMessage.parse {} payload
    if result ≠ .NoError then return (none, self)
    return (none, ← recvARP fuel self arpMsg)
  return (none, self)

/-- The first loop of `tick`. -/
def age (ms : Nat) (table : Std.TreeMap UInt32 ARPEntry) : Std.TreeMap UInt32 ARPEntry :=
  table.filterMap fun _ entry =>
    if entry.ttl ≤ ms then none else some { entry with ttl := entry.ttl - ms }

/-- The second loop of `tick`, over the entries that the iterator has before it.  After a
request it stays where it is. -/
def requestLoop (ms : Nat) : Nat → List (UInt32 × Nat) → NetworkInterface →
    Call Exception NetworkInterface
  | 0, _, _ => .outOfFuel
  | _ + 1, [], self => return self
  | fuel + 1, (ip, ttl) :: rest, self =>
      if ttl ≤ ms then do
        let self ← self.sendRequest ip
        requestLoop ms fuel ((ip, ARP_RESPONSE_DEFAULT_TTL) :: rest) { self with
          waitingArpResponseIpAddr :=
            self.waitingArpResponseIpAddr.insert ip ARP_RESPONSE_DEFAULT_TTL }
      else requestLoop ms fuel rest { self with
        waitingArpResponseIpAddr := self.waitingArpResponseIpAddr.insert ip (ttl - ms) }

/-- The entries age, then the requests that are due are repeated. -/
def tick (fuel : Nat) (self : NetworkInterface) (msSinceLastTick : Nat) :
    Call Exception NetworkInterface :=
  requestLoop msSinceLastTick fuel self.waitingArpResponseIpAddr.toList
    { self with arpTable := age msSinceLastTick self.arpTable }

/-! ## Operations -/

/-- What the owner does; frames are taken off the queue one at a time. -/
inductive Op where
  | sendDatagram (dgram : IPv4Datagram) (nextHop : Address)
  | recvFrame (frame : EthernetFrame)
  | tick (msSinceLastTick : Nat)
  | dequeue

/-- The interface after a call that returns. -/
def step (fuel : Nat) (self : NetworkInterface) : Op → Option NetworkInterface
  | .sendDatagram dgram nextHop => (self.sendDatagram dgram nextHop).toOption
  | .recvFrame frame => (self.recvFrame fuel frame).result?.map Prod.snd
  | .tick ms => (self.tick fuel ms).result?
  | .dequeue => some { self with framesOut := self.framesOut.drop 1 }

/-! ## More fuel -/

/-- More fuel for the loop over the waiting datagrams. -/
theorem flushLoop_mono (hle : m ≤ n) (i : Nat) (self : NetworkInterface) :
    Call.Approx (flushLoop ip m i self) (flushLoop ip n i self) := by
  induction m generalizing n i self with
  | zero => exact fun _ h => absurd h not_returns_outOfFuel
  | succ m ih =>
      obtain ⟨n, rfl⟩ : ∃ k, n = k + 1 := ⟨n - 1, by omega⟩
      have hle' : m ≤ n := Nat.le_of_succ_le_succ hle
      unfold flushLoop
      split
      · exact fun _ => id
      · split
        · exact .bind (fun _ => id) fun u => ih hle' i _
        · exact ih hle' (i + 1) self

/-- More fuel for the loop over the requests. -/
theorem requestLoop_mono (hle : m ≤ n) (todo : List (UInt32 × Nat)) (self : NetworkInterface) :
    Call.Approx (requestLoop ms m todo self) (requestLoop ms n todo self) := by
  induction m generalizing n todo self with
  | zero => exact fun _ h => absurd h not_returns_outOfFuel
  | succ m ih =>
      obtain ⟨n, rfl⟩ : ∃ k, n = k + 1 := ⟨n - 1, by omega⟩
      have hle' : m ≤ n := Nat.le_of_succ_le_succ hle
      cases todo with
      | nil => exact fun _ => id
      | cons p rest =>
          unfold requestLoop
          split
          · exact .bind (fun _ => id) fun u => ih hle' _ _
          · exact ih hle' rest _

/-- More fuel for a message. -/
theorem recvARP_mono (hle : m ≤ n) (self : NetworkInterface) (arpMsg : ARPMessage) :
    Call.Approx (recvARP m self arpMsg) (recvARP n self arpMsg) := by
  have hresolve : ∀ u : NetworkInterface, Call.Approx (u.resolve m arpMsg) (u.resolve n arpMsg) :=
    fun u => .bind (flushLoop_mono hle 0 _) fun _ _ => id
  unfold recvARP
  simp only
  split
  · refine .bind (fun _ => id) fun u => ?_
    split
    · exact .bind (hresolve u) fun _ _ => id
    · exact fun _ => id
  · split
    · exact .bind (hresolve self) fun _ _ => id
    · exact fun _ => id

/-- More fuel for a frame. -/
theorem recvFrame_mono (hle : m ≤ n) (self : NetworkInterface) (frame : EthernetFrame) :
    Call.Approx (self.recvFrame m frame) (self.recvFrame n frame) := by
  unfold recvFrame
  split
  · exact fun _ => id
  split
  · exact fun _ => id
  split
  · refine .bind (fun _ => id) fun payload => .bind (fun _ => id) fun r => ?_
    split
    · split
      · exact fun _ => id
      · exact .bind (recvARP_mono hle self _) fun _ _ => id
  · exact fun _ => id

/-- More fuel does not change what a call does. -/
theorem fuelMono : FuelMono step := by
  intro m n s op s' hle h
  cases op with
  | recvFrame frame =>
      simp only [step, Option.map_eq_some_iff, result?_eq_some_iff] at h ⊢
      obtain ⟨a, ha, hs⟩ := h
      exact ⟨a, recvFrame_mono hle s frame ha, hs⟩
  | tick ms =>
      simp only [step, result?_eq_some_iff] at h ⊢
      exact requestLoop_mono hle _ _ h
  | sendDatagram dgram nextHop => exact h
  | dequeue => exact h

/-! ## What the parts do -/

/-- A request for `ip` from the interface with these addresses. -/
def requestFrame (eth : EthernetAddress) (own : Address) (ip : UInt32) : EthernetFrame where
  header := ⟨ETHERNET_BROADCAST, eth, EthernetHeader.TYPE_ARP⟩
  payload := [(makeARP ARPMessage.OPCODE_REQUEST eth own.ipv4Numeric (.replicate 6 0) ip).bytes]

/-- A reply to the sender of `arpMsg`. -/
def replyFrame (eth : EthernetAddress) (own : Address) (arpMsg : ARPMessage) : EthernetFrame where
  header := ⟨arpMsg.senderEthernetAddress, eth, EthernetHeader.TYPE_ARP⟩
  payload := [(makeARP ARPMessage.OPCODE_REPLY eth own.ipv4Numeric arpMsg.senderEthernetAddress
    arpMsg.senderIpAddress).bytes]

/-- A request is one frame more. -/
theorem sendRequest_eq (self : NetworkInterface) (ip : UInt32) :
    self.sendRequest ip =
      .ok (self.push (requestFrame self.ethernetAddress self.ipAddress ip)) := by
  unfold sendRequest makeAndSendARP makeAndSendARPTo
  rw [ARPMessage.serialize_eq rfl]
  rfl

/-- A reply is one frame more. -/
theorem sendReply_eq (self : NetworkInterface) (arpMsg : ARPMessage) :
    self.makeAndSendARPTo arpMsg.senderEthernetAddress
      (makeARP ARPMessage.OPCODE_REPLY self.ethernetAddress self.ipAddress.ipv4Numeric
        arpMsg.senderEthernetAddress arpMsg.senderIpAddress) =
      .ok (self.push (replyFrame self.ethernetAddress self.ipAddress arpMsg)) := by
  rw [makeAndSendARPTo, ARPMessage.serialize_eq rfl]
  rfl

/-- The frame carries the datagram from one Ethernet address to another. -/
structure Carries (dst src : EthernetAddress) (dgram : IPv4Datagram) (frame : EthernetFrame) :
    Prop where
  header_eq : frame.header = ⟨dst, src, EthernetHeader.TYPE_IPv4⟩
  payload_eq : dgram.serialize = .ok frame.payload

/-- A datagram that is sent is one frame more, which carries it. -/
theorem makeAndSendIPv4_eq_ok {self d : NetworkInterface}
    (h : self.makeAndSendIPv4 dgram entry = .ok d) :
    ∃ frame, Carries entry.ethAddr self.ethernetAddress dgram frame ∧ d = self.push frame := by
  unfold makeAndSendIPv4 at h
  cases hser : dgram.serialize with
  | error e => simp [hser, bind, Except.bind] at h
  | ok payload =>
      rw [hser, ok_bind, pure_eq_ok, Except.ok.injEq] at h
      exact ⟨_, ⟨rfl, hser⟩, h.symm⟩

/-- To a known address. -/
theorem sendDatagram_hit {self : NetworkInterface}
    (h : self.arpTable[nextHop.ipv4Numeric]? = some entry) :
    self.sendDatagram dgram nextHop = self.makeAndSendIPv4 dgram entry := by
  simp [sendDatagram, h]

/-- The datagrams that wait for `ip`. -/
def waitingFor (self : NetworkInterface) (ip : UInt32) : List (Address × IPv4Datagram) :=
  self.waitingArpInternetDatagrams.filter fun p => p.1.ipv4Numeric = ip

/-- The datagrams that wait for another address. -/
def waitingElse (self : NetworkInterface) (ip : UInt32) : List (Address × IPv4Datagram) :=
  self.waitingArpInternetDatagrams.filter fun p => p.1.ipv4Numeric ≠ ip

/-- Erasing at a position leaves what is before and behind it. -/
theorem eraseIdx_split {l : List α} (h : i < l.length) :
    (l.eraseIdx i).take i = l.take i ∧ (l.eraseIdx i).drop i = l.drop (i + 1) := by
  have hlen : (l.take i).length = i := List.length_take_of_le (Nat.le_of_lt h)
  rw [List.eraseIdx_eq_take_drop_succ]
  exact ⟨List.take_left' hlen, List.drop_left' hlen⟩

/-- The loop sends what waits for `ip` behind the iterator, in order, and keeps the
rest. -/
theorem flushLoop_returns {self d : NetworkInterface} (h : Returns (flushLoop ip fuel i self) d)
    (hentry : self.arpTable[ip]? = some entry) :
    ∃ frames, List.Forall₂ (fun p => Carries entry.ethAddr self.ethernetAddress p.2)
        ((self.waitingArpInternetDatagrams.drop i).filter fun p => p.1.ipv4Numeric = ip) frames ∧
      d = { self with
        framesOut := self.framesOut ++ frames
        waitingArpInternetDatagrams := self.waitingArpInternetDatagrams.take i ++
          (self.waitingArpInternetDatagrams.drop i).filter fun p => p.1.ipv4Numeric ≠ ip } := by
  induction fuel generalizing i self with
  | zero => exact absurd h not_returns_outOfFuel
  | succ fuel ih =>
      unfold flushLoop at h
      split at h
      · next hnone =>
          have hlen := List.getElem?_eq_none_iff.mp hnone
          rw [returns_pure_iff] at h
          rw [List.drop_eq_nil_of_le hlen, List.take_of_length_le hlen]
          exact ⟨[], .nil, by simp [h]⟩
      · next nextHop dgram hsome =>
          obtain ⟨hlt, hget⟩ := List.getElem?_eq_some_iff.mp hsome
          have hdrop := List.drop_eq_getElem_cons hlt
          rw [hget] at hdrop
          rw [hdrop]
          split at h
          · next hip =>
              -- the entry of the table is used, so nothing is queued again
              obtain ⟨u, hu, h⟩ := returns_bind_iff.mp h
              rw [returns_lift_iff, sendDatagram_hit (hip.symm ▸ hentry)] at hu
              obtain ⟨frame, hcarries, rfl⟩ := makeAndSendIPv4_eq_ok hu
              obtain ⟨frames, hframes, rfl⟩ := ih h hentry
              obtain ⟨htake, hbehind⟩ := eraseIdx_split hlt
              simp only [push, htake, hbehind] at hframes ⊢
              rw [List.filter_cons_of_pos (by simpa using hip),
                List.filter_cons_of_neg (by simpa using hip)]
              exact ⟨frame :: frames, .cons hcarries hframes, by simp⟩
          · next hip =>
              obtain ⟨frames, hframes, rfl⟩ := ih h hentry
              rw [List.filter_cons_of_neg (by simpa using hip),
                List.filter_cons_of_pos (by simpa using hip)]
              refine ⟨frames, hframes, ?_⟩
              rw [List.take_succ_eq_append_getElem hlt, hget, List.append_assoc]
              rfl

/-- An entry goes when its time is up, and is younger by the time that has passed otherwise. -/
theorem getElem?_age (ms : Nat) (table : Std.TreeMap UInt32 ARPEntry) (ip : UInt32) :
    (age ms table)[ip]? = table[ip]?.bind fun entry =>
      if entry.ttl ≤ ms then none else some { entry with ttl := entry.ttl - ms } := by
  simp [age, Std.TreeMap.getElem?_filterMap]

/-- The countdown of a pending request after a tick. -/
def nextTtl (ms ttl : Nat) : Nat :=
  if ttl ≤ ms then ARP_RESPONSE_DEFAULT_TTL - ms else ttl - ms

/-- A tick of five seconds never gets past a request. -/
theorem requestLoop_stuck (hms : ARP_RESPONSE_DEFAULT_TTL ≤ ms) (httl : ttl ≤ ms)
    {self d : NetworkInterface} : ¬ Returns (requestLoop ms fuel ((ip, ttl) :: rest) self) d := by
  induction fuel generalizing ttl self with
  | zero => exact not_returns_outOfFuel
  | succ fuel ih =>
      unfold requestLoop
      rw [if_pos httl, returns_bind_iff]
      rintro ⟨u, -, h⟩
      exact ih hms h

/-- What the loop does with one entry before it goes on. -/
theorem requestLoop_cons {self d : NetworkInterface}
    (h : Returns (requestLoop ms fuel ((ip, ttl) :: rest) self) d) :
    ∃ fuel' pending, Returns (requestLoop ms fuel' rest { self with
        framesOut := self.framesOut ++
          if ttl ≤ ms then [requestFrame self.ethernetAddress self.ipAddress ip] else []
        waitingArpResponseIpAddr := pending }) d ∧
      ∀ j, pending[j]? =
        if ip = j then some (nextTtl ms ttl) else self.waitingArpResponseIpAddr[j]? := by
  cases fuel with
  | zero => exact absurd h not_returns_outOfFuel
  | succ fuel =>
      by_cases httl : ttl ≤ ms
      · have hms : ¬ ARP_RESPONSE_DEFAULT_TTL ≤ ms := fun hms => requestLoop_stuck hms httl h
        unfold requestLoop at h
        rw [if_pos httl, returns_bind_iff] at h
        obtain ⟨u, hu, h⟩ := h
        rw [returns_lift_iff, sendRequest_eq, Except.ok.injEq] at hu
        subst hu
        cases fuel with
        | zero => exact absurd h not_returns_outOfFuel
        | succ fuel =>
            unfold requestLoop at h
            rw [if_neg hms] at h
            rw [if_pos httl]
            refine ⟨fuel, _, h, fun j => ?_⟩
            by_cases hj : ip = j <;>
              simp [Std.TreeMap.getElem?_insert, push, nextTtl, httl, hj]
      · unfold requestLoop at h
        rw [if_neg httl] at h
        rw [if_neg httl, List.append_nil]
        refine ⟨fuel, _, h, fun j => ?_⟩
        by_cases hj : ip = j <;> simp [Std.TreeMap.getElem?_insert, nextTtl, httl, hj]

/-- The loop requests what is due, once each, and counts down. -/
theorem requestLoop_returns {todo : List (UInt32 × Nat)} {self d : NetworkInterface}
    (h : Returns (requestLoop ms fuel todo self) d) (hnodup : (todo.map Prod.fst).Nodup) :
    ∃ pending, d = { self with
        framesOut := self.framesOut ++
          (todo.filter (·.2 ≤ ms)).map fun p =>
            requestFrame self.ethernetAddress self.ipAddress p.1
        waitingArpResponseIpAddr := pending } ∧
      (∀ p ∈ todo, pending[p.1]? = some (nextTtl ms p.2)) ∧
      ∀ ip ∉ todo.map Prod.fst, pending[ip]? = self.waitingArpResponseIpAddr[ip]? := by
  induction todo generalizing fuel self with
  | nil =>
      cases fuel with
      | zero => exact absurd h not_returns_outOfFuel
      | succ fuel =>
          unfold requestLoop at h
          rw [returns_pure_iff] at h
          exact ⟨_, by simp [h], by simp, fun _ _ => rfl⟩
  | cons p rest ih =>
      obtain ⟨ip, ttl⟩ := p
      obtain ⟨hip, hnodup⟩ := List.nodup_cons.mp hnodup
      obtain ⟨fuel', first, h, hfirst⟩ := requestLoop_cons h
      obtain ⟨pending, rfl, hrest, hother⟩ := ih h hnodup
      refine ⟨pending, ?_, List.forall_mem_cons.mpr ⟨?_, hrest⟩, ?_⟩
      · by_cases httl : ttl ≤ ms <;> simp [httl]
      · rw [hother ip hip, hfirst, if_pos rfl]
      · intro j hj
        rw [List.map_cons, List.mem_cons, not_or] at hj
        rw [hother j hj.2, hfirst, if_neg (Ne.symm hj.1)]

/-- The entries of a map have different keys. -/
theorem nodup_keys_toList (m : Std.TreeMap UInt32 β) : (m.toList.map Prod.fst).Nodup := by
  rw [List.nodup_iff_pairwise_ne, List.pairwise_map]
  exact m.distinct_keys_toList.imp fun hab => by simpa using hab

/-- A tick that returns repeats the requests that are due, and does nothing else but let time
pass. -/
theorem tick_returns {self d : NetworkInterface} (h : Returns (self.tick fuel ms) d) :
    ∃ pending, d = { self with
        framesOut := self.framesOut ++
          (self.waitingArpResponseIpAddr.toList.filter (·.2 ≤ ms)).map
            fun p => requestFrame self.ethernetAddress self.ipAddress p.1
        arpTable := age ms self.arpTable
        waitingArpResponseIpAddr := pending } ∧
      ∀ ip : UInt32, pending[ip]? = self.waitingArpResponseIpAddr[ip]?.map (nextTtl ms) := by
  obtain ⟨pending, rfl, hdue, hother⟩ := requestLoop_returns h (nodup_keys_toList _)
  refine ⟨pending, rfl, fun ip => ?_⟩
  cases hip : self.waitingArpResponseIpAddr[ip]? with
  | some ttl =>
      exact hdue (ip, ttl) (Std.TreeMap.mem_toList_iff_getElem?_eq_some.mpr hip)
  | none =>
      rw [hother ip, hip]
      · rfl
      · rintro hmem
        obtain ⟨⟨j, ttl⟩, hj, rfl⟩ := List.mem_map.mp hmem
        rw [Std.TreeMap.mem_toList_iff_getElem?_eq_some, hip] at hj
        contradiction

/-- The ARP message in a frame. -/
def arp? (frame : EthernetFrame) : Option ARPMessage :=
  if frame.header.type = EthernetHeader.TYPE_ARP then
    match frame.payload.toBuffer >>= ARPMessage.parse {} with
    | .ok (.NoError, arpMsg) => some arpMsg
    | _ => none
  else none

/-- A request for the interface's own address, or a reply to it. -/
def Valid (self : NetworkInterface) (arpMsg : ARPMessage) : Prop :=
  arpMsg.opcode = ARPMessage.OPCODE_REQUEST ∧
      arpMsg.targetIpAddress = self.ipAddress.ipv4Numeric ∨
    arpMsg.opcode = ARPMessage.OPCODE_REPLY ∧ arpMsg.targetEthernetAddress = self.ethernetAddress

/-- The interface learns from `arpMsg`, which it finds in a frame that is for it. -/
structure Accepts (s : NetworkInterface) (frame : EthernetFrame) (arpMsg : ARPMessage) :
    Prop where
  dst : frame.header.dst = s.ethernetAddress ∨ frame.header.dst = ETHERNET_BROADCAST
  arp : arp? frame = some arpMsg
  valid : s.Valid arpMsg

/-- The interface with one more datagram that waits. -/
def keep (self : NetworkInterface) (nextHop : Address) (dgram : IPv4Datagram) : NetworkInterface :=
  { self with waitingArpInternetDatagrams :=
    self.waitingArpInternetDatagrams ++ [(nextHop, dgram)] }

/-- The interface with one more address it has asked for. -/
def await (self : NetworkInterface) (ip : UInt32) : NetworkInterface :=
  { self with waitingArpResponseIpAddr :=
    self.waitingArpResponseIpAddr.insert ip ARP_RESPONSE_DEFAULT_TTL }

/-- The interface after an ARP message it learns from; `frames` are the datagrams that
were waiting for it. -/
def learn (self : NetworkInterface) (arpMsg : ARPMessage) (frames : List EthernetFrame) :
    NetworkInterface :=
  { self with
    framesOut := self.framesOut ++
      (if arpMsg.opcode = ARPMessage.OPCODE_REQUEST then
        [replyFrame self.ethernetAddress self.ipAddress arpMsg] else []) ++ frames
    arpTable := self.arpTable.insert arpMsg.senderIpAddress
      ⟨arpMsg.senderEthernetAddress, ARP_ENTRY_DEFAULT_TTL⟩
    waitingArpResponseIpAddr := self.waitingArpResponseIpAddr.erase arpMsg.senderIpAddress
    waitingArpInternetDatagrams := self.waitingElse arpMsg.senderIpAddress }

/-- The countdown of the address starts over. -/
theorem getElem?_await (self : NetworkInterface) (ip j : UInt32) :
    (self.await ip).waitingArpResponseIpAddr[j]? =
      if ip = j then some ARP_RESPONSE_DEFAULT_TTL else self.waitingArpResponseIpAddr[j]? := by
  by_cases hip : ip = j <;> simp [await, Std.TreeMap.getElem?_insert, hip]

section learn

variable (self : NetworkInterface) (arpMsg : ARPMessage) (frames : List EthernetFrame) (ip : UInt32)

/-- The entry of the sender is new. -/
theorem getElem?_learn_arpTable : (self.learn arpMsg frames).arpTable[ip]? =
    if arpMsg.senderIpAddress = ip then
      some ⟨arpMsg.senderEthernetAddress, ARP_ENTRY_DEFAULT_TTL⟩
    else self.arpTable[ip]? := by
  by_cases hip : arpMsg.senderIpAddress = ip <;>
    simp [learn, Std.TreeMap.getElem?_insert, hip]

/-- The sender's address is not asked for any more. -/
theorem getElem?_learn_pending : (self.learn arpMsg frames).waitingArpResponseIpAddr[ip]? =
    if arpMsg.senderIpAddress = ip then none else self.waitingArpResponseIpAddr[ip]? := by
  by_cases hip : arpMsg.senderIpAddress = ip <;>
    simp [learn, Std.TreeMap.getElem?_erase, hip]

end learn

/-- The interface after time has passed. -/
def pass (self : NetworkInterface) (ms : Nat) (pending : Std.TreeMap UInt32 Nat) :
    NetworkInterface :=
  { self with
    framesOut := self.framesOut ++
      (self.waitingArpResponseIpAddr.toList.filter (·.2 ≤ ms)).map
        fun p => requestFrame self.ethernetAddress self.ipAddress p.1
    arpTable := age ms self.arpTable
    waitingArpResponseIpAddr := pending }

theorem pass_arpTable (self : NetworkInterface) (ms : Nat) (pending : Std.TreeMap UInt32 Nat) :
    (self.pass ms pending).arpTable = age ms self.arpTable := by
  rw [pass]

/-- **All that an operation can do** to the interface. -/
inductive Change (s : NetworkInterface) : Op → NetworkInterface → Prop where
  | forward (dgram : IPv4Datagram) (nextHop : Address) (entry : ARPEntry) (frame : EthernetFrame) :
      s.arpTable[nextHop.ipv4Numeric]? = some entry →
      Carries entry.ethAddr s.ethernetAddress dgram frame →
      Change s (.sendDatagram dgram nextHop) (s.push frame)
  | hold (dgram : IPv4Datagram) (nextHop : Address) (ttl : Nat) :
      s.arpTable[nextHop.ipv4Numeric]? = none →
      s.waitingArpResponseIpAddr[nextHop.ipv4Numeric]? = some ttl →
      Change s (.sendDatagram dgram nextHop) (s.keep nextHop dgram)
  | ask (dgram : IPv4Datagram) (nextHop : Address) :
      s.arpTable[nextHop.ipv4Numeric]? = none →
      s.waitingArpResponseIpAddr[nextHop.ipv4Numeric]? = none →
      Change s (.sendDatagram dgram nextHop)
        (((s.push (requestFrame s.ethernetAddress s.ipAddress nextHop.ipv4Numeric)).await
          nextHop.ipv4Numeric).keep nextHop dgram)
  | ignore (frame : EthernetFrame) : (∀ arpMsg, ¬ s.Accepts frame arpMsg) →
      Change s (.recvFrame frame) s
  | learn (frame : EthernetFrame) (arpMsg : ARPMessage) (frames : List EthernetFrame) :
      s.Accepts frame arpMsg →
      List.Forall₂ (fun p => Carries arpMsg.senderEthernetAddress s.ethernetAddress p.2)
        (s.waitingFor arpMsg.senderIpAddress) frames →
      Change s (.recvFrame frame) (s.learn arpMsg frames)
  | pass (ms : Nat) (pending : Std.TreeMap UInt32 Nat) :
      (∀ ip : UInt32, pending[ip]? = s.waitingArpResponseIpAddr[ip]?.map (nextTtl ms)) →
      Change s (.tick ms) (s.pass ms pending)
  | dequeue : Change s .dequeue { s with framesOut := s.framesOut.drop 1 }

/-- A datagram is forwarded, held, or asked for. -/
theorem sendDatagram_change {s d : NetworkInterface} (h : s.sendDatagram dgram nextHop = .ok d) :
    Change s (.sendDatagram dgram nextHop) d := by
  cases hentry : s.arpTable[nextHop.ipv4Numeric]? with
  | some entry =>
      rw [sendDatagram_hit hentry] at h
      obtain ⟨frame, hcarries, rfl⟩ := makeAndSendIPv4_eq_ok h
      exact .forward dgram nextHop entry frame hentry hcarries
  | none =>
      unfold sendDatagram at h
      simp only [hentry] at h
      cases hpending : s.waitingArpResponseIpAddr[nextHop.ipv4Numeric]? with
      | some ttl =>
          simp [Std.TreeMap.contains_eq_isSome_getElem?, hpending] at h
          exact h ▸ .hold dgram nextHop ttl hentry hpending
      | none =>
          simp [Std.TreeMap.contains_eq_isSome_getElem?, hpending, sendRequest_eq] at h
          exact h ▸ .ask dgram nextHop hentry hpending

/-- The datagrams that were waiting for the address are sent in order, and the others stay. -/
theorem resolve_returns {s d : NetworkInterface} (h : Returns (s.resolve fuel arpMsg) d) :
    ∃ frames, List.Forall₂ (fun p => Carries arpMsg.senderEthernetAddress s.ethernetAddress p.2)
        (s.waitingFor arpMsg.senderIpAddress) frames ∧
      d = { s with
        framesOut := s.framesOut ++ frames
        arpTable := s.arpTable.insert arpMsg.senderIpAddress
          ⟨arpMsg.senderEthernetAddress, ARP_ENTRY_DEFAULT_TTL⟩
        waitingArpResponseIpAddr := s.waitingArpResponseIpAddr.erase arpMsg.senderIpAddress
        waitingArpInternetDatagrams := s.waitingElse arpMsg.senderIpAddress } := by
  obtain ⟨u, hu, h⟩ := returns_bind_iff.mp h
  rw [returns_pure_iff] at h
  obtain ⟨frames, hframes, rfl⟩ := flushLoop_returns hu Std.TreeMap.getElem?_insert_self
  exact ⟨frames, hframes, h.symm⟩

/-- A message is learned from if it is for this interface, and ignored otherwise. -/
theorem recvARP_returns {s d : NetworkInterface} (h : Returns (recvARP fuel s arpMsg) d) :
    (¬ s.Valid arpMsg ∧ d = s) ∨
    s.Valid arpMsg ∧
      ∃ frames, List.Forall₂ (fun p => Carries arpMsg.senderEthernetAddress s.ethernetAddress p.2)
        (s.waitingFor arpMsg.senderIpAddress) frames ∧ d = s.learn arpMsg frames := by
  unfold recvARP at h
  by_cases hreq : arpMsg.opcode = ARPMessage.OPCODE_REQUEST ∧
      arpMsg.targetIpAddress = s.ipAddress.ipv4Numeric
  · simp only [hreq, sendReply_eq, beq_self_eq_true, Bool.and_self, Bool.true_or, ↓reduceIte] at h
    obtain ⟨u, hu, h⟩ := returns_bind_iff.mp h
    rw [returns_lift_iff, Except.ok.injEq] at hu
    subst hu
    obtain ⟨v, hv, h⟩ := returns_bind_iff.mp h
    rw [returns_pure_iff] at h
    obtain ⟨frames, hframes, rfl⟩ := resolve_returns hv
    exact .inr ⟨.inl hreq, frames, hframes, by simp [← h, learn, hreq.1, push, waitingElse]⟩
  by_cases hrep : arpMsg.opcode = ARPMessage.OPCODE_REPLY ∧
      arpMsg.targetEthernetAddress = s.ethernetAddress
  · have hne : arpMsg.opcode ≠ ARPMessage.OPCODE_REQUEST := hrep.1 ▸ by decide
    simp [hrep] at h
    obtain ⟨frames, hframes, rfl⟩ := resolve_returns h
    exact .inr ⟨.inr hrep, frames, hframes, by simp [learn, hne]⟩
  · simp [hreq, hrep] at h
    exact .inl ⟨by simp [Valid, hreq, hrep], h.symm⟩

/-- A frame is ignored or learned from. -/
theorem recvFrame_change {s : NetworkInterface} (h : Returns (s.recvFrame fuel frame) (res, d)) :
    Change s (.recvFrame frame) d := by
  unfold recvFrame at h
  by_cases hdst : frame.header.dst ≠ s.ethernetAddress ∧ frame.header.dst ≠ ETHERNET_BROADCAST
  · rw [if_pos hdst, returns_pure_iff, Prod.mk.injEq] at h
    exact h.2 ▸ .ignore frame fun arpMsg ha => ha.dst.elim hdst.1 hdst.2
  rw [if_neg hdst] at h
  by_cases hip : frame.header.type = EthernetHeader.TYPE_IPv4
  · have hnone : ∀ arpMsg, ¬ s.Accepts frame arpMsg := by
      intro arpMsg ha
      have harp := ha.arp
      simp [arp?, hip, EthernetHeader.TYPE_IPv4, EthernetHeader.TYPE_ARP] at harp
    simp only [if_pos hip, returns_bind_iff, returns_lift_iff] at h
    obtain ⟨payload, -, ⟨result, datagram⟩, -, h⟩ := h
    have hd : s = d := by
      split at h <;> simp_all
    exact hd ▸ .ignore frame hnone
  by_cases harp : frame.header.type = EthernetHeader.TYPE_ARP
  · simp only [if_neg hip, if_pos harp, returns_bind_iff, returns_lift_iff] at h
    obtain ⟨payload, hpayload, ⟨result, arpMsg⟩, hparse, h⟩ := h
    have hread : arp? frame = if result = .NoError then some arpMsg else none := by
      rw [arp?, if_pos harp, hpayload, ok_bind, hparse]
      cases result <;> rfl
    by_cases hres : result = .NoError
    · rw [if_pos hres] at hread
      simp only [hres, ne_eq, not_true_eq_false, ↓reduceIte, returns_bind_iff, returns_pure_iff,
        Prod.mk.injEq] at h
      obtain ⟨u, hu, -, rfl⟩ := h
      rcases recvARP_returns hu with ⟨hvalid, rfl⟩ | ⟨hvalid, frames, hframes, rfl⟩
      · refine .ignore frame fun msg ha => hvalid ?_
        have hmsg := ha.arp
        rw [hread, Option.some.injEq] at hmsg
        exact hmsg ▸ ha.valid
      · refine .learn frame arpMsg frames ⟨?_, hread, hvalid⟩ hframes
        rwa [not_and_or, not_not, not_not] at hdst
    · rw [if_neg hres] at hread
      rw [if_pos hres, returns_pure_iff, Prod.mk.injEq] at h
      refine h.2 ▸ .ignore frame fun msg ha => ?_
      have hmsg := ha.arp
      rw [hread] at hmsg
      contradiction
  · rw [if_neg hip, if_neg harp, returns_pure_iff, Prod.mk.injEq] at h
    refine h.2 ▸ .ignore frame fun msg ha => ?_
    have hmsg := ha.arp
    simp [arp?, harp] at hmsg

/-- The datagram that is returned was in the frame. -/
theorem recvFrame_some {s d : NetworkInterface}
    (h : Returns (s.recvFrame fuel frame) (some dgram, d)) :
    (frame.header.dst = s.ethernetAddress ∨ frame.header.dst = ETHERNET_BROADCAST) ∧
      frame.header.type = EthernetHeader.TYPE_IPv4 ∧
      ∃ payload, frame.payload.toBuffer = .ok payload ∧
        IPv4Datagram.parse {} payload = .ok (.NoError, dgram) := by
  unfold recvFrame at h
  split at h
  · simp at h
  next hdst =>
  rw [not_and_or, not_not, not_not] at hdst
  refine ⟨hdst, ?_⟩
  split at h
  · next hip =>
      simp only [returns_bind_iff, returns_lift_iff] at h
      obtain ⟨payload, hpayload, ⟨result, datagram⟩, hparse, h⟩ := h
      refine ⟨hip, payload, hpayload, ?_⟩
      by_cases hres : result = .NoError
      · simp only [hres, ne_eq, not_true_eq_false, ↓reduceIte, returns_pure_iff, Prod.mk.injEq,
          Option.some.injEq] at h
        rw [hparse, hres, h.1]
      · simp [hres] at h
  · split at h
    · simp only [returns_bind_iff, returns_lift_iff] at h
      obtain ⟨payload, -, ⟨result, arpMsg⟩, -, h⟩ := h
      by_cases hres : result = .NoError
      · simp only [hres, ne_eq, not_true_eq_false, ↓reduceIte, returns_bind_iff] at h
        obtain ⟨u, -, h⟩ := h
        simp at h
      · simp [hres] at h
    · simp at h

/-- **Each call that returns** does one of these things. -/
theorem step_change {s d : NetworkInterface} {op : Op} (h : s.step fuel op = some d) :
    Change s op d := by
  cases op with
  | sendDatagram dgram nextHop =>
      apply sendDatagram_change
      unfold step at h
      cases hsend : s.sendDatagram dgram nextHop with
      | error e => simp [hsend, Except.toOption] at h
      | ok u => simpa [hsend, Except.toOption] using h
  | recvFrame frame =>
      simp only [step, Option.map_eq_some_iff, result?_eq_some_iff] at h
      obtain ⟨⟨res, u⟩, hrun, rfl⟩ := h
      exact recvFrame_change hrun
  | tick ms =>
      simp only [step, result?_eq_some_iff] at h
      obtain ⟨pending, rfl, hpending⟩ := tick_returns h
      exact .pass ms pending hpending
  | dequeue =>
      simp only [step, Option.some.injEq] at h
      exact h ▸ .dequeue

/-! ## What is pushed -/

/-- The frames that a call has pushed. -/
def pushed (s d : NetworkInterface) : List EthernetFrame := d.framesOut.drop s.framesOut.length

/-- What a call has pushed is what it has added. -/
theorem pushed_of_append {s d : NetworkInterface} (h : d.framesOut = s.framesOut ++ frames) :
    pushed s d = frames := by
  rw [pushed, h, List.drop_left]

@[simp] theorem pushed_self (s : NetworkInterface) : pushed s s = [] :=
  pushed_of_append (List.append_nil _).symm

theorem pushed_dequeue (s : NetworkInterface) :
    pushed s { s with framesOut := s.framesOut.drop 1 } = [] := by
  rw [pushed, List.drop_drop]
  exact List.drop_eq_nil_of_le (Nat.le_add_left _ _)

/-- Every frame of a list that carries datagrams has its datagram. -/
theorem exists_of_forall₂ {R : α → β → Prop} (h : List.Forall₂ R as bs) (hb : b ∈ bs) :
    ∃ a ∈ as, R a b := by
  induction h with
  | nil => simp at hb
  | cons hab _ ih => grind

end NetworkInterface

end Sponge
