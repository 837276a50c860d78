import Sponge.NetworkInterface.Fifo
import Sponge.NetworkInterface.Requests

/-!
# Sponge.NetworkInterface.Freshness

What the ARP table says is what was heard last, and not too long ago.

The interface counts the lifetime of every entry down.  A history keeps the
clock and the valid ARP messages with the times of their receipt instead, and
the table is a function of it: the entry for an address is that of the latest
message, as long as that is younger than 30000 milliseconds
(`History.Refines`).  Where the datagrams go is read off from there.
-/

namespace Sponge

namespace NetworkInterface

/-! ## Histories -/

instance (s : NetworkInterface) (arpMsg : ARPMessage) : Decidable (s.Valid arpMsg) :=
  inferInstanceAs (Decidable (_ ∧ _ ∨ _ ∧ _))

/-- The valid ARP message in a frame that is for the interface. -/
def valid? (s : NetworkInterface) (frame : EthernetFrame) : Option ARPMessage :=
  if frame.header.dst = s.ethernetAddress ∨ frame.header.dst = ETHERNET_BROADCAST then
    (arp? frame).filter fun arpMsg => s.Valid arpMsg
  else none

/-- The message that a frame is learned from. -/
theorem valid?_eq_some {s : NetworkInterface} :
    s.valid? frame = some arpMsg ↔ s.Accepts frame arpMsg := by
  unfold valid?
  constructor
  · intro h
    split at h
    · next hdst =>
        obtain ⟨harp, hvalid⟩ := Option.filter_eq_some_iff.mp h
        exact ⟨hdst, harp, of_decide_eq_true hvalid⟩
    · contradiction
  · intro h
    rw [if_pos h.dst, Option.filter_eq_some_iff]
    exact ⟨h.arp, decide_eq_true h.valid⟩

/-- The valid ARP message that a call brings. -/
def Op.news (s : NetworkInterface) : Op → Option ARPMessage
  | .recvFrame frame => s.valid? frame
  | .sendDatagram _ _ | .tick _ | .dequeue => none

/-- An interface with the time that has passed and the valid ARP messages it has received,
each with the addresses of its sender and the time. -/
structure History where
  iface : NetworkInterface
  clock : Nat
  heard : List (UInt32 × EthernetAddress × Nat)

namespace History

def new (eth : EthernetAddress) (own : Address) : History := ⟨NetworkInterface.new eth own, 0, []⟩

def note (l : History) (op : Op) (d : NetworkInterface) : History where
  iface := d
  clock := l.clock + op.elapsed
  heard := l.heard ++ (op.news l.iface).toList.map fun arpMsg =>
    (arpMsg.senderIpAddress, arpMsg.senderEthernetAddress, l.clock)

@[simp] theorem note_iface (l : History) (op : Op) (d : NetworkInterface) :
    (l.note op d).iface = d := rfl

def step (fuel : Nat) (l : History) (op : Op) : Option History :=
  (l.iface.step fuel op).map (l.note op)

/-- More fuel never changes a result. -/
theorem fuelMono : FuelMono History.step :=
  NetworkInterface.fuelMono.record History.iface History.note

/-- What the most recent message from `ip` said, and when it came. -/
def latest (l : History) (ip : UInt32) : Option (EthernetAddress × Nat) :=
  (l.heard.reverse.find? fun p => p.1 = ip).map Prod.snd

/-- The entry that the table should have for `ip`. -/
def current? (l : History) (ip : UInt32) : Option ARPEntry :=
  (l.latest ip).bind fun (mac, t) =>
    if l.clock < t + ARP_ENTRY_DEFAULT_TTL then
      some ⟨mac, t + ARP_ENTRY_DEFAULT_TTL - l.clock⟩
    else none

/-- The last word on an address is the newest. -/
theorem latest_note (l : History) (op : Op) (d : NetworkInterface) (ip : UInt32) :
    (l.note op d).latest ip = match op.news l.iface with
      | none => l.latest ip
      | some arpMsg =>
          if arpMsg.senderIpAddress = ip then some (arpMsg.senderEthernetAddress, l.clock)
          else l.latest ip := by
  unfold latest note
  cases op.news l.iface with
  | none => simp
  | some arpMsg => by_cases hip : arpMsg.senderIpAddress = ip <;> simp [hip]

/-- A call without a message that takes no time changes nothing. -/
theorem current?_note_of_quiet (l : History) {op : Op} (hnews : op.news l.iface = none)
    (htime : op.elapsed = 0) (d : NetworkInterface) (ip : UInt32) :
    (l.note op d).current? ip = l.current? ip := by
  have hclock : (l.note op d).clock = l.clock := by rw [note, htime, Nat.add_zero]
  rw [current?, latest_note, hnews, hclock, current?]

/-! ## The table -/

/-- The table is what the history says. -/
def Refines (l : History) : Prop := ∀ ip : UInt32, l.iface.arpTable[ip]? = l.current? ip

/-- At first nothing is known. -/
theorem refines_new (eth : EthernetAddress) (own : Address) : (new eth own).Refines := by
  intro ip
  simp [new, NetworkInterface.new, current?, latest]

/-- A call that leaves the table alone. -/
theorem Refines.note_same {l : History} (hl : l.Refines) {op : Op} {d : NetworkInterface}
    (hnews : op.news l.iface = none) (htime : op.elapsed = 0)
    (htable : d.arpTable = l.iface.arpTable) : (l.note op d).Refines := by
  intro ip
  rw [current?_note_of_quiet l hnews htime, ← hl ip]
  exact congrArg (·[ip]?) htable

/-- A message makes the entry for its sender, with its full lifetime. -/
theorem Refines.note_learn {l : History} (hl : l.Refines)
    (haccepts : l.iface.Accepts frame arpMsg) (frames : List EthernetFrame) :
    (l.note (.recvFrame frame) (l.iface.learn arpMsg frames)).Refines := by
  intro ip
  have hnews : Op.news l.iface (.recvFrame frame) = some arpMsg := valid?_eq_some.mpr haccepts
  have hclock : (l.note (.recvFrame frame) (l.iface.learn arpMsg frames)).clock = l.clock := rfl
  rw [current?, latest_note, hnews, hclock, note_iface, getElem?_learn_arpTable, hl ip]
  simp only
  by_cases hip : arpMsg.senderIpAddress = ip
  · have hlt : l.clock < l.clock + ARP_ENTRY_DEFAULT_TTL := Nat.lt_add_of_pos_right (by decide)
    rw [if_pos hip, if_pos hip, Option.bind_some, if_pos hlt, Nat.add_sub_cancel_left]
  · rw [if_neg hip, if_neg hip, current?]

/-- What is left of a lifetime is what the clock says. -/
theorem age_fresh (clock life ms : Nat) (news : Option (EthernetAddress × Nat)) :
    ((news.bind fun p =>
        if clock < p.2 + life then some (⟨p.1, p.2 + life - clock⟩ : ARPEntry) else none).bind
      fun entry => if entry.ttl ≤ ms then none else some { entry with ttl := entry.ttl - ms }) =
      news.bind fun p =>
        if clock + ms < p.2 + life then some ⟨p.1, p.2 + life - (clock + ms)⟩ else none := by
  cases news with
  | none => rfl
  | some p =>
      by_cases hold : clock < p.2 + life
      · by_cases hnow : clock + ms < p.2 + life
        · have hle : ¬ p.2 + life - clock ≤ ms := by omega
          simp [hold, hnow, hle, Nat.sub_sub]
        · have hle : p.2 + life - clock ≤ ms := by omega
          simp [hold, hnow, hle]
      · have hnow : ¬ clock + ms < p.2 + life := by omega
        simp [hold, hnow]

/-- Time passes for the table as it does for what was heard. -/
theorem Refines.note_pass {l : History} (hl : l.Refines) (ms : Nat)
    (pending : Std.TreeMap UInt32 Nat) :
    (l.note (.tick ms) (l.iface.pass ms pending)).Refines := by
  intro ip
  have hclock : (l.note (.tick ms) (l.iface.pass ms pending)).clock = l.clock + ms := rfl
  rw [current?, latest_note, hclock, note_iface, pass_arpTable, getElem?_age, hl ip, current?]
  exact age_fresh l.clock ARP_ENTRY_DEFAULT_TTL ms (l.latest ip)

/-- **Each call that returns** keeps the table to the history. -/
theorem Refines.of_step {l l' : History} {op : Op} (hl : l.Refines)
    (h : l.step fuel op = some l') : l'.Refines := by
  obtain ⟨d, hd, rfl⟩ := Option.map_eq_some_iff.mp h
  cases step_change hd with
  | forward | hold | ask | dequeue => exact hl.note_same rfl rfl rfl
  | ignore frame hnot =>
      refine hl.note_same ?_ rfl rfl
      rw [Op.news, Option.eq_none_iff_forall_ne_some]
      exact fun arpMsg h => hnot arpMsg (valid?_eq_some.mp h)
  | learn frame arpMsg frames haccepts hframes => exact hl.note_learn haccepts frames
  | pass ms pending hpending => exact hl.note_pass ms pending

/-- **Every run** refines the history. -/
theorem exec_refines {eth : EthernetAddress} {own : Address}
    (h : exec (step fuel) (new eth own) ops = some l) : l.Refines :=
  exec_invariant (fun _ _ _ => Refines.of_step) (refines_new eth own) h

/-- What is current was heard less than thirty seconds ago. -/
theorem current?_eq_some {l : History} (h : l.current? ip = some entry) :
    ∃ t, l.latest ip = some (entry.ethAddr, t) ∧ l.clock < t + ARP_ENTRY_DEFAULT_TTL := by
  obtain ⟨⟨mac, t⟩, hlatest, hentry⟩ := Option.bind_eq_some_iff.mp h
  simp only at hentry
  split at hentry
  · next hfresh =>
      rw [Option.some.injEq] at hentry
      exact ⟨t, hentry ▸ hlatest, hfresh⟩
  · contradiction

theorem fresh_eq_some {clock life : Nat} (h : clock < p.2 + life) :
    ((some p).bind fun p : EthernetAddress × Nat =>
      if clock < p.2 + life then some (⟨p.1, p.2 + life - clock⟩ : ARPEntry) else none) =
      some ⟨p.1, p.2 + life - clock⟩ := by
  simp [h]

/-- What was heard less than thirty seconds ago is current. -/
theorem current?_of_latest {l : History} (h : l.latest ip = some p)
    (hfresh : l.clock < p.2 + ARP_ENTRY_DEFAULT_TTL) :
    l.current? ip = some ⟨p.1, p.2 + ARP_ENTRY_DEFAULT_TTL - l.clock⟩ := by
  rw [current?, h]
  exact fresh_eq_some hfresh

end History

/-! ## Where datagrams go -/

/-- Every IPv4 frame goes where the table says after the call. -/
theorem Change.mem_pushedIPv4 {s d : NetworkInterface} {op : Op} (h : Change s op d)
    (hframe : frame ∈ pushedIPv4 s d) :
    ∃ ip entry, op.hop = some ip ∧ d.arpTable[ip]? = some entry ∧
      frame.header.dst = entry.ethAddr := by
  cases h with
  | forward dgram nextHop entry out hentry hcarries =>
      rw [pushedIPv4_push hcarries, List.mem_singleton] at hframe
      exact ⟨_, entry, rfl, hentry, by rw [hframe, hcarries.header_eq]⟩
  | learn received arpMsg frames haccepts hframes =>
      rw [pushedIPv4_learn hframes] at hframe
      obtain ⟨p, -, hcarries⟩ := exists_of_forall₂ hframes hframe
      refine ⟨arpMsg.senderIpAddress, ⟨arpMsg.senderEthernetAddress, ARP_ENTRY_DEFAULT_TTL⟩,
        by simp [Op.hop, haccepts.arp], ?_, by rw [hcarries.header_eq]⟩
      rw [getElem?_learn_arpTable, if_pos rfl]
  | hold dgram nextHop => simp [pushedIPv4_keep] at hframe
  | ask dgram nextHop => simp [pushedIPv4_ask] at hframe
  | ignore => simp [pushedIPv4] at hframe
  | pass ms pending => simp [pushedIPv4_pass] at hframe
  | dequeue =>
      rw [pushedIPv4, pushed_dequeue] at hframe
      simp at hframe

/-- A datagram for a known address leaves at once. -/
theorem step_sendDatagram_hit {s : NetworkInterface}
    (h : s.arpTable[nextHop.ipv4Numeric]? = some entry) (hser : dgram.serialize = .ok payload)
    (fuel : Nat) : ∃ d, s.step fuel (.sendDatagram dgram nextHop) = some d ∧
      pushed s d = [⟨⟨entry.ethAddr, s.ethernetAddress, EthernetHeader.TYPE_IPv4⟩, payload⟩] := by
  refine ⟨s.push ⟨⟨entry.ethAddr, s.ethernetAddress, EthernetHeader.TYPE_IPv4⟩, payload⟩, ?_,
    pushed_of_append rfl⟩
  rw [step, sendDatagram_hit h, makeAndSendIPv4, hser]
  rfl

/-- A tick ages the table. -/
theorem step_tick_arpTable {s d : NetworkInterface} (h : s.step fuel (.tick ms) = some d) :
    d.arpTable = age ms s.arpTable := by
  cases step_change h
  exact pass_arpTable s ms _

/-- Ageing in two steps is ageing once. -/
theorem getElem?_age_age (a b : Nat) (table : Std.TreeMap UInt32 ARPEntry) (ip : UInt32) :
    (age b (age a table))[ip]? = (age (a + b) table)[ip]? := by
  rw [getElem?_age, getElem?_age, getElem?_age]
  cases table[ip]? with
  | none => rfl
  | some entry =>
      by_cases ha : entry.ttl ≤ a
      · have hab : entry.ttl ≤ a + b := by omega
        simp [ha, hab]
      · by_cases hab : entry.ttl ≤ a + b
        · have hb : entry.ttl - a ≤ b := by omega
          simp [ha, hab, hb]
        · have hb : ¬ entry.ttl - a ≤ b := by omega
          simp [ha, hab, hb, Nat.sub_sub]

namespace History

/-- **Freshness**: in every run, an IPv4 frame for a next hop goes to the sender of the
most recent valid ARP message from it, received less than 30000 milliseconds
before; a datagram for a next hop with such a message leaves at once as an IPv4
frame, and nothing else is pushed; and two ticks leave the table that one tick
of both times leaves. -/
theorem arp_fresh {eth : EthernetAddress} {own : Address}
    (h : exec (step fuel) (new eth own) ops = some l) :
    (∀ n op d, l.iface.step n op = some d → ∀ frame ∈ pushedIPv4 l.iface d,
      ∃ ip mac t, op.hop = some ip ∧ (l.note op d).latest ip = some (mac, t) ∧
        (l.note op d).clock < t + 30000 ∧ frame.header.dst = mac) ∧
    (∀ n dgram nextHop mac t payload, l.latest (Address.ipv4Numeric nextHop) = some (mac, t) →
      l.clock < t + 30000 → IPv4Datagram.serialize dgram = .ok payload →
      ∃ d, l.iface.step n (.sendDatagram dgram nextHop) = some d ∧ pushed l.iface d =
        [⟨⟨mac, l.iface.ethernetAddress, EthernetHeader.TYPE_IPv4⟩, payload⟩]) ∧
    ∀ n₁ n₂ n a b d₁ d₂ d, l.iface.step n₁ (.tick a) = some d₁ → d₁.step n₂ (.tick b) = some d₂ →
      l.iface.step n (.tick (a + b)) = some d →
      ∀ ip : UInt32, d₂.arpTable[ip]? = d.arpTable[ip]? := by
  have hl := exec_refines h
  refine ⟨fun n op d hd frame hframe => ?_, fun n dgram nextHop mac t payload hlatest hfresh hser =>
    ?_, fun n₁ n₂ n a b d₁ d₂ d h₁ h₂ hsum ip => ?_⟩
  · have hstep : l.step n op = some (l.note op d) := Option.map_eq_some_iff.mpr ⟨d, hd, rfl⟩
    have hl' := hl.of_step hstep
    obtain ⟨ip, entry, hhop, hentry, hdst⟩ := (step_change hd).mem_pushedIPv4 hframe
    have hsays := hl' ip
    rw [note_iface, hentry] at hsays
    obtain ⟨t, hlatest, hfresh⟩ := current?_eq_some hsays.symm
    exact ⟨ip, _, t, hhop, hlatest, hfresh, hdst⟩
  · have hentry := (hl nextHop.ipv4Numeric).trans (current?_of_latest hlatest hfresh)
    exact step_sendDatagram_hit hentry hser n
  · rw [step_tick_arpTable h₂, step_tick_arpTable h₁, step_tick_arpTable hsum,
      getElem?_age_age]

/-- The reply from an address, and a datagram for it just before the reply expires. -/
def lastMoment : List Op :=
  [.recvFrame ⟨⟨.replicate 6 1, .replicate 6 2, EthernetHeader.TYPE_ARP⟩,
      [(makeARP ARPMessage.OPCODE_REPLY (.replicate 6 2) 2 (.replicate 6 1) 1).bytes]⟩,
    .tick 29999]

/-- A millisecond before the entry goes. -/
theorem arp_fresh_lastMoment :
    ∃ l, exec (step 9) (new (.replicate 6 1) ⟨1, 0⟩) lastMoment = some l ∧
      l.latest 2 = some (.replicate 6 2, 0) ∧ l.clock = 29999 ∧
      ∃ d, l.iface.step 9 (.sendDatagram { header := { len := 20 } } ⟨2, 0⟩) = some d ∧
        (pushed l.iface d).map (fun frame => frame.header.dst) = [.replicate 6 2] := by
  have hrun : (exec (step 9) (new (.replicate 6 1) ⟨1, 0⟩) lastMoment).map
      (fun l => (l.latest 2, l.clock)) = some (some (.replicate 6 2, 0), 29999) := by
    decide +kernel
  obtain ⟨l, hl, heq⟩ := Option.map_eq_some_iff.mp hrun
  obtain ⟨hlatest, hclock⟩ := Prod.mk.inj heq
  have hser : ∃ payload, IPv4Datagram.serialize { header := { len := 20 } } = .ok payload :=
    ⟨_, rfl⟩
  obtain ⟨payload, hpayload⟩ := hser
  obtain ⟨d, hd, hpushed⟩ := (arp_fresh hl).2.1 9 { header := { len := 20 } } ⟨2, 0⟩
    (.replicate 6 2) 0 payload hlatest (by omega) hpayload
  exact ⟨l, hl, hlatest, hclock, d, hd, by rw [hpushed]; rfl⟩

end History

end NetworkInterface

end Sponge
