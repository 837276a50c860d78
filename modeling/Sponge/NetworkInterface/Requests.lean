import Sponge.NetworkInterface

/-!
# Sponge.NetworkInterface.Requests

How far apart the ARP requests for one address are.  `send_datagram` asks for
an address that is neither known nor asked for, and then nothing asks for it
again for 5000 milliseconds.

The requests that `tick` repeats are another matter: the loop sets the
countdown back to 5000 and then takes the same tick off it once more, so the
next request comes too early.  As long as no tick repeats a request that was
itself sent by a tick (`Repeats`), any two requests for an address are at least
5000 milliseconds apart.
-/

namespace Sponge

namespace NetworkInterface

/-! ## Requests in frames -/

/-- The address that a frame asks for, if it is an ARP request. -/
def requestOf (frame : EthernetFrame) : Option UInt32 :=
  (arp? frame).bind fun arpMsg =>
    if arpMsg.opcode = ARPMessage.OPCODE_REQUEST then some arpMsg.targetIpAddress else none

/-- The ARP message in a frame that was made for it. -/
theorem arp?_bytes {arpMsg : ARPMessage} (h : arpMsg.supported = true)
    (dst src : EthernetAddress) :
    arp? ⟨⟨dst, src, EthernetHeader.TYPE_ARP⟩, [arpMsg.bytes]⟩ = some arpMsg := by
  have hparse := ARPMessage.parse_bytes_append h {} []
  rw [List.append_nil] at hparse
  simp [arp?, BufferList.toBuffer, hparse]

@[simp] theorem requestOf_requestFrame (eth : EthernetAddress) (own : Address) (ip : UInt32) :
    requestOf (requestFrame eth own ip) = some ip := by
  rw [requestOf, requestFrame, arp?_bytes rfl]
  rfl

@[simp] theorem requestOf_replyFrame (eth : EthernetAddress) (own : Address)
    (arpMsg : ARPMessage) : requestOf (replyFrame eth own arpMsg) = none := by
  rw [requestOf, replyFrame, arp?_bytes rfl]
  rfl

/-- A datagram is no request. -/
theorem Carries.requestOf_eq (h : Carries dst src dgram frame) : requestOf frame = none := by
  rw [requestOf, arp?, h.header_eq]
  rfl

/-- The addresses that a call has asked for. -/
def asked (s d : NetworkInterface) : List UInt32 := (pushed s d).filterMap requestOf

/-- The addresses that are due at a tick. -/
def due (s : NetworkInterface) (ms : Nat) : List UInt32 :=
  (s.waitingArpResponseIpAddr.toList.filter (·.2 ≤ ms)).map Prod.fst

/-- What is due is pending, and its time is up. -/
theorem mem_due {s : NetworkInterface} :
    ip ∈ s.due ms ↔ ∃ ttl, s.waitingArpResponseIpAddr[ip]? = some ttl ∧ ttl ≤ ms := by
  simp [due, Std.TreeMap.mem_toList_iff_getElem?_eq_some]

/-- No address is due twice. -/
theorem nodup_due (s : NetworkInterface) (ms : Nat) : (s.due ms).Nodup :=
  (nodup_keys_toList _).sublist (List.filter_sublist.map _)

/-- What a call asks for. -/
theorem Change.asked_eq {s d : NetworkInterface} {op : Op} (h : Change s op d) :
    asked s d = match op with
      | .sendDatagram _ nextHop =>
          if s.arpTable[nextHop.ipv4Numeric]? = none ∧
            s.waitingArpResponseIpAddr[nextHop.ipv4Numeric]? = none then
            [nextHop.ipv4Numeric] else []
      | .recvFrame _ | .dequeue => []
      | .tick ms => s.due ms := by
  cases h with
  | forward dgram nextHop entry frame hentry hcarries =>
      have hout : pushed s (s.push frame) = [frame] := pushed_of_append rfl
      simp [asked, hout, hcarries.requestOf_eq, hentry]
  | hold dgram nextHop ttl hentry hpending =>
      have hout : pushed s (s.keep nextHop dgram) = [] :=
        pushed_of_append (List.append_nil _).symm
      simp [asked, hout, hpending]
  | ask dgram nextHop hentry hpending =>
      rw [asked, pushed_of_append rfl]
      simp [hentry, hpending]
  | ignore frame hnot => simp [asked]
  | learn frame arpMsg frames haccepts hframes =>
      have hreply : (if arpMsg.opcode = ARPMessage.OPCODE_REQUEST then
          [replyFrame s.ethernetAddress s.ipAddress arpMsg] else []).filterMap requestOf = [] := by
        split <;> simp
      rw [asked, pushed_of_append (List.append_assoc _ _ _), List.filterMap_append, hreply,
        List.nil_append, List.filterMap_eq_nil_iff]
      intro frame hframe
      obtain ⟨p, -, hcarries⟩ := exists_of_forall₂ hframes hframe
      exact hcarries.requestOf_eq
  | pass ms pending hpending =>
      have hrequest : (requestOf ∘ fun p : UInt32 × Nat =>
          requestFrame s.ethernetAddress s.ipAddress p.1) = some ∘ Prod.fst := by
        funext p
        simp
      rw [asked, pushed_of_append rfl, List.filterMap_map, hrequest, List.filterMap_eq_map]
      rfl
  | dequeue => rw [asked, pushed_dequeue, List.filterMap_nil]

/-! ## Clocked runs -/

/-- The time a call takes. -/
def Op.elapsed : Op → Nat
  | .tick ms => ms
  | _ => 0

def Op.isTick : Op → Bool
  | .tick _ => true
  | _ => false

/-- An interface with the time that has passed and the requests it has pushed; `byTick`
tells whether the last request for an address was sent by a tick. -/
structure Clocked where
  iface : NetworkInterface
  clock : Nat
  requests : List (UInt32 × Nat)
  byTick : UInt32 → Bool

namespace Clocked

def new (eth : EthernetAddress) (own : Address) : Clocked :=
  ⟨NetworkInterface.new eth own, 0, [], fun _ => false⟩

def note (c : Clocked) (op : Op) (d : NetworkInterface) : Clocked where
  iface := d
  clock := c.clock + op.elapsed
  requests := c.requests ++ (asked c.iface d).map fun ip => (ip, c.clock + op.elapsed)
  byTick ip := if ip ∈ asked c.iface d then op.isTick else c.byTick ip

def step (fuel : Nat) (c : Clocked) (op : Op) : Option Clocked :=
  (c.iface.step fuel op).map (c.note op)

/-- More fuel never changes a result. -/
theorem fuelMono : FuelMono Clocked.step :=
  NetworkInterface.fuelMono.record Clocked.iface Clocked.note

/-- A tick finds an address due for which a tick sent the last request. -/
def Repeats (c : Clocked) : Op → Prop
  | .tick ms => ∃ ip ∈ c.iface.due ms, c.byTick ip = true
  | _ => False

instance (c : Clocked) (op : Op) : Decidable (c.Repeats op) :=
  match op with
  | .tick ms => inferInstanceAs (Decidable (∃ ip ∈ c.iface.due ms, c.byTick ip = true))
  | .sendDatagram _ _ | .recvFrame _ | .dequeue => isFalse id

/-- How long nothing asks for `ip`. -/
def quiet (s : NetworkInterface) (ip : UInt32) : Nat :=
  match s.arpTable[ip]? with
  | some entry => entry.ttl
  | none => s.waitingArpResponseIpAddr[ip]?.getD 0

/-- What holds between the calls of a run. -/
structure Spaced (c : Clocked) : Prop where
  past : ∀ r ∈ c.requests, r.2 ≤ c.clock
  apart : ∀ (ip : UInt32) ttl, c.iface.waitingArpResponseIpAddr[ip]? = some ttl →
    c.iface.arpTable[ip]? = none
  wait : ∀ ip, (c.byTick ip = true ∧ ∃ ttl, c.iface.waitingArpResponseIpAddr[ip]? = some ttl) ∨
    ∀ r ∈ c.requests, r.1 = ip →
      r.2 + ARP_RESPONSE_DEFAULT_TTL ≤ c.clock + quiet c.iface ip
  spaced : c.requests.Pairwise fun r r' => r.1 = r'.1 → r.2 + ARP_RESPONSE_DEFAULT_TTL ≤ r'.2

/-- At first nothing is asked for. -/
theorem spaced_new (eth : EthernetAddress) (own : Address) : (new eth own).Spaced where
  past := by simp [new]
  apart := by simp [new, NetworkInterface.new]
  wait _ := .inr (by simp [new])
  spaced := by simp [new]

/-- What a call does about one address: it is quiet about it for long, or it does not
ask and is quiet as long as before, or it asks in a tick and keeps it pending. -/
def Settles (c : Clocked) (op : Op) (d : NetworkInterface) (ip : UInt32) : Prop :=
  ARP_RESPONSE_DEFAULT_TTL ≤ quiet d ip ∨
  (ip ∉ asked c.iface d ∧ quiet c.iface ip ≤ op.elapsed + quiet d ip ∧
    ((∃ ttl, c.iface.waitingArpResponseIpAddr[ip]? = some ttl) →
      ∃ ttl, d.waitingArpResponseIpAddr[ip]? = some ttl)) ∨
  (ip ∈ asked c.iface d ∧ op.isTick = true ∧ ∃ ttl, d.waitingArpResponseIpAddr[ip]? = some ttl)

/-- All requests lie in the past. -/
theorem note_past {c : Clocked} (hc : c.Spaced) (op : Op) (d : NetworkInterface) :
    ∀ r ∈ (c.note op d).requests, r.2 ≤ c.clock + op.elapsed := by
  intro r hr
  rcases List.mem_append.mp hr with hold | hnew
  · exact Nat.le_add_right_of_le (hc.past r hold)
  · obtain ⟨ip, -, rfl⟩ := List.mem_map.mp hnew
    exact Nat.le_refl _

/-- The requests for an address that was not asked for are the old ones. -/
theorem mem_note_requests {c : Clocked} {op : Op} {d : NetworkInterface}
    (hip : ip ∉ asked c.iface d) (hr : r ∈ (c.note op d).requests) (heq : r.1 = ip) :
    r ∈ c.requests := by
  rcases List.mem_append.mp hr with hold | hnew
  · exact hold
  · obtain ⟨j, hj, rfl⟩ := List.mem_map.mp hnew
    exact absurd (heq ▸ hj) hip

/-- **Each step** keeps the requests apart, if what it asks for is new or old enough. -/
theorem Spaced.note {c : Clocked} (hc : c.Spaced) {op : Op} {d : NetworkInterface}
    (hnodup : (asked c.iface d).Nodup)
    (hlong : ∀ ip ∈ asked c.iface d, ∀ r ∈ c.requests, r.1 = ip →
      r.2 + ARP_RESPONSE_DEFAULT_TTL ≤ c.clock + op.elapsed)
    (hapart : ∀ (ip : UInt32) ttl, d.waitingArpResponseIpAddr[ip]? = some ttl →
      d.arpTable[ip]? = none)
    (hsettles : ∀ ip, c.Settles op d ip) : (c.note op d).Spaced where
  past := note_past hc op d
  apart := hapart
  wait := by
    intro ip
    rcases hsettles ip with hquiet | ⟨hip, hquiet, hkept⟩ | ⟨hip, htick, hpending⟩
    · refine .inr fun r hr _ => ?_
      have hpast := note_past hc op d r hr
      exact Nat.add_le_add hpast hquiet
    · rcases hc.wait ip with ⟨htick, hpending⟩ | hwait
      · exact .inl ⟨(if_neg hip).trans htick, hkept hpending⟩
      · refine .inr fun r hr heq => ?_
        have hle := hwait r (mem_note_requests hip hr heq) heq
        show _ ≤ c.clock + op.elapsed + quiet d ip
        omega
    · exact .inl ⟨(if_pos hip).trans htick, hpending⟩
  spaced := by
    refine List.pairwise_append.mpr ⟨hc.spaced, ?_, ?_⟩
    · -- one call asks for an address once
      rw [List.pairwise_map]
      exact hnodup.imp fun hne heq => absurd heq hne
    · intro r hr r' hr' heq
      obtain ⟨ip, hip, rfl⟩ := List.mem_map.mp hr'
      exact hlong ip hip r hr heq

/-- A call that asks for nothing and leaves table and countdowns as they are. -/
theorem Spaced.note_same {c : Clocked} (hc : c.Spaced) {op : Op} {d : NetworkInterface}
    (hasked : asked c.iface d = []) (htable : d.arpTable = c.iface.arpTable)
    (hpending : d.waitingArpResponseIpAddr = c.iface.waitingArpResponseIpAddr) :
    (c.note op d).Spaced := by
  refine hc.note (by simp [hasked]) (by simp [hasked]) ?_ fun ip => ?_
  · rw [htable, hpending]
    exact hc.apart
  · refine .inr (.inl ⟨by simp [hasked], ?_, by rw [hpending]; exact id⟩)
    rw [quiet, quiet, htable, hpending]
    exact Nat.le_add_left _ _

/-- A call that changes what is known about one address only, and is then quiet about
it for long. -/
theorem Spaced.note_at {c : Clocked} (hc : c.Spaced) {op : Op} {d : NetworkInterface} (ip : UInt32)
    (hasked : asked c.iface d = [ip] ∧ quiet c.iface ip = 0 ∧
      c.iface.waitingArpResponseIpAddr[ip]? = none ∨ asked c.iface d = [])
    (htable : ∀ j, ip ≠ j → d.arpTable[j]? = c.iface.arpTable[j]?)
    (hpending : ∀ j, ip ≠ j →
      d.waitingArpResponseIpAddr[j]? = c.iface.waitingArpResponseIpAddr[j]?)
    (hapart : ∀ ttl, d.waitingArpResponseIpAddr[ip]? = some ttl → d.arpTable[ip]? = none)
    (hquiet : ARP_RESPONSE_DEFAULT_TTL ≤ quiet d ip) : (c.note op d).Spaced := by
  have hsub : ∀ j ∈ asked c.iface d, j = ip := by
    rcases hasked with ⟨hasked, -⟩ | hasked <;> simp [hasked]
  refine hc.note ?_ ?_ ?_ ?_
  · rcases hasked with ⟨hasked, -⟩ | hasked <;> simp [hasked]
  · intro j hj r hr heq
    rcases hasked with ⟨-, hzero, hnone⟩ | hasked
    · obtain rfl := hsub j hj
      rcases hc.wait j with ⟨-, ttl, httl⟩ | hwait
      · rw [hnone] at httl
        contradiction
      · have hle := hwait r hr heq
        omega
    · simp [hasked] at hj
  · intro j ttl httl
    by_cases hj : ip = j
    · exact hj ▸ hapart ttl (hj ▸ httl)
    · rw [htable j hj]
      exact hc.apart j ttl (hpending j hj ▸ httl)
  · intro j
    by_cases hj : ip = j
    · exact .inl (hj ▸ hquiet)
    · refine .inr (.inl ⟨fun hmem => hj (hsub j hmem).symm, ?_, by rw [hpending j hj]; exact id⟩)
      rw [quiet, quiet, htable j hj, hpending j hj]
      exact Nat.le_add_left _ _

/-- About what is not due, a tick leaves the rest of the countdown. -/
theorem quiet_le_pass {s : NetworkInterface}
    (hpending : ∀ ip : UInt32, pending[ip]? = s.waitingArpResponseIpAddr[ip]?.map (nextTtl ms))
    (hip : ip ∉ s.due ms) : quiet s ip ≤ ms + quiet (s.pass ms pending) ip := by
  have hnot : ∀ ttl, s.waitingArpResponseIpAddr[ip]? = some ttl → ms < ttl :=
    fun ttl httl => Nat.lt_of_not_le fun hle => hip (mem_due.mpr ⟨ttl, httl, hle⟩)
  simp only [quiet, NetworkInterface.pass, getElem?_age, hpending]
  cases hentry : s.arpTable[ip]? with
  | some entry =>
      by_cases hle : entry.ttl ≤ ms
      · simp [hle]
        omega
      · simp [hle]
        omega
  | none =>
      cases httl : s.waitingArpResponseIpAddr[ip]? with
      | none => simp
      | some ttl =>
          have hlt := hnot ttl httl
          simp [nextTtl, Nat.not_le.mpr hlt]
          omega

/-- A tick asks for what is due, and that is all right for what `send_datagram` has asked
for. -/
theorem Spaced.note_pass {c : Clocked} (hc : c.Spaced) (hop : ¬ c.Repeats (.tick ms))
    (hasked : asked c.iface (c.iface.pass ms pending) = c.iface.due ms)
    (hpending : ∀ ip : UInt32,
      pending[ip]? = c.iface.waitingArpResponseIpAddr[ip]?.map (nextTtl ms)) :
    (c.note (.tick ms) (c.iface.pass ms pending)).Spaced := by
  refine hc.note ?_ ?_ ?_ ?_
  · rw [hasked]
    exact nodup_due c.iface ms
  · intro ip hip r hr heq
    rw [hasked] at hip
    obtain ⟨ttl, httl, hle⟩ := mem_due.mp hip
    have hquiet : quiet c.iface ip = ttl := by
      simp [quiet, hc.apart ip ttl httl, httl]
    rcases hc.wait ip with ⟨htick, -⟩ | hwait
    · exact absurd ⟨ip, hip, htick⟩ hop
    · have hr' := hwait r hr heq
      show _ ≤ c.clock + ms
      omega
  · intro ip ttl httl
    obtain ⟨old, hold, -⟩ := Option.map_eq_some_iff.mp ((hpending ip).symm.trans httl)
    simp [NetworkInterface.pass, getElem?_age, hc.apart ip old hold]
  · intro ip
    have hkept : (∃ ttl, c.iface.waitingArpResponseIpAddr[ip]? = some ttl) →
        ∃ ttl, pending[ip]? = some ttl := by
      rintro ⟨ttl, httl⟩
      exact ⟨_, by rw [hpending, httl]; rfl⟩
    by_cases hip : ip ∈ c.iface.due ms
    · obtain ⟨ttl, httl, -⟩ := mem_due.mp hip
      exact .inr (.inr ⟨hasked.symm ▸ hip, rfl, hkept ⟨ttl, httl⟩⟩)
    · exact .inr (.inl ⟨hasked.symm ▸ hip, quiet_le_pass hpending hip, hkept⟩)

/-- **Each call** that does not repeat a tick's request keeps the requests apart. -/
theorem Spaced.of_step {c c' : Clocked} {op : Op} (hc : c.Spaced) (hop : ¬ c.Repeats op)
    (h : c.step fuel op = some c') : c'.Spaced := by
  obtain ⟨d, hd, rfl⟩ := Option.map_eq_some_iff.mp h
  have hchange := step_change hd
  have hasked := hchange.asked_eq
  cases hchange with
  | forward dgram nextHop entry frame hentry hcarries =>
      exact hc.note_same (by simpa [hentry] using hasked) rfl rfl
  | hold dgram nextHop ttl hentry hpending =>
      exact hc.note_same (by simpa [hpending] using hasked) rfl rfl
  | ask dgram nextHop hentry hpending =>
      simp only [hentry, hpending, and_self, ↓reduceIte] at hasked
      refine hc.note_at nextHop.ipv4Numeric (.inl ⟨hasked, ?_, hpending⟩) (fun _ _ => rfl) ?_
        (fun _ _ => hentry) ?_
      · simp [quiet, hentry, hpending]
      · intro j hj
        exact (getElem?_await _ _ _).trans (if_neg hj)
      · simp [quiet, keep, await, push, hentry]
  | ignore frame hnot => exact hc.note_same hasked rfl rfl
  | learn frame arpMsg frames haccepts hframes =>
      refine hc.note_at arpMsg.senderIpAddress (.inr hasked) ?_ ?_ ?_ ?_
      · intro j hj
        rw [getElem?_learn_arpTable, if_neg hj]
      · intro j hj
        rw [getElem?_learn_pending, if_neg hj]
      · simp [NetworkInterface.learn]
      · simp [quiet, NetworkInterface.learn, ARP_RESPONSE_DEFAULT_TTL, ARP_ENTRY_DEFAULT_TTL]
  | pass ms pending hpending => exact hc.note_pass hop hasked hpending
  | dequeue => exact hc.note_same hasked rfl rfl

/-- **Requests for an address are at least 5000 milliseconds apart** in every run in
which no tick repeats a request that was sent by a tick. -/
theorem requests_spaced {eth : EthernetAddress} {own : Address}
    (h : exec (step fuel) (new eth own) ops = some c)
    (hruns : Along (step fuel) (fun c op => ¬ c.Repeats op) (new eth own) ops) :
    c.requests.Pairwise fun r r' => r.1 = r'.1 → r.2 + 5000 ≤ r'.2 := by
  have hc : c.Spaced := exec_invariant_along (fun _ _ _ => Spaced.of_step) (spaced_new eth own)
    hruns h
  exact hc.spaced

/-- A request, and the same again after two ticks of four seconds. -/
theorem requests_spaced_twice :
    ∃ c, exec (step 9) (new (.replicate 6 1) ⟨1, 0⟩)
        [.sendDatagram {} ⟨2, 0⟩, .tick 4000, .tick 4000] = some c ∧
      c.requests = [(2, 0), (2, 8000)] ∧
      c.requests.Pairwise fun r r' => r.1 = r'.1 → r.2 + 5000 ≤ r'.2 := by
  have hrun : (exec (step 9) (new (.replicate 6 1) ⟨1, 0⟩)
      [.sendDatagram {} ⟨2, 0⟩, .tick 4000, .tick 4000]).map Clocked.requests =
        some [(2, 0), (2, 8000)] := by
    decide +kernel
  obtain ⟨c, hc, hrequests⟩ := Option.map_eq_some_iff.mp hrun
  exact ⟨c, hc, hrequests, requests_spaced hc (by decide +kernel)⟩

/-- One second later the request is sent a third time. -/
theorem requests_early :
    ∃ c, exec (step 9) (new (.replicate 6 1) ⟨1, 0⟩)
        [.sendDatagram {} ⟨2, 0⟩, .tick 4000, .tick 4000, .tick 1000] = some c ∧
      c.requests = [(2, 0), (2, 8000), (2, 9000)] ∧
      ¬ c.requests.Pairwise fun r r' => r.1 = r'.1 → r.2 + 5000 ≤ r'.2 := by
  have hrun : (exec (step 9) (new (.replicate 6 1) ⟨1, 0⟩)
      [.sendDatagram {} ⟨2, 0⟩, .tick 4000, .tick 4000, .tick 1000]).map Clocked.requests =
        some [(2, 0), (2, 8000), (2, 9000)] := by
    decide +kernel
  obtain ⟨c, hc, hrequests⟩ := Option.map_eq_some_iff.mp hrun
  exact ⟨c, hc, hrequests, by rw [hrequests]; decide⟩

end Clocked

end NetworkInterface

end Sponge
