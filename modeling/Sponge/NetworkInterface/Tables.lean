import Sponge.NetworkInterface.Requests

/-!
# Sponge.NetworkInterface.Tables

How the three containers of the interface hang together: a datagram waits only
for an address that has been asked for, an address is not both asked for and
known, and the countdowns are within their bounds (`Orderly`).

The countdowns also decide which ticks return.  The second loop of `tick` stays
at an entry until its countdown is above the time that has passed, and every
time it sets it back to 5000.  With a tick of less than 5000 milliseconds it
gets past the entry in the next turn; otherwise never (`tick_returns_iff`).
-/

namespace Sponge

namespace NetworkInterface

/-! ## Ticks that return -/

/-- A tick that returns and finds an address due is shorter than five seconds. -/
theorem requestLoop_lt {todo : List (UInt32 × Nat)} {self d : NetworkInterface}
    (h : Returns (requestLoop ms fuel todo self) d) (hp : p ∈ todo) (hdue : p.2 ≤ ms) :
    ms < ARP_RESPONSE_DEFAULT_TTL := by
  induction todo generalizing fuel self with
  | nil => simp at hp
  | cons q rest ih =>
      rcases List.mem_cons.mp hp with rfl | hrest
      · exact Nat.lt_of_not_le fun hms => requestLoop_stuck hms hdue h
      · obtain ⟨fuel', pending, h', -⟩ := requestLoop_cons h
        exact ih h' hrest

/-- The loop gets through if the tick is short, or nothing is due. -/
theorem exists_requestLoop_returns (todo : List (UInt32 × Nat)) (self : NetworkInterface)
    (h : ms < ARP_RESPONSE_DEFAULT_TTL ∨ ∀ p ∈ todo, ms < p.2) :
    ∃ fuel d, Returns (requestLoop ms fuel todo self) d := by
  induction todo generalizing self with
  | nil => exact ⟨1, self, returns_pure_iff.mpr rfl⟩
  | cons p rest ih =>
      obtain ⟨ip, ttl⟩ := p
      have hrest : ms < ARP_RESPONSE_DEFAULT_TTL ∨ ∀ p ∈ rest, ms < p.2 :=
        h.imp_right fun hall p hp => hall p (List.mem_cons_of_mem _ hp)
      by_cases hdue : ttl ≤ ms
      · -- one turn for the request, and one that moves on
        have hshort : ¬ ARP_RESPONSE_DEFAULT_TTL ≤ ms := by
          refine Nat.not_le.mpr (h.resolve_right fun hall => ?_)
          exact absurd hdue (Nat.not_le.mpr (hall _ List.mem_cons_self))
        obtain ⟨fuel, d, hd⟩ := ih { self.push (requestFrame self.ethernetAddress self.ipAddress ip)
          with waitingArpResponseIpAddr := (self.waitingArpResponseIpAddr.insert ip
            ARP_RESPONSE_DEFAULT_TTL).insert ip (ARP_RESPONSE_DEFAULT_TTL - ms) } hrest
        refine ⟨fuel + 2, d, ?_⟩
        rw [requestLoop, if_pos hdue, returns_bind_iff]
        refine ⟨_, returns_lift_iff.mpr (sendRequest_eq self ip), ?_⟩
        rw [requestLoop, if_neg hshort]
        exact hd
      · obtain ⟨fuel, d, hd⟩ := ih { self with
          waitingArpResponseIpAddr := self.waitingArpResponseIpAddr.insert ip (ttl - ms) } hrest
        refine ⟨fuel + 1, d, ?_⟩
        rw [requestLoop, if_neg hdue]
        exact hd

/-- A tick that returns is shorter than five seconds, or nothing is due. -/
theorem lt_of_tick_returns {s d : NetworkInterface} {ip : UInt32} (h : Returns (s.tick fuel ms) d)
    (hip : s.waitingArpResponseIpAddr[ip]? = some ttl) (hdue : ttl ≤ ms) :
    ms < ARP_RESPONSE_DEFAULT_TTL :=
  requestLoop_lt h (Std.TreeMap.mem_toList_iff_getElem?_eq_some.mpr hip) hdue

/-! ## The containers -/

/-- What holds of the containers between the calls. -/
structure Orderly (s : NetworkInterface) : Prop where
  awaited : ∀ p ∈ s.waitingArpInternetDatagrams,
    ∃ ttl, s.waitingArpResponseIpAddr[p.1.ipv4Numeric]? = some ttl
  apart : ∀ (ip : UInt32) ttl, s.waitingArpResponseIpAddr[ip]? = some ttl →
    s.arpTable[ip]? = none
  countdown : ∀ (ip : UInt32) ttl, s.waitingArpResponseIpAddr[ip]? = some ttl →
    1 ≤ ttl ∧ ttl ≤ ARP_RESPONSE_DEFAULT_TTL
  lifetime : ∀ (ip : UInt32) entry, s.arpTable[ip]? = some entry →
    1 ≤ entry.ttl ∧ entry.ttl ≤ ARP_ENTRY_DEFAULT_TTL

/-- At first all tables are empty. -/
theorem orderly_new (eth : EthernetAddress) (own : Address) : (new eth own).Orderly where
  awaited := by simp [new]
  apart := by simp [new]
  countdown := by simp [new]
  lifetime := by simp [new]

/-- A datagram may wait for an address that has been asked for. -/
theorem Orderly.keep {s : NetworkInterface} (hs : s.Orderly)
    (h : s.waitingArpResponseIpAddr[nextHop.ipv4Numeric]? = some ttl) :
    (s.keep nextHop dgram).Orderly where
  awaited := by
    intro p hp
    rcases List.mem_append.mp hp with hold | hnew
    · exact hs.awaited p hold
    · rw [List.mem_singleton.mp hnew]
      exact ⟨ttl, h⟩
  apart := hs.apart
  countdown := hs.countdown
  lifetime := hs.lifetime

/-- An address that is not known may be asked for. -/
theorem Orderly.await {s : NetworkInterface} {ip : UInt32} (hs : s.Orderly)
    (h : s.arpTable[ip]? = none) : (s.await ip).Orderly where
  awaited := by
    intro p hp
    obtain ⟨ttl, httl⟩ := hs.awaited p hp
    rw [getElem?_await]
    split
    · exact ⟨_, rfl⟩
    · exact ⟨ttl, httl⟩
  apart := by
    intro j ttl hj
    rw [getElem?_await] at hj
    split at hj
    · next hip => exact hip ▸ h
    · exact hs.apart j ttl hj
  countdown := by
    intro j ttl hj
    rw [getElem?_await] at hj
    split at hj
    · rw [← Option.some.inj hj]
      decide
    · exact hs.countdown j ttl hj
  lifetime := hs.lifetime

/-- What waits for an address leaves with its request. -/
theorem Orderly.learn {s : NetworkInterface} (hs : s.Orderly) (arpMsg : ARPMessage)
    (frames : List EthernetFrame) : (s.learn arpMsg frames).Orderly where
  awaited := by
    intro p hp
    obtain ⟨hp, hne⟩ := List.mem_filter.mp hp
    obtain ⟨ttl, httl⟩ := hs.awaited p hp
    rw [decide_eq_true_eq] at hne
    rw [getElem?_learn_pending, if_neg (Ne.symm hne)]
    exact ⟨ttl, httl⟩
  apart := by
    intro ip ttl h
    rw [getElem?_learn_pending] at h
    rw [getElem?_learn_arpTable]
    split at h
    · contradiction
    · next hip =>
        rw [if_neg hip]
        exact hs.apart ip ttl h
  countdown := by
    intro ip ttl h
    rw [getElem?_learn_pending] at h
    split at h
    · contradiction
    · exact hs.countdown ip ttl h
  lifetime := by
    intro ip entry h
    rw [getElem?_learn_arpTable] at h
    split at h
    · rw [← Option.some.inj h]
      simp [ARP_ENTRY_DEFAULT_TTL]
    · exact hs.lifetime ip entry h

/-- Time runs off the countdowns, and none gets to zero. -/
theorem Orderly.pass {s : NetworkInterface} (hs : s.Orderly)
    (hpending : ∀ ip : UInt32, pending[ip]? = s.waitingArpResponseIpAddr[ip]?.map (nextTtl ms))
    (hshort : ∀ (ip : UInt32) ttl, s.waitingArpResponseIpAddr[ip]? = some ttl → ttl ≤ ms →
      ms < ARP_RESPONSE_DEFAULT_TTL) : (s.pass ms pending).Orderly where
  awaited := by
    intro p hp
    obtain ⟨ttl, httl⟩ := hs.awaited p hp
    exact ⟨nextTtl ms ttl, (hpending _).trans (by rw [httl]; rfl)⟩
  apart := by
    intro ip ttl h
    obtain ⟨old, hold, -⟩ := Option.map_eq_some_iff.mp ((hpending ip).symm.trans h)
    simp [NetworkInterface.pass, getElem?_age, hs.apart ip old hold]
  countdown := by
    intro ip ttl h
    obtain ⟨old, hold, rfl⟩ := Option.map_eq_some_iff.mp ((hpending ip).symm.trans h)
    have hbound := hs.countdown ip old hold
    have hms := hshort ip old hold
    unfold nextTtl
    split <;> omega
  lifetime := by
    intro ip entry h
    simp only [NetworkInterface.pass, getElem?_age, Option.bind_eq_some_iff] at h
    obtain ⟨old, hold, hage⟩ := h
    have hbound := hs.lifetime ip old hold
    split at hage
    · contradiction
    · rw [Option.some.injEq] at hage
      subst hage
      simp only
      omega

/-- **Each call that returns** keeps the containers in order. -/
theorem Orderly.of_step {s d : NetworkInterface} {op : Op} (hs : s.Orderly)
    (h : s.step fuel op = some d) : d.Orderly := by
  cases step_change h with
  | forward | ignore | dequeue => exact ⟨hs.awaited, hs.apart, hs.countdown, hs.lifetime⟩
  | hold dgram nextHop ttl hentry hpending => exact hs.keep hpending
  | ask dgram nextHop hentry hpending =>
      have hs' : (s.push (requestFrame s.ethernetAddress s.ipAddress
        nextHop.ipv4Numeric)).Orderly := ⟨hs.awaited, hs.apart, hs.countdown, hs.lifetime⟩
      have hnow : ((s.push (requestFrame s.ethernetAddress s.ipAddress
          nextHop.ipv4Numeric)).await nextHop.ipv4Numeric).waitingArpResponseIpAddr[
            nextHop.ipv4Numeric]? = some ARP_RESPONSE_DEFAULT_TTL := by
        rw [getElem?_await, if_pos rfl]
      exact (hs'.await hentry).keep hnow
  | learn frame arpMsg frames haccepts hframes => exact hs.learn arpMsg frames
  | pass ms pending hpending =>
      simp only [step, result?_eq_some_iff] at h
      exact hs.pass hpending fun ip ttl => lt_of_tick_returns h

/-- **Every run** keeps the tables in order. -/
theorem exec_orderly {eth : EthernetAddress} {own : Address}
    (h : exec (step fuel) (new eth own) ops = some s) : s.Orderly :=
  exec_invariant (fun _ _ _ => Orderly.of_step) (orderly_new eth own) h

/-! ## The results -/

/-- **No datagram is stranded**: in every reachable state a datagram waits for an address
with a pending request, which the tick that takes its countdown repeats; no
address is both pending and known; and the countdowns are positive and at most
5000 and 30000. -/
theorem containers_agree {eth : EthernetAddress} {own : Address}
    (h : exec (step fuel) (new eth own) ops = some s) :
    (∀ p ∈ s.waitingArpInternetDatagrams,
      ∃ ttl, s.waitingArpResponseIpAddr[p.1.ipv4Numeric]? = some ttl ∧
        ∀ n ms d, s.step n (.tick ms) = some d → ttl ≤ ms → p.1.ipv4Numeric ∈ asked s d) ∧
      (∀ ip, ¬ (ip ∈ s.waitingArpResponseIpAddr ∧ ip ∈ s.arpTable)) ∧
      (∀ (ip : UInt32) ttl, s.waitingArpResponseIpAddr[ip]? = some ttl → 1 ≤ ttl ∧ ttl ≤ 5000) ∧
      ∀ (ip : UInt32) entry, s.arpTable[ip]? = some entry →
        1 ≤ entry.ttl ∧ entry.ttl ≤ 30000 := by
  have hs := exec_orderly h
  refine ⟨fun p hp => ?_, ?_, hs.countdown, hs.lifetime⟩
  · obtain ⟨ttl, httl⟩ := hs.awaited p hp
    refine ⟨ttl, httl, fun n ms d hd hle => ?_⟩
    rw [(step_change hd).asked_eq]
    exact mem_due.mpr ⟨ttl, httl, hle⟩
  · rintro ip ⟨hpending, hknown⟩
    rw [Std.TreeMap.mem_iff_isSome_getElem?, Option.isSome_iff_exists] at hpending hknown
    obtain ⟨ttl, httl⟩ := hpending
    obtain ⟨entry, hentry⟩ := hknown
    rw [hs.apart ip ttl httl] at hentry
    contradiction

/-- A datagram that consists of its header. -/
def bare : IPv4Datagram := { header := { len := 20 } }

theorem exists_serialize_bare : ∃ out, bare.serialize = .ok out := ⟨_, rfl⟩

/-- A second after a datagram was given for an address that is not known, the tick of four
seconds more asks for the address again. -/
theorem containers_agree_waiting :
    ∃ s d, exec (step 9) (new (.replicate 6 1) ⟨1, 0⟩)
        [.sendDatagram bare ⟨2, 0⟩, .tick 1000] = some s ∧
      (∃ out, bare.serialize = .ok out) ∧ s.waitingArpInternetDatagrams = [(⟨2, 0⟩, bare)] ∧
      s.waitingArpResponseIpAddr[(2 : UInt32)]? = some 4000 ∧
      s.step 9 (.tick 4000) = some d ∧ 2 ∈ asked s d ∧
      ∀ (ip : UInt32) ttl, s.waitingArpResponseIpAddr[ip]? = some ttl → 1 ≤ ttl ∧ ttl ≤ 5000 := by
  have hrun : (exec (step 9) (new (.replicate 6 1) ⟨1, 0⟩)
      [.sendDatagram bare ⟨2, 0⟩, .tick 1000]).map
        (fun s => (s.waitingArpInternetDatagrams, s.waitingArpResponseIpAddr[(2 : UInt32)]?,
          (s.step 9 (.tick 4000)).isSome)) =
      some ([(⟨2, 0⟩, bare)], some 4000, true) := by
    decide +kernel
  obtain ⟨s, hs, heq⟩ := Option.map_eq_some_iff.mp hrun
  simp only [Prod.mk.injEq] at heq
  obtain ⟨hwaiting, hpending, htick⟩ := heq
  obtain ⟨d, hd⟩ := Option.isSome_iff_exists.mp htick
  obtain ⟨hstranded, -, hcountdown, -⟩ := containers_agree hs
  obtain ⟨ttl, httl, hasked⟩ := hstranded (⟨2, 0⟩, bare) (by simp [hwaiting])
  have hdue : ttl ≤ 4000 := Nat.le_of_eq (Option.some.inj (httl.symm.trans hpending))
  exact ⟨s, d, hs, exists_serialize_bare, hwaiting, hpending, hd, hasked 9 4000 d hd hdue, hcountdown⟩

/-- **Which ticks return**, in a reachable state: all but those of five seconds or more
while a request is pending.  One that returns pushes nothing but requests, at
most one for each pending address and none for another. -/
theorem tick_returns_iff {eth : EthernetAddress} {own : Address}
    (h : exec (step fuel) (new eth own) ops = some s) (ms : Nat) :
    ((∃ n d, Returns (s.tick n ms) d) ↔
      ¬ (5000 ≤ ms ∧ ∃ (ip : UInt32) (ttl : Nat), s.waitingArpResponseIpAddr[ip]? = some ttl)) ∧
      ∀ n d, Returns (s.tick n ms) d →
        pushed s d = (asked s d).map (requestFrame s.ethernetAddress s.ipAddress) ∧
        (asked s d).Nodup ∧ ∀ ip ∈ asked s d, ip ∈ s.waitingArpResponseIpAddr := by
  have hs := exec_orderly h
  refine ⟨⟨?_, fun hno => ?_⟩, fun n d hd => ?_⟩
  · rintro ⟨n, d, hd⟩ ⟨hms, ip, ttl, httl⟩
    -- a countdown is at most 5000, so the address is due
    have hdue := Nat.le_trans (hs.countdown ip ttl httl).2 hms
    exact absurd hms (Nat.not_le.mpr (lt_of_tick_returns hd httl hdue))
  · refine exists_requestLoop_returns _ _ ?_
    rw [or_iff_not_imp_left, Nat.not_lt]
    rintro hms ⟨ip, ttl⟩ hp
    rw [Std.TreeMap.mem_toList_iff_getElem?_eq_some] at hp
    exact absurd ⟨hms, ip, ttl, hp⟩ hno
  · have hstep : s.step n (.tick ms) = some d := result?_eq_some_iff.mpr hd
    have hasked := (step_change hstep).asked_eq
    simp only at hasked
    refine ⟨?_, ?_, fun ip hip => ?_⟩
    · obtain ⟨pending, rfl, -⟩ := tick_returns hd
      rw [hasked, pushed_of_append rfl, due, List.map_map]
      rfl
    · rw [hasked]
      exact nodup_due s ms
    · rw [hasked, mem_due] at hip
      obtain ⟨ttl, httl, -⟩ := hip
      rw [Std.TreeMap.mem_iff_isSome_getElem?, httl]
      rfl

/-- Four seconds after a request, a tick of two repeats it and returns. -/
theorem tick_returns_iff_short :
    ∃ s, exec (step 9) (new (.replicate 6 1) ⟨1, 0⟩)
        [.sendDatagram bare ⟨2, 0⟩, .tick 4000] = some s ∧
      ∃ n d, Returns (s.tick n 2000) d := by
  have hrun : (exec (step 9) (new (.replicate 6 1) ⟨1, 0⟩)
      [.sendDatagram bare ⟨2, 0⟩, .tick 4000]).isSome = true := by
    decide +kernel
  obtain ⟨s, hs⟩ := Option.isSome_iff_exists.mp hrun
  exact ⟨s, hs, (tick_returns_iff hs 2000).1.mpr (by simp)⟩

/-- A tick of five seconds right after a request does not return. -/
theorem tick_hangs :
    ∃ s, exec (step 9) (new (.replicate 6 1) ⟨1, 0⟩) [.sendDatagram bare ⟨2, 0⟩] = some s ∧
      ∀ n d, ¬ Returns (s.tick n 5000) d := by
  have hrun : (exec (step 9) (new (.replicate 6 1) ⟨1, 0⟩) [.sendDatagram bare ⟨2, 0⟩]).map
      (fun s => s.waitingArpResponseIpAddr[(2 : UInt32)]?) = some (some 5000) := by
    decide +kernel
  obtain ⟨s, hs, hpending⟩ := Option.map_eq_some_iff.mp hrun
  exact ⟨s, hs, fun n d hd => absurd (lt_of_tick_returns hd hpending (Nat.le_refl _)) (by decide)⟩

end NetworkInterface

end Sponge
