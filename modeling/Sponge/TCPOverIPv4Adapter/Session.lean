import Sponge.IPv4Datagram.Roundtrip
import Sponge.TCPOverIPv4Adapter
import Sponge.TCPSegment.Roundtrip

/-!
# Sponge.TCPOverIPv4Adapter.Session

The adapter keeps to one session: whatever datagrams arrive, the segments it
hands on all have the addresses and ports of its configuration, which a
listening adapter takes from the first segment it hands on (`Isolated`).  And
it hands on what its peer sends.

What the adapter makes of one datagram is said once for each of its two modes
(`unwrapTcpInIp_connected`, `unwrapTcpInIp_listening`).
-/

namespace Sponge

/-- The addresses and ports of one direction of a connection. -/
structure Flow where
  src : UInt32
  sport : Nat
  dst : UInt32
  dport : Nat
  deriving DecidableEq, Repr

/-- The flow of a datagram; the ports are the first two fields of its payload. -/
def IPv4Datagram.flow (d : IPv4Datagram) : Flow where
  src := d.header.src
  sport := beField d.payload.concatenate 0 2
  dst := d.header.dst
  dport := beField d.payload.concatenate 2 2

/-- The flow an adapter expects from its peer. -/
def FdAdapterConfig.flow (cfg : FdAdapterConfig) : Flow where
  src := cfg.destination.ip
  sport := cfg.destination.port.toNat
  dst := cfg.source.ip
  dport := cfg.source.port.toNat

namespace TCPOverIPv4Adapter

/-! ## One datagram -/

section
variable {a : TCPOverIPv4Adapter} {d : IPv4Datagram}

/-- A connected adapter hands on what is of its flow. -/
theorem unwrapTcpInIp_connected (ha : a.listen = false) (r : Resolver)
    (hd : d.payload.length ≤ 1)
    (hparse : TCPSegment.parse {} d.payload.concatenate d.header.pseudoCksum = .ok (res, seg)) :
    a.unwrapTcpInIp r d = .ok (
      if d.header.dst = a.cfg.source.ip ∧ d.header.src = a.cfg.destination.ip ∧
          d.header.proto = IPv4Header.PROTO_TCP ∧ res = .NoError ∧
          seg.header.dport = a.cfg.source.port ∧ seg.header.sport = a.cfg.destination.port
        then some seg else none, a) := by
  unfold unwrapTcpInIp
  simp only [BufferList.toBuffer_eq hd, ok_bind, hparse, ha, Address.ipv4Numeric]
  by_cases hdst : d.header.dst = a.cfg.source.ip
  case neg => simp [hdst]
  by_cases hsrc : d.header.src = a.cfg.destination.ip
  case neg => simp [hsrc]
  by_cases hproto : d.header.proto = IPv4Header.PROTO_TCP
  case neg => simp [hdst, hsrc, hproto]
  by_cases hres : res = .NoError
  case neg => simp [hdst, hsrc, hproto, hres]
  by_cases hdport : seg.header.dport = a.cfg.source.port
  case neg => simp [hdst, hsrc, hproto, hres, hdport]
  by_cases hsport : seg.header.sport = a.cfg.destination.port
  case neg => simp [hdst, hsrc, hproto, hres, hdport, hsport]
  simp [hdst, hsrc, hproto, hres, hdport, hsport]

/-- A listening adapter hands on a SYN, and is connected to its sender then. -/
theorem unwrapTcpInIp_listening (ha : a.listen = true) (r : Resolver)
    (hd : d.payload.length ≤ 1)
    (hparse : TCPSegment.parse {} d.payload.concatenate d.header.pseudoCksum = .ok (res, seg)) :
    a.unwrapTcpInIp r d = .ok (
      if d.header.proto = IPv4Header.PROTO_TCP ∧ res = .NoError ∧
          seg.header.dport = a.cfg.source.port ∧ seg.header.syn = true ∧ seg.header.rst = false
        then (some seg,
          ⟨⟨⟨d.header.dst, a.cfg.source.port⟩, ⟨d.header.src, seg.header.sport⟩⟩, false⟩)
        else (none, a)) := by
  unfold unwrapTcpInIp
  simp only [BufferList.toBuffer_eq hd, ok_bind, hparse, ha, r.getaddrinfo_inetNtoa]
  by_cases hproto : d.header.proto = IPv4Header.PROTO_TCP
  case neg => simp [hproto]
  by_cases hres : res = .NoError
  case neg => simp [hproto, hres]
  by_cases hdport : seg.header.dport = a.cfg.source.port
  case neg => simp [hproto, hres, hdport]
  by_cases hsyn : seg.header.syn = true ∧ seg.header.rst = false
  case neg => simp [hproto, hres, hdport, hsyn]
  simp [hproto, hres, hdport, hsyn]

end

/-- A segment that is handed on, with the flow of its datagram. -/
structure HandsOn (d : IPv4Datagram) (seg : TCPSegment) (flow : Flow) : Prop where
  dgram : d.flow = flow
  sport : seg.header.sport.toNat = flow.sport
  dport : seg.header.dport.toNat = flow.dport

/-- A segment that was parsed is of the flow of its datagram. -/
theorem HandsOn.of_at {d : IPv4Datagram} {seg : TCPSegment}
    (h : seg.header.At d.payload.concatenate) : HandsOn d seg d.flow :=
  ⟨rfl, h.sport, h.dport⟩

/-- The adapter drops a datagram and stays as it is, or hands on a segment of the flow
it then expects. -/
theorem unwrapTcpInIp_cases (a : TCPOverIPv4Adapter) (r : Resolver) {d : IPv4Datagram}
    (hd : d.payload.length ≤ 1) :
    a.unwrapTcpInIp r d = .ok (none, a) ∨
    ∃ seg a', a.unwrapTcpInIp r d = .ok (some seg, a') ∧ HandsOn d seg a'.cfg.flow ∧
      a'.listen = false ∧ (a.listen = false → a' = a) ∧
      (a.listen = true → seg.header.syn = true ∧ seg.header.rst = false) := by
  obtain ⟨res, seg, hparse, hat⟩ :=
    TCPSegment.parse_spec {} d.payload.concatenate d.header.pseudoCksum
  cases ha : a.listen with
  | false =>
      rw [unwrapTcpInIp_connected ha r hd hparse]
      split
      · next hall =>
          obtain ⟨hdst, hsrc, -, hres, hdport, hsport⟩ := hall
          have hflow : a.cfg.flow = d.flow := by
            rw [IPv4Datagram.flow, ← (hat hres).sport, ← (hat hres).dport, hdst, hsrc, hdport,
              hsport]
            rfl
          refine .inr ⟨seg, a, rfl, ?_, ha, fun _ => rfl, nofun⟩
          rw [hflow]
          exact .of_at (hat hres)
      · exact .inl rfl
  | true =>
      rw [unwrapTcpInIp_listening ha r hd hparse]
      split
      · next hall =>
          obtain ⟨-, hres, hdport, hsyn⟩ := hall
          refine .inr ⟨seg, _, rfl, ?_, rfl, nofun, fun _ => hsyn⟩
          rw [FdAdapterConfig.flow, ← hdport, (hat hres).sport, (hat hres).dport]
          exact .of_at (hat hres)
      · exact .inl rfl

/-! ## Any sequence of datagrams -/

/-- A datagram that arrived, with what was returned and the adapter before and after. -/
structure Event where
  dgram : IPv4Datagram
  before : TCPOverIPv4Adapter
  result : Option TCPSegment
  after : TCPOverIPv4Adapter

/-- The adapter is given datagrams one after the other. -/
def receive (r : Resolver) : TCPOverIPv4Adapter → List IPv4Datagram → Except Exception (List Event)
  | _, [] => .ok []
  | a, d :: ds => do
      let (result, a') ← a.unwrapTcpInIp r d
      let es ← receive r a' ds
      return ⟨d, a, result, a'⟩ :: es

/-- An adapter that was `a` at first kept to one flow. -/
structure Isolated (a : TCPOverIPv4Adapter) (flow : Flow) (es : List Event) : Prop where
  /-- all segments come from datagrams of the flow -/
  same : ∀ e ∈ es, ∀ seg, e.result = some seg → HandsOn e.dgram seg flow
  /-- the flow is that of the configuration from the first segment on -/
  config : ∀ pre e post, es = pre ++ e :: post → (∃ f ∈ pre ++ [e], f.result ≠ none) →
    e.after.cfg.flow = flow
  /-- the first segment opens the connection if the adapter was listening -/
  opening : a.listen = true → ∀ pre e post seg, es = pre ++ e :: post →
    (∀ f ∈ pre, f.result = none) → e.result = some seg →
      seg.header.syn = true ∧ seg.header.rst = false
  /-- what yields no segment changes nothing -/
  dropped : ∀ e ∈ es, e.result = none → e.after = e.before

/-- A connected adapter never changes. -/
theorem receive_connected {a : TCPOverIPv4Adapter} (ha : a.listen = false) (r : Resolver)
    {ds : List IPv4Datagram} (hds : ∀ d ∈ ds, d.payload.length ≤ 1) :
    ∃ es, receive r a ds = .ok es ∧ es.map Event.dgram = ds ∧
      ∀ e ∈ es, e.before = a ∧ e.after = a ∧
        ∀ seg, e.result = some seg → HandsOn e.dgram seg a.cfg.flow := by
  induction ds with
  | nil => exact ⟨[], rfl, rfl, by simp⟩
  | cons d ds ih =>
      obtain ⟨hd, hds⟩ := List.forall_mem_cons.mp hds
      obtain ⟨es, hes, hmap, hall⟩ := ih hds
      rcases unwrapTcpInIp_cases a r hd with hnone | ⟨seg, a', hsome, hands, -, hsame, -⟩
      · refine ⟨⟨d, a, none, a⟩ :: es, ?_, by simp [hmap], ?_⟩
        · simp [receive, hnone, hes]
        · exact List.forall_mem_cons.mpr ⟨⟨rfl, rfl, by simp⟩, hall⟩
      · obtain rfl := hsame ha
        refine ⟨⟨d, a', some seg, a'⟩ :: es, ?_, by simp [hmap], ?_⟩
        · simp [receive, hsome, hes]
        · refine List.forall_mem_cons.mpr ⟨⟨rfl, rfl, ?_⟩, hall⟩
          rintro _ ⟨⟩
          exact hands

/-- A datagram that is dropped before. -/
theorem Isolated.cons_dropped {a : TCPOverIPv4Adapter} (h : Isolated a flow es)
    (d : IPv4Datagram) : Isolated a flow (⟨d, a, none, a⟩ :: es) where
  same := List.forall_mem_cons.mpr ⟨by simp, h.same⟩
  config := by
    rintro (_ | ⟨e₀, pre⟩) e post heq hf
    · obtain ⟨rfl, rfl⟩ := List.cons.inj heq
      simp at hf
    · obtain ⟨rfl, rfl⟩ := List.cons.inj heq
      exact h.config pre e post rfl (by simpa using hf)
  opening := by
    rintro ha (_ | ⟨e₀, pre⟩) e post seg heq hpre hres
    · obtain ⟨rfl, rfl⟩ := List.cons.inj heq
      simp at hres
    · obtain ⟨rfl, rfl⟩ := List.cons.inj heq
      exact h.opening ha pre e post seg rfl (fun f hf => hpre f (.tail _ hf)) hres
  dropped := List.forall_mem_cons.mpr ⟨fun _ => rfl, h.dropped⟩

/-- The first segment that is handed on, and what a connected adapter does then. -/
theorem isolated_cons_first {a a' : TCPOverIPv4Adapter} (hands : HandsOn d seg a'.cfg.flow)
    (hsyn : a.listen = true → seg.header.syn = true ∧ seg.header.rst = false)
    (hall : ∀ e ∈ es, e.before = a' ∧ e.after = a' ∧
      ∀ seg, e.result = some seg → HandsOn e.dgram seg a'.cfg.flow) :
    Isolated a a'.cfg.flow (⟨d, a, some seg, a'⟩ :: es) where
  same := List.forall_mem_cons.mpr
    ⟨fun _ hseg => Option.some.inj hseg ▸ hands, fun e he => (hall e he).2.2⟩
  config := by
    rintro (_ | ⟨e₀, pre⟩) e post heq -
    · obtain ⟨rfl, rfl⟩ := List.cons.inj heq
      rfl
    · obtain ⟨rfl, rfl⟩ := List.cons.inj heq
      rw [(hall e (by simp)).2.1]
  opening := by
    rintro ha (_ | ⟨e₀, pre⟩) e post seg' heq hpre hres
    · obtain ⟨rfl, rfl⟩ := List.cons.inj heq
      exact Option.some.inj hres ▸ hsyn ha
    · obtain ⟨rfl, rfl⟩ := List.cons.inj heq
      simp at hpre
  dropped := List.forall_mem_cons.mpr
    ⟨by simp, fun e he _ => by rw [(hall e he).1, (hall e he).2.1]⟩

/-- **Every list** of datagrams is of one flow, as far as it is handed on. -/
theorem receive_isolated (a : TCPOverIPv4Adapter) (r : Resolver) {ds : List IPv4Datagram}
    (hds : ∀ d ∈ ds, d.payload.length ≤ 1) :
    ∃ flow es, receive r a ds = .ok es ∧ es.map Event.dgram = ds ∧ Isolated a flow es := by
  induction ds with
  | nil => exact ⟨a.cfg.flow, [], rfl, rfl, by simp, by simp, by simp, by simp⟩
  | cons d ds ih =>
      obtain ⟨hd, hds⟩ := List.forall_mem_cons.mp hds
      rcases unwrapTcpInIp_cases a r hd with hnone | ⟨seg, a', hsome, hands, ha', -, hsyn⟩
      · obtain ⟨flow, es, hes, hmap, hiso⟩ := ih hds
        exact ⟨flow, _ :: es, by simp [receive, hnone, hes], by simp [hmap], hiso.cons_dropped d⟩
      · -- from here on the adapter is connected
        obtain ⟨es, hes, hmap, hall⟩ := receive_connected ha' r hds
        exact ⟨a'.cfg.flow, _ :: es, by simp [receive, hsome, hes], by simp [hmap],
          isolated_cons_first hands hsyn hall⟩

/-! ## What the peer sends -/

/-- The segment with the ports of the adapter. -/
def addressed (a : TCPOverIPv4Adapter) (s : TCPSegment) : TCPSegment :=
  { s with header := { s.header with
    sport := a.cfg.source.port, dport := a.cfg.destination.port } }

/-- The header of the datagram that carries `s`. -/
def headerFor (a : TCPOverIPv4Adapter) (s : TCPSegment) : IPv4Header where
  src := a.cfg.source.ip
  dst := a.cfg.destination.ip
  len := UInt16.ofNat (20 + s.header.doff.toNat * 4 + s.payload.length)

/-- The segment as it travels. -/
def sent (a : TCPOverIPv4Adapter) (s : TCPSegment) : TCPSegment :=
  (a.addressed s).checksummed (a.headerFor s).pseudoCksum

/-- The datagram it travels in. -/
def wrapped (a : TCPOverIPv4Adapter) (s : TCPSegment) : IPv4Datagram where
  header := a.headerFor s
  payload := [(a.sent s).header.bytes, s.payload]

section
variable {s : TCPSegment} (hs : s.header.Fits)
  (hsize : 20 + 4 * s.header.doff.toNat + s.payload.length ≤ 65535)
include hs hsize

/-- The ports do not matter for the format. -/
theorem addressed_fits (a : TCPOverIPv4Adapter) : (a.addressed s).Fits where
  header := ⟨hs.doff_ge, hs.doff_le⟩
  size := by
    show 4 * s.header.doff.toNat + s.payload.length ≤ 65535
    omega

/-- What the adapter makes of a segment. -/
theorem wrapTcpInIp_eq (a : TCPOverIPv4Adapter) :
    a.wrapTcpInIp s = .ok (a.wrapped s, a.addressed s) := by
  have hserialize := (addressed_fits hs hsize a).serialize_eq (a.headerFor s).pseudoCksum
  show ((a.addressed s).serialize (a.headerFor s).pseudoCksum >>= fun payload =>
    Except.ok (({ header := a.headerFor s, payload := payload } : IPv4Datagram), a.addressed s)) = _
  rw [hserialize]
  rfl

/-- The datagram fits its format. -/
theorem wrapped_fits (a : TCPOverIPv4Adapter) : (a.wrapped s).Fits where
  header := ⟨rfl, (by decide : 5 ≤ 5), (by decide : 5 ≤ 15), (by decide : 0 < 2 ^ 13)⟩
  len := by
    have hbytes : (a.sent s).header.bytes.length = 4 * s.header.doff.toNat :=
      ((addressed_fits hs hsize a).header.with_cksum _).length_bytes
    have hlen : (a.headerFor s).len.toNat = 20 + s.header.doff.toNat * 4 + s.payload.length := by
      rw [headerFor, UInt16.toNat_ofNat']
      exact Nat.mod_eq_of_lt (by omega)
    have hpay : (a.wrapped s).payload.size = 4 * s.header.doff.toNat + s.payload.length := by
      simp [wrapped, BufferList.size, hbytes]
    show (a.headerFor s).len.toNat = 4 * 5 + _
    omega

/-- The peer of `a` hands on what `a` wraps. -/
theorem unwrapTcpInIp_received (a : TCPOverIPv4Adapter) {b : TCPOverIPv4Adapter}
    (hlisten : b.listen = false) (hsource : b.cfg.source = a.cfg.destination)
    (hdestination : b.cfg.destination = a.cfg.source) (r : Resolver) :
    b.unwrapTcpInIp r (a.wrapped s).received = .ok (some (a.sent s), b) := by
  have hpay : (a.wrapped s).received.payload.concatenate =
      (a.sent s).header.bytes ++ s.payload := by
    simp [IPv4Datagram.received, wrapped, BufferList.concatenate]
  have hparse : TCPSegment.parse {} (a.wrapped s).received.payload.concatenate
      (a.wrapped s).received.header.pseudoCksum = .ok (.NoError, a.sent s) := by
    rw [hpay, IPv4Datagram.received, IPv4Header.pseudoCksum_checksummed]
    exact (addressed_fits hs hsize a).parse_wire (a.headerFor s).pseudoCksum_le {}
  have hone : (a.wrapped s).received.payload.length ≤ 1 := Nat.le_refl 1
  rw [unwrapTcpInIp_connected hlisten r hone hparse, if_pos]
  rw [hsource, hdestination]
  exact ⟨rfl, rfl, rfl, rfl, rfl, rfl⟩

end

/-- **Session isolation**: whatever datagrams arrive, an adapter keeps to one flow; and
what its peer wraps reaches it with the same payload and the same header up to
the checksum. -/
theorem session_isolated (r : Resolver) :
    (∀ (a : TCPOverIPv4Adapter) (ds : List IPv4Datagram), (∀ d ∈ ds, d.payload.length ≤ 1) →
      ∃ flow es, receive r a ds = .ok es ∧ es.map Event.dgram = ds ∧ Isolated a flow es) ∧
    ∀ (a b : TCPOverIPv4Adapter) (s : TCPSegment), b.listen = false →
      b.cfg.source = a.cfg.destination → b.cfg.destination = a.cfg.source →
      5 ≤ s.header.doff.toNat → s.header.doff.toNat ≤ 15 →
      20 + 4 * s.header.doff.toNat + s.payload.length ≤ 65535 →
      ∃ d s' out, a.wrapTcpInIp s = .ok (d, s') ∧
        s' = { s with header := { s.header with
          sport := a.cfg.source.port, dport := a.cfg.destination.port } } ∧
        d.serialize = .ok out ∧
        ∀ self : IPv4Datagram, ∃ d' seg, self.parse out.concatenate = .ok (.NoError, d') ∧
          b.unwrapTcpInIp r d' = .ok (some seg, b) ∧ seg.payload = s'.payload ∧
          { seg.header with cksum := s'.header.cksum } = s'.header := by
  refine ⟨fun a ds hds => receive_isolated a r hds, ?_⟩
  intro a b s hlisten hsource hdestination hge hle hsize
  have hs : s.header.Fits := ⟨hge, hle⟩
  have hd := wrapped_fits hs hsize a
  refine ⟨_, _, _, wrapTcpInIp_eq hs hsize a, rfl, hd.serialize_eq, fun self => ?_⟩
  exact ⟨_, _, hd.parse_wire self,
    unwrapTcpInIp_received hs hsize a hlisten hsource hdestination r, rfl, rfl⟩

/-- An adapter that listens at port 80. -/
def listener : TCPOverIPv4Adapter := ⟨⟨⟨0, 80⟩, ⟨0, 0⟩⟩, true⟩

/-- The client at `ip`, of the server at 2. -/
def clientAt (ip : UInt32) : TCPOverIPv4Adapter := ⟨⟨⟨ip, 1000⟩, ⟨2, 80⟩⟩, false⟩

def synSegment : TCPSegment := ⟨{ syn := true }, []⟩

/-- What a listening adapter drops, the SYN that it takes, and the SYN of another client. -/
def arrivals : List IPv4Datagram :=
  [((clientAt 3).wrapped ⟨{}, []⟩).received, ((clientAt 1).wrapped synSegment).received,
    ((clientAt 3).wrapped synSegment).received]

/-- Of what arrives at a listening adapter, it hands on the SYN alone, and so does the peer of
the client that has sent it. -/
theorem session_isolated_syn :
    (∃ es, receive .bytewise listener arrivals = .ok es ∧
      es.map (·.result.isSome) = [false, true, false] ∧
      ∃ flow, Isolated listener flow es) ∧
    ∃ out seg, ((clientAt 1).wrapped synSegment).serialize = .ok out ∧
      IPv4Datagram.parse {} out.concatenate =
        .ok (.NoError, ((clientAt 1).wrapped synSegment).received) ∧
      unwrapTcpInIp ⟨⟨⟨2, 80⟩, ⟨1, 1000⟩⟩, false⟩ .bytewise
        ((clientAt 1).wrapped synSegment).received =
          .ok (some seg, ⟨⟨⟨2, 80⟩, ⟨1, 1000⟩⟩, false⟩) := by
  obtain ⟨hsession, hpeer⟩ := session_isolated .bytewise
  constructor
  · obtain ⟨flow, es, hes, -, hiso⟩ := hsession listener arrivals (by decide)
    have hresults : (receive .bytewise listener arrivals).map (·.map (·.result.isSome)) =
        .ok [false, true, false] := by
      decide +kernel
    rw [hes] at hresults
    exact ⟨es, hes, Except.ok.inj hresults, flow, hiso⟩
  · obtain ⟨d, s', out, hwrap, -, hout, hall⟩ := hpeer (clientAt 1)
      ⟨⟨⟨2, 80⟩, ⟨1, 1000⟩⟩, false⟩ synSegment rfl rfl rfl (by decide) (by decide) (by decide)
    obtain ⟨d', seg, hparse, hunwrap, -⟩ := hall {}
    have hs : synSegment.header.Fits := ⟨by decide, by decide⟩
    have hfits : ((clientAt 1).wrapped synSegment).Fits := wrapped_fits hs (by decide) _
    obtain ⟨rfl, -⟩ := Prod.mk.inj (Except.ok.inj
      (hwrap.symm.trans (wrapTcpInIp_eq hs (by decide) (clientAt 1))))
    obtain rfl := Except.ok.inj (hout.symm.trans hfits.serialize_eq)
    obtain ⟨-, rfl⟩ := Prod.mk.inj (Except.ok.inj (hparse.symm.trans (hfits.parse_wire {})))
    exact ⟨_, seg, hout, hparse, hunwrap⟩

end TCPOverIPv4Adapter

end Sponge
