import Sponge.Carrier.TunTap

/-!
# Sponge.Carrier.Udp

UDP carries segments (`TCPOverUDPSocketAdapter.law`), and what carries segments
carries them with random loss as well (`LossyFdAdapter.law`).
-/

namespace Sponge

/-! ## UDP -/

namespace UDPSocket

/-- What can happen to a UDP socket: there is a datagram, from wherever, receiving fails, or
a datagram is taken or not. -/
inductive Event where
  | datagram (source : Address) (payload : List UInt8)
  | recvFails (errno : Nat)
  | takes
  | sendFails (errno : Nat)
  deriving DecidableEq, Repr

def happen (sock : UDPSocket) : Event → UDPSocket
  | .datagram source payload =>
      { sock with recvs := sock.recvs ++ [fun _ => .ok (source, payload)] }
  | .recvFails errno => { sock with recvs := sock.recvs ++ [fun _ => .error errno] }
  | .takes => { sock with sends := sock.sends ++ [fun size => .ok size] }
  | .sendFails errno => { sock with sends := sock.sends ++ [fun _ => .error errno] }

/-- Only payloads that were sent arrive. -/
def allowed (sent : List (Address × List UInt8)) : Event → Bool
  | .datagram _ payload => (sent.map Prod.snd).contains payload
  | _ => true

end UDPSocket

/-- The payload is one of the segments, with some ports and its checksum. -/
def PayloadOf (segs : List TCPSegment) (payload : List UInt8) : Prop :=
  ∃ (a : TCPOverIPv4Adapter) (seg : TCPSegment), seg ∈ segs ∧ seg.Modest ∧
    payload = ((a.addressed seg).checksummed 0).header.bytes ++ seg.payload

/-- What carries one of some segments carries one of more. -/
theorem PayloadOf.mono (h : PayloadOf segs payload) (hsub : segs ⊆ segs') :
    PayloadOf segs' payload := by
  obtain ⟨a, seg, hseg, hrest⟩ := h
  exact ⟨a, seg, hsub hseg, hrest⟩

/-- What is parsed from such a payload. -/
theorem PayloadOf.parse (h : PayloadOf segs payload)
    (hparse : TCPSegment.parse {} payload 0 = .ok (result, x)) : ∃ w ∈ segs, x.Same w := by
  obtain ⟨a, seg, hseg, hm, rfl⟩ := h
  have hfits := TCPOverIPv4Adapter.addressed_fits hm.fits hm.size_le a
  have hwire : TCPSegment.parse {}
      (((a.addressed seg).checksummed 0).header.bytes ++ seg.payload) 0 =
        .ok (.NoError, (a.addressed seg).checksummed 0) :=
    hfits.parse_wire (Nat.zero_le _) {}
  rw [hwire, Except.ok.injEq, Prod.mk.injEq] at hparse
  exact ⟨seg, hseg, hparse.2 ▸ ⟨rfl, rfl⟩⟩

namespace TCPOverUDPSocketAdapter

def carrier : Carrier TCPOverUDPSocketAdapter (Address × List UInt8) UDPSocket.Event where
  packets self := self.sock.sent
  happen self e := { self with sock := self.sock.happen e }
  allowed := UDPSocket.allowed

/-- What the socket receives is of `W`, and what it has sent of `O`. -/
structure Sound (W O : List TCPSegment) (a : TCPOverUDPSocketAdapter) : Prop where
  brings : ∀ answer ∈ a.sock.recvs, ∀ n d, answer n = .ok d → PayloadOf W d.2
  out : ∀ d ∈ a.sock.sent, PayloadOf O d.2

/-- A socket on which nothing has arrived and nothing was sent. -/
theorem sound_new (cfg : FdAdapterConfig) (sends : List (Nat → Except Nat Nat)) :
    Sound W O { cfg := cfg, sock := { sends := sends } } :=
  ⟨by simp, by simp⟩

/-- What is read is a segment that the other side was given. -/
theorem Sound.read (hs : Sound W O self) (h : Returns (read self) (seg, self')) :
    Sound W O self' ∧ ∀ x, seg = some x → ∃ w ∈ W, x.Same w := by
  obtain ⟨⟨⟨source, payload⟩, sock⟩, hrecv, h⟩ := returns_bind_iff.mp h
  obtain ⟨⟨answer, ha, hanswer⟩, rfl⟩ := UDPSocket.recv_returns hrecv
  have hpayload : PayloadOf W payload := hs.brings answer ha _ _ hanswer
  have hbrings : ∀ answer ∈ self.sock.recvs.tail, ∀ n d, answer n = .ok d → PayloadOf W d.2 :=
    fun answer ha => hs.brings answer (List.mem_of_mem_tail ha)
  simp only at h
  split at h
  · rw [returns_pure_iff, Prod.mk.injEq] at h
    obtain ⟨rfl, rfl⟩ := h
    exact ⟨⟨hbrings, hs.out⟩, by simp⟩
  obtain ⟨⟨result, parsed⟩, hparse, h⟩ := returns_bind_iff.mp h
  rw [returns_ofExcept_iff] at hparse
  have hsame := hpayload.parse hparse
  simp only at h
  split at h
  · rw [returns_pure_iff, Prod.mk.injEq] at h
    obtain ⟨rfl, rfl⟩ := h
    exact ⟨⟨hbrings, hs.out⟩, by simp⟩
  split at h
  · split at h <;> rw [returns_pure_iff, Prod.mk.injEq] at h <;> obtain ⟨rfl, rfl⟩ := h
    · exact ⟨⟨hbrings, hs.out⟩, fun x hx => Option.some.inj hx ▸ hsame⟩
    · exact ⟨⟨hbrings, hs.out⟩, by simp⟩
  · rw [returns_pure_iff, Prod.mk.injEq] at h
    obtain ⟨rfl, rfl⟩ := h
    exact ⟨⟨hbrings, hs.out⟩, fun x hx => Option.some.inj hx ▸ hsame⟩

/-- What is written carries a segment that this side was given. -/
theorem Sound.write (hs : Sound W O self) (hseg : seg ∈ O) (hm : seg.Modest)
    (h : Returns (write self seg) self') : Sound W O self' := by
  obtain ⟨payload, hserialize, h⟩ := returns_bind_iff.mp h
  obtain ⟨sock, hsend, h⟩ := returns_bind_iff.mp h
  obtain rfl := UDPSocket.sendto_returns hsend
  rw [← returns_pure_iff.mp h]
  refine ⟨hs.brings, fun d hd => ?_⟩
  rcases List.mem_append.mp hd with hold | hnew
  · exact hs.out d hold
  · rw [List.mem_singleton.mp hnew]
    have hfits := TCPOverIPv4Adapter.addressed_fits hm.fits hm.size_le ⟨self.cfg, false⟩
    have heq := hfits.serialize_eq 0
    rw [returns_ofExcept_iff] at hserialize
    have hpayload := Except.ok.inj (hserialize.symm.trans heq)
    refine ⟨⟨self.cfg, false⟩, seg, hseg, hm, ?_⟩
    rw [hpayload]
    exact TCPSegment.concatenate_wire _ 0

/-- Only what the other side has sent can arrive. -/
theorem Sound.happen (hs : Sound W O self) (hp : ∀ d ∈ packets, PayloadOf W d.2)
    (hallowed : UDPSocket.allowed packets e = true) :
    Sound W O { self with sock := self.sock.happen e } := by
  have hrecvs : ∀ answer : Nat → Except Nat (Address × List UInt8),
      (∀ n d, answer n = .ok d → PayloadOf W d.2) →
      Sound W O { self with sock := { self.sock with recvs := self.sock.recvs ++ [answer] } } := by
    intro answer hanswer
    refine ⟨fun a ha => ?_, hs.out⟩
    rcases List.mem_append.mp ha with hold | hnew
    · exact hs.brings a hold
    · exact List.mem_singleton.mp hnew ▸ hanswer
  cases e with
  | datagram source payload =>
      refine hrecvs _ fun n d hd => ?_
      obtain ⟨p, hp', rfl⟩ := List.mem_map.mp (List.contains_iff_mem.mp hallowed)
      exact Except.ok.inj hd ▸ hp p hp'
  | recvFails errno => exact hrecvs _ nofun
  | takes => exact ⟨hs.brings, hs.out⟩
  | sendFails errno => exact ⟨hs.brings, hs.out⟩

/-- **UDP carries segments.** -/
def law : carrier.Law adapter where
  From segs d := PayloadOf segs d.2
  Sound := Sound
  sound_mono h hW hO := ⟨fun a ha n d hd => (h.brings a ha n d hd).mono hW,
    fun d hd => (h.out d hd).mono hO⟩
  packets h := h.out
  happen h hp ha := h.happen hp ha
  read := Sound.read
  write := Sound.write
  tick h ht := returns_pure_iff.mp ht ▸ h
  configure h _ := ⟨h.brings, h.out⟩
  setListening h _ := ⟨h.brings, h.out⟩

end TCPOverUDPSocketAdapter

/-! ## Random loss -/

namespace LossyFdAdapter

def carrier (C : Carrier α π ε) : Carrier (LossyFdAdapter α) π ε where
  packets self := C.packets self.adapter
  happen self e := { self with adapter := C.happen self.adapter e }
  allowed := C.allowed

/-- **Loss does no harm**: with it, a carrier still carries segments. -/
def law {C : Carrier α π ε} {A : FdAdapter α} (l : C.Law A) : (carrier C).Law (lossy A) where
  From := l.From
  Sound W O self := l.Sound W O self.adapter
  sound_mono := l.sound_mono
  packets := l.packets
  happen := l.happen
  read hs h := by
    obtain ⟨seg, hread, hseg⟩ := read_returns A h
    obtain ⟨hsound, hsame⟩ := l.read hs hread
    refine ⟨hsound, fun x hx => hsame x ?_⟩
    rcases hseg with hnone | heq
    · rw [hnone] at hx
      contradiction
    · rw [← heq, hx]
  write hs hseg hm h := by
    rcases write_returns A h with heq | hwrite
    · rw [heq]
      exact hs
    · exact l.write hs hseg hm hwrite
  tick hs h := by
    obtain ⟨a, htick, h⟩ := returns_bind_iff.mp h
    rw [← returns_pure_iff.mp h]
    exact l.tick hs htick
  configure := l.configure
  setListening := l.setListening

end LossyFdAdapter

end Sponge
