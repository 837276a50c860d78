import Sponge.FdAdapter
import Sponge.Network.Modest
import Sponge.TCPSpongeSocket.Simulation

/-!
# Sponge.Carrier

What lies under the adapters: a network that carries packets.

A `Carrier` says what an adapter has put on the network and what the kernel can
do to the descriptor of an adapter, given what the other side has put there.
The kernel drops, repeats, delays and reorders packets as it likes, but forges
none.  `Carrier.Law` is what a carrier promises to the connections above it: a
segment that an adapter returns is one that the other side has sent, up to
ports and checksum.

For devices, which take and give one packet at a time, what holds of the
packets on either side is kept in `Device`.
-/

namespace Sponge

/-! ## Carriers -/

/-- The network under an adapter: packets of type `π` and events of type `ε`. -/
structure Carrier (α π ε : Type) where
  /-- What an adapter has put on the network. -/
  packets : α → List π
  /-- What an event does to the kernel's side of an adapter. -/
  happen : α → ε → α
  /-- Whether it can happen, given what the other side has put on the network. -/
  allowed : List π → ε → Bool

/-- What a carrier promises. -/
structure Carrier.Law (C : Carrier α π ε) (A : FdAdapter α) where
  /-- The packet may come from an adapter that was given the segments. -/
  From : List TCPSegment → π → Prop
  /-- What comes from the network is of the first segments, and what goes out of the
  second. -/
  Sound : List TCPSegment → List TCPSegment → α → Prop
  sound_mono : Sound W O a → W ⊆ W' → O ⊆ O' → Sound W' O' a
  packets : Sound W O a → ∀ packet ∈ C.packets a, From O packet
  happen : Sound W O a → (∀ packet ∈ there, From W packet) → C.allowed there e = true →
    Sound W O (C.happen a e)
  read : Sound W O a → Returns (A.read a) (seg, a') →
    Sound W O a' ∧ ∀ x, seg = some x → ∃ w ∈ W, x.Same w
  write : Sound W O a → seg ∈ O → seg.Modest → Returns (A.write a seg) a' → Sound W O a'
  tick : Sound W O a → Returns (A.tick a ms) a' → Sound W O a'
  configure : Sound W O a → ∀ cfg, Sound W O (A.configure a cfg)
  setListening : Sound W O a → ∀ l, Sound W O (A.setListening a l)

/-! ## Devices -/

namespace FileDescriptor

/-- What can happen to a device: there is a packet to read, a read fails or finds the device
closed, or a write takes the packet or fails. -/
inductive Event where
  | packet (bytes : List UInt8)
  | readFails (errno : Nat)
  | ends
  | takes
  | writeFails (errno : Nat)
  deriving DecidableEq, Repr

def happen (fd : FileDescriptor) : Event → FileDescriptor
  | .packet bytes => { fd with reads := fd.reads ++ [fun _ => .ok bytes] }
  | .readFails errno => { fd with reads := fd.reads ++ [fun _ => .error errno] }
  | .ends => { fd with reads := fd.reads ++ [fun _ => .ok []] }
  | .takes => { fd with writes := fd.writes ++ [fun size => .ok size] }
  | .writeFails errno => { fd with writes := fd.writes ++ [fun _ => .error errno] }

/-- Only what was put on the network comes from it. -/
def allowed (packets : List (List UInt8)) : Event → Bool
  | .packet bytes => packets.contains bytes
  | _ => true

/-- What comes in is `In`, or the end; what goes out goes as a whole and is `Out`. -/
structure Device (In Out : List UInt8 → Prop) (fd : FileDescriptor) : Prop where
  brings : ∀ answer ∈ fd.reads, ∀ n data, answer n = .ok data → data = [] ∨ In data
  whole : ∀ answer ∈ fd.writes, ∀ size n, answer size = .ok n → n = size
  out : ∀ packet ∈ fd.put, Out packet

variable {In Out : List UInt8 → Prop} {fd fd' : FileDescriptor}

/-- Nothing has gone over the device, which takes packets as a whole. -/
structure Fresh (fd : FileDescriptor) : Prop where
  reads_eq : fd.reads = []
  put_eq : fd.put = []
  whole : ∀ answer ∈ fd.writes, ∀ size n, answer size = .ok n → n = size

/-- A fresh device has taken in and given out nothing. -/
theorem Fresh.device (h : fd.Fresh) : fd.Device In Out :=
  ⟨by simp [h.reads_eq], h.whole, by simp [h.put_eq]⟩

/-- More may come in, and more may go out. -/
theorem Device.mono {In' Out' : List UInt8 → Prop} (h : fd.Device In Out)
    (hin : ∀ p, In p → In' p) (hout : ∀ p, Out p → Out' p) : fd.Device In' Out' :=
  ⟨fun answer ha n data hd => (h.brings answer ha n data hd).imp_right (hin data), h.whole,
    fun p hp => hout p (h.out p hp)⟩

/-- What is read has come in. -/
theorem Device.read (h : fd.Device In Out) (hread : Returns (fd.read limit) (data, fd')) :
    fd'.Device In Out ∧ (data = [] ∨ In data) := by
  obtain ⟨⟨answer, ha, hanswer⟩, -, rfl⟩ := read_returns hread
  exact ⟨⟨fun answer ha => h.brings answer (List.mem_of_mem_tail ha), h.whole, h.out⟩,
    h.brings answer ha _ data hanswer⟩

/-- A device takes a packet in one call. -/
theorem Device.write {buffer : BufferViewList} (h : fd.Device In Out) (hout : Out buffer.flatten)
    (hwrite : Returns (fd.write buffer true) (n, fd')) : fd'.Device In Out := by
  cases hwrites : fd.writes with
  | nil =>
      rw [FileDescriptor.write, hwrites] at hwrite
      exact absurd hwrite not_returns_outOfFuel
  | cons answer answers =>
      rw [FileDescriptor.write, hwrites] at hwrite
      have hlater : ∀ a ∈ answers, ∀ size n, a size = .ok n → n = size :=
        fun a ha => h.whole a (hwrites ▸ List.mem_cons_of_mem answer ha)
      by_cases htakes : ∃ k, Takes answer buffer.size k
      case neg =>
        obtain ⟨e, he, -⟩ := writeLoop_throws true answers fd 0 htakes
        rw [he] at hwrite
        exact absurd hwrite not_returns_throw
      obtain ⟨k, htakes⟩ := htakes
      obtain ⟨rest, hrest, heq⟩ := writeLoop_cons true 0 hwrites htakes
      obtain rfl := h.whole answer (hwrites ▸ List.mem_cons_self) _ k htakes.1
      have hnil : rest.size = 0 := by
        rw [BufferViewList.size_eq, hrest, BufferViewList.size_eq, List.drop_length]
        rfl
      rw [heq, hnil] at hwrite
      have hfd := (Prod.mk.inj (returns_pure_iff.mp hwrite)).2
      rw [BufferViewList.size_eq, List.take_length] at hfd
      subst hfd
      refine ⟨h.brings, ?_, ?_⟩
      · rw [took, hwrites]
        exact hlater
      · intro packet hpacket
        rcases List.mem_append.mp hpacket with hold | hnew
        · exact h.out packet hold
        · rw [List.mem_singleton.mp hnew]
          exact hout

/-- What the other side has put out can come in. -/
theorem Device.happen (h : fd.Device In Out) (hin : ∀ packet ∈ packets, In packet)
    (hallowed : allowed packets e = true) : (fd.happen e).Device In Out := by
  have hreads : ∀ answer : Nat → Except Nat (List UInt8),
      (∀ n data, answer n = .ok data → data = [] ∨ In data) →
      Device In Out { fd with reads := fd.reads ++ [answer] } := by
    intro answer hanswer
    refine ⟨fun a ha => ?_, h.whole, h.out⟩
    rcases List.mem_append.mp ha with hold | hnew
    · exact h.brings a hold
    · exact List.mem_singleton.mp hnew ▸ hanswer
  have hwrites : ∀ answer : Nat → Except Nat Nat,
      (∀ size n, answer size = .ok n → n = size) →
      Device In Out { fd with writes := fd.writes ++ [answer] } := by
    intro answer hanswer
    refine ⟨h.brings, fun a ha => ?_, h.out⟩
    rcases List.mem_append.mp ha with hold | hnew
    · exact h.whole a hold
    · exact List.mem_singleton.mp hnew ▸ hanswer
  cases e with
  | packet bytes =>
      refine hreads _ fun n data hdata => .inr ?_
      exact Except.ok.inj hdata ▸ hin bytes (List.contains_iff_mem.mp hallowed)
  | readFails errno => exact hreads _ nofun
  | ends => exact hreads _ fun n data hdata => .inl (Except.ok.inj hdata).symm
  | takes => exact hwrites _ fun size n hn => (Except.ok.inj hn).symm
  | writeFails errno => exact hwrites _ nofun

end FileDescriptor

end Sponge
