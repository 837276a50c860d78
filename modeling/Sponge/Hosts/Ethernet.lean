import Sponge.Carrier.TunTap
import Sponge.Hosts

/-!
# Sponge.Hosts.Ethernet

The whole of the program in one theorem: two sockets over TAP devices, with
everything in between: the event loops, TCP, IPv4, Ethernet and ARP.  Frames are
bytes, which the network drops, repeats, delays and reorders, and the kernel may
fail any system call.
-/

namespace Sponge

open TCPSpongeSocket (Host Opening Turn)

namespace TCPOverIPv4OverEthernetAdapter

/-- A socket that was opened as `o` says over a TAP device. -/
def OpenedTap (r : Resolver) (fuel : Nat) (o : Opening)
    (h : Host TCPOverIPv4OverEthernetAdapter) : Prop :=
  ∃ (tap : FileDescriptor) (ethAddress : EthernetAddress) (ipAddress hop : Address)
    (threadData : FileDescriptor) (a : TCPOverIPv4OverEthernetAdapter),
    tap.Fresh ∧ threadData.got = [] ∧ threadData.put = [] ∧
      Returns (new tap ethAddress ipAddress hop o.cAd) a ∧
      Returns (TCPSpongeSocket.start (adapter r fuel) fuel o threadData a) h

/-- A host over a fresh device is open. -/
theorem OpenedTap.opened (h : OpenedTap r fuel o host) : Hosts.Opened (law r fuel) fuel o host := by
  obtain ⟨tap, _, _, _, threadData, a, htap, hgot, hput, hnew, hstart⟩ := h
  exact ⟨threadData, a, hgot, hput, sound_new htap hnew, hstart⟩

/-- **Reliable delivery over Ethernet**: what is given to an owner, with what waits for it, is
the beginning of what has been read from the other owner. -/
theorem given_prefix_of_taken {n n' : Hosts TCPOverIPv4OverEthernetAdapter}
    (ha : OpenedTap r fuel oa n.a) (hb : OpenedTap r fuel ob n.b)
    (h : exec (Hosts.step carrier (adapter r fuel) fuel) n acts = some n')
    (hshort : ∀ side, (n'.sock side).threadData.got.length < 2 ^ 31) (side : Side) :
    (n'.sock side).threadData.put.flatten ++ (n'.sock side).tcp.inboundStream.stream <+:
      (n'.sock side.peer).threadData.got := by
  obtain ⟨ops, m, -, hm⟩ := Hosts.Refines.run ha.opened hb.opened h
  obtain ⟨p, q, hs, ht⟩ := hm.tracks side
  exact hs.given_append_stream ht (hshort _) (hshort _)

/-! ## A run -/

/-- A host with the last byte of its Ethernet address, over a device that takes eight frames. -/
def hostAt (byte : UInt8) (hop : Address) (o : Opening) :
    Call Failure (Host TCPOverIPv4OverEthernetAdapter) := do
  let a ← new { writes := .replicate 8 fun size => .ok size } #v[2, 0, 0, 0, 0, byte] o.cAd.source
    hop o.cAd
  TCPSpongeSocket.start (adapter .bytewise 9) 9 o {} a

/-- The device of the host is fresh. -/
theorem openedTap_hostAt (h : Returns (hostAt byte hop o) host) : OpenedTap .bytewise 9 o host := by
  obtain ⟨a, hnew, hstart⟩ := returns_bind_iff.mp h
  refine ⟨_, _, _, _, {}, a, ⟨rfl, rfl, fun answer ha size n hn => ?_⟩, rfl, rfl, hnew, hstart⟩
  rw [List.eq_of_mem_replicate ha] at hn
  exact (Except.ok.inj hn).symm

def client : Opening where
  cTcp := { fixedIsn := some ⟨10⟩ }
  cAd := ⟨⟨0x0a000001, 5000⟩, ⟨0x0a000002, 80⟩⟩
  passive := false

def server : Opening where
  cTcp := { fixedIsn := some ⟨20⟩ }
  cAd := ⟨⟨0x0a000002, 80⟩, ⟨0, 0⟩⟩
  passive := true

def clientAndServer : Option (Hosts TCPOverIPv4OverEthernetAdapter) :=
  (hostAt 1 server.cAd.source client).result?.bind fun a =>
    (hostAt 2 client.cAd.source server).result?.map fun b => ⟨a, b⟩

/-- Both are open. -/
theorem openedTap_clientAndServer (h : clientAndServer = some n) :
    OpenedTap .bytewise 9 client n.a ∧ OpenedTap .bytewise 9 server n.b := by
  obtain ⟨a, ha, h⟩ := Option.bind_eq_some_iff.mp h
  obtain ⟨b, hb, rfl⟩ := Option.map_eq_some_iff.mp h
  exact ⟨openedTap_hostAt (result?_eq_some_iff.mp ha), openedTap_hostAt (result?_eq_some_iff.mp hb)⟩

def arpRequest : List UInt8 :=
  [255, 255, 255, 255, 255, 255, 2, 0, 0, 0, 0, 1, 8, 6,
    0, 1, 8, 0, 6, 4, 0, 1, 2, 0, 0, 0, 0, 1, 10, 0, 0, 1, 0, 0, 0, 0, 0, 0, 10, 0, 0, 2]

def arpReply : List UInt8 :=
  [2, 0, 0, 0, 0, 1, 2, 0, 0, 0, 0, 2, 8, 6,
    0, 1, 8, 0, 6, 4, 0, 2, 2, 0, 0, 0, 0, 2, 10, 0, 0, 2, 2, 0, 0, 0, 0, 1, 10, 0, 0, 1]

def synFrame : List UInt8 :=
  [2, 0, 0, 0, 0, 2, 2, 0, 0, 0, 0, 1, 8, 0,
    69, 0, 0, 40, 0, 0, 64, 0, 128, 6, 230, 205, 10, 0, 0, 1, 10, 0, 0, 2,
    19, 136, 0, 80, 0, 0, 0, 10, 0, 0, 0, 0, 80, 2, 250, 0, 141, 253, 0, 0]

def synAckFrame : List UInt8 :=
  [2, 0, 0, 0, 0, 1, 2, 0, 0, 0, 0, 2, 8, 0,
    69, 0, 0, 40, 0, 0, 64, 0, 128, 6, 230, 205, 10, 0, 0, 2, 10, 0, 0, 1,
    0, 80, 19, 136, 0, 0, 0, 20, 0, 0, 0, 11, 80, 18, 250, 0, 141, 216, 0, 0]

/-- Two bytes from the client. -/
def dataFrame : List UInt8 :=
  [2, 0, 0, 0, 0, 2, 2, 0, 0, 0, 0, 1, 8, 0,
    69, 0, 0, 42, 0, 0, 64, 0, 128, 6, 230, 203, 10, 0, 0, 1, 10, 0, 0, 2,
    19, 136, 0, 80, 0, 0, 0, 11, 0, 0, 0, 21, 80, 16, 250, 0, 37, 110, 0, 0, 104, 105]

/-- Address resolution, the handshake, of which the last segment is lost, and two bytes. -/
def resolveAndGreet : List (Side × Hosts.Act FileDescriptor.Event) :=
  [(.A, .ready 3 0),
    (.B, .happen (.packet arpRequest)), (.B, .ready 0 0),
    (.A, .happen (.packet arpReply)), (.A, .ready 0 0),
    (.B, .happen (.packet synFrame)), (.B, .ready 0 0), (.B, .ready 3 0),
    (.A, .happen (.packet synAckFrame)), (.A, .ready 0 0), (.A, .main 0),
    (.A, .owner [fun _ => .ok [104, 105]] [] []), (.A, .ready 1 0), (.A, .ready 3 0),
    (.B, .happen (.packet dataFrame)), (.B, .ready 0 0), (.B, .main 0),
    (.B, .owner [] [fun size => .ok size] []), (.B, .ready 2 0)]

/-- The addresses are resolved first, then two bytes go from the client to the server. -/
theorem given_prefix_of_taken_resolveAndGreet :
    ∃ n n', OpenedTap .bytewise 9 client n.a ∧ OpenedTap .bytewise 9 server n.b ∧
      exec (Hosts.step carrier (adapter .bytewise 9) 9) n resolveAndGreet = some n' ∧
      (n'.sock .B).threadData.put.flatten = [104, 105] ∧
      (n'.sock .B).threadData.put.flatten ++ (n'.sock .B).tcp.inboundStream.stream <+:
        (n'.sock .A).threadData.got := by
  have hrun : (clientAndServer.bind fun n =>
      exec (Hosts.step carrier (adapter .bytewise 9) 9) n resolveAndGreet).map (fun n =>
        ((n.sock .A).threadData.got, (n.sock .B).threadData.got,
          (n.sock .B).threadData.put.flatten)) = some ([104, 105], [], [104, 105]) := by
    decide +kernel
  obtain ⟨n', hn', heq⟩ := Option.map_eq_some_iff.mp hrun
  obtain ⟨n, hn, hexec⟩ := Option.bind_eq_some_iff.mp hn'
  obtain ⟨ha, hb⟩ := openedTap_clientAndServer hn
  simp only [Prod.mk.injEq] at heq
  obtain ⟨hgotA, hgotB, hput⟩ := heq
  have hshort : ∀ side, (n'.sock side).threadData.got.length < 2 ^ 31 := by
    intro side
    cases side with
    | A => rw [hgotA]; decide
    | B => rw [hgotB]; decide
  exact ⟨n, n', ha, hb, hexec, hput, given_prefix_of_taken ha hb hexec hshort .B⟩

end TCPOverIPv4OverEthernetAdapter

end Sponge
