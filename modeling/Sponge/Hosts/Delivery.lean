import Sponge.Carrier.Udp
import Sponge.Hosts
import Sponge.TCPSpongeSocket.Exit

/-!
# Sponge.Hosts.Delivery

What two sockets do for their owners, over any carrier: they do what two
endpoints do (`sockets_refine_endpoints`), and at the end of a stream all of it has come
through (`given_whole_at_shutdown`).
-/

namespace Sponge

open TCPSpongeSocket (Opening Host Turn Follows rules rule1 rule3)

namespace Hosts

/-! ## A run over lossy UDP -/

/-- An adapter whose first datagram is dropped. -/
def udpAdapter (o : Opening) : LossyFdAdapter TCPOverUDPSocketAdapter where
  adapter := { cfg := o.cAd, sock := { sends := .replicate 8 fun size => .ok size } }
  lossRateUp := 1
  rand := fun i => if i = 0 then 0 else 5

def udpHost (o : Opening) : Call Failure (Host (LossyFdAdapter TCPOverUDPSocketAdapter)) :=
  TCPSpongeSocket.start (LossyFdAdapter.lossy TCPOverUDPSocketAdapter.adapter) 9 o {} (udpAdapter o)

abbrev udpLaw := LossyFdAdapter.law TCPOverUDPSocketAdapter.law

abbrev udpStep := step (LossyFdAdapter.carrier TCPOverUDPSocketAdapter.carrier)
  (LossyFdAdapter.lossy TCPOverUDPSocketAdapter.adapter) 9

/-- A host that was started is open. -/
theorem opened_udpHost (hr : Returns (udpHost o) h) : Opened udpLaw 9 o h :=
  ⟨{}, udpAdapter o, rfl, rfl, TCPOverUDPSocketAdapter.sound_new _ _, hr⟩

def udpClient : Opening where
  cTcp := { fixedIsn := some ⟨10⟩ }
  cAd := ⟨⟨0x0a000001, 5000⟩, ⟨0x0a000002, 80⟩⟩
  passive := false

def udpServer : Opening where
  cTcp := { fixedIsn := some ⟨20⟩ }
  cAd := ⟨⟨0x0a000002, 80⟩, ⟨0, 0⟩⟩
  passive := true

/-- The client and the server, both started. -/
def udpHosts : Option (Hosts (LossyFdAdapter TCPOverUDPSocketAdapter)) :=
  (udpHost udpClient).result?.bind fun a => (udpHost udpServer).result?.map fun b => ⟨a, b⟩

/-- Both are open. -/
theorem opened_udpHosts (h : udpHosts = some n) :
    Opened udpLaw 9 udpClient n.a ∧ Opened udpLaw 9 udpServer n.b := by
  obtain ⟨a, ha, h⟩ := Option.bind_eq_some_iff.mp h
  obtain ⟨b, hb, rfl⟩ := Option.map_eq_some_iff.mp h
  exact ⟨opened_udpHost (result?_eq_some_iff.mp ha), opened_udpHost (result?_eq_some_iff.mp hb)⟩

/-- The client's SYN as it travels. -/
def udpSyn : List UInt8 := [19, 136, 0, 80, 0, 0, 0, 10, 0, 0, 0, 0, 80, 2, 250, 0, 162, 26, 0, 0]

def udpSynAck : List UInt8 :=
  [0, 80, 19, 136, 0, 0, 0, 20, 0, 0, 0, 11, 80, 18, 250, 0, 161, 245, 0, 0]

def udpData : List UInt8 :=
  [19, 136, 0, 80, 0, 0, 0, 11, 0, 0, 0, 21, 80, 16, 250, 0, 57, 141, 0, 0, 104, 105]

def udpFin : List UInt8 :=
  [19, 136, 0, 80, 0, 0, 0, 13, 0, 0, 0, 21, 80, 17, 250, 0, 161, 243, 0, 0]

def toServer (payload : List UInt8) : Side × Act UDPSocket.Event :=
  (.B, .happen (.datagram udpClient.cAd.source payload))

def toClient (payload : List UInt8) : Side × Act UDPSocket.Event :=
  (.A, .happen (.datagram udpServer.cAd.source payload))

/-- The client's SYN and the server's are sent twice. Once the handshake is over, the owner of
the client writes two bytes and closes, and the FIN arrives first. Rule 2 of the client is gone
by then, so that rule 4 is the third. -/
def writeAndClose : List (Side × Act UDPSocket.Event) :=
  [(.A, .ready 3 0), (.A, .ready 4 1000), (.A, .ready 3 1000),
    toServer udpSyn, (.B, .ready 0 0), (.B, .ready 3 0), (.B, .ready 4 1000), (.B, .ready 3 1000),
    toClient udpSynAck, (.A, .ready 0 1000), (.A, .main 1000),
    (.A, .owner [fun _ => .ok [104, 105], fun _ => .ok []] [] []),
    (.A, .ready 1 1000), (.A, .ready 3 1000), (.A, .ready 1 1000), (.A, .ready 2 1000),
    toServer udpFin, (.B, .ready 0 1000), (.B, .main 1000), toServer udpData, (.B, .ready 0 1000),
    (.B, .owner [] [fun size => .ok size] [none]), (.B, .ready 2 1000)]

/-- The two bytes arrive, and the inbound direction is shut down. -/
theorem writeAndClose_runs :
    (udpHosts.bind fun n => exec udpStep n writeAndClose).map (fun n =>
      ((n.sock .A).threadData.got, (n.sock .B).threadData.got,
        (n.sock .B).threadData.put.flatten, (n.sock .B).inboundShutdown,
        (n.sock .B).tcp.inboundStream.error)) =
      some ([104, 105], [], [104, 105], true, false) := by decide +kernel

/-! ## Every run -/

section
variable {C : Carrier α π ε} {A : FdAdapter α} {law : C.Law A}

/-- **Refinement**: two sockets over a carrier do what two endpoints do. -/
theorem sockets_refine_endpoints {n n' : Hosts α} (ha : Opened law fuel oa n.a) (hb : Opened law fuel ob n.b)
    (h : exec (step C A fuel) n acts = some n') :
    ∃ ops m, exec (Network.step fuel) (Network.new oa.cTcp ob.cTcp oa.random ob.random) ops =
      some m ∧ Follows m.a (n'.sock .A) ∧ Follows m.b (n'.sock .B) := by
  obtain ⟨ops, m, hm, hn⟩ := Refines.run ha hb h
  exact ⟨ops, m, hm, hn.a.follows, hn.b.follows⟩

end

/-- Two sockets over UDP, while two bytes are sent and the stream is closed. -/
theorem sockets_refine_endpoints_writeAndClose :
    ∃ n n', Opened udpLaw 9 udpClient n.a ∧ Opened udpLaw 9 udpServer n.b ∧
      exec udpStep n writeAndClose = some n' ∧
      ∃ ops m, exec (Network.step 9) (Network.new udpClient.cTcp udpServer.cTcp 0 0) ops = some m ∧
        Follows m.a (n'.sock .A) ∧ Follows m.b (n'.sock .B) := by
  obtain ⟨n', hn', -⟩ := Option.map_eq_some_iff.mp writeAndClose_runs
  obtain ⟨n, hn, hexec⟩ := Option.bind_eq_some_iff.mp hn'
  obtain ⟨ha, hb⟩ := opened_udpHosts hn
  exact ⟨n, n', ha, hb, hexec, sockets_refine_endpoints ha hb hexec⟩

section
variable {C : Carrier α π ε} {A : FdAdapter α} {law : C.Law A}

/-- **The end of the stream**: when a socket has shut down the inbound direction of its owner,
and not because of an error, then all that was read from the other owner has been given to
this one, and the other socket had ended its outbound stream. -/
theorem given_whole_at_shutdown {n n' : Hosts α} (ha : Opened law fuel oa n.a)
    (hb : Opened law fuel ob n.b) (h : exec (step C A fuel) n acts = some n')
    (hshort : ∀ side, (n'.sock side).threadData.got.length < 2 ^ 31)
    (hshut : (n'.sock side).inboundShutdown = true)
    (herror : (n'.sock side).tcp.inboundStream.error = false) :
    (n'.sock side).threadData.put.flatten = (n'.sock side.peer).threadData.got ∧
      (n'.sock side.peer).outboundShutdown = true := by
  obtain ⟨ops, m, -, hm⟩ := Refines.run ha hb h
  obtain ⟨p, q, hs, ht⟩ := hm.tracks side
  have hcloses := hs.closes ht (hshort _) (hshort _)
  exact hs.given_whole ht (hshort _) (hshort _)
    ((hcloses.inbound hshut).resolve_left (by simp [herror]))

end

/-- The server has shut down the inbound direction of its owner, and both bytes were given to it.
-/
theorem given_whole_at_shutdown_writeAndClose :
    ∃ n n', Opened udpLaw 9 udpClient n.a ∧ Opened udpLaw 9 udpServer n.b ∧
      exec udpStep n writeAndClose = some n' ∧
      (n'.sock .B).threadData.put.flatten = (n'.sock .A).threadData.got ∧
      (n'.sock .A).threadData.got = [104, 105] ∧ (n'.sock .A).outboundShutdown = true := by
  obtain ⟨n', hn', heq⟩ := Option.map_eq_some_iff.mp writeAndClose_runs
  obtain ⟨n, hn, hexec⟩ := Option.bind_eq_some_iff.mp hn'
  obtain ⟨ha, hb⟩ := opened_udpHosts hn
  simp only [Prod.mk.injEq] at heq
  obtain ⟨hgotA, hgotB, -, hshut, herror⟩ := heq
  have hshort : ∀ side, (n'.sock side).threadData.got.length < 2 ^ 31 := by
    intro side
    cases side with
    | A => rw [hgotA]; decide
    | B => rw [hgotB]; decide
  obtain ⟨hwhole, hclosed⟩ := given_whole_at_shutdown ha hb hexec hshort hshut herror
  exact ⟨n, n', ha, hb, hexec, hwhole, hgotA, hclosed⟩

/-! ### The end of a thread -/

section
variable {C : Carrier α π ε} {A : FdAdapter α} {law : C.Law A}

/-- A thread that leaves its loop has taken its last turn. -/
theorem stepHost_left {h h' : Host α} {there : List π} {t : Turn}
    (hstep : stepHost C A fuel there h (.turn t) = some h') (hleft : h'.left = true) :
    Returns (TCPSpongeSocket.turn A fuel h.running t) (false, h'.running) := by
  simp only [stepHost] at hstep
  split at hstep
  · contradiction
  · obtain ⟨⟨goes, r⟩, hturn, rfl⟩ := Option.map_eq_some_iff.mp hstep
    obtain rfl : goes = false := by simpa using hleft
    exact result?_eq_some_iff.mp hturn

/-- **The end of a thread**: when the loop of a socket ends by itself with rules 1 and 3 in
place, the connection is over and the inbound direction is shut down; and unless
there was an error, all that was read from the other owner has been given to this
one, and the other socket had ended its outbound stream. -/
theorem given_whole_at_exit {n m n' : Hosts α} (ha : Opened law fuel oa n.a)
    (hb : Opened law fuel ob n.b) (h : exec (step C A fuel) n acts = some m)
    (hturn : step C A fuel m (side, .turn t) = some n') (hleft : (n'.host side).left = true)
    (habort : t.abort = false) (hsignal : t.answer ≠ .failed EventLoop.EINTR)
    (h1 : rule1 A fuel ∈ (n'.host side).running.rules)
    (h3 : rule3 ∈ (n'.host side).running.rules)
    (hshort : ∀ side, (n'.sock side).threadData.got.length < 2 ^ 31) :
    (n'.sock side).tcp.active = false ∧ (n'.sock side).inboundShutdown = true ∧
      ((n'.sock side).tcp.inboundStream.error = false →
        (n'.sock side).threadData.put.flatten = (n'.sock side.peer).threadData.got ∧
        (n'.sock side.peer).outboundShutdown = true) := by
  obtain ⟨ops, u, -, hu⟩ := Refines.run ha hb h
  obtain ⟨ops', u', -, hu'⟩ := hu.step hturn
  obtain ⟨p, q, hs, ht⟩ := hu'.tracks side
  have hexit : (n'.sock side).tcp.active = false ∧
      (n'.sock side).tcp.inboundStream.bufferEmpty = true ∧
      ((n'.sock side).tcp.inboundStream.eof = true ∨
        (n'.sock side).tcp.inboundStream.error = true → (n'.sock side).inboundShutdown = true) := by
    cases side with
    | A =>
        obtain ⟨a, ha, rfl⟩ := Option.map_eq_some_iff.mp hturn
        obtain ⟨hover, hgiven, -⟩ := TCPSpongeSocket.turn_exit hu.rulesA (stepHost_left ha hleft)
          habort hsignal
        exact ⟨hover h1, hgiven h3⟩
    | B =>
        obtain ⟨b, hb, rfl⟩ := Option.map_eq_some_iff.mp hturn
        obtain ⟨hover, hgiven, -⟩ := TCPSpongeSocket.turn_exit hu.rulesB (stepHost_left hb hleft)
          habort hsignal
        exact ⟨hover h1, hgiven h3⟩
  obtain ⟨hover, hempty, hshut⟩ := hexit
  have hends := (hs.closes ht (hshort _) (hshort _)).finished hover
  have heof : (n'.sock side).tcp.inboundStream.error = false →
      (n'.sock side).tcp.inboundStream.eof = true := by
    intro herror
    simp only [ByteStream.eof, Bool.and_eq_true]
    exact ⟨hends.resolve_left (by simp [herror]), hempty⟩
  refine ⟨hover, hshut ?_, fun herror => hs.given_whole ht (hshort _) (hshort _) (heof herror)⟩
  cases herror : (n'.sock side).tcp.inboundStream.error with
  | true => exact .inr rfl
  | false => exact .inl (heof herror)

end

def udpServerFin : List UInt8 :=
  [0, 80, 19, 136, 0, 0, 0, 21, 0, 0, 0, 14, 80, 17, 250, 0, 161, 242, 0, 0]

def udpLastAck : List UInt8 :=
  [19, 136, 0, 80, 0, 0, 0, 14, 0, 0, 0, 22, 80, 16, 250, 0, 161, 242, 0, 0]

/-- After the client, the owner of the server closes as well. -/
def closeBoth : List (Side × Act UDPSocket.Event) :=
  writeAndClose ++ [(.B, .owner [fun _ => .ok []] [] []), (.B, .ready 1 1000), (.B, .ready 2 1000),
    toClient udpServerFin, (.A, .ready 0 1000), (.A, .ready 2 1000),
    toServer udpLastAck, (.B, .ready 0 1000)]

/-- A socket that tells the rules from each other, by direction and interest. -/
def probe : TCPSpongeSocket (LossyFdAdapter TCPOverUDPSocketAdapter) where
  tcp := { TCPConnection.new {} 0 with segmentsOut := [{}] }
  threadData := {}
  datagramAdapter := udpAdapter udpClient
  outboundShutdown := true

/-- The rules in place can be told by direction and interest. -/
theorem mem_of_probe {r : EventLoop.Rule (TCPSpongeSocket (LossyFdAdapter TCPOverUDPSocketAdapter))}
    {left : List (EventLoop.Rule _)}
    (hsub : left.Sublist (rules (LossyFdAdapter.lossy TCPOverUDPSocketAdapter.adapter) 9))
    (hr : r ∈ rules (LossyFdAdapter.lossy TCPOverUDPSocketAdapter.adapter) 9)
    (h : (r.direction, r.interest probe) ∈ left.map fun r => (r.direction, r.interest probe)) :
    r ∈ left := by
  have hnodup : ((rules (LossyFdAdapter.lossy TCPOverUDPSocketAdapter.adapter) 9).map fun r =>
      (r.direction, r.interest probe)).Nodup := by decide
  obtain ⟨r', hr', heq⟩ := List.mem_map.mp h
  rwa [← List.inj_on_of_nodup_map hnodup (hsub.subset hr') hr heq]

/-- Both owners have closed, and the server's thread leaves its loop. -/
theorem given_whole_at_exit_closeBoth :
    ∃ n m n', Opened udpLaw 9 udpClient n.a ∧ Opened udpLaw 9 udpServer n.b ∧
      exec udpStep n closeBoth = some m ∧ udpStep m (.B, .ready 0 1000) = some n' ∧
      (n'.host .B).left = true ∧ (n'.sock .B).tcp.active = false ∧
      (n'.sock .B).inboundShutdown = true ∧
      (n'.sock .B).threadData.put.flatten = (n'.sock .A).threadData.got ∧
      (n'.sock .A).threadData.got = [104, 105] := by
  have hrun : (udpHosts.bind fun n => (exec udpStep n closeBoth).bind fun m =>
      udpStep m (.B, .ready 0 1000)).map (fun n =>
        ((n.sock .A).threadData.got, (n.sock .B).threadData.got,
          ((n.host .B).left, (n.sock .B).tcp.inboundStream.error),
          (n.host .B).running.rules.map fun r => (r.direction, r.interest probe))) =
      some ([104, 105], [], (true, false), [(.In, true), (.Out, false), (.Out, true)]) := by
    decide +kernel
  obtain ⟨n', hn', heq⟩ := Option.map_eq_some_iff.mp hrun
  obtain ⟨n, hn, hm⟩ := Option.bind_eq_some_iff.mp hn'
  obtain ⟨m, hexec, hstep⟩ := Option.bind_eq_some_iff.mp hm
  obtain ⟨ha, hb⟩ := opened_udpHosts hn
  simp only [Prod.mk.injEq] at heq
  obtain ⟨hgotA, hgotB, ⟨hleft, herror⟩, hrules⟩ := heq
  have hshort : ∀ side, (n'.sock side).threadData.got.length < 2 ^ 31 := by
    intro side
    cases side with
    | A => rw [hgotA]; decide
    | B => rw [hgotB]; decide
  obtain ⟨-, u, -, hu⟩ := Refines.run ha hb hexec
  obtain ⟨-, u', -, hu'⟩ := hu.step hstep
  have hsub : (n'.host .B).running.rules.Sublist _ := hu'.rulesB
  have h1 : rule1 (LossyFdAdapter.lossy TCPOverUDPSocketAdapter.adapter) 9 ∈
      (n'.host .B).running.rules := mem_of_probe hsub (by simp [rules])
    (by rw [hrules]; decide)
  have h3 : rule3 ∈ (n'.host .B).running.rules :=
    mem_of_probe hsub (by simp [rules]) (by rw [hrules]; decide)
  obtain ⟨hover, hshut, hwhole⟩ := given_whole_at_exit ha hb hexec hstep hleft rfl (by simp) h1 h3
    hshort
  exact ⟨n, m, n', ha, hb, hexec, hstep, hleft, hover, hshut, (hwhole herror).1, hgotA⟩

end Hosts

end Sponge
