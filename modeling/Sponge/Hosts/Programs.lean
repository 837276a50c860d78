import Sponge.Hosts.Delivery
import Sponge.StreamCopy

/-!
# Sponge.Hosts.Programs

The programs of the repository that talk over a `TCPSpongeSocket`: on either side
the main thread copies between the terminal and its end of a stream socket, whose
other end is `threadData` of the thread that runs the connection.

What one program shows is the beginning of what was typed at the other
(`shown_prefix_of_typed`).  The parts are those of `Sponge.StreamCopy` and
`Sponge.Hosts`; between them is the kernel, of which it is asked that a stream
socket delivers in order what was written to it.
-/

namespace Sponge

open StreamCopy (Unused)

/-- A state in which the loop of `bidirectional_stream_copy` can be. -/
def StreamCopy.Reached (s : StreamCopy) : Prop :=
  ∃ socket input output answers left, Unused socket input output ∧
    exec EventLoop.step (StreamCopy.rules, .new socket input output) answers = some (left, s)

/-- The two ends of a stream socket: what has been read at either end is the beginning of what
has been written at the other. -/
structure FileDescriptor.Pair (near far : FileDescriptor) : Prop where
  there : far.got <+: near.put.flatten
  back : near.got <+: far.put.flatten

namespace Hosts

section
variable {C : Carrier α π ε} {A : FdAdapter α} {law : C.Law A}

/-- **From terminal to terminal**: with a program on either side, over any carrier, what has been
written to the standard output of one is the beginning of what has been read from the
standard input of the other. -/
theorem shown_prefix_of_typed {n n' : Hosts α} (program : Side → StreamCopy)
    (ha : Opened law fuel oa n.a) (hb : Opened law fuel ob n.b)
    (h : exec (step C A fuel) n acts = some n') (hprogram : ∀ side, (program side).Reached)
    (hpair : ∀ side, (program side).socket.Pair (n'.sock side).threadData)
    (hshort : ∀ side, (n'.sock side).threadData.got.length < 2 ^ 31) (side : Side) :
    (program side).output.put.flatten <+: (program side.peer).input.got := by
  obtain ⟨ops, m, -, hm⟩ := Refines.run ha hb h
  obtain ⟨p, q, hs, ht⟩ := hm.tracks side
  obtain ⟨_, _, _, _, _, hnew, hrun⟩ := hprogram side
  obtain ⟨_, _, _, _, _, hnew', hrun'⟩ := hprogram side.peer
  have hin := (StreamCopy.exec_copies hnew hrun).inbound
  have hout := (StreamCopy.exec_copies hnew' hrun').outbound
  -- into the socket at the peer, through the two connections, out of the socket on this side
  have htyped : (n'.sock side.peer).threadData.got <+: (program side.peer).input.got :=
    (hpair side.peer).there.trans ⟨_, hout.conserved⟩
  have hgiven : (n'.sock side).threadData.put.flatten <+: (n'.sock side.peer).threadData.got :=
    (List.prefix_append _ _).trans (hs.given_append_stream ht (hshort _) (hshort _))
  have hshown : (program side).output.put.flatten <+: (n'.sock side).threadData.put.flatten :=
    .trans ⟨_, hin.conserved⟩ (hpair side).back
  exact hshown.trans (hgiven.trans htyped)

end

/-- Two bytes are typed and sent. -/
def sends : Option (List (EventLoop.Rule StreamCopy) × StreamCopy) :=
  exec EventLoop.step
    (StreamCopy.rules, .new { writes := [fun size => .ok size] } StreamCopy.typed {})
    [.ready [{ pollIn := true }], .ready [{}, { pollOut := true }]]

/-- Two bytes are received and shown. -/
def shows : Option (List (EventLoop.Rule StreamCopy) × StreamCopy) :=
  exec EventLoop.step
    (StreamCopy.rules, .new { reads := [fun _ => .ok [104, 105]] } {} StreamCopy.screen)
    [.ready [{}, {}, { pollIn := true }], .ready [{}, {}, {}, { pollOut := true }]]

/-- Both bytes are in the socket. -/
theorem sends_runs : sends.map (fun l => (l.2.socket.put.flatten, l.2.socket.got)) =
    some ([104, 105], []) := by decide +kernel

/-- Both bytes are on the screen. -/
theorem shows_runs : shows.map (fun l => (l.2.socket.got, l.2.output.put.flatten)) =
    some ([104, 105], [104, 105]) := by decide +kernel

theorem reached_sends (h : sends = some (left, s)) : s.Reached :=
  ⟨_, _, _, _, left, ⟨⟨rfl, rfl⟩, rfl, rfl⟩, h⟩

theorem reached_shows (h : shows = some (left, s)) : s.Reached :=
  ⟨_, _, _, _, left, ⟨⟨rfl, rfl⟩, rfl, rfl⟩, h⟩

/-- The programs of a run with these two. -/
def onSides (a b : StreamCopy) : Side → StreamCopy
  | .A => a
  | .B => b

/-- Two bytes typed at the client are shown at the server. -/
theorem shown_prefix_of_typed_writeAndClose :
    ∃ (n n' : Hosts _) (sender receiver : StreamCopy),
      Opened udpLaw 9 udpClient n.a ∧ Opened udpLaw 9 udpServer n.b ∧
      exec udpStep n writeAndClose = some n' ∧ sender.Reached ∧ receiver.Reached ∧
      sender.socket.Pair (n'.sock .A).threadData ∧ receiver.socket.Pair (n'.sock .B).threadData ∧
      receiver.output.put.flatten = [104, 105] ∧
      receiver.output.put.flatten <+: sender.input.got := by
  obtain ⟨n', hn', heq⟩ := Option.map_eq_some_iff.mp writeAndClose_runs
  obtain ⟨n, hn, hexec⟩ := Option.bind_eq_some_iff.mp hn'
  obtain ⟨ha, hb⟩ := opened_udpHosts hn
  obtain ⟨⟨left, sender⟩, hsends, hsent⟩ := Option.map_eq_some_iff.mp sends_runs
  obtain ⟨⟨left', receiver⟩, hshows, hshown⟩ := Option.map_eq_some_iff.mp shows_runs
  simp only [Prod.mk.injEq] at heq hsent hshown
  obtain ⟨hgotA, hgotB, hputB, -⟩ := heq
  obtain ⟨hput, hgot⟩ := hsent
  obtain ⟨hgot', hout⟩ := hshown
  have hpairA : sender.socket.Pair (n'.sock .A).threadData :=
    ⟨by simp [hgotA, hput], by simp [hgot]⟩
  have hpairB : receiver.socket.Pair (n'.sock .B).threadData :=
    ⟨by simp [hgotB], by simp [hgot', hputB]⟩
  refine ⟨n, n', sender, receiver, ha, hb, hexec, reached_sends hsends, reached_shows hshows,
    hpairA, hpairB, hout, ?_⟩
  refine shown_prefix_of_typed (onSides sender receiver) ha hb hexec ?_ ?_ ?_ .B
  · rintro (_ | _)
    exacts [reached_sends hsends, reached_shows hshows]
  · rintro (_ | _)
    exacts [hpairA, hpairB]
  · rintro (_ | _)
    exacts [by rw [hgotA]; decide, by rw [hgotB]; decide]

end Hosts

end Sponge
