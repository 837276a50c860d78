import Mathlib.Logic.Relation
import Sponge.TCPSpongeSocket

/-!
# Sponge.TCPSpongeSocket.Moves

All that a socket does, as a list of the moves its rules are made of (`Move`).
Every callback, every cancellation and every tick is a chain of them, and so is
a turn of the loop (`turn_moves`), so what is to hold of a socket is proved once
for each move.

A move says what the owner's end of the stream socket and the network have to
do with it: which bytes were read from the one or written to it, and which
segment came from the adapter or went to it.
-/

namespace Sponge

namespace TCPSpongeSocket

open EventLoop (Rule waitNextEvent)
open Relation (ReflTransGen)

/-- One thing that a socket does. -/
inductive Move (A : FdAdapter α) (fuel : Nat) : TCPSpongeSocket α → TCPSpongeSocket α → Prop
  | nothing (s : TCPSpongeSocket α) (a : α) : Returns (A.read s.datagramAdapter) (none, a) →
      Move A fuel s { s with datagramAdapter := a }
  | receive (s : TCPSpongeSocket α) (seg : TCPSegment) (a : α) (tcp : TCPConnection) :
      Returns (A.read s.datagramAdapter) (some seg, a) →
      s.tcp.segmentReceived fuel seg = some tcp →
      Move A fuel s { s with datagramAdapter := a, tcp := tcp }
  | acked (s : TCPSpongeSocket α) : Move A fuel s { s with fullyAcked := true }
  | take (s : TCPSpongeSocket α) (data : List UInt8) : s.outboundShutdown = false →
      data.length ≤ s.tcp.remainingOutboundCapacity →
      Move A fuel s { s with
        threadData := s.threadData.received s.tcp.remainingOutboundCapacity data
        tcp := (s.tcp.write data).2 }
  | finish (s : TCPSpongeSocket α) : Move A fuel s s.endOutbound
  | give (s : TCPSpongeSocket α) (n : Nat) : n ≤ s.tcp.inboundStream.bufferSize →
      Move A fuel s { s with
        threadData := s.threadData.took [s.tcp.inboundStream.stream.take n]
        tcp := s.tcp.popInbound n }
  | shut (s : TCPSpongeSocket α) (threadData : FileDescriptor) :
      (s.tcp.inboundStream.eof || s.tcp.inboundStream.error) = true →
      Returns (s.threadData.shutdown .SHUT_WR) threadData →
      Move A fuel s { s with threadData := threadData, inboundShutdown := true }
  | send (s : TCPSpongeSocket α) (seg : TCPSegment) (segs : List TCPSegment) (a : α) :
      s.tcp.segmentsOut = seg :: segs → Returns (A.write s.datagramAdapter seg) a →
      Move A fuel s { s with datagramAdapter := a, tcp := { s.tcp with segmentsOut := segs } }
  | tick (s : TCPSpongeSocket α) (ms : Nat) (tcp : TCPConnection) (a : α) : s.tcp.active = true →
      s.tcp.tick fuel ms = some tcp → Returns (A.tick s.datagramAdapter ms) a →
      Move A fuel s { s with tcp := tcp, datagramAdapter := a }

variable {A : FdAdapter α} {s s' : TCPSpongeSocket α}

/-! ## The rules -/

/-- A flag is set, once. -/
theorem noteFullyAcked_moves (h : ReflTransGen (Move A fuel) s s') :
    ReflTransGen (Move A fuel) s s'.noteFullyAcked := by
  unfold noteFullyAcked
  split
  · exact h.tail (.acked s')
  · exact h

/-- A segment is received, or dropped. -/
theorem rule1_moves (h : Returns ((rule1 A fuel).callback s) s') :
    ReflTransGen (Move A fuel) s s' := by
  obtain ⟨⟨seg, a⟩, hread, h⟩ := returns_bind_iff.mp h
  cases seg with
  | none =>
      rw [← returns_pure_iff.mp h]
      exact noteFullyAcked_moves (.single (.nothing s a hread))
  | some seg =>
      obtain ⟨tcp, htcp, h⟩ := returns_bind_iff.mp h
      rw [← returns_pure_iff.mp h]
      exact noteFullyAcked_moves (.single
        (.receive s seg a tcp hread (returns_ofOption_iff.mp htcp)))

/-- A read for which the descriptor has the answer, and what follows if it was the last. -/
theorem rule2_moves (hopen : s.outboundShutdown = false) (h : Returns (rule2.callback s) s') :
    ReflTransGen (Move A fuel) s s' := by
  obtain ⟨⟨data, threadData⟩, hread, h⟩ := returns_bind_iff.mp h
  obtain ⟨-, hlen, rfl⟩ := FileDescriptor.read_returns hread
  have htake : Move A fuel s _ := .take s data hopen (Nat.le_trans hlen (Nat.min_le_right _ _))
  simp only at h
  split at h
  · exact absurd h not_returns_throw
  · split at h
    · rw [← returns_pure_iff.mp h]
      exact (ReflTransGen.single htake).tail (.finish _)
    · rw [← returns_pure_iff.mp h]
      exact .single htake

/-- What the owner takes leaves the stream, and the end is passed on. -/
theorem rule3_moves (h : Returns (rule3.callback s) s') : ReflTransGen (Move A fuel) s s' := by
  obtain ⟨⟨n, threadData⟩, hwrite, h⟩ := returns_bind_iff.mp h
  obtain ⟨chunks, rfl, hwrote⟩ := FileDescriptor.write_returns hwrite
  rw [ByteStream.peekOutput_eq, List.flatten_cons, List.flatten_nil, List.append_nil] at hwrote
  have hle : n ≤ min (min 65536 s.tcp.inboundStream.bufferSize) s.tcp.inboundStream.bufferSize := by
    have := hwrote.total_le
    rwa [List.length_take, ByteStream.length_stream] at this
  have hchunks : chunks = [s.tcp.inboundStream.stream.take n] := by
    obtain ⟨chunk, rfl⟩ := List.length_eq_one_iff.mp (hwrote.one rfl)
    have hflatten := hwrote.flatten_eq
    rw [List.flatten_cons, List.flatten_nil, List.append_nil, List.take_take] at hflatten
    rw [hflatten, Nat.min_eq_left (by omega)]
  subst hchunks
  have hgive : ReflTransGen (Move A fuel) s _ := .single (.give s n (by omega))
  simp only at h
  split at h
  · next hend =>
      obtain ⟨u, hshut, h⟩ := returns_bind_iff.mp h
      rw [← returns_pure_iff.mp h]
      exact hgive.tail (.shut _ u hend hshut)
  · rw [← returns_pure_iff.mp h]
    exact hgive

/-- The segments are sent, one after the other. -/
theorem sendSegments_moves (hs : s.tcp.segmentsOut = segs)
    (h : Returns (sendSegments A segs s) s') : ReflTransGen (Move A fuel) s s' := by
  induction segs generalizing s with
  | nil =>
      rw [← returns_pure_iff.mp h]
  | cons seg segs ih =>
      obtain ⟨a, hwrite, h⟩ := returns_bind_iff.mp h
      exact (ReflTransGen.single (.send s seg segs a hs hwrite)).trans (ih rfl h)

/-! ## The loop -/

/-- What the interest of rule 2 is about; no other rule has a condition. -/
def Pre (r : Rule (TCPSpongeSocket α)) (s : TCPSpongeSocket α) : Prop :=
  r = rule2 → s.outboundShutdown = false

/-- **Each callback** is a run of moves. -/
theorem callback_moves {r : Rule (TCPSpongeSocket α)} (hr : r ∈ rules A fuel) (hpre : Pre r s)
    (h : Returns (r.callback s) s') : ReflTransGen (Move A fuel) s s' := by
  rcases mem_rules.mp hr with rfl | rfl | rfl | rfl
  · exact rule1_moves h
  · exact rule2_moves (hpre rfl) h
  · exact rule3_moves h
  · exact sendSegments_moves rfl h

/-- **Each cancellation** is a run of moves. -/
theorem cancel_moves {r : Rule (TCPSpongeSocket α)} (hr : r ∈ rules A fuel)
    (h : Returns (r.cancel s) s') : ReflTransGen (Move A fuel) s s' := by
  rcases mem_rules.mp hr with rfl | rfl | rfl | rfl <;> rw [← returns_pure_iff.mp h]
  exact .single (.finish s)

/-- Rule 1 does not pass on the end of the owner's stream. -/
theorem rule1_outboundShutdown (h : Returns ((rule1 A fuel).callback s) s') :
    s'.outboundShutdown = s.outboundShutdown := by
  have hnote : ∀ t : TCPSpongeSocket α, t.noteFullyAcked.outboundShutdown = t.outboundShutdown := by
    intro t
    unfold noteFullyAcked
    split <;> rfl
  obtain ⟨⟨seg, a⟩, -, h⟩ := returns_bind_iff.mp h
  cases seg with
  | none => rw [← returns_pure_iff.mp h, hnote]
  | some seg =>
      obtain ⟨tcp, -, h⟩ := returns_bind_iff.mp h
      rw [← returns_pure_iff.mp h, hnote]

theorem pre_of_direction {r : Rule (TCPSpongeSocket α)} (h : r.direction = .Out) : Pre r s := by
  rintro rfl
  exact absurd h (nofun : Direction.In ≠ .Out)

/-- The rules keep their promises: in between, nothing but rule 2 itself ends the outbound
stream. -/
theorem rules_contract (A : FdAdapter α) (fuel : Nat) (s₀ : TCPSpongeSocket α) :
    EventLoop.Contract (fun _ => ReflTransGen (Move A fuel) s₀) Pre (rules A fuel) where
  interest _ _ _ _ hint := by
    rintro rfl
    simp only [rule2, Bool.and_eq_true, Bool.not_eq_true'] at hint
    exact hint.1.2
  callback hlive hr hs hpre h := hs.trans (callback_moves (hlive.subset hr) hpre h)
  cancel hlive hs h :=
    hs.trans (cancel_moves (hlive.subset (List.mem_append_right _ List.mem_cons_self)) h)
  apart := by
    have hout : ∀ (r : Rule (TCPSpongeSocket α)) {s}, r.direction = .Out → Pre r s :=
      fun r s hr => pre_of_direction hr
    refine .cons ?_ (.cons ?_ (.cons ?_ (.cons (by simp) .nil)))
    · intro r' hr'
      simp only [List.mem_cons, List.not_mem_nil, or_false] at hr'
      rcases hr' with rfl | rfl | rfl
      · refine ⟨fun s s' _ hpre h _ => ?_, fun s s' hpre h => ?_, fun s s' hpre h heq => ?_⟩
        · rw [rule1_outboundShutdown h]
          exact hpre rfl
        · exact returns_pure_iff.mp h ▸ hpre
        · -- were the first rule the second one, its cancellation would do nothing
          rw [← heq] at h
          exact returns_pure_iff.mp h ▸ hpre heq
      · exact ⟨fun _ _ _ _ _ => hout rule3 rfl, fun _ _ _ _ => hout rule3 rfl,
          fun s s' hpre h => returns_pure_iff.mp h ▸ hpre⟩
      · exact ⟨fun _ _ _ _ _ => hout (rule4 A) rfl, fun _ _ _ _ => hout (rule4 A) rfl,
          fun s s' hpre h => returns_pure_iff.mp h ▸ hpre⟩
    · intro r' hr'
      simp only [List.mem_cons, List.not_mem_nil, or_false] at hr'
      rcases hr' with rfl | rfl
      · exact ⟨fun _ _ _ _ _ => hout rule3 rfl, fun _ _ _ _ => hout rule3 rfl,
          fun s s' hpre h => returns_pure_iff.mp h ▸ hpre⟩
      · exact ⟨fun _ _ _ _ _ => hout (rule4 A) rfl, fun _ _ _ _ => hout (rule4 A) rfl,
          fun s s' hpre h => returns_pure_iff.mp h ▸ hpre⟩
    · intro r' hr'
      simp only [List.mem_cons, List.not_mem_nil, or_false] at hr'
      subst hr'
      exact ⟨fun _ _ _ _ _ => hout (rule4 A) rfl, fun _ _ _ _ => hout (rule4 A) rfl,
        fun s s' hpre h => returns_pure_iff.mp h ▸ hpre⟩

/-- What a turn leaves of the rules is some of them, and what it does to the socket is a
chain of moves. -/
theorem turn_moves {h h' : Running α} (hrules : h.rules.Sublist (rules A fuel))
    (hturn : Returns (turn A fuel h t) (goes, h')) :
    h'.rules.Sublist (rules A fuel) ∧ ReflTransGen (Move A fuel) h.sock h'.sock := by
  obtain ⟨⟨ret, rs, sock⟩, hwait, hturn⟩ := returns_bind_iff.mp hturn
  have hmoves := (rules_contract A fuel h.sock).waitNextEvent_returns hrules .refl hwait
  have hsub := (EventLoop.waitNextEvent_sublist hwait).trans hrules
  simp only at hturn
  split at hturn
  · rw [returns_pure_iff, Prod.mk.injEq] at hturn
    exact hturn.2 ▸ ⟨hsub, hmoves⟩
  · split at hturn
    · next hactive =>
        obtain ⟨tcp, htcp, hturn⟩ := returns_bind_iff.mp hturn
        obtain ⟨a, ha, hturn⟩ := returns_bind_iff.mp hturn
        rw [returns_pure_iff, Prod.mk.injEq] at hturn
        rw [returns_ofOption_iff] at htcp
        exact hturn.2 ▸ ⟨hsub, hmoves.tail (.tick sock _ tcp a hactive htcp ha)⟩
    · rw [returns_pure_iff, Prod.mk.injEq] at hturn
      exact hturn.2 ▸ ⟨hsub, hmoves⟩

end TCPSpongeSocket

end Sponge
