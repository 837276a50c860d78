import Sponge.FdAdapter.Robust
import Sponge.TCPSpongeSocket.Simulation

/-!
# Sponge.TCPSpongeSocket.Exceptions

What can end the thread of a socket with an exception: a system call that fails
or does what it may not, and a descriptor in error (`thread_throws`).  No packet
does, whatever is in it.  Of the exceptions the code itself provides for, none
happens: no rule makes the loop wait busily, the connection takes all that was
read for it, and its segments fit into the datagrams they are put in.

The last point is about the connection, which has to be followed through what
the network does to it.  Each segment that comes from the adapter is one that
some peer could have sent, so `Sponge.Endpoint` serves for that (`Sturdy`).
-/

namespace Sponge

open EventLoop (Rule Cause Contract busyWait pollError)
open Relation (ReflTransGen)

namespace TCPSpongeSocket

variable {A : FdAdapter α} (hA : A.Robust)

/-! ## Sockets that withstand the network -/

/-- The segments are modest, and the adapter is in order. -/
def Sturdy (s : TCPSpongeSocket α) : Prop :=
  (∃ p, Follows p s ∧ p.Modest) ∧ hA.Ok s.datagramAdapter

variable {hA} {s s' : TCPSpongeSocket α}

/-- What is queued is within the limits. -/
theorem Sturdy.modest (h : Sturdy hA s) (hseg : seg ∈ s.tcp.segmentsOut) : seg.Modest := by
  obtain ⟨⟨p, hp, hm⟩, -⟩ := h
  exact hm.wire seg (hp.queued seg hseg)

/-- What the adapter reads, as the wire of a peer. -/
theorem Sturdy.move (h : Sturdy hA s) (hmove : Move A fuel s s') : Sturdy hA s' := by
  have hok : hA.Ok s'.datagramAdapter := by
    cases hmove with
    | nothing a hread => exact hA.read h.2 hread
    | receive seg a tcp hread => exact hA.read h.2 hread
    | send seg segs a hout hwrite =>
        exact hA.write h.2 (h.modest (hout ▸ List.mem_cons_self)) hwrite
    | tick ms tcp a _ _ htick => exact hA.tick h.2 htick
    | acked | take | finish | give | shut => exact h.2
  obtain ⟨⟨p, hp, hm⟩, -⟩ := h
  have hread : ∃ wire : List TCPSegment, ∀ seg a,
      Returns (A.read s.datagramAdapter) (some seg, a) → ∃ w ∈ wire, seg.Same w := by
    cases hres : (A.read s.datagramAdapter).result? with
    | none =>
        refine ⟨[], fun seg a hseg => ?_⟩
        rw [← result?_eq_some_iff, hres] at hseg
        contradiction
    | some r =>
        refine ⟨r.1.toList, fun seg a hseg => ⟨seg, ?_, rfl, rfl⟩⟩
        rw [← result?_eq_some_iff, hres, Option.some.injEq] at hseg
        rw [hseg]
        exact Option.mem_toList.mpr rfl
  obtain ⟨wire, hwire⟩ := hread
  rcases hp.move hmove hwire with hsame | ⟨op, p', hstep, hp'⟩
  · exact ⟨⟨p, hsame, hm⟩, hok⟩
  · exact ⟨⟨p', hp', hm.of_step hstep⟩, hok⟩

/-- Every move keeps the socket sturdy. -/
theorem Sturdy.moves (h : Sturdy hA s) (hmoves : ReflTransGen (Move A fuel) s s') :
    Sturdy hA s' := by
  induction hmoves with
  | refl => exact h
  | tail _ hmove ih => exact ih.move hmove

/-- So is a socket that was started. -/
theorem sturdy_start {o : Opening} {threadData : FileDescriptor} {adapter : α} {h : Host α}
    (hok : hA.Ok adapter) (hstart : Returns (start A fuel o threadData adapter) h) :
    Sturdy hA h.running.sock := by
  obtain ⟨-, hopen, -⟩ := start_returns A fuel hstart
  have hsturdy : ∀ p : Endpoint, p.Modest → p.conn = h.running.sock.tcp →
      (∀ seg ∈ p.conn.segmentsOut, seg ∈ p.wire) → hA.Ok h.running.sock.datagramAdapter →
      Sturdy hA h.running.sock := fun p hm hconn hqueued hok =>
    ⟨⟨{ p with
        written := h.running.sock.threadData.got
        consumed := h.running.sock.threadData.put.flatten },
      ⟨hconn, rfl, rfl, hconn ▸ hqueued⟩, ⟨hm.sender, hm.queue, hm.wire⟩⟩, hok⟩
  have hnew := Endpoint.modest_new o.cTcp o.random
  rcases hopen with ⟨htcp, heq⟩ | ⟨htcp, heq⟩
  · have hstep : (Endpoint.new o.cTcp o.random).step fuel [] .connect = some _ :=
      Endpoint.step_eq_some.mpr ⟨trivial, _, rfl, rfl⟩
    exact hsturdy _ (hnew.of_step hstep) htcp.symm (fun _ => id) (heq ▸ hA.configure hok _)
  · exact hsturdy _ hnew htcp.symm (by simp [Endpoint.new, TCPConnection.new])
      (heq ▸ hA.setListening (hA.configure hok _) true)

/-! ## Callbacks that throw -/

/-- No segment makes rule 1 throw. -/
theorem rule1_throws (h : Sturdy hA s) (fuel : Nat) :
    OnlyThrows KernelFault ((rule1 A fuel).callback s) := by
  refine (hA.readFaults h.2).bind fun p _ => ?_
  obtain ⟨seg, a⟩ := p
  cases seg with
  | none => exact onlyThrows_pure _
  | some seg => exact (onlyThrows_ofOption _).bind fun _ _ => onlyThrows_pure _

/-- The connection takes all that was read for it. -/
theorem rule2_throws (s : TCPSpongeSocket α) : OnlyThrows KernelFault (rule2.callback s) := by
  refine (s.threadData.onlyThrows_read _).bind fun p hread => ?_
  obtain ⟨-, hlen, -⟩ := FileDescriptor.read_returns hread
  have hall := TCPConnection.write_all (Nat.le_trans hlen (Nat.min_le_right _ _))
  exact .ite (fun hless => absurd hall hless) fun _ =>
    .ite (fun _ => onlyThrows_pure _) fun _ => onlyThrows_pure _

/-- Only the kernel makes rule 3 throw. -/
theorem rule3_throws (s : TCPSpongeSocket α) : OnlyThrows KernelFault (rule3.callback s) :=
  (s.threadData.onlyThrows_write _ false).bind fun p _ => .ite
    (fun _ => (p.2.onlyThrows_shutdown _).bind fun _ _ => onlyThrows_pure _)
    fun _ => onlyThrows_pure _

/-- Only the kernel makes rule 4 throw. -/
theorem sendSegments_throws (h : Sturdy hA s) (hs : s.tcp.segmentsOut = segs) (fuel : Nat) :
    OnlyThrows KernelFault (sendSegments A segs s) := by
  induction segs generalizing s with
  | nil => exact onlyThrows_pure s
  | cons seg segs ih =>
      refine (hA.writeFaults h.2 (h.modest (hs ▸ List.mem_cons_self))).bind fun a hwrite => ?_
      have hmove : Move A fuel s _ := .send s seg segs a hs hwrite
      exact ih (h.move hmove) rfl

/-! ## Callbacks that return -/

theorem noteFullyAcked_datagramAdapter (s : TCPSpongeSocket α) :
    s.noteFullyAcked.datagramAdapter = s.datagramAdapter := by
  unfold noteFullyAcked
  split <;> rfl

/-- Rule 1 never busy waits. -/
theorem rule1_counts (hA : A.Robust) {s s' : TCPSpongeSocket α}
    (h : Returns ((rule1 A fuel).callback s) s') :
    (rule1 A fuel).serviceCount s' ≠ (rule1 A fuel).serviceCount s := by
  obtain ⟨⟨seg, a⟩, hread, h⟩ := returns_bind_iff.mp h
  have hadapter : s'.datagramAdapter = a := by
    cases seg with
    | none =>
        rw [← returns_pure_iff.mp h, noteFullyAcked_datagramAdapter]
    | some seg =>
        obtain ⟨tcp, -, h⟩ := returns_bind_iff.mp h
        rw [← returns_pure_iff.mp h, noteFullyAcked_datagramAdapter]
  show (A.fd s'.datagramAdapter).readCount ≠ _
  rw [hadapter, hA.counts hread]
  exact add_one_ne _

/-- Rule 2 never busy waits. -/
theorem rule2_counts {s s' : TCPSpongeSocket α} (h : Returns (rule2.callback s) s') :
    rule2.serviceCount s' ≠ rule2.serviceCount s := by
  obtain ⟨⟨data, threadData⟩, hread, h⟩ := returns_bind_iff.mp h
  obtain ⟨-, hlen, rfl⟩ := FileDescriptor.read_returns hread
  have hall := TCPConnection.write_all (Nat.le_trans hlen (Nat.min_le_right _ _))
  simp only [hall, ne_eq, not_true_eq_false, ↓reduceIte] at h
  have hthread : s'.threadData = s.threadData.received s.tcp.remainingOutboundCapacity data := by
    split at h
    · rw [← returns_pure_iff.mp h]
      rfl
    · rw [← returns_pure_iff.mp h]
  show s'.threadData.readCount ≠ s.threadData.readCount
  rw [hthread]
  exact add_one_ne _

/-- Rule 3 never busy waits. -/
theorem rule3_counts {s s' : TCPSpongeSocket α} (h : Returns (rule3.callback s) s') :
    rule3.serviceCount s' ≠ rule3.serviceCount s := by
  obtain ⟨⟨n, threadData⟩, hwrite, h⟩ := returns_bind_iff.mp h
  obtain ⟨chunks, rfl, hwrote⟩ := FileDescriptor.write_returns hwrite
  have hone : (s.threadData.took chunks).writeCount = s.threadData.writeCount + 1 := by
    rw [FileDescriptor.took, hwrote.one rfl]
    rfl
  show s'.threadData.writeCount ≠ s.threadData.writeCount
  simp only at h
  split at h
  · obtain ⟨u, hshut, h⟩ := returns_bind_iff.mp h
    rw [← returns_pure_iff.mp h, FileDescriptor.shutdown_returns hshut]
    simp only [hone]
    rw [UInt32.add_assoc, ne_eq, UInt32.add_eq_left]
    decide
  · rw [← returns_pure_iff.mp h]
    simp only [hone]
    exact add_one_ne _

/-- Rule 4 is not interested any more once it was called. -/
theorem sendSegments_segmentsOut {s s' : TCPSpongeSocket α} (hs : s.tcp.segmentsOut = segs)
    (h : Returns (sendSegments A segs s) s') : s'.tcp.segmentsOut = [] := by
  induction segs generalizing s with
  | nil => rw [← returns_pure_iff.mp h, hs]
  | cons seg segs ih =>
      obtain ⟨a, -, h⟩ := returns_bind_iff.mp h
      exact ih rfl h

/-! ## Turns -/

/-- The exceptions of the rules. -/
theorem cause_rules {P : List (Rule (TCPSpongeSocket α)) → TCPSpongeSocket α → Prop}
    (hP : ∀ {live s}, P live s → Sturdy hA s)
    (h : Cause P Pre (rules A fuel) e) : e = pollError ∨ KernelFault e := by
  cases h with
  | poll => exact .inl rfl
  | callback live r s _ hr hs _ h =>
      have hsturdy := hP hs
      rcases mem_rules.mp hr with rfl | rfl | rfl | rfl
      · exact .inr (rule1_throws hsturdy fuel h)
      · exact .inr (rule2_throws s h)
      · exact .inr (rule3_throws s h)
      · exact .inr (sendSegments_throws hsturdy rfl fuel h)
  | cancel live r s _ hr _ h =>
      rcases mem_rules.mp hr with rfl | rfl | rfl | rfl <;> exact absurd h not_throws_pure
  | busy live r s s' hr _ _ hcall hcount hint =>
      rcases mem_rules.mp hr with rfl | rfl | rfl | rfl
      · exact absurd hcount (rule1_counts hA hcall)
      · exact absurd hcount (rule2_counts hcall)
      · exact absurd hcount (rule3_counts hcall)
      · simp [rule4, sendSegments_segmentsOut rfl hcall] at hint

/-- What a turn of the loop throws. -/
theorem turn_throws {h : Running α} (hs : Sturdy hA h.sock) (hrules : h.rules.Sublist (rules A fuel))
    (hturn : Throws (turn A fuel h t) e) : e = pollError ∨ KernelFault e := by
  have hcontract := rules_contract A fuel h.sock
  rcases throws_bind_iff.mp hturn with hwait | ⟨⟨ret, rs, sock⟩, hwait, hturn⟩
  · exact cause_rules hs.moves (hcontract.waitNextEvent_throws hrules .refl hwait)
  · have hsock := hs.moves (hcontract.waitNextEvent_returns hrules .refl hwait)
    have hrest : OnlyThrows KernelFault (do
        let tcp ← Call.ofOption (sock.tcp.tick fuel ((t.nextTime + 2 ^ 64 - h.baseTime) % 2 ^ 64))
        let adapter ← A.tick sock.datagramAdapter ((t.nextTime + 2 ^ 64 - h.baseTime) % 2 ^ 64)
        return (true, { h with
          rules := rs
          sock := { sock with tcp := tcp, datagramAdapter := adapter }
          baseTime := t.nextTime })) :=
      (onlyThrows_ofOption _).bind fun _ _ => (hA.tickFaults hsock.2 _).bind fun _ _ =>
        onlyThrows_pure _
    refine .inr (OnlyThrows.ite (fun _ => onlyThrows_pure _) (fun _ => .ite (fun _ => hrest)
      fun _ => onlyThrows_pure _) hturn)

/-- What the loop throws, by its last turn. -/
theorem tcpLoop_throws {h : Running α} (hs : Sturdy hA h.sock)
    (hrules : h.rules.Sublist (rules A fuel))
    (hloop : Throws (tcpLoop A fuel condition turns h) e) : e = pollError ∨ KernelFault e := by
  induction turns generalizing h with
  | nil =>
      unfold tcpLoop at hloop
      split at hloop
      · exact absurd hloop not_throws_outOfFuel
      · exact absurd hloop not_throws_pure
  | cons t turns ih =>
      unfold tcpLoop at hloop
      split at hloop
      · rcases throws_bind_iff.mp hloop with hturn | ⟨⟨goes, h'⟩, hturn, hloop⟩
        · exact turn_throws hs hrules hturn
        · obtain ⟨hrules', hmoves⟩ := turn_moves hrules hturn
          simp only at hloop
          split at hloop
          · exact ih (hs.moves hmoves) hrules' hloop
          · exact absurd hloop not_throws_pure
      · exact absurd hloop not_throws_pure

/-! ## The whole life of a socket -/

variable (A) in
/-- `connect` or `listen_and_accept`, and then `_tcp_main`, which ends with a `shutdown` of
the owner's descriptor. -/
def life (fuel : Nat) (o : Opening) (threadData : FileDescriptor) (adapter : α)
    (opening main : List Turn) (time : Nat) (owner : FileDescriptor) :
    Call Failure (Running α) := do
  let h ← start A fuel o threadData adapter
  let r ← tcpLoop A fuel h.phase.condition opening h.running
  let r ← tcpLoop A fuel Phase.main.condition main { r with baseTime := time }
  let _ ← owner.shutdown .SHUT_RDWR
  return r

/-- What a loop that is over leaves behind. -/
theorem tcpLoop_moves {h h' : Running α} (hrules : h.rules.Sublist (rules A fuel))
    (hloop : Returns (tcpLoop A fuel condition turns h) h') :
    h'.rules.Sublist (rules A fuel) ∧ ReflTransGen (Move A fuel) h.sock h'.sock := by
  induction turns generalizing h with
  | nil =>
      unfold tcpLoop at hloop
      split at hloop
      · exact absurd hloop not_returns_outOfFuel
      · exact returns_pure_iff.mp hloop ▸ ⟨hrules, .refl⟩
  | cons t turns ih =>
      unfold tcpLoop at hloop
      split at hloop
      · obtain ⟨⟨goes, u⟩, hturn, hloop⟩ := returns_bind_iff.mp hloop
        obtain ⟨hrules', hmoves⟩ := turn_moves hrules hturn
        simp only at hloop
        split at hloop
        · obtain ⟨hrules'', hmoves'⟩ := ih hrules' hloop
          exact ⟨hrules'', hmoves.trans hmoves'⟩
        · exact returns_pure_iff.mp hloop ▸ ⟨hrules', hmoves⟩
      · exact returns_pure_iff.mp hloop ▸ ⟨hrules, .refl⟩

/-- **What ends a socket with an exception**, whatever the packets are that arrive and
whatever the owner does: a descriptor in error, or a system call that fails or
does what it may not. -/
theorem life_throws (hA : A.Robust) {threadData : FileDescriptor} (hok : hA.Ok adapter)
    (h : Throws (life A fuel o threadData adapter opening main time owner) e) :
    e = pollError ∨ KernelFault e := by
  obtain ⟨host, hstart⟩ := exists_start A fuel o threadData adapter
  have hrules := (start_returns A fuel hstart).1
  have hsturdy := sturdy_start hok hstart
  rcases throws_bind_iff.mp h with h | ⟨host', hstart', h⟩
  · rw [Throws, hstart] at h
    simp at h
  obtain rfl : host = host' := by simpa [Returns] using hstart.symm.trans hstart'
  have hsub : host.running.rules.Sublist (rules A fuel) := hrules ▸ List.Sublist.refl _
  rcases throws_bind_iff.mp h with h | ⟨r, hloop, h⟩
  · exact tcpLoop_throws hsturdy hsub h
  obtain ⟨hsub', hmoves⟩ := tcpLoop_moves hsub hloop
  rcases throws_bind_iff.mp h with h | ⟨r', -, h⟩
  · exact tcpLoop_throws (h := { r with baseTime := time }) (hsturdy.moves hmoves) hsub' h
  · exact .inr ((owner.onlyThrows_shutdown _).bind (fun _ _ => onlyThrows_pure _) h)

/-- A device on which there is first a string that is no frame, and then an error. -/
def faulty : TCPOverIPv4OverEthernetAdapter where
  cfg := ⟨⟨0x0a000002, 80⟩, ⟨0, 0⟩⟩
  tap := { reads := [fun _ => .ok [1, 2, 3], fun _ => .error 5] }
  interface := .new #v[2, 0, 0, 0, 0, 2] ⟨0x0a000002, 80⟩
  nextHop := ⟨0x0a000001, 0⟩

theorem robust_faulty :
    (TCPOverIPv4OverEthernetAdapter.robust .bytewise 9).Ok faulty :=
  ⟨by simp [faulty, NetworkInterface.new], by simp [faulty, NetworkInterface.new]⟩

/-- Two turns in which the device is ready. -/
def faultyLife : Call Failure (Running TCPOverIPv4OverEthernetAdapter) :=
  life (TCPOverIPv4OverEthernetAdapter.adapter .bytewise 9) 9
    { cTcp := {}, cAd := faulty.cfg, passive := true } {} faulty
    (.replicate 2 { answer := .ready [{ pollIn := true }], nextTime := 0 }) [] 0 {}

/-- A device whose first read fails. -/
theorem life_throws_faulty :
    Throws faultyLife (.unixError "read" 5) ∧
      (.unixError "read" 5 = pollError ∨ KernelFault (.unixError "read" 5)) := by
  have hrun : faultyLife.run.map (fun r => r.map fun _ => ()) =
      some (.error (.unixError "read" 5)) := by
    decide +kernel
  obtain ⟨r, hr, heq⟩ := Option.map_eq_some_iff.mp hrun
  have hthrows : Throws faultyLife (.unixError "read" 5) := by
    rw [Throws, hr]
    cases r with
    | ok r => simp [Except.map] at heq
    | error e => rw [Except.error.inj heq]
  exact ⟨hthrows, life_throws _ robust_faulty hthrows⟩

end TCPSpongeSocket

end Sponge
