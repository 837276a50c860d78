import Sponge.Lib.Run
import Sponge.TCPConnection

/-!
# Sponge.Network

Two connections and a network between them that may drop, duplicate, delay and
reorder segments but forges none.

Each endpoint keeps a record of every segment it has put on `segments_out`.
A delivery takes any segment of the peer's record, any number of times and at
any time; a segment that is never taken is lost.  The record also has the
bytes the endpoint's `write` has accepted and those read from its inbound
stream, which is what the theorems about the network compare.

As for a single connection, an operation of an endpoint is a chain of small
changes (`Endpoint.Micro`), those of the connection and those of the record.
-/

namespace Sponge

/-- A connection, with what went over the wire and what its owner has written and read. -/
structure Endpoint where
  conn : TCPConnection
  /-- Everything that was on `segments_out` after some operation. -/
  wire : List TCPSegment
  written : List UInt8
  consumed : List UInt8

namespace Endpoint

def new (cfg : TCPConfig) (random : UInt32) : Endpoint :=
  ⟨TCPConnection.new cfg random, [], [], []⟩

/-- Only what is on the wire can be delivered. -/
def CanHappen (wire : List TCPSegment) : TCPConnection.Op → Prop
  | .segmentReceived seg => seg ∈ wire
  | _ => True

instance (wire : List TCPSegment) : (op : TCPConnection.Op) → Decidable (CanHappen wire op)
  | .segmentReceived seg => inferInstanceAs (Decidable (seg ∈ wire))
  | .connect | .write _ | .endInputStream | .tick _ | .readInbound _ | .dequeue =>
      inferInstanceAs (Decidable True)

/-- The bytes that an operation writes to the outbound stream. -/
def accepted (c : TCPConnection) : TCPConnection.Op → List UInt8
  | .write data => data.take (c.write data).1
  | _ => []

/-- The bytes that an operation reads from the inbound stream. -/
def taken (c : TCPConnection) : TCPConnection.Op → List UInt8
  | .readInbound len => (c.readInbound len).1
  | _ => []

/-- One operation of an endpoint whose peer has put `wire` on the network. -/
def step (fuel : Nat) (wire : List TCPSegment) (p : Endpoint) (op : TCPConnection.Op) :
    Option Endpoint :=
  if CanHappen wire op then
    match TCPConnection.step fuel p.conn op with
    | none => none
    | some c =>
        some {
          conn := c
          wire := p.wire ++ c.segmentsOut
          written := p.written ++ accepted p.conn op
          consumed := p.consumed ++ taken p.conn op }
  else none

/-- An operation that can happen and returns. -/
theorem step_eq_some {p p' : Endpoint} {wire : List TCPSegment} {op : TCPConnection.Op} :
    step fuel wire p op = some p' ↔ CanHappen wire op ∧
      ∃ c, TCPConnection.step fuel p.conn op = some c ∧
        { conn := c, wire := p.wire ++ c.segmentsOut, written := p.written ++ accepted p.conn op,
          consumed := p.consumed ++ taken p.conn op } = p' := by
  unfold step
  by_cases hop : CanHappen wire op
  · rw [if_pos hop]
    cases TCPConnection.step fuel p.conn op with
    | none => simp
    | some c => simp [hop]
  · rw [if_neg hop]
    simp [hop]

/-! ## What an operation is made of -/

/-- The operation neither writes nor reads. -/
def Quiet : TCPConnection.Op → Prop
  | .write _ | .readInbound _ => False
  | _ => True

/-- One of the small changes an operation is made of, `r₀` being the receiver before
the operation; `can` says which operations are in question. -/
inductive Micro (fuel : Nat) (r₀ : TCPReceiver) (can : TCPConnection.Op → Prop) :
    Endpoint → Endpoint → Prop
  | conn (p : Endpoint) (op : TCPConnection.Op) (c : TCPConnection) : Quiet op → can op →
      TCPConnection.Micro fuel r₀ op p.conn c → Micro fuel r₀ can p { p with conn := c }
  | write (p : Endpoint) (data : List UInt8) : Micro fuel r₀ can p { p with
      conn := { p.conn with sender := { p.conn.sender with
        stream := (p.conn.sender.stream.write data).2 } }
      written := p.written ++ data.take (p.conn.sender.stream.write data).1 }
  | read (p : Endpoint) (len : Nat) : Micro fuel r₀ can p { p with
      conn := (p.conn.readInbound len).2
      consumed := p.consumed ++ (p.conn.readInbound len).1 }
  | publish (p : Endpoint) : Micro fuel r₀ can p { p with wire := p.wire ++ p.conn.segmentsOut }

/-- More operations may be allowed. -/
theorem Micro.imp {p p' : Endpoint} {can can' : TCPConnection.Op → Prop}
    (h : Micro fuel r₀ can p p') (himp : ∀ op, can op → can' op) : Micro fuel r₀ can' p p' := by
  cases h with
  | conn op c hquiet hcan hm => exact .conn p op c hquiet (himp op hcan) hm
  | write data => exact .write p data
  | read len => exact .read p len
  | publish => exact .publish p

open Relation (ReflTransGen)

/-- What a connection does in a quiet operation, its endpoint does. -/
theorem micro_conn {p : Endpoint} {op : TCPConnection.Op} {can : TCPConnection.Op → Prop}
    (h : ReflTransGen (TCPConnection.Micro fuel r₀ op) p.conn c) (hcan : can op)
    (hquiet : Quiet op) : ReflTransGen (Micro fuel r₀ can) p { p with conn := c } := by
  induction h with
  | refl => exact .refl
  | tail _ hm ih => exact ih.tail (.conn _ op _ hquiet hcan hm)

/-- **Every operation is a chain of small changes.** -/
theorem step_micro {p p' : Endpoint} {wire : List TCPSegment} {op : TCPConnection.Op}
    {can : TCPConnection.Op → Prop} (hcan : can op) (hconnect : can .connect)
    (h : step fuel wire p op = some p') :
    ReflTransGen (Micro fuel p.conn.receiver can) p p' := by
  obtain ⟨-, c, hstep, rfl⟩ := step_eq_some.mp h
  have hpublish : ∀ {u : Endpoint}, ReflTransGen (Micro fuel p.conn.receiver can) p u →
      ReflTransGen (Micro fuel p.conn.receiver can) p
        { u with wire := u.wire ++ u.conn.segmentsOut } :=
    fun hu => hu.tail (.publish _)
  cases op with
  | write data =>
      rw [TCPConnection.step, Option.some.injEq] at hstep
      subst hstep
      simp only [accepted, taken, List.append_nil]
      by_cases hdata : data.length = 0
      · have hnone : p.conn.write data = (0, p.conn) := if_pos hdata
        rw [hnone, List.take_zero, List.append_nil]
        exact hpublish .refl
      · -- a write puts bytes on the stream and then does what `connect` does
        have hwrite : p.conn.write data = ((p.conn.sender.stream.write data).1,
            { p.conn with sender := { p.conn.sender with
                stream := (p.conn.sender.stream.write data).2 } }.connect) := if_neg hdata
        rw [hwrite]
        have hstream : ReflTransGen (Micro fuel p.conn.receiver can) p _ :=
          .single (.write p data)
        exact hpublish (hstream.trans (micro_conn
          (TCPConnection.micro_sendSegmentsOut (.single (.fill .connect _))) hconnect trivial))
  | readInbound len =>
      rw [TCPConnection.step, Option.some.injEq] at hstep
      subst hstep
      simp only [accepted, taken, List.append_nil]
      exact hpublish (.single (.read p len))
  | _ =>
      simp only [accepted, taken, List.append_nil]
      exact hpublish (micro_conn (TCPConnection.step_micro hstep) hcan trivial)

/-- **Invariant rule**: what every small change preserves, every operation
preserves. -/
theorem step_preserves {P : Endpoint → Prop} {p p' : Endpoint} {wire : List TCPSegment}
    {op : TCPConnection.Op} {can : TCPConnection.Op → Prop} (hcan : can op)
    (hconnect : can .connect) (hP : P p)
    (hmicro : ∀ u v, P u → Micro fuel p.conn.receiver can u v → P v)
    (h : step fuel wire p op = some p') : P p' := by
  have hchain := step_micro hcan hconnect h
  clear h
  induction hchain with
  | refl => exact hP
  | tail _ hm ih => exact hmicro _ _ ih hm

end Endpoint

inductive Side where
  | A
  | B

/-- Two endpoints. -/
structure Network where
  a : Endpoint
  b : Endpoint

namespace Network

def new (cfgA cfgB : TCPConfig) (randomA randomB : UInt32) : Network :=
  ⟨Endpoint.new cfgA randomA, Endpoint.new cfgB randomB⟩

/-- One operation on one side. -/
def step (fuel : Nat) (n : Network) : Side × TCPConnection.Op → Option Network
  | (.A, op) => (n.a.step fuel n.b.wire op).map fun a => { n with a := a }
  | (.B, op) => (n.b.step fuel n.a.wire op).map fun b => { n with b := b }

/-- **Invariant rule** for one endpoint at a time: what every operation of an endpoint
preserves holds of both at the end of every run. -/
theorem exec_both {P : Endpoint → Prop} {n n' : Network} (ha : P n.a) (hb : P n.b)
    (hstep : ∀ p p' wire op, P p → p.step fuel wire op = some p' → P p')
    (h : exec (step fuel) n acts = some n') : P n'.a ∧ P n'.b := by
  refine exec_invariant (P := fun n => P n.a ∧ P n.b) ?_ ⟨ha, hb⟩ h
  rintro n ⟨side, op⟩ n' ⟨ha, hb⟩ hn
  cases side with
  | A =>
      obtain ⟨a, hop, rfl⟩ := Option.map_eq_some_iff.mp hn
      exact ⟨hstep n.a a n.b.wire op ha hop, hb⟩
  | B =>
      obtain ⟨b, hop, rfl⟩ := Option.map_eq_some_iff.mp hn
      exact ⟨ha, hstep n.b b n.a.wire op hb hop⟩

end Network

end Sponge
