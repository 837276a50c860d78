import Sponge.StreamReassembler.Origin
import Sponge.TCPReceiver.Lag

/-!
# Sponge.TCPReceiver.Placement

Where the bytes of the stream come from: the payload byte `k` of a segment that
starts at the absolute sequence number `t` belongs at the stream index
`t + 1 + k - 1` with a SYN, which takes the first number, and at `t + k - 1`
without.

`segment_received` does not look at the SYN flag for this.  It takes `t - 1`, or 0
for `t = 0`, so a segment at 0 without SYN and a SYN anywhere else land one place
too early (`Shifts`); the first kind is turned away only as long as nothing but the
SYN has been acknowledged.
-/

namespace Sponge

namespace TCPReceiver

/-! ## Sessions -/

/-- A receiver with the bytes read from it so far and the segments that have arrived,
each with `abs_seqno` as it was then. -/
structure Session where
  receiver : TCPReceiver
  consumed : List UInt8
  arrivals : List (Nat × TCPSegment)

def Session.new (cap : Nat) : Session := ⟨TCPReceiver.new cap, [], []⟩

/-- Each segment is noted with the number that it was placed by. -/
def Session.step (fuel : Nat) (s : Session) : Op → Option Session
  | .segment seg => (s.receiver.segmentReceived fuel seg).map fun r =>
      ⟨r, s.consumed, s.arrivals ++ [(s.receiver.absSeqno, seg)]⟩
  | .read len => some
      ⟨(s.receiver.readOut len).2, s.consumed ++ (s.receiver.readOut len).1, s.arrivals⟩

/-- The byte at the stream index `i` is a payload byte of a segment received, in its
place. -/
def Sourced (isn : WrappingInt32) (arrivals : List (Nat × TCPSegment)) (i : Nat) (b : UInt8) :
    Prop :=
  ∃ p ∈ arrivals, ∃ k < p.2.payload.length, p.2.payload[k]? = some b ∧
    unwrap p.2.header.seqno isn p.1 + p.2.header.syn.toNat + k = i + 1

instance (isn : WrappingInt32) (arrivals : List (Nat × TCPSegment)) (i : Nat) (b : UInt8) :
    Decidable (Sourced isn arrivals i b) :=
  inferInstanceAs (Decidable (∃ p ∈ arrivals, _))

/-- More segments may have arrived. -/
theorem Sourced.append (h : Sourced isn arrivals i b) (more : List (Nat × TCPSegment)) :
    Sourced isn (arrivals ++ more) i b := by
  obtain ⟨p, hmem, hk⟩ := h
  exact ⟨p, List.mem_append_left more hmem, hk⟩

/-! ## Misplaced segments -/

/-- The segment is handed on one place too early and brings bytes: it starts at 0
without SYN, or elsewhere with one. -/
def Shifts (r : TCPReceiver) (seg : TCPSegment) : Prop :=
  let t := (r.listen seg).tempAbsSeqno seg
  let d := Datagram.ofData seg.payload (streamIndex t) seg.header.fin
  r.Takes seg ∧ (seg.header.syn = true ↔ t ≠ 0) ∧ seg.payload ≠ [] ∧
    ¬ r.reassembler.Refuses d.index ∧
    (d.index ≤ r.reassembler.nextAssemblingIndex →
      d.fresh r.reassembler.nextAssemblingIndex ≠ [])

instance (r : TCPReceiver) (seg : TCPSegment) : Decidable (r.Shifts seg) :=
  inferInstanceAs (Decidable (_ ∧ _ ∧ _ ∧ _ ∧ _))

/-- The segment makes the reassembler overrun. -/
def Overruns (r : TCPReceiver) (seg : TCPSegment) : Prop :=
  r.Takes seg ∧ r.reassembler.Overruns seg.payload
    (streamIndex ((r.listen seg).tempAbsSeqno seg)) seg.header.fin

instance (r : TCPReceiver) (seg : TCPSegment) : Decidable (r.Overruns seg) :=
  inferInstanceAs (Decidable (_ ∧ _))

def Op.Misplaces (r : TCPReceiver) : Op → Prop
  | .segment seg => r.Shifts seg ∨ r.Overruns seg
  | .read _ => False

instance (r : TCPReceiver) : (op : Op) → Decidable (op.Misplaces r)
  | .segment seg => inferInstanceAs (Decidable (r.Shifts seg ∨ r.Overruns seg))
  | .read _ => inferInstanceAs (Decidable False)

/-- The payload is no longer than a `size_t` can say. -/
def Op.Sized : Op → Prop
  | .segment seg => seg.payload.length < 2 ^ 64
  | .read _ => True

instance : (op : Op) → Decidable op.Sized
  | .segment seg => inferInstanceAs (Decidable (seg.payload.length < 2 ^ 64))
  | .read _ => inferInstanceAs (Decidable True)

/-! ## The invariant -/

/-- Every byte of the stream has a source; before the SYN there is none. -/
structure Traced (s : Session) : Prop where
  stems : s.receiver.reassembler.Stems (Sourced s.receiver.ISN s.arrivals) s.consumed
  fresh : s.receiver.firstSegment = true →
    s.consumed ++ s.receiver.streamOut.stream = [] ∧ s.receiver.reassembler.storage = []

/-- At first there are no bytes. -/
theorem traced_new (cap : Nat) : Traced (Session.new cap) where
  stems := StreamReassembler.stems_new _ cap
  fresh := fun _ => ⟨rfl, rfl⟩

section step

variable {s : Session} {seg : TCPSegment}

theorem listen_ISN {r : TCPReceiver} (h : r.firstSegment = false) : (r.listen seg).ISN = r.ISN := by
  simp [listen, h]

/-- The first SYN fixes the number before there is anything to trace; with one more
arrival, what has been traced stays so. -/
theorem Traced.listen (hs : Traced s) (seg : TCPSegment) (more : List (Nat × TCPSegment)) :
    s.receiver.reassembler.Stems (Sourced (s.receiver.listen seg).ISN (s.arrivals ++ more))
      s.consumed := by
  cases hfirst : s.receiver.firstSegment with
  | false =>
      rw [listen_ISN hfirst]
      exact hs.stems.mono fun i b h => h.append more
  | true =>
      obtain ⟨hout, hst⟩ := hs.fresh hfirst
      refine ⟨hs.stems.sorted, hs.stems.next_eq, hs.stems.length_eq, ?_, ?_⟩
      · intro i b hb
        rw [show s.consumed ++ s.receiver.reassembler.output.stream = [] from hout] at hb
        simp at hb
      · rw [hst]
        simp

/-- A segment that does not shift has its bytes in their place. -/
theorem sourced_of_byteAt (hplace : ¬ (seg.header.syn = true ↔ t ≠ 0))
    (ht : t = unwrap seg.header.seqno isn a) (hmem : (a, seg) ∈ arrivals)
    (h : (Datagram.ofData seg.payload (streamIndex t) fin).byteAt i = some b) :
    Sourced isn arrivals i b := by
  unfold Datagram.byteAt at h
  split at h
  · next hi =>
      refine ⟨(a, seg), hmem, _, (List.getElem?_eq_some_iff.mp h).1, h, ?_⟩
      rw [← ht]
      simp only [Datagram.ofData_index, streamIndex] at hi ⊢
      cases hsyn : seg.header.syn with
      | true =>
          have h0 : t = 0 := by
            by_contra hne
            exact hplace ⟨fun _ => hne, fun _ => hsyn⟩
          simp only [h0, Bool.toNat_true] at hi ⊢
          simp only [gt_iff_lt, Nat.lt_irrefl, ↓reduceIte] at hi ⊢
          omega
      | false =>
          have hne : t ≠ 0 := by
            intro h0
            exact hplace ⟨fun hc => by simp [hsyn] at hc, fun hc => absurd h0 hc⟩
          simp only [gt_iff_lt, Nat.pos_of_ne_zero hne, ↓reduceIte, Bool.toNat_false] at hi ⊢
          omega
  · contradiction

/-- **One segment** that is not misplaced keeps the trace. -/
theorem Traced.push {reassembler : StreamReassembler} (hs : Traced s)
    (hsize : seg.payload.length < 2 ^ 64) (htakes : s.receiver.Takes seg)
    (hshift : ¬ s.receiver.Shifts seg) (hrun : ¬ s.receiver.Overruns seg)
    (hpush : StreamReassembler.pushSubstring fuel s.receiver.reassembler seg.payload
      (streamIndex ((s.receiver.listen seg).tempAbsSeqno seg)) seg.header.fin =
        some reassembler) :
    reassembler.Stems (Sourced (s.receiver.listen seg).ISN
      (s.arrivals ++ [(s.receiver.absSeqno, seg)])) s.consumed := by
  have ht : (s.receiver.listen seg).tempAbsSeqno seg =
      unwrap seg.header.seqno (s.receiver.listen seg).ISN s.receiver.absSeqno := by
    rw [tempAbsSeqno, listen_absSeqno]
  have hmem : (s.receiver.absSeqno, seg) ∈ s.arrivals ++ [(s.receiver.absSeqno, seg)] :=
    List.mem_append_right _ (List.mem_singleton.mpr rfl)
  refine (hs.listen seg [(s.receiver.absSeqno, seg)]).pushes
    (StreamReassembler.pushSubstring_pushes hpush) ?_ ?_ fun hc => hrun ⟨htakes, hc⟩
  · intro href hgt
    refine ⟨hsize, fun i b hb => ?_⟩
    by_cases hnil : seg.payload = []
    · simp [Datagram.byteAt, hnil] at hb
    · refine sourced_of_byteAt (fun hc => hshift ⟨htakes, hc, hnil, href, fun hle => ?_⟩) ht
        hmem hb
      omega
  · intro href hle j b hb
    refine sourced_of_byteAt (fun hc => hshift ⟨htakes, hc, ?_, href, fun _ hnil => ?_⟩) ht hmem
      (Datagram.byteAt_of_fresh hle hb)
    · intro hnil
      rw [Datagram.fresh_of_nil (by simpa using hnil)] at hb
      simp at hb
    · rw [hnil] at hb
      simp at hb

/-- A segment that is not misplaced leaves every byte in its place. -/
theorem Traced.segment (hs : Traced s) (hsize : seg.payload.length < 2 ^ 64)
    (hshift : ¬ s.receiver.Shifts seg) (hrun : ¬ s.receiver.Overruns seg)
    (h : s.receiver.segmentReceived fuel seg = some r) :
    Traced ⟨r, s.consumed, s.arrivals ++ [(s.receiver.absSeqno, seg)]⟩ := by
  rcases segmentReceived_cases h with ⟨hfirst, hno, rfl⟩ | ⟨hsyn, -, -, rfl⟩ |
      ⟨reassembler, hsyn, hnew, hpush, rfl⟩
  · refine ⟨?_, hs.fresh⟩
    have hstems := hs.listen seg [(s.receiver.absSeqno, seg)]
    rwa [show s.receiver.listen seg = s.receiver by simp [TCPReceiver.listen, hno]] at hstems
  · refine ⟨?_, fun hfirst => ?_⟩
    · rw [listen_reassembler]
      exact hs.listen seg _
    · rw [listen_firstSegment hsyn] at hfirst
      contradiction
  · refine ⟨?_, fun hfirst => ?_⟩
    · rw [listen_absSeqno] at hnew
      rw [acknowledge_reassembler, acknowledge_ISN]
      exact hs.push hsize ⟨hsyn, hnew⟩ hshift hrun hpush
    · rw [acknowledge_firstSegment] at hfirst
      simp [listen_firstSegment hsyn] at hfirst

/-- A read leaves every byte in its place. -/
theorem Traced.read (hs : Traced s) (len : Nat) :
    Traced ⟨(s.receiver.readOut len).2, s.consumed ++ (s.receiver.readOut len).1, s.arrivals⟩ := by
  refine ⟨hs.stems.readOut len, fun hfirst => ?_⟩
  obtain ⟨hout, hst⟩ := hs.fresh hfirst
  obtain ⟨hcons, hstream⟩ := List.append_eq_nil_iff.mp hout
  refine ⟨?_, hst⟩
  simp only [streamOut] at hstream
  simp [readOut, StreamReassembler.readOut, streamOut, hcons, hstream]

end step

/-! ## Runs -/

/-- **One operation** that does not misplace its segment. -/
theorem Traced.of_step {s s' : Session} {op : Op} (hs : Traced s)
    (hop : op.Sized ∧ ¬ op.Misplaces s.receiver) (h : Session.step fuel s op = some s') :
    Traced s' := by
  cases op with
  | segment seg =>
      obtain ⟨hsize, hop⟩ := hop
      obtain ⟨hshift, hrun⟩ := not_or.mp hop
      obtain ⟨r, hr, rfl⟩ := Option.map_eq_some_iff.mp h
      exact hs.segment hsize hshift hrun hr
  | read len =>
      rw [Session.step, Option.some.injEq] at h
      exact h ▸ hs.read len

/-- **Every byte is in its place**: in every run of segments and reads in which no
segment is misplaced, the byte of the stream at the index `i` is the payload byte `k` of
some segment with `unwrap(seqno, ISN, abs_seqno) + (1 if SYN) + k = i + 1`. -/
theorem stream_sourced (hsize : ∀ op ∈ ops, Op.Sized op)
    (hok : Along (Session.step fuel) (fun s op => ¬ op.Misplaces s.receiver) (Session.new cap) ops)
    (h : exec (Session.step fuel) (Session.new cap) ops = some s)
    (hb : (s.consumed ++ s.receiver.streamOut.stream)[i]? = some b) :
    Sourced s.receiver.ISN s.arrivals i b := by
  have htraced : Traced s :=
    exec_invariant_along (fun _ _ _ => Traced.of_step) (traced_new cap) (hok.and_forall hsize) h
  exact htraced.stems.output i b hb

/-- SYN, `"cd"` ahead of its turn, `"xb"` and a contradicting `"aby"`, across the wrap of
the raw sequence numbers. -/
theorem stream_sourced_conflict :
    ∃ s, exec (Session.step 9) (Session.new 8)
        [.segment { header := { seqno := ⟨4294967295⟩, syn := true } },
          .segment { header := { seqno := ⟨2⟩ }, payload := [99, 100] },
          .segment { header := { seqno := ⟨0⟩ }, payload := [120, 98] }, .read 1,
          .segment { header := { seqno := ⟨0⟩ }, payload := [97, 98, 121] }] = some s ∧
      (s.consumed ++ s.receiver.streamOut.stream)[3]? = some 100 ∧
      Sourced s.receiver.ISN s.arrivals 3 100 :=
  have hrun : exec (Session.step 9) (Session.new 8)
      [.segment { header := { seqno := ⟨4294967295⟩, syn := true } },
        .segment { header := { seqno := ⟨2⟩ }, payload := [99, 100] },
        .segment { header := { seqno := ⟨0⟩ }, payload := [120, 98] }, .read 1,
        .segment { header := { seqno := ⟨0⟩ }, payload := [97, 98, 121] }] = some _ := rfl
  ⟨_, hrun, rfl, stream_sourced (by decide) (by decide) hrun rfl⟩

/-- The segments are taken, and the byte at the stream index `i` is out of place. -/
def Displaces (cap : Nat) (ops : List Op) (i : Nat) (b : UInt8) : Prop :=
  ∃ fuel s, exec (Session.step fuel) (Session.new cap) ops = some s ∧
    (s.consumed ++ s.receiver.streamOut.stream)[i]? = some b ∧
    ¬ Sourced s.receiver.ISN s.arrivals i b

/-- Behind `"ab"`, `"xyzw"` at the number of the SYN; behind SYN and FIN, `"x"` at that
number; behind `"ab"`, a second SYN with `"x"`; and `"f"` behind an overrun. -/
theorem bytes_displaced :
    Displaces 8
      [.segment { header := { seqno := ⟨0⟩, syn := true } },
        .segment { header := { seqno := ⟨1⟩ }, payload := [97, 98] },
        .segment { header := { seqno := ⟨0⟩ }, payload := [120, 121, 122, 119] }] 2 122 ∧
    Displaces 8
      [.segment { header := { seqno := ⟨0⟩, syn := true, fin := true } },
        .segment { header := { seqno := ⟨0⟩ }, payload := [120] }] 0 120 ∧
    Displaces 8
      [.segment { header := { seqno := ⟨0⟩, syn := true } },
        .segment { header := { seqno := ⟨1⟩ }, payload := [97, 98] },
        .segment { header := { seqno := ⟨3⟩, syn := true }, payload := [120] }] 2 120 ∧
    Displaces 3
      [.segment { header := { seqno := ⟨0⟩, syn := true } },
        .segment { header := { seqno := ⟨1⟩ }, payload := [97] },
        .segment { header := { seqno := ⟨1⟩ }, payload := [97, 98, 99, 100, 101] }, .read 3,
        .segment { header := { seqno := ⟨6⟩ }, payload := [102] }] 3 102 := by
  refine ⟨?_, ?_, ?_, ?_⟩ <;>
    exact ⟨9, _, rfl, rfl, by decide⟩

end TCPReceiver

end Sponge
