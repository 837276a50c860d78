import Sponge.Lib.Spans
import Sponge.StreamReassembler.Complete

/-!
# Sponge.StreamReassembler.Apart

What the reassembler stores, and how much of it.

`unassembled_bytes()` adds up the sizes of the stored datagrams, so it counts
bytes only as long as no two of them overlap and none of them has been written
already.  The pass of `missing_middle_handler` keeps the datagrams apart, but for
its `break`: behind a stored datagram that starts and ends before the new one, it
stores the new one without a look at the rest (`Doubles`).  The drain of
`push_substring` leaves nothing behind the next index, but for a datagram that
stops it, being empty or turned away (`LeavesAt`).

Without these two, the count is right (`Spread`, `Ahead`).  If besides no piece is
stored that reaches past the window (`KeepsPast`), it is bounded by the capacity.
-/

namespace Sponge

/-! ## Keeping datagrams apart -/

/-- The two datagrams have a byte in common. -/
def Datagram.Overlaps : Datagram → Datagram → Prop := Overlap Datagram.index Datagram.size

instance (d e : Datagram) : Decidable (d.Overlaps e) := inferInstanceAs (Decidable (Overlap ..))

instance (d : Datagram) (i : Nat) : Decidable (d.Covers i) := inferInstanceAs (Decidable (_ ∧ _))

/-- The `size_t` tail of the datagram is its end. -/
def Datagram.NoWrap (d : Datagram) : Prop := d.index + d.size < 2 ^ 64

/-- The end is where it should be. -/
theorem Datagram.NoWrap.tail_eq {d : Datagram} (h : d.NoWrap) : d.tail = d.index + d.size :=
  Nat.mod_eq_of_lt h

/-- Two datagrams that overlap end where one of them does. -/
theorem Datagram.NoWrap.swallow {dg p : Datagram} (hdg : dg.NoWrap) (hp : p.NoWrap)
    (hin : p.index < dg.tail) : (swallow dg p).NoWrap := by
  have hend := swallow_end hdg.tail_eq hp.tail_eq hin
  unfold Datagram.NoWrap at *
  rw [swallow_index]
  omega

/-- The pass for `dg` leaves the loop by its `break` and so stores `dg`, as it is by
then, beside a datagram that overlaps it. -/
def Doubles (dg : Datagram) : List Datagram → Prop
  | [] => False
  | p :: rest =>
      if p.index < dg.index then
        if p.tail < dg.tail then ∃ q ∈ p :: rest, dg.Overlaps q
        else p.tail ≤ dg.index ∧ Doubles dg rest
      else if p.index = dg.index then p.tail ≠ dg.tail ∧ p.size < dg.size ∧ Doubles dg rest
      else if p.index < dg.tail then Doubles (swallow dg p) rest
      else Doubles dg rest

instance decidableDoubles : (dg : Datagram) → (l : List Datagram) → Decidable (Doubles dg l)
  | _, [] => isFalse id
  | dg, p :: rest =>
      have := decidableDoubles dg rest
      have := decidableDoubles (swallow dg p) rest
      inferInstanceAs (Decidable (
        if p.index < dg.index then
          if p.tail < dg.tail then ∃ q ∈ p :: rest, dg.Overlaps q
          else p.tail ≤ dg.index ∧ Doubles dg rest
        else if p.index = dg.index then p.tail ≠ dg.tail ∧ p.size < dg.size ∧ Doubles dg rest
        else if p.index < dg.tail then Doubles (swallow dg p) rest
        else Doubles dg rest))

/-- If the pass ends by storing `dg`, nothing on the list overlaps it. -/
def ScanEnd.Apart : ScanEnd → Prop
  | .ret _ => True
  | .store s => ∀ q ∈ s.storage, ¬ s.dg.Overlaps q

/-- A datagram that was passed over is apart from the new one. -/
theorem ScanEnd.Apart.prepend {e : ScanEnd} (h : e.Apart) (hp : ¬ e.state.dg.Overlaps p) :
    (e.prepend [p]).Apart := by
  cases e with
  | ret s => trivial
  | store s =>
      intro q hq
      rcases List.mem_cons.mp hq with rfl | hq'
      · exact hp
      · exact h q hq'

/-- The pass leaves a datagram as it is that no start of another falls into. -/
theorem Passes.dg_eq (h : Passes dg u l e)
    (hout : ∀ q ∈ l, dg.index < q.index → dg.tail ≤ q.index) : e.state.dg = dg := by
  induction h with
  | done => rfl
  | repeated => rfl
  | discrete => rfl
  | skip _ _ ih =>
      rw [ScanEnd.state_prepend]
      exact ih fun q hq => hout q (List.mem_cons_of_mem _ hq)
  | replace _ _ _ _ ih => exact ih fun q hq => hout q (List.mem_cons_of_mem _ hq)
  | swallow hlt hin =>
      have := hout _ List.mem_cons_self hlt
      omega

/-- A datagram that the pass skips does not overlap what is stored in the end. -/
theorem Passes.apart_of_skipped (h : Passes dg u rest e) (hs : SortedByIndex (p :: rest))
    (hdg : dg.NoWrap) (hp : p.NoWrap) (hskip : Skipped dg p) : ¬ e.state.dg.Overlaps p := by
  have hdgt := hdg.tail_eq
  have hpt := hp.tail_eq
  have hsame : e.state.dg = dg := by
    refine h.dg_eq fun q hq hlt => ?_
    have hpq := (List.pairwise_cons.mp hs).1 q hq
    unfold Skipped at hskip
    omega
  rw [hsame, Datagram.Overlaps, Overlap]
  unfold Skipped at hskip
  omega

/-- **The pass keeps the datagrams apart**, unless its `break` doubles a byte. -/
theorem Passes.apart (h : Passes dg u l e) (hs : SortedByIndex l) (hdg : dg.NoWrap)
    (hl : ∀ p ∈ l, p.NoWrap) (hno : ¬ Doubles dg l) : e.Apart := by
  induction h with
  | done =>
      intro q hq
      simp at hq
  | repeated => trivial
  | discrete _ _ hlt htail =>
      rw [Doubles, if_pos hlt, if_pos htail] at hno
      exact fun q hq hc => hno ⟨q, hq, hc⟩
  | @skip dg p u rest e hskip hrest ih =>
      have hdgt := hdg.tail_eq
      have hpw := hl p List.mem_cons_self
      have hpt := hpw.tail_eq
      refine (ih (List.pairwise_cons.mp hs).2 hdg
        (fun q hq => hl q (List.mem_cons_of_mem p hq)) fun hc => hno ?_).prepend
        (hrest.apart_of_skipped hs hdg hpw hskip)
      rw [Doubles]
      rcases hskip with ⟨hlt, htail, hend⟩ | ⟨hlt, hout⟩
      · rw [if_pos hlt, if_neg (by omega)]
        exact ⟨hend, hc⟩
      · rw [if_neg (by omega), if_neg (by omega), if_neg (by omega)]
        exact hc
  | @replace dg p u rest e hindex htail hsize _ ih =>
      refine ih (List.pairwise_cons.mp hs).2 hdg (fun q hq => hl q (List.mem_cons_of_mem p hq))
        fun hc => hno ?_
      rw [Doubles, if_neg (by omega), if_pos hindex]
      exact ⟨htail, hsize, hc⟩
  | @swallow dg p u rest e hlt hin _ ih =>
      refine ih (List.pairwise_cons.mp hs).2 (hdg.swallow (hl p List.mem_cons_self) hin)
        (fun q hq => hl q (List.mem_cons_of_mem p hq)) fun hc => hno ?_
      rw [Doubles, if_neg (by omega), if_neg (by omega), if_pos hin]
      exact hc

namespace StreamReassembler

/-! ## The store -/

/-- The books are right, and no two stored datagrams overlap. -/
structure Spread (r : StreamReassembler) : Prop extends Tidy r where
  noWrap : ∀ d ∈ r.storage, d.NoWrap
  apart : r.storage.Pairwise fun d e => ¬ d.Overlaps e

/-- An empty store is spread out. -/
theorem spread_new (cap : Nat) : (new cap).Spread where
  toTidy := tidy_new cap
  noWrap := by simp [new]
  apart := List.Pairwise.nil

/-- The piece is stored past the next index, beside a datagram that overlaps it. -/
def DoublesAt (next _room : Nat) (d : Datagram) (l : List Datagram) : Prop :=
  next < d.index ∧ Doubles d l

instance (next room : Nat) (d : Datagram) (l : List Datagram) :
    Decidable (DoublesAt next room d l) :=
  inferInstanceAs (Decidable (_ ∧ _))

section spread

variable {r r' : StreamReassembler} {d : Datagram}

/-- The pass keeps the datagrams apart, unless it stores one twice. -/
theorem Spread.missingMiddleHandler (hr : r.Spread) (hd : d.NoWrap) (hno : ¬ Doubles d r.storage)
    (h : r.missingMiddleHandler fuel d = some r') : r'.Spread := by
  refine ⟨hr.toTidy.missingMiddleHandler h, ?_, ?_⟩
  · exact missingMiddleHandler_forall (fun _ _ hdg hp _ hin => hdg.swallow hp hin) hr.sorted hd
      hr.noWrap h
  · obtain ⟨e, he, rfl⟩ := missingMiddleHandler_eq_some hr.sorted h
    have hpass := scan_passes he
    have hold := hr.apart.sublist hpass.sublist
    cases e with
    | ret s => exact hold
    | store s =>
        have hnew := hpass.apart hr.sorted hd hr.noWrap hno
        have hperm : (sortByIndex (s.dg :: s.storage)).Perm (s.dg :: s.storage) :=
          List.perm_insertionSort _ _
        rw [settle, hperm.pairwise_iff fun h hc => h hc.symm]
        exact List.pairwise_cons.mpr ⟨hnew, hold⟩

/-- The first part of a push does not touch the store. -/
theorem Spread.assemble (hr : r.Spread) (data : List UInt8) (index : Nat) (eof : Bool) :
    (r.assemble data index eof).1.Spread := by
  refine ⟨hr.toTidy.assemble data index eof, ?_, ?_⟩
  · rw [assemble_storage]
    exact hr.noWrap
  · rw [assemble_storage]
    exact hr.apart

/-- To take the first datagram leaves the others apart. -/
theorem Spread.popFront (hr : r.Spread) (hst : r.storage = front :: rest) :
    (r.popFront front rest).Spread where
  toTidy := hr.toTidy.popFront hst
  noWrap := fun d hd => hr.noWrap d (hst ▸ List.mem_cons_of_mem front hd)
  apart := (List.pairwise_cons.mp (hst ▸ hr.apart)).2

theorem Spread.finish (hr : r.Spread) (eof ex : Bool) : (r.finish eof ex).Spread := by
  refine ⟨hr.toTidy.finish eof ex, ?_, ?_⟩
  · rw [finish_storage]
    exact hr.noWrap
  · rw [finish_storage]
    exact hr.apart

/-- **One call** that doubles no byte keeps the datagrams apart. -/
theorem Spread.pushes (hr : r.Spread) (h : Pushes r d r')
    (hd : ¬ r.Refuses d.index → r.nextAssemblingIndex < d.index → d.NoWrap)
    (hno : ¬ r.CallMakes DoublesAt d) : r'.Spread := by
  induction h with
  | refuse => exact hr
  | store href hgt hmm =>
      have hown := not_own_of_not_callMakes hno href
      exact hr.missingMiddleHandler (hd href hgt) (fun hc => hown ⟨hgt, hc⟩) hmm
  | take => exact (hr.assemble _ _ _).finish _ _
  | @drain r r' d front rest href hle hdata hst hgap _ ih =>
      have hst' := (r.assemble_storage d.data d.index d.eof).trans hst
      have hfront := hr.noWrap front (hst ▸ List.mem_cons_self)
      exact (ih ((hr.assemble _ _ _).popFront hst') (fun _ _ => hfront)
        (not_callMakes_front hno href hle hdata hst hgap)).finish _ _

end spread

/-! ## Nothing written is left in the store -/

/-- The datagrams stored with data do not start before the next index. -/
def Ahead (r : StreamReassembler) : Prop :=
  ∀ d ∈ r.storage, d.data ≠ [] → r.nextAssemblingIndex ≤ d.index

/-- Behind the piece the drain pops a datagram that stops it, being empty or turned
away, with another one already behind the next index. -/
def LeavesAt (capacity next room : Nat) (d : Datagram) : List Datagram → Prop
  | [] => False
  | e :: l => d.index ≤ next ∧ d.data ≠ [] ∧
      (room ≤ (d.fresh next).length ∨ bound capacity (d.nextAfter next room) l ≤ e.index ∨
        e.data = []) ∧
      ∃ f ∈ l, f.data ≠ [] ∧ f.index < d.nextAfter next room

instance (capacity next room : Nat) (d : Datagram) : (l : List Datagram) →
    Decidable (LeavesAt capacity next room d l)
  | [] => isFalse id
  | e :: l => inferInstanceAs (Decidable (d.index ≤ next ∧ d.data ≠ [] ∧
      (room ≤ (d.fresh next).length ∨ bound capacity (d.nextAfter next room) l ≤ e.index ∨
        e.data = []) ∧
      ∃ f ∈ l, f.data ≠ [] ∧ f.index < d.nextAfter next room))

section ahead

variable {r r' : StreamReassembler} {d front : Datagram}

/-- Where the drain leaves nothing, the datagram popped next stops it only if nothing
else is behind. -/
theorem ahead_of_not_leavesAt (hle : d.index ≤ r.nextAssemblingIndex) (hdata : d.data ≠ [])
    (hno : ¬ LeavesAt r.capacity r.nextAssemblingIndex r.output.remainingCapacity d
      (front :: rest)) :
    ((r.assemble d.data d.index d.eof).1.popFront front rest).Refuses front.index ∨
      front.data = [] → ((r.assemble d.data d.index d.eof).1.popFront front rest).Ahead := by
  intro hstop f hf hfdata
  have hstop' : r.output.remainingCapacity ≤ (d.fresh r.nextAssemblingIndex).length ∨
      bound r.capacity (d.nextAfter r.nextAssemblingIndex r.output.remainingCapacity) rest ≤
        front.index ∨ front.data = [] := by
    rw [← or_assoc]
    refine hstop.imp_left fun href => ?_
    by_contra hc
    rw [not_or] at hc
    refine (not_refuses_iff _ _).mpr ⟨?_, ?_⟩ href
    · simp only [popFront, assemble_output, ByteStream.write_remainingCapacity,
        Datagram.ofData_self]
      omega
    · simp only [popFront, assemble_capacity, assemble_nextAssemblingIndex, Datagram.ofData_self]
      omega
  refine Nat.not_lt.mp fun hbehind => hno ⟨hle, hdata, hstop', f, hf, hfdata, ?_⟩
  simpa [popFront] using hbehind

/-- **Nothing written is left behind** by a call, on a piece pushed from outside or
popped from the front. -/
theorem Tidy.ahead (hr : r.Tidy) (h : Pushes r d r')
    (hahead : r.Ahead ∨ ∀ e ∈ r.storage, d.index ≤ e.index)
    (hgo : r.Refuses d.index ∨ d.data = [] → r.Ahead)
    (hno : ¬ r.CallMakes (LeavesAt r.capacity) d) : r'.Ahead := by
  induction h with
  | refuse href => exact hgo (.inl href)
  | store _ hgt hmm =>
      obtain ⟨e, he, rfl⟩ := missingMiddleHandler_eq_some hr.sorted hmm
      intro p hp hdata
      rw [(missingMiddleHandler_frame hmm).2.2]
      rcases (scan_passes he).mem_stored (mem_settle_storage.mp hp) with rfl | hp'
      · rw [(scan_passes he).dg_index]
        exact Nat.le_of_lt hgt
      · exact hahead.elim (fun ha => ha p hp' hdata)
          fun hbefore => Nat.le_trans (Nat.le_of_lt hgt) (hbefore p hp')
  | take _ _ hstop =>
      intro p hp hdata
      rw [finish_storage, assemble_storage] at hp
      rw [finish_nextAssemblingIndex]
      rcases hstop with hnil | hnil | hgap
      · rw [hnil] at hp
        simp at hp
      · rw [assemble_nextAssemblingIndex, Datagram.ofData_self, Datagram.nextAfter_of_nil hnil]
        exact hgo (.inr hnil) p hp hdata
      · exact Nat.le_trans (Nat.le_of_lt hgap) (hr.smallest_le p hp)
  | @drain r r' d front rest href hle hdata hst hgap _ ih =>
      have hst' := (r.assemble_storage d.data d.index d.eof).trans hst
      have hown := not_own_of_not_callMakes hno href
      have hfront := not_callMakes_front hno href hle hdata hst hgap
      rw [hst] at hown
      rw [← r.assemble_capacity d.data d.index d.eof] at hfront
      rw [Ahead, finish_nextAssemblingIndex, finish_storage]
      exact ih ((hr.assemble _ _ _).popFront hst')
        (.inr (List.pairwise_cons.mp (hst ▸ hr.sorted)).1)
        (ahead_of_not_leavesAt hle hdata hown) hfront

end ahead

/-! ## The count -/

section count

variable {r r' : StreamReassembler} {d : Datagram}

/-- What is stored is counted once per byte, and is still to be written. -/
structure Counted (r : StreamReassembler) : Prop extends Spread r where
  ahead : r.Ahead
  written_le : r.output.bytesWritten ≤ r.nextAssemblingIndex

/-- An empty store counts zero. -/
theorem counted_new (cap : Nat) : (new cap).Counted where
  toSpread := spread_new cap
  ahead := by simp [Ahead, new]
  written_le := Nat.le_refl _

/-- **One call** that doubles no byte and leaves none behind keeps the count right. -/
theorem Counted.pushes (hr : r.Counted) (h : Pushes r d r')
    (hd : ¬ r.Refuses d.index → r.nextAssemblingIndex < d.index → d.NoWrap)
    (hdbl : ¬ r.CallMakes DoublesAt d) (hlv : ¬ r.CallMakes (LeavesAt r.capacity) d) :
    r'.Counted where
  toSpread := hr.toSpread.pushes h hd hdbl
  ahead := hr.toTidy.ahead h (.inl hr.ahead) (fun _ => hr.ahead) hlv
  written_le := h.bytesWritten_le hr.written_le

/-- A read does not touch the store. -/
theorem Counted.readOut (hr : r.Counted) (len : Nat) : (r.readOut len).2.Counted where
  sorted := hr.sorted
  unassembledBytes_eq := hr.unassembledBytes_eq
  smallest_le := hr.smallest_le
  noWrap := hr.noWrap
  apart := hr.apart
  ahead := hr.ahead
  written_le := by
    simp only [StreamReassembler.readOut, ByteStream.read_bytesWritten]
    exact hr.written_le

/-- The stored bytes are counted once each. -/
theorem Counted.unassembledBytes_eq_card (hr : r.Counted)
    (hin : ∀ d ∈ r.storage, d.index + d.size ≤ n) :
    r.unassembledBytes = ((Finset.range n).filter fun i =>
      r.output.bytesWritten ≤ i ∧ ∃ d ∈ r.storage, d.Covers i).card := by
  rw [hr.unassembledBytes_eq, bytesIn_eq_sum, ← card_covered hr.apart]
  congr 1
  ext i
  rw [mem_covered, Finset.mem_filter, Finset.mem_range]
  constructor
  · rintro ⟨d, hd, hlo, hhi⟩
    have hend := hin d hd
    have hne : d.data ≠ [] := by
      intro hnil
      rw [d.size_eq, hnil, List.length_nil] at hhi
      omega
    have hahead := hr.ahead d hd hne
    have hwritten := hr.written_le
    exact ⟨by omega, by omega, d, hd, hlo, hhi⟩
  · exact fun h => h.2.2

/-- The stored bytes and those buffered fit the capacity, if nothing stored reaches
past the window. -/
theorem Counted.bufferSize_add_le (hr : r.Counted)
    (hin : ∀ d ∈ r.storage, d.data ≠ [] → d.index + d.size ≤ r.windowEnd) :
    r.output.bufferSize + r.unassembledBytes ≤ r.output.capacity := by
  have hsum : bytesIn r.storage ≤ r.windowEnd - r.output.bytesWritten := by
    rw [bytesIn_eq_sum]
    refine sum_size_le hr.apart fun d hd hpos => ?_
    have hne : d.data ≠ [] := by
      rwa [d.size_eq, List.length_pos_iff] at hpos
    exact ⟨Nat.le_trans hr.written_le (hr.ahead d hd hne), hin d hd hne⟩
  have hwin := r.windowEnd_eq
  have hle := r.output.bufferSize_le
  unfold ByteStream.remainingCapacity at hwin
  rw [hr.unassembledBytes_eq]
  omega

end count

/-- What swallowing preserves, a call preserves, if it holds of the piece where that is
stored. -/
theorem Pushes.forall_stored {Q : Datagram → Prop} {r r' : StreamReassembler} (h : Pushes r d r')
    (hsw : ∀ dg p, Q dg → Q p → dg.index < p.index → p.index < dg.tail → Q (swallow dg p))
    (hs : SortedByIndex r.storage) (hl : ∀ p ∈ r.storage, Q p)
    (hd : ¬ r.Refuses d.index → r.nextAssemblingIndex < d.index → Q d) :
    ∀ p ∈ r'.storage, Q p := by
  induction h with
  | refuse => exact hl
  | store href hgt hmm => exact missingMiddleHandler_forall hsw hs (hd href hgt) hl hmm
  | take =>
      rw [finish_storage, assemble_storage]
      exact hl
  | drain _ _ _ hst _ _ ih =>
      rw [finish_storage]
      rw [hst] at hs hl
      exact ih (List.pairwise_cons.mp hs).2 (fun p hp => hl p (List.mem_cons_of_mem _ hp))
        (fun _ _ => hl _ List.mem_cons_self)

/-- A piece that is not turned away starts within the range of `size_t`. -/
theorem lt_of_not_refuses {r : StreamReassembler} (h : ¬ r.Refuses index) : index < 2 ^ 64 := by
  have hind : r.indicator < 2 ^ 64 := by
    unfold indicator
    split <;> exact Nat.mod_lt _ (by decide)
  unfold Refuses at h
  omega

/-! ## Runs that count -/

/-- The operation is a read or pushes a substring of `S` at its own index. -/
def Op.SubstringOf (S : List UInt8) : Op → Prop
  | .push data index _ => Excerpt S index data
  | .read _ => True

instance (S : List UInt8) : (op : Op) → Decidable (op.SubstringOf S)
  | .push data index _ => inferInstanceAs (Decidable (Excerpt S index data))
  | .read _ => inferInstanceAs (Decidable True)

/-- The bytes of the stream that are stored and not yet written, each one once. -/
def storedBytes (n : Nat) (r : StreamReassembler) : Nat :=
  ((Finset.range n).filter fun i =>
    r.output.bytesWritten ≤ i ∧ ∃ d ∈ r.storage, d.Covers i).card

/-- The count is right, and what is stored is part of `S`. -/
structure CountedOf (S : List UInt8) (r : StreamReassembler) : Prop extends Counted r where
  excerpt : ∀ d ∈ r.storage, Excerpt S d.index d.data

/-- **One operation** with a substring keeps the count right, if it doubles no byte and
leaves none behind. -/
theorem CountedOf.of_step {s s' : Session} {op : Op} (hS : S.length < 2 ^ 64)
    (hs : s.reassembler.CountedOf S)
    (hop : op.SubstringOf S ∧ ¬ op.Makes DoublesAt s ∧
      ¬ op.Makes (LeavesAt s.reassembler.capacity) s)
    (h : Session.step fuel s op = some s') : s'.reassembler.CountedOf S := by
  cases op with
  | push data index eof =>
      obtain ⟨hex, hdbl, hlv⟩ := hop
      obtain ⟨r, hr, rfl⟩ := Option.map_eq_some_iff.mp h
      have hpush := pushSubstring_pushes hr
      have hwrap : (Datagram.ofData data index eof).NoWrap := Nat.lt_of_le_of_lt hex.1 hS
      exact ⟨hs.toCounted.pushes hpush (fun _ _ => hwrap) hdbl hlv,
        hpush.forall_stored (fun _ _ => excerpt_swallow hS) hs.sorted hs.excerpt fun _ _ => hex⟩
  | read len =>
      rw [Session.step, Option.some.injEq] at h
      exact h ▸ ⟨hs.toCounted.readOut len, hs.excerpt⟩

/-- **Every byte is counted once**: as long as no call doubles a stored byte or leaves
a written one behind, `unassembled_bytes()` is the number of distinct indices that are
stored and not yet written. -/
theorem unassembledBytes_eq_storedBytes (hS : S.length < 2 ^ 64)
    (hops : ∀ op ∈ ops, Op.SubstringOf S op)
    (hok : Along (Session.step fuel)
      (fun s op => ¬ op.Makes DoublesAt s ∧ ¬ op.Makes (LeavesAt s.reassembler.capacity) s)
      (Session.new cap) ops)
    (h : exec (Session.step fuel) (Session.new cap) ops = some s) :
    s.reassembler.unassembledBytes = s.reassembler.storedBytes S.length := by
  have hs : s.reassembler.CountedOf S :=
    exec_invariant_along (P := fun s : Session => s.reassembler.CountedOf S)
      (fun _ _ _ => CountedOf.of_step hS) ⟨counted_new cap, by simp [Session.new, new]⟩
      (hok.and_forall hops) h
  refine hs.unassembledBytes_eq_card fun d hd => ?_
  rw [d.size_eq]
  exact (hs.excerpt d hd).1

/-- `"abcdef"`: `"f"` waits, `"ef"` takes its place, `"cde"` is merged with it, and
`"ab"` drains it all. -/
theorem unassembledBytes_eq_storedBytes_merge :
    ∃ s, exec (Session.step 9) (Session.new 8)
        [.push [102] 5 true, .push [101, 102] 4 true, .push [99, 100, 101] 2 false,
          .push [97] 0 false, .read 1] = some s ∧
      s.reassembler.unassembledBytes = s.reassembler.storedBytes 6 :=
  have hrun : exec (Session.step 9) (Session.new 8)
      [.push [102] 5 true, .push [101, 102] 4 true, .push [99, 100, 101] 2 false,
        .push [97] 0 false, .read 1] = some _ := rfl
  ⟨_, hrun, unassembledBytes_eq_storedBytes (S := [97, 98, 99, 100, 101, 102]) (by decide)
    (by decide) (by decide) hrun⟩

/-- The calls return, but the count of the unassembled bytes is wrong. -/
def Miscounts (S : List UInt8) (cap : Nat) (ops : List Op) : Prop :=
  (∀ op ∈ ops, Op.SubstringOf S op) ∧ ∃ fuel s,
    exec (Session.step fuel) (Session.new cap) ops = some s ∧
      s.reassembler.unassembledBytes ≠ s.reassembler.storedBytes S.length

/-- `"cde"` is stored beside `"bcd"`; `"d"` is stored twice behind `"b"`; an empty piece
stops the drain with `"b"` written and stored; and so does a full output. -/
theorem unassembled_bytes_miscounted :
    Miscounts [97, 98, 99, 100, 101] 8 [.push [98, 99, 100] 1 false, .push [99, 100, 101] 2 true] ∧
    Miscounts [97, 98, 99, 100] 8 [.push [98] 1 false, .push [100] 3 true, .push [100] 3 true] ∧
    Miscounts [97, 98, 99] 8 [.push [] 1 false, .push [99] 2 true, .push [97, 98, 99] 0 true] ∧
    Miscounts [97, 98, 99] 3 [.push [98] 1 false, .push [99] 2 true, .push [97, 98, 99] 0 true] := by
  refine ⟨?_, ?_, ?_, ?_⟩ <;>
    exact ⟨by decide, 9, _, rfl, by decide⟩

/-! ## Runs within the capacity -/

/-- The piece is stored and reaches past the window, or past the range of `size_t`. -/
def KeepsPast (r : StreamReassembler) (data : List UInt8) (index : Nat) : Prop :=
  ¬ r.Refuses index ∧ r.nextAssemblingIndex < index ∧ data ≠ [] ∧
    min r.windowEnd (2 ^ 64 - 1) < index + data.length

instance (r : StreamReassembler) (data : List UInt8) (index : Nat) :
    Decidable (r.KeepsPast data index) :=
  inferInstanceAs (Decidable (_ ∧ _ ∧ _ ∧ _))

/-- The operation is a push that keeps a piece past the window. -/
def Op.KeepsPast (s : Session) : Op → Prop
  | .push data index _ => s.reassembler.KeepsPast data index
  | .read _ => False

instance (s : Session) : (op : Op) → Decidable (op.KeepsPast s)
  | .push data index _ => inferInstanceAs (Decidable (s.reassembler.KeepsPast data index))
  | .read _ => inferInstanceAs (Decidable False)

/-- `d` does not wrap around, and ends within the window if it has data. -/
def Inside (W : Nat) (d : Datagram) : Prop :=
  d.NoWrap ∧ (d.data ≠ [] → d.index + d.size ≤ W)

/-- Two datagrams inside the window make one inside it. -/
theorem Inside.swallow (hdg : Inside W dg) (hp : Inside W p) (hlt : dg.index < p.index)
    (hin : p.index < dg.tail) : Inside W (swallow dg p) := by
  refine ⟨hdg.1.swallow hp.1 hin, fun _ => ?_⟩
  have hdgt := hdg.1.tail_eq
  have hdge := hdg.2 fun hnil => by
    rw [dg.size_eq, hnil, List.length_nil] at hdgt
    omega
  have hpe : p.data = [] ∨ p.index + p.size ≤ W := by
    rw [or_iff_not_imp_left]
    exact hp.2
  rw [swallow_index, swallow_end hdgt hp.1.tail_eq hin]
  rcases hpe with hnil | hpe
  · rw [p.size_eq, hnil, List.length_nil]
    omega
  · omega

/-- A piece that is stored and not kept past the window is inside it. -/
theorem inside_of_not_keepsPast {r : StreamReassembler} (hno : ¬ r.KeepsPast data index)
    (href : ¬ r.Refuses index) (hgt : r.nextAssemblingIndex < index) :
    Inside r.windowEnd (Datagram.ofData data index eof) := by
  have hlt := lt_of_not_refuses href
  unfold Inside Datagram.NoWrap
  rw [Datagram.ofData_index, Datagram.ofData_size, Datagram.ofData_data]
  by_cases hnil : data = []
  · rw [hnil, List.length_nil]
    exact ⟨by omega, fun h => absurd rfl h⟩
  · have hend : index + data.length ≤ min r.windowEnd (2 ^ 64 - 1) :=
      Nat.not_lt.mp fun hc => hno ⟨href, hgt, hnil, hc⟩
    exact ⟨by omega, fun _ => by omega⟩

/-- The count is right, and what is stored lies inside the window. -/
structure Confined (cap : Nat) (r : StreamReassembler) : Prop extends Counted r where
  capacity_eq : r.output.capacity = cap
  inside : ∀ d ∈ r.storage, Inside r.windowEnd d

/-- An empty store is within every window. -/
theorem confined_new (cap : Nat) : (new cap).Confined cap where
  toCounted := counted_new cap
  capacity_eq := rfl
  inside := by simp [new]

/-- **One operation** that keeps no piece past the window, doubles no byte and leaves none
behind stays within the capacity. -/
theorem Confined.of_step {s s' : Session} {op : Op} (hs : s.reassembler.Confined cap)
    (hop : ¬ op.KeepsPast s ∧ ¬ op.Makes DoublesAt s ∧
      ¬ op.Makes (LeavesAt s.reassembler.capacity) s)
    (h : Session.step fuel s op = some s') : s'.reassembler.Confined cap := by
  cases op with
  | push data index eof =>
      obtain ⟨hpast, hdbl, hlv⟩ := hop
      obtain ⟨r, hr, rfl⟩ := Option.map_eq_some_iff.mp h
      have hpush := pushSubstring_pushes hr
      -- a push does not move the window
      have hwin : r.windowEnd = s.reassembler.windowEnd := by
        rw [windowEnd, hpush.output_extends.bytesRead_eq, hpush.output_extends.capacity_eq,
          windowEnd]
      refine ⟨?_, hpush.output_extends.capacity_eq.trans hs.capacity_eq, ?_⟩
      · exact hs.toCounted.pushes hpush
          (fun href hgt => (inside_of_not_keepsPast hpast href hgt).1) hdbl hlv
      · simp only [hwin]
        exact hpush.forall_stored (fun _ _ => Inside.swallow) hs.sorted hs.inside
          (inside_of_not_keepsPast hpast)
  | read len =>
      rw [Session.step, Option.some.injEq] at h
      subst h
      refine ⟨hs.toCounted.readOut len, (ByteStream.read_capacity _ _).trans hs.capacity_eq,
        fun d hd => ?_⟩
      have hwin := s.reassembler.windowEnd_le_readOut len
      exact ⟨(hs.inside d hd).1, fun hne => Nat.le_trans ((hs.inside d hd).2 hne) hwin⟩

/-- No byte past the window is stored. -/
theorem Confined.lt_of_covers {r : StreamReassembler} (hr : r.Confined cap) (hd : d ∈ r.storage)
    (hi : d.Covers i) : i < r.output.bytesRead + cap := by
  have hend := hi.2
  have hne : d.data ≠ [] := by
    intro hnil
    have hstart := hi.1
    rw [d.size_eq, hnil, List.length_nil] at hend
    omega
  have hwin := (hr.inside d hd).2 hne
  rw [windowEnd, hr.capacity_eq] at hwin
  omega

/-- **The memory bound**: as long as no call keeps a piece past the window, doubles a
stored byte or leaves a written one behind, the bytes buffered and stored fit the
capacity, and no byte past the window is stored. -/
theorem bufferSize_add_unassembledBytes_le
    (hok : Along (Session.step fuel)
      (fun s op => ¬ op.KeepsPast s ∧ ¬ op.Makes DoublesAt s ∧
        ¬ op.Makes (LeavesAt s.reassembler.capacity) s) (Session.new cap) ops)
    (h : exec (Session.step fuel) (Session.new cap) ops = some s) :
    s.reassembler.output.bufferSize + s.reassembler.unassembledBytes ≤ cap ∧
      ∀ d ∈ s.reassembler.storage, ∀ i, d.Covers i →
        i < s.reassembler.output.bytesRead + cap := by
  have hs : s.reassembler.Confined cap :=
    exec_invariant_along (P := fun s : Session => s.reassembler.Confined cap)
      (fun _ _ _ => Confined.of_step) (confined_new cap) hok h
  refine ⟨?_, fun d hd i => hs.lt_of_covers hd⟩
  have hle := hs.bufferSize_add_le fun d hd => (hs.inside d hd).2
  rwa [hs.capacity_eq] at hle

/-- Capacity 4 and conflicting bytes: `"d"` waits, `"xy"` takes it in, `"a"` and `"bc"`
come before them, and two bytes are read. -/
theorem bufferSize_add_unassembledBytes_le_conflict :
    ∃ s, exec (Session.step 9) (Session.new 4)
        [.push [100] 3 true, .push [120, 121] 2 false, .push [97] 0 false,
          .push [98, 99] 1 false, .read 2] = some s ∧
      s.reassembler.output.bufferSize + s.reassembler.unassembledBytes ≤ 4 ∧
      ∀ d ∈ s.reassembler.storage, ∀ i, d.Covers i →
        i < s.reassembler.output.bytesRead + 4 :=
  have hrun : exec (Session.step 9) (Session.new 4)
      [.push [100] 3 true, .push [120, 121] 2 false, .push [97] 0 false,
        .push [98, 99] 1 false, .read 2] = some _ := rfl
  ⟨_, hrun, bufferSize_add_unassembledBytes_le (by decide) hrun⟩

/-- The calls return, and more than the capacity is kept, or a byte past the window. -/
def Overfills (cap : Nat) (ops : List Op) : Prop :=
  ∃ fuel s, exec (Session.step fuel) (Session.new cap) ops = some s ∧
    (cap < s.reassembler.output.bufferSize + s.reassembler.unassembledBytes ∨
      ∃ d ∈ s.reassembler.storage, ∃ i < d.index + d.size, d.Covers i ∧
        s.reassembler.output.bytesRead + cap ≤ i)

/-- A piece longer than the capacity; a piece past the window that the first stored one
lets in; a byte stored four times behind `"b"`; and a full output with a written byte
left in the store. -/
theorem capacity_exceeded :
    Overfills 2 [.push [98, 99, 100] 1 false] ∧
    Overfills 2 [.push [98] 1 false, .push [99] 2 false] ∧
    Overfills 4 [.push [98] 1 false, .push [100] 3 false, .push [100] 3 false,
      .push [100] 3 false, .push [100] 3 false] ∧
    Overfills 3 [.push [98] 1 false, .push [99] 2 true, .push [97, 98, 99] 0 true] := by
  refine ⟨?_, ?_, ?_, ?_⟩ <;>
    exact ⟨9, _, rfl, by decide⟩

end StreamReassembler

end Sponge
