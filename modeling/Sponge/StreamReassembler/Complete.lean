import Sponge.StreamReassembler.Store
import Sponge.StreamReassembler.Window

/-!
# Sponge.StreamReassembler.Complete

Pieces that together cover `S`, in any order, give `S` and end the input.

A byte that has come in is never lost: it is written or stored (`Held`).  What
can go wrong is

* a bound that has wrapped around and turns a piece away (`TurnsAway`),
* a merge that swallows the end of `S` and forgets its flag (`DropsEofAt`), and
* a drain that stops with datagrams due (`StallsAt`), on a popped datagram that
  is empty or finds the output full.

Without these, every stored datagram is a piece of `S` with its flag, and after
each call what is stored starts past the next index (`Waits`).
-/

namespace Sponge

/-! ## Pieces -/

/-- `d` holds what `S` has at its index, and its flag says whether it ends `S`. -/
def Datagram.PieceOf (S : List UInt8) (d : Datagram) : Prop :=
  Excerpt S d.index d.data ∧ (d.eof = true ↔ d.index + d.size = S.length)

/-- The byte at `i` is one of those of `d`. -/
def Datagram.Covers (d : Datagram) (i : Nat) : Prop := d.index ≤ i ∧ i < d.index + d.size

/-- A piece ends before the stream does. -/
theorem Datagram.PieceOf.le_length {d : Datagram} (h : d.PieceOf S) :
    d.index + d.size ≤ S.length := by
  rw [d.size_eq]
  exact h.1.1

/-- Merging excerpts that overlap gives an excerpt. -/
theorem excerpt_swallow {dg p : Datagram} (hS : S.length < 2 ^ 64)
    (hdg : Excerpt S dg.index dg.data) (hp : Excerpt S p.index p.data)
    (hlt : dg.index < p.index) (hin : p.index < dg.tail) :
    Excerpt S (swallow dg p).index (swallow dg p).data := by
  have hmerged : Placed S (S.length + 1) (swallow dg p) :=
    Placed.swallow hS (Nat.lt_succ_self _) (.inl hdg) (.inl hp) hlt hin
  refine hmerged.resolve_right ?_
  rw [swallow_index]
  have := hdg.1
  omega

/-- Merging keeps a piece a piece, unless it takes the end of `S` in. -/
theorem Datagram.PieceOf.swallow {dg p : Datagram} (hS : S.length < 2 ^ 64)
    (hdg : dg.PieceOf S) (hp : p.PieceOf S) (hlt : dg.index < p.index) (hin : p.index < dg.tail)
    (hno : ¬ (dg.tail < p.tail ∧ p.eof = true)) : (swallow dg p).PieceOf S := by
  refine ⟨excerpt_swallow hS hdg.1 hp.1 hlt hin, ?_⟩
  have hdgt := Datagram.tail_of_excerpt hS hdg.1
  have hpt := Datagram.tail_of_excerpt hS hp.1
  have hend := swallow_end hdgt hpt hin
  have hple := hp.le_length
  rw [swallow_eof, swallow_index, hend, hdg.2]
  have hlast : dg.tail < p.tail → p.index + p.size ≠ S.length := fun hlt heq =>
    hno ⟨hlt, hp.2.mpr heq⟩
  omega

/-- No byte gets lost in the pass: each one of `dg` and of the list is stored. -/
theorem Passes.covers (h : Passes dg u l e) (hS : S.length < 2 ^ 64)
    (hdg : Excerpt S dg.index dg.data) (hl : ∀ p ∈ l, Excerpt S p.index p.data)
    (hi : dg.Covers i ∨ ∃ p ∈ l, p.Covers i) : ∃ p ∈ e.stored, p.Covers i := by
  induction h with
  | done dg u =>
      rcases hi with hi | ⟨p, hp, -⟩
      · exact ⟨dg, List.mem_cons_self, hi⟩
      · simp at hp
  | @repeated dg p u rest hle htail =>
      rcases hi with hi | hi
      · refine ⟨p, List.mem_cons_self, ?_⟩
        rw [Datagram.tail_of_excerpt hS hdg,
          Datagram.tail_of_excerpt hS (hl p List.mem_cons_self)] at htail
        unfold Datagram.Covers at hi ⊢
        omega
      · exact hi
  | @discrete dg p u rest hlt htail =>
      rcases hi with hi | ⟨q, hq, hi⟩
      · exact ⟨dg, List.mem_cons_self, hi⟩
      · exact ⟨q, List.mem_cons_of_mem dg hq, hi⟩
  | @skip dg p u rest e _ _ ih =>
      rw [List.exists_mem_cons_iff, or_left_comm] at hi
      rcases hi with hi | hi
      · exact ⟨p, ScanEnd.mem_stored_prepend.mpr (.inl List.mem_cons_self), hi⟩
      · obtain ⟨q, hq, hqi⟩ := ih hdg (fun q hq => hl q (List.mem_cons_of_mem p hq)) hi
        exact ⟨q, ScanEnd.mem_stored_prepend.mpr (.inr hq), hqi⟩
  | @replace dg p u rest e hindex htail hsize _ ih =>
      have hmore : p.Covers i → dg.Covers i := by
        unfold Datagram.Covers
        omega
      rw [List.exists_mem_cons_iff, or_left_comm] at hi
      exact ih hdg (fun q hq => hl q (List.mem_cons_of_mem p hq))
        (hi.elim (fun hpi => .inl (hmore hpi)) id)
  | @swallow dg p u rest e hlt hin _ ih =>
      have hp := hl p List.mem_cons_self
      have hend := swallow_end (Datagram.tail_of_excerpt hS hdg)
        (Datagram.tail_of_excerpt hS hp) hin
      have hmore : dg.Covers i ∨ p.Covers i → (Sponge.swallow dg p).Covers i := by
        unfold Datagram.Covers
        rw [swallow_index]
        omega
      rw [List.exists_mem_cons_iff, ← or_assoc] at hi
      exact ih (excerpt_swallow hS hdg hp hlt hin) (fun q hq => hl q (List.mem_cons_of_mem p hq))
        (hi.imp_left hmore)

namespace StreamReassembler

/-! ## What can go wrong -/

/-- The piece is stored and, merged, takes in a datagram that ends the stream,
without its flag. -/
def DropsEofAt (next _room : Nat) (d : Datagram) (l : List Datagram) : Prop :=
  next < d.index ∧ Swallows (fun dg p => dg.tail < p.tail ∧ p.eof = true) d l

instance (next room : Nat) (d : Datagram) (l : List Datagram) :
    Decidable (DropsEofAt next room d l) :=
  inferInstanceAs (Decidable (_ ∧ _))

/-- Behind the piece the drain comes to a stop, on a full output or an empty
datagram, with another one due. -/
def StallsAt (next room : Nat) (d : Datagram) : List Datagram → Prop
  | [] => False
  | e :: l => d.index ≤ next ∧ d.data ≠ [] ∧ (room ≤ (d.fresh next).length ∨ e.data = []) ∧
      ∃ f ∈ l, f.data ≠ [] ∧ f.index ≤ d.nextAfter next room

instance (next room : Nat) (d : Datagram) : (l : List Datagram) →
    Decidable (StallsAt next room d l)
  | [] => isFalse id
  | e :: l => inferInstanceAs (Decidable (d.index ≤ next ∧ d.data ≠ [] ∧
      (room ≤ (d.fresh next).length ∨ e.data = []) ∧
      ∃ f ∈ l, f.data ≠ [] ∧ f.index ≤ d.nextAfter next room))

/-- `bound` before it is reduced to a `size_t`. -/
def fullBound (capacity next : Nat) (l : List Datagram) : Nat :=
  capacity + max ((l.head?.map Datagram.index).getD 0) next

/-- The bound is what is left of the sum in 64 bits. -/
theorem bound_eq_mod (capacity next : Nat) (l : List Datagram) :
    bound capacity next l = fullBound capacity next l % 2 ^ 64 := by
  have hmax : ∀ first, (if first ≥ next then (capacity + first) % 2 ^ 64
      else (capacity + next) % 2 ^ 64) = (capacity + max first next) % 2 ^ 64 := by
    intro first
    split
    · next h => rw [Nat.max_eq_left h]
    · next h => rw [Nat.max_eq_right (by omega)]
  cases l <;> exact hmax _

/-- There is room, but the bound has wrapped around and turns the piece away. -/
def WrapsAt (capacity next room : Nat) (d : Datagram) (l : List Datagram) : Prop :=
  room ≠ 0 ∧ 2 ^ 64 ≤ fullBound capacity next l ∧ bound capacity next l ≤ d.index

instance (capacity next room : Nat) (d : Datagram) (l : List Datagram) :
    Decidable (WrapsAt capacity next room d l) :=
  inferInstanceAs (Decidable (_ ∧ _ ∧ _))

/-- The drain pops a datagram behind the piece, and such a bound turns it away. -/
def PopsWrappedAt (capacity smallest next room : Nat) (d : Datagram) : List Datagram → Prop
  | [] => False
  | e :: l => d.index ≤ next ∧ d.data ≠ [] ∧ smallest ≤ d.nextAfter next room ∧
      WrapsAt capacity (d.nextAfter next room) (room - (d.fresh next).length) e l

instance (capacity smallest next room : Nat) (d : Datagram) : (l : List Datagram) →
    Decidable (PopsWrappedAt capacity smallest next room d l)
  | [] => isFalse id
  | e :: l => inferInstanceAs (Decidable (d.index ≤ next ∧ d.data ≠ [] ∧
      smallest ≤ d.nextAfter next room ∧
      WrapsAt capacity (d.nextAfter next room) (room - (d.fresh next).length) e l))

/-- A bound that has wrapped around turns away a push of the call: its own, or that of a
datagram popped on the way. -/
def TurnsAway (r : StreamReassembler) (d : Datagram) : Prop :=
  WrapsAt r.capacity r.nextAssemblingIndex r.output.remainingCapacity d r.storage ∨
    r.CallMakes (PopsWrappedAt r.capacity r.smallestTemportyIndex) d

instance (r : StreamReassembler) (d : Datagram) : Decidable (r.TurnsAway d) :=
  inferInstanceAs (Decidable (_ ∨ _))

/-- What is not turned away so is turned away only by a full output or at the capacity. -/
theorem full_or_past_of_refuses {r : StreamReassembler} {d : Datagram} (href : r.Refuses d.index)
    (hno : ¬ r.TurnsAway d) : r.output.remainingCapacity = 0 ∨
      fullBound r.capacity r.nextAssemblingIndex r.storage ≤ d.index := by
  by_cases hroom : r.output.remainingCapacity = 0
  · exact .inl hroom
  have hind := href.resolve_left hroom
  rw [indicator_eq_bound] at hind
  have hfull : fullBound r.capacity r.nextAssemblingIndex r.storage < 2 ^ 64 :=
    Nat.not_le.mp fun hwrap => hno (.inl ⟨hroom, hwrap, hind⟩)
  rw [bound_eq_mod, Nat.mod_eq_of_lt hfull] at hind
  exact .inr hind

/-- What no bound turns away in a call, none turns away in the call on the first stored
datagram. -/
theorem not_turnsAway_front {r : StreamReassembler} {d : Datagram} (hno : ¬ r.TurnsAway d)
    (href : ¬ r.Refuses d.index) (hle : d.index ≤ r.nextAssemblingIndex) (hdata : d.data ≠ [])
    (hst : r.storage = front :: rest)
    (hgap : r.smallestTemportyIndex ≤ (r.assemble d.data d.index d.eof).1.nextAssemblingIndex) :
    ¬ ((r.assemble d.data d.index d.eof).1.popFront front rest).TurnsAway front := by
  obtain ⟨-, hlater⟩ := not_or.mp hno
  have hown := not_own_of_not_callMakes hlater href
  have hfront := not_callMakes_front hlater href hle hdata hst hgap
  rw [assemble_nextAssemblingIndex, Datagram.ofData_self] at hgap
  refine not_or.mpr ⟨fun hwraps => hown ?_, ?_⟩
  · rw [hst]
    refine ⟨hle, hdata, hgap, ?_⟩
    simpa [popFront] using hwraps
  · simpa only [popFront, assemble_capacity, assemble_smallestTemportyIndex] using hfront

/-! ## The invariant -/

/-- A reassembler that gathers `S`: its capacity, a `size_t`, is enough for `S`, nothing has
been read, and what is stored are pieces of `S`. -/
structure Gathers (S : List UInt8) (cap : Nat) (r : StreamReassembler) : Prop
    extends Windowed S (S.length + 1) true [] r where
  cap_pos : 0 < cap
  length_le : S.length ≤ cap
  cap_lt : cap < 2 ^ 64
  capacity_eq : r.capacity = cap
  windowEnd_cap : r.windowEnd = cap
  tidy : r.Tidy
  pieces : ∀ d ∈ r.storage, d.PieceOf S

/-- A reassembler with room for the whole stream. -/
theorem gathers_new (hpos : 0 < cap) (hcap : S.length ≤ cap) (hlt : cap < 2 ^ 64) :
    (new cap).Gathers S cap where
  toWindowed := windowed_new S _ true cap
  cap_pos := hpos
  length_le := hcap
  cap_lt := hlt
  capacity_eq := rfl
  windowEnd_cap := Nat.zero_add cap
  tidy := tidy_new cap
  pieces := by simp [new]

namespace Gathers

variable {S : List UInt8} {cap : Nat} {r r' : StreamReassembler} {d front : Datagram}

theorem length_lt (hr : r.Gathers S cap) : S.length < 2 ^ 64 :=
  Nat.lt_of_le_of_lt hr.length_le hr.cap_lt

/-- While nothing is read, the room ends where the capacity does. -/
theorem room_eq (hr : r.Gathers S cap) :
    r.nextAssemblingIndex + r.output.remainingCapacity = cap := by
  rw [hr.next_eq, ← r.windowEnd_eq, hr.windowEnd_cap]

/-- A piece of the stream is within the window. -/
theorem inWindow (hr : r.Gathers S cap) (hd : d.PieceOf S) :
    InWindow S (S.length + 1) true r.windowEnd d := by
  refine .inl ⟨hd.1, .inl ?_, fun he => ⟨rfl, hd.2.mp he⟩⟩
  rw [hr.windowEnd_cap]
  have hcap := hr.length_le
  have htail := d.tail_le
  have hend := hd.le_length
  omega

/-- A piece moves the next index to its end. -/
theorem assemble_next (hr : r.Gathers S cap) (hd : d.PieceOf S)
    (hle : d.index ≤ r.nextAssemblingIndex) :
    (r.assemble d.data d.index d.eof).1.nextAssemblingIndex =
      max r.nextAssemblingIndex (d.index + d.size) := by
  have hfit := hr.not_overrunsAt (l := r.storage) hr.length_lt (Nat.lt_succ_self _) (hr.inWindow hd)
  have hfresh := Datagram.length_fresh (Datagram.tail_of_excerpt hr.length_lt hd.1) hle
  have hcap := hr.length_le
  have hroom := hr.room_eq
  have hend := hd.le_length
  rw [assemble_nextAssemblingIndex, Datagram.ofData_self, nextAfter_eq hle hfit, hfresh]
  omega

/-- A piece is turned away only by a full output or at the capacity. -/
theorem of_refuses (hr : r.Gathers S cap) (href : r.Refuses d.index) (hno : ¬ r.TurnsAway d) :
    r.output.remainingCapacity = 0 ∨
      cap + r.firstUnassembleByteIndex ≤ d.index ∧ cap + r.nextAssemblingIndex ≤ d.index := by
  refine (full_or_past_of_refuses href hno).imp_right fun hpast => ?_
  have hfirst : r.firstUnassembleByteIndex = (r.storage.head?.map Datagram.index).getD 0 := by
    unfold firstUnassembleByteIndex
    cases r.storage <;> rfl
  rw [fullBound, ← hfirst, hr.capacity_eq] at hpast
  omega

/-- A piece at the next index is written. -/
theorem assemble (hr : r.Gathers S cap) (hd : d.PieceOf S)
    (hle : d.index ≤ r.nextAssemblingIndex) :
    (r.assemble d.data d.index d.eof).1.Gathers S cap where
  toWindowed := hr.toWindowed.assemble hr.length_lt (Nat.lt_succ_self _) (hr.inWindow hd) hle
  cap_pos := hr.cap_pos
  length_le := hr.length_le
  cap_lt := hr.cap_lt
  capacity_eq := (assemble_capacity _ _ _ _).trans hr.capacity_eq
  windowEnd_cap := (assemble_windowEnd _ _ _ _).trans hr.windowEnd_cap
  tidy := hr.tidy.assemble _ _ _
  pieces := by
    rw [assemble_storage]
    exact hr.pieces

/-- Taking a piece in and the first datagram off the list, as the drain does. -/
theorem popFront (hr : r.Gathers S cap) (hd : d.PieceOf S)
    (hle : d.index ≤ r.nextAssemblingIndex) (hst : r.storage = front :: rest) :
    ((r.assemble d.data d.index d.eof).1.popFront front rest).Gathers S cap := by
  have hmid := hr.assemble hd hle
  have hst' := (r.assemble_storage d.data d.index d.eof).trans hst
  exact { hmid with
    toWindowed := hmid.toWindowed.popFront hst'
    tidy := hmid.tidy.popFront hst'
    pieces := fun p hp => hmid.pieces p (hst' ▸ List.mem_cons_of_mem front hp) }

end Gathers

/-- What is stored stays pieces of `S`, unless a merge drops the flag. -/
theorem Pushes.pieces {r r' : StreamReassembler} (h : Pushes r d r') (hS : S.length < 2 ^ 64)
    (hs : SortedByIndex r.storage) (hd : d.PieceOf S) (hl : ∀ p ∈ r.storage, p.PieceOf S)
    (hno : ¬ r.CallMakes DropsEofAt d) : ∀ p ∈ r'.storage, p.PieceOf S := by
  induction h with
  | refuse => exact hl
  | store href hgt hmm =>
      have hkeep := not_own_of_not_callMakes hno href
      exact missingMiddleHandler_forall_unless (fun _ _ => Datagram.PieceOf.swallow hS) hs hd hl
        (fun hc => hkeep ⟨hgt, hc⟩) hmm
  | take =>
      rw [finish_storage, assemble_storage]
      exact hl
  | @drain r r' d front rest href hle hdata hst hgap _ ih =>
      rw [finish_storage]
      rw [hst] at hs hl
      exact ih (List.pairwise_cons.mp hs).2 (hl front List.mem_cons_self)
        (fun p hp => hl p (List.mem_cons_of_mem front hp))
        (not_callMakes_front hno href hle hdata hst hgap)

/-- **One call** that pushes a piece of `S` and drops no flag keeps the invariant. -/
theorem Gathers.pushes {r r' : StreamReassembler} (hr : r.Gathers S cap) (h : Pushes r d r')
    (hd : d.PieceOf S) (hno : ¬ r.CallMakes DropsEofAt d) : r'.Gathers S cap where
  toWindowed := hr.toWindowed.pushes h hr.length_lt (Nat.lt_succ_self _) (hr.inWindow hd)
  cap_pos := hr.cap_pos
  length_le := hr.length_le
  cap_lt := hr.cap_lt
  capacity_eq := h.capacity_eq.trans hr.capacity_eq
  windowEnd_cap := by
    rw [windowEnd, h.output_extends.bytesRead_eq, h.output_extends.capacity_eq]
    exact hr.windowEnd_cap
  tidy := hr.tidy.pushes h
  pieces := h.pieces hr.length_lt hr.sorted hd hr.pieces hno

/-! ## No byte is lost -/

/-- The byte at `i` has been written or is stored. -/
def Held (r : StreamReassembler) (i : Nat) : Prop :=
  i < r.nextAssemblingIndex ∨ ∃ d ∈ r.storage, d.Covers i

/-- Taking in a piece holds its bytes and those held before. -/
theorem Gathers.held_assemble {r : StreamReassembler} {d : Datagram} (hr : r.Gathers S cap)
    (hd : d.PieceOf S) (hle : d.index ≤ r.nextAssemblingIndex) (hi : r.Held i ∨ d.Covers i) :
    (r.assemble d.data d.index d.eof).1.Held i := by
  rw [Held, hr.assemble_next hd hle, assemble_storage]
  rcases hi with (hi | hi) | hi
  · exact .inl (by omega)
  · exact .inr hi
  · have hend := hi.2
    exact .inl (by omega)

/-- Storing a piece holds its bytes and those held before. -/
theorem Gathers.held_missingMiddleHandler {r r' : StreamReassembler} {d : Datagram}
    (hr : r.Gathers S cap) (hd : d.PieceOf S) (hmm : r.missingMiddleHandler fuel d = some r')
    (hi : r.Held i ∨ d.Covers i) : r'.Held i := by
  obtain ⟨e, he, rfl⟩ := missingMiddleHandler_eq_some hr.sorted hmm
  rw [Held, (missingMiddleHandler_frame hmm).2.2]
  rw [Held, or_assoc] at hi
  refine hi.imp_right fun hi => ?_
  obtain ⟨p, hp, hpi⟩ := (scan_passes he).covers hr.length_lt hd.1
    (fun p hp => (hr.pieces p hp).1) hi.symm
  exact ⟨p, mem_settle_storage.mpr hp, hpi⟩

/-- **No byte is lost**: after a call the bytes of its piece are held, and those
held before still are. -/
theorem Gathers.held {r r' : StreamReassembler} (hr : r.Gathers S cap) (h : Pushes r d r')
    (hd : d.PieceOf S) (hno : ¬ r.TurnsAway d) (hlt : i < S.length)
    (hi : r.Held i ∨ d.Covers i) : r'.Held i := by
  induction h with
  | refuse href =>
      refine hi.elim id fun hi => .inl ?_
      have hstart := hi.1
      have hcap := hr.length_le
      have hroom := hr.room_eq
      have hfull := hr.of_refuses href hno
      omega
  | store _ _ hmm => exact hr.held_missingMiddleHandler hd hmm hi
  | take _ hle =>
      rw [Held, finish_nextAssemblingIndex, finish_storage]
      exact hr.held_assemble hd hle hi
  | @drain r r' d front rest href hle hdata hst hgap _ ih =>
      rw [Held, finish_nextAssemblingIndex, finish_storage]
      refine ih (hr.popFront hd hle hst) (hr.pieces front (hst ▸ List.mem_cons_self))
        (not_turnsAway_front hno href hle hdata hst hgap) ?_
      -- the byte is in the datagram just popped, or where it was
      have hmid := hr.held_assemble hd hle hi
      rw [Held, assemble_storage, hst, List.exists_mem_cons_iff, or_left_comm] at hmid
      exact hmid.symm

/-! ## Nothing due is left behind -/

/-- The datagrams stored with data start past the next index. -/
def Waits (r : StreamReassembler) : Prop :=
  ∀ d ∈ r.storage, d.data ≠ [] → r.nextAssemblingIndex < d.index

/-- A datagram that comes before all that are stored is not turned away while one
is stored, unless the output is full. -/
theorem Gathers.waits_of_refuses {r : StreamReassembler} {d : Datagram} (hr : r.Gathers S cap)
    (href : r.Refuses d.index) (hno : ¬ r.TurnsAway d)
    (hwait : r.Waits ∨ ∀ e ∈ r.storage, d.index ≤ e.index)
    (hgo : r.output.remainingCapacity = 0 ∨ d.data = [] → r.Waits) : r.Waits := by
  rcases hr.of_refuses href hno with hfull | ⟨hpast, -⟩
  · exact hgo (.inl hfull)
  refine hwait.elim id fun hbefore => ?_
  have hpos := hr.cap_pos
  unfold firstUnassembleByteIndex at hpast
  cases hst : r.storage with
  | nil => simp [Waits, hst]
  | cons front rest =>
      have hfront := hbefore front (hst ▸ List.mem_cons_self)
      simp only [hst] at hpast
      omega

/-- Where the drain does not stall, the datagram popped next stops it only if nothing
else is due. -/
theorem waits_of_not_stallsAt {r : StreamReassembler} {d : Datagram}
    (hle : d.index ≤ r.nextAssemblingIndex) (hdata : d.data ≠ [])
    (hno : ¬ StallsAt r.nextAssemblingIndex r.output.remainingCapacity d (front :: rest)) :
    ((r.assemble d.data d.index d.eof).1.popFront front rest).output.remainingCapacity = 0 ∨
      front.data = [] → ((r.assemble d.data d.index d.eof).1.popFront front rest).Waits := by
  intro hstop f hf hfdata
  simp only [popFront, assemble_output, ByteStream.write_remainingCapacity, Datagram.ofData_self,
    Nat.sub_eq_zero_iff_le] at hstop
  refine Nat.not_le.mp fun hdue => hno ⟨hle, hdata, hstop, f, hf, hfdata, ?_⟩
  simpa [popFront] using hdue

/-- **Nothing due is left behind**: a call that does not stall, on a piece pushed
from outside or popped from the front, leaves only what has to wait. -/
theorem Gathers.waits {r r' : StreamReassembler} (hr : r.Gathers S cap) (h : Pushes r d r')
    (hd : d.PieceOf S) (hwait : r.Waits ∨ ∀ e ∈ r.storage, d.index ≤ e.index)
    (hgo : r.output.remainingCapacity = 0 ∨ d.data = [] → r.Waits)
    (hno : ¬ r.CallMakes StallsAt d) (hturn : ¬ r.TurnsAway d) : r'.Waits := by
  induction h with
  | refuse href => exact hr.waits_of_refuses href hturn hwait hgo
  | store _ hgt hmm =>
      obtain ⟨e, he, rfl⟩ := missingMiddleHandler_eq_some hr.sorted hmm
      intro p hp hdata
      rw [(missingMiddleHandler_frame hmm).2.2]
      rcases (scan_passes he).mem_stored (mem_settle_storage.mp hp) with rfl | hp'
      · rw [(scan_passes he).dg_index]
        exact hgt
      · exact hwait.elim (fun hw => hw p hp' hdata)
          fun hbefore => Nat.lt_of_lt_of_le hgt (hbefore p hp')
  | @take r d _ hle hstop =>
      intro p hp hdata
      rw [finish_storage, assemble_storage] at hp
      rw [finish_nextAssemblingIndex]
      rcases hstop with hnil | hnil | hgap
      · rw [hnil] at hp
        simp at hp
      · rw [assemble_nextAssemblingIndex, Datagram.ofData_self, Datagram.nextAfter_of_nil hnil]
        exact hgo (.inr hnil) p hp hdata
      · exact Nat.lt_of_lt_of_le hgap (hr.tidy.smallest_le p hp)
  | @drain r r' d front rest href hle hdata hst hgap _ ih =>
      have hown := not_own_of_not_callMakes hno href
      rw [hst] at hown
      rw [Waits, finish_nextAssemblingIndex, finish_storage]
      exact ih (hr.popFront hd hle hst) (hr.pieces front (hst ▸ List.mem_cons_self))
        (.inr (List.pairwise_cons.mp (hst ▸ hr.sorted)).1)
        (waits_of_not_stallsAt hle hdata hown)
        (not_callMakes_front hno href hle hdata hst hgap)
        (not_turnsAway_front hturn href hle hdata hst hgap)

/-! ## The end of the input -/

/-- A piece in place that carries `eof` ends the input. -/
theorem Gathers.inputEnded_of_eof {r r' : StreamReassembler} (hr : r.Gathers S cap)
    (h : Pushes r d r') (hd : d.PieceOf S) (href : ¬ r.Refuses d.index)
    (hle : d.index ≤ r.nextAssemblingIndex) (heof : d.eof = true) :
    r'.output.inputEnded = true := by
  refine h.inputEnded_of_eof href hle heof ?_
  -- the index does not run ahead of the bytes written
  rw [← Bool.not_eq_true, assemble_snd_eq_true]
  rintro ⟨-, -, hlt⟩
  have heq := (hr.assemble hd hle).next_eq
  omega

/-- A piece in place ends the input, or leaves the stream short of its end. -/
theorem Gathers.short_or_ended {r r' : StreamReassembler} (hr : r.Gathers S cap)
    (h : Pushes r d r') (hd : d.PieceOf S) (href : ¬ r.Refuses d.index)
    (hle : d.index ≤ r.nextAssemblingIndex)
    (hend : r.nextAssemblingIndex < S.length ∨ r.output.inputEnded = true) :
    (r.assemble d.data d.index d.eof).1.nextAssemblingIndex < S.length ∨
      r'.output.inputEnded = true := by
  rcases hend with hshort | hended
  · by_cases heof : d.eof = true
    · exact .inr (hr.inputEnded_of_eof h hd href hle heof)
    · have hlast := hd.le_length
      rw [hd.2] at heof
      rw [hr.assemble_next hd hle]
      exact .inl (by omega)
  · exact .inr (h.output_extends.inputEnded_mono hended)

/-- **The input ends with the last byte**: a call that completes the stream ends
its input. -/
theorem Gathers.ends {r r' : StreamReassembler} (hr : r.Gathers S cap) (h : Pushes r d r')
    (hd : d.PieceOf S)
    (hend : r.nextAssemblingIndex < S.length ∨ r.output.inputEnded = true) :
    r'.nextAssemblingIndex < S.length ∨ r'.output.inputEnded = true := by
  have hcall := h
  induction h with
  | refuse => exact hend
  | store _ _ hmm =>
      obtain ⟨hout, -, hnx⟩ := missingMiddleHandler_frame hmm
      rw [hout, hnx]
      exact hend
  | take href hle =>
      rw [finish_nextAssemblingIndex]
      exact hr.short_or_ended hcall hd href hle hend
  | @drain r r' d front rest href hle _ hst _ hrec ih =>
      rcases hr.short_or_ended hcall hd href hle hend with hshort | hended
      · rw [finish_nextAssemblingIndex]
        exact (ih (hr.popFront hd hle hst) (hr.pieces front (hst ▸ List.mem_cons_self))
          (.inl hshort) hrec).imp_right (finish_extends _ _ _).inputEnded_mono
      · exact .inr hended

/-- Every piece of an empty stream ends it. -/
theorem Gathers.ends_of_nil {r r' : StreamReassembler} (hr : r.Gathers [] cap)
    (h : Pushes r d r') (hd : d.PieceOf []) (hno : ¬ r.TurnsAway d) :
    r'.output.inputEnded = true := by
  have hpos := hr.cap_pos
  have hroom := hr.room_eq
  have hnext := hr.next_le
  have hlast := hd.le_length
  rw [List.length_nil] at hnext hlast
  have href : ¬ r.Refuses d.index := fun hc => by
    have hfull := hr.of_refuses hc hno
    omega
  exact hr.inputEnded_of_eof h hd href (by omega)
    (hd.2.mpr (Nat.le_antisymm hlast (Nat.zero_le _)))

/-! ## Runs -/

/-- `push_substring(S[i..i+n), i, i + n = |S|)` for a piece given by its index and
its length. -/
def Op.ofPiece (S : List UInt8) (piece : Nat × Nat) : Op :=
  .push ((S.drop piece.1).take piece.2) piece.1 (piece.1 + piece.2 = S.length)

/-- Some push that the operation makes meets `P`. -/
def Op.Makes (P : Nat → Nat → Datagram → List Datagram → Prop) (s : Session) : Op → Prop
  | .push data index eof => s.reassembler.CallMakes P (Datagram.ofData data index eof)
  | .read _ => False

/-- A bound that has wrapped around turns away a push that the operation makes. -/
def Op.TurnsAway (s : Session) : Op → Prop
  | .push data index eof => s.reassembler.TurnsAway (Datagram.ofData data index eof)
  | .read _ => False

instance (s : Session) : (op : Op) → Decidable (op.TurnsAway s)
  | .push data index eof =>
      inferInstanceAs (Decidable (s.reassembler.TurnsAway (Datagram.ofData data index eof)))
  | .read _ => inferInstanceAs (Decidable False)

instance (P : Nat → Nat → Datagram → List Datagram → Prop) [∀ n m d l, Decidable (P n m d l)]
    (s : Session) : (op : Op) → Decidable (op.Makes P s)
  | .push data index eof =>
      inferInstanceAs (Decidable (s.reassembler.CallMakes P (Datagram.ofData data index eof)))
  | .read _ => inferInstanceAs (Decidable False)

/-- The pieces lie in `S`, cover it and include its end. -/
def Tells (S : List UInt8) (pieces : List (Nat × Nat)) : Prop :=
  (∀ p ∈ pieces, p.1 + p.2 ≤ S.length) ∧
  (∀ i < S.length, ∃ p ∈ pieces, p.1 ≤ i ∧ i < p.1 + p.2) ∧
  ∃ p ∈ pieces, p.1 + p.2 = S.length

instance (S : List UInt8) (pieces : List (Nat × Nat)) : Decidable (Tells S pieces) :=
  inferInstanceAs (Decidable (_ ∧ _ ∧ _))

/-- `stream_out()` holds exactly `S` and has ended, and nothing is unassembled. -/
def Complete (S : List UInt8) (r : StreamReassembler) : Prop :=
  r.output.stream = S ∧ r.output.inputEnded = true ∧ r.unassembledBytes = 0

instance (S : List UInt8) (r : StreamReassembler) : Decidable (r.Complete S) :=
  inferInstanceAs (Decidable (_ ∧ _ ∧ _))

theorem length_piece {S : List UInt8} {p : Nat × Nat} (h : p.1 + p.2 ≤ S.length) :
    ((S.drop p.1).take p.2).length = p.2 := by
  rw [List.length_take, List.length_drop]
  omega

theorem pieceOf_ofPiece {S : List UInt8} {p : Nat × Nat} (h : p.1 + p.2 ≤ S.length) :
    (Datagram.ofData ((S.drop p.1).take p.2) p.1 (p.1 + p.2 = S.length)).PieceOf S := by
  refine ⟨⟨?_, ?_⟩, ?_⟩
  · simpa only [Datagram.ofData_data, Datagram.ofData_index, length_piece h] using h
  · simp only [Datagram.ofData_data, Datagram.ofData_index, length_piece h]
  · simp only [Datagram.ofData_index, Datagram.ofData_size, length_piece h]
    exact decide_eq_true_iff

/-- The state between the calls of a run that gathers `S`. -/
structure Collects (S : List UInt8) (cap : Nat) (r : StreamReassembler) : Prop where
  gathers : r.Gathers S cap
  waits : r.Waits
  ends : S = [] ∨ r.nextAssemblingIndex < S.length ∨ r.output.inputEnded = true

/-- Nothing has arrived, so nothing is missing. -/
theorem collects_new (hpos : 0 < cap) (hcap : S.length ≤ cap) (hlt : cap < 2 ^ 64) :
    (new cap).Collects S cap where
  gathers := gathers_new hpos hcap hlt
  waits := by simp [Waits, new]
  ends := by
    rw [← List.length_eq_zero_iff]
    exact (Nat.eq_zero_or_pos _).imp_right .inl

/-- **One call** of such a run. -/
theorem Collects.pushes {r r' : StreamReassembler} (hr : r.Collects S cap) (h : Pushes r d r')
    (hd : d.PieceOf S) (hdrop : ¬ r.CallMakes DropsEofAt d) (hstall : ¬ r.CallMakes StallsAt d)
    (hturn : ¬ r.TurnsAway d) :
    r'.Collects S cap ∧ (r'.nextAssemblingIndex < S.length ∨ r'.output.inputEnded = true) := by
  have hend : r'.nextAssemblingIndex < S.length ∨ r'.output.inputEnded = true := by
    rcases hr.ends with rfl | hend
    · exact .inr (hr.gathers.ends_of_nil h hd hturn)
    · exact hr.gathers.ends h hd hend
  exact ⟨⟨hr.gathers.pushes h hd hdrop,
    hr.gathers.waits h hd (.inl hr.waits) (fun _ => hr.waits) hstall hturn, .inr hend⟩, hend⟩

/-- A run that holds every byte of `S` and has come to its end is complete. -/
theorem Collects.complete {r : StreamReassembler} (hr : r.Collects S cap)
    (hall : ∀ i < S.length, r.Held i)
    (hend : r.nextAssemblingIndex < S.length ∨ r.output.inputEnded = true) : r.Complete S := by
  have hle := hr.gathers.next_le
  have hnext : r.nextAssemblingIndex = S.length := by
    refine Nat.le_antisymm hle (Nat.not_lt.mp fun hshort => ?_)
    -- the byte that is waited for would be stored and due
    rcases hall _ hshort with hi | ⟨d, hd, hi⟩
    · exact Nat.lt_irrefl _ hi
    · have hne : d.data ≠ [] := by
        intro hnil
        have hlt := hi.2
        rw [d.size_eq, hnil, List.length_nil] at hlt
        exact absurd hi.1 (by omega)
      have hwait := hr.waits d hd hne
      exact absurd hi.1 (by omega)
  refine ⟨?_, hend.resolve_left (by omega), ?_⟩
  · have hprefix := hr.gathers.prefix_eq
    rwa [List.nil_append, hnext, List.take_length] at hprefix
  · rw [hr.gathers.tidy.unassembledBytes_eq]
    refine bytesIn_eq_zero fun d hd => ?_
    by_contra hne
    have hwait := hr.waits d hd hne
    have hlast := (hr.gathers.pieces d hd).le_length
    omega

/-- The operation pushes a piece of `S`, drops no flag, does not stall and meets no bound that
has wrapped around. -/
def Op.AddsTo (S : List UInt8) (s : Session) (op : Op) : Prop :=
  (∃ p : Nat × Nat, p.1 + p.2 ≤ S.length ∧ Op.ofPiece S p = op) ∧
    ¬ op.Makes DropsEofAt s ∧ ¬ op.Makes StallsAt s ∧ ¬ op.TurnsAway s

/-- The operation brings the byte at `i`. -/
def Op.Brings (i : Nat) : Op → Prop
  | .push data index eof => (Datagram.ofData data index eof).Covers i
  | .read _ => False

/-- **One step** of a run that gathers `S`. -/
theorem Collects.step {s s' : Session} (hs : s.reassembler.Collects S cap)
    (hop : op.AddsTo S s) (h : Session.step fuel s op = some s') :
    s'.reassembler.Collects S cap ∧
      (s'.reassembler.nextAssemblingIndex < S.length ∨
        s'.reassembler.output.inputEnded = true) ∧
      ∀ i < S.length, s.reassembler.Held i ∨ op.Brings i → s'.reassembler.Held i := by
  obtain ⟨⟨p, hin, rfl⟩, hdrop, hstall, hturn⟩ := hop
  obtain ⟨r, hr, rfl⟩ := Option.map_eq_some_iff.mp h
  have hpush := pushSubstring_pushes hr
  have hd := pieceOf_ofPiece hin
  obtain ⟨hnext, hend⟩ := hs.pushes hpush hd hdrop hstall hturn
  exact ⟨hnext, hend, fun i hi hheld => hs.gathers.held hpush hd hturn hi hheld⟩

/-- **Every order gives the whole stream**: pieces that cover `S` and include its
end give exactly `S`, end the input and leave nothing behind, as long as no call
drops the flag, stalls, or has a piece turned away by a bound that has wrapped
around. -/
theorem complete_of_tells (hpos : 0 < cap) (hlt : cap < 2 ^ 64) (hcap : S.length ≤ cap)
    (htells : Tells S pieces)
    (hkeep : Along (Session.step fuel)
      (fun s op => ¬ op.Makes DropsEofAt s ∧ ¬ op.Makes StallsAt s ∧ ¬ op.TurnsAway s)
      (Session.new cap) (pieces.map (Op.ofPiece S)))
    (h : exec (Session.step fuel) (Session.new cap) (pieces.map (Op.ofPiece S)) = some s) :
    s.reassembler.Complete S := by
  obtain ⟨hin, hcover, q, hq, -⟩ := htells
  have hruns : Along (Session.step fuel) (fun s op => op.AddsTo S s) (Session.new cap)
      (pieces.map (Op.ofPiece S)) := by
    refine hkeep.and_forall fun op hop => ?_
    obtain ⟨p, hp, rfl⟩ := List.mem_map.mp hop
    exact ⟨p, hin p hp, rfl⟩
  have hnew : (Session.new cap).reassembler.Collects S cap := collects_new hpos hcap hlt
  have hinv : ∀ (s : Session) (op : Op) (s' : Session), s.reassembler.Collects S cap →
      op.AddsTo S s → Session.step fuel s op = some s' → s'.reassembler.Collects S cap :=
    fun _ _ _ hs hop hstep => (hs.step hop hstep).1
  have hcollects : s.reassembler.Collects S cap :=
    exec_invariant_along (P := fun s : Session => s.reassembler.Collects S cap) hinv hnew hruns h
  refine hcollects.complete (fun i hi => ?_) ?_
  · -- the byte is held from the piece that brings it on
    obtain ⟨p, hp, hpi⟩ := hcover i hi
    have hbrings : (Op.ofPiece S p).Brings i := by
      rwa [Op.ofPiece, Op.Brings, Datagram.Covers, Datagram.ofData_size, length_piece (hin p hp)]
    refine exec_response_along (P := fun s : Session => s.reassembler.Held i) hinv ?_ ?_
      (List.mem_map_of_mem hp) hnew hruns h
    · exact fun _ _ _ hs hheld hop hstep =>
        (hs.step hop hstep).2.2 i hi (.inl hheld)
    · exact fun _ _ hs hop hstep => (hs.step hop hstep).2.2 i hi (.inr hbrings)
  · refine exec_response_along (P := fun s : Session =>
      s.reassembler.nextAssemblingIndex < S.length ∨ s.reassembler.output.inputEnded = true)
      hinv ?_ ?_ (List.mem_map_of_mem hq) hnew hruns h
    · exact fun _ _ _ hs _ hop hstep => (hs.step hop hstep).2.1
    · exact fun _ _ hs hop hstep => (hs.step hop hstep).2.1

/-- `"abcde"` from its end: `"de"`, `"b"`, `"bc"` in its place, and `"ab"`.  And `"ab"` at once
to the largest capacity, then `"a"` again, which the wrapped bound lets through. -/
theorem complete_of_tells_backwards :
    (∃ s, exec (Session.step 9) (Session.new 5)
        ([(3, 2), (1, 1), (1, 2), (0, 2)].map (Op.ofPiece [97, 98, 99, 100, 101])) = some s ∧
      s.reassembler.Complete [97, 98, 99, 100, 101]) ∧
    ∃ s, exec (Session.step 9) (Session.new (2 ^ 64 - 1))
        ([(0, 2), (0, 1)].map (Op.ofPiece [97, 98])) = some s ∧
      s.reassembler.Complete [97, 98] :=
  have hrun : exec (Session.step 9) (Session.new 5)
      ([(3, 2), (1, 1), (1, 2), (0, 2)].map (Op.ofPiece [97, 98, 99, 100, 101])) = some _ := rfl
  have hlargest : exec (Session.step 9) (Session.new (2 ^ 64 - 1))
      ([(0, 2), (0, 1)].map (Op.ofPiece [97, 98])) = some _ := rfl
  ⟨⟨_, hrun, complete_of_tells (by decide) (by decide) (by decide) (by decide) (by decide) hrun⟩,
    ⟨_, hlargest, complete_of_tells (by decide) (by decide) (by decide) (by decide) (by decide)
      hlargest⟩⟩

/-- The calls return, but leave the stream incomplete. -/
def FallsShort (S : List UInt8) (cap : Nat) (pieces : List (Nat × Nat)) : Prop :=
  S.length ≤ cap ∧ Tells S pieces ∧ ∃ fuel s,
    exec (Session.step fuel) (Session.new cap) (pieces.map (Op.ofPiece S)) = some s ∧
      ¬ s.reassembler.Complete S

/-- `"bc"` swallows `"cd"` and its flag; the empty piece at 1 stops the drain before
`"c"`; `"cdef"` fills the output with `"d"` and `"e"` stored; an output without
room never ends; and with the largest capacity the bound wraps around to 0. -/
theorem pieces_fall_short :
    FallsShort [97, 98, 99, 100] 8 [(2, 2), (1, 2), (0, 1)] ∧
    FallsShort [97, 98, 99] 8 [(1, 0), (2, 1), (0, 2)] ∧
    FallsShort [97, 98, 99, 100, 101, 102] 6 [(1, 1), (3, 1), (4, 1), (2, 4), (0, 1)] ∧
    FallsShort [] 0 [(0, 0)] ∧
    FallsShort [97, 98] (2 ^ 64 - 1) [(1, 1), (0, 1)] := by
  refine ⟨?_, ?_, ?_, ?_, ?_⟩ <;>
    exact ⟨by decide, by decide, 9, _, rfl, by decide⟩

end StreamReassembler

end Sponge
