import Sponge.Lib.Run
import Sponge.StreamReassembler.Scan

/-!
# Sponge.StreamReassembler.Return

When does `push_substring` return?

A call first takes in the piece it is given and then, as long as the gap to
the stored datagrams is closed, pops them one by one and pushes each of them
again.  `SomePush P` follows these pushes on the numbers of the state the call
starts in: which index is waited for, how much room is left, which datagrams
are stored.  The recursion itself always stops, since each push takes a
datagram off the list; what can hang is the scan of one push that finds its
piece past the next index and hands it (back) to the list.

`pushSubstring_returns_iff` — a push returns exactly when none of the pushes it
makes is `Stuck` on the stored datagrams.
-/

namespace Sponge

namespace StreamReassembler

/-! ## The pushes that one call makes -/

/-- `indicator` when `next` is waited for and `l` is stored. -/
def bound (capacity next : Nat) (l : List Datagram) : Nat :=
  let first := match l with
    | [] => 0
    | front :: _ => front.index
  if first ≥ next then (capacity + first) % 2 ^ 64 else (capacity + next) % 2 ^ 64

/-- `P` holds of some push made by the call that pushes `d` while `next` is
waited for, `room` bytes are free and `l` is stored: of `d` itself, unless it
is turned away, or, when `d` does not start past `next`, has data and closes
the gap, of a push made by the call on the first stored datagram. -/
def SomePush (P : Nat → Nat → Datagram → List Datagram → Prop) (capacity smallest : Nat) :
    Nat → Nat → Datagram → List Datagram → Prop
  | next, room, d, [] => room ≠ 0 ∧ d.index < bound capacity next [] ∧ P next room d []
  | next, room, d, e :: l =>
      room ≠ 0 ∧ d.index < bound capacity next (e :: l) ∧
        (P next room d (e :: l) ∨
          (d.index ≤ next ∧ d.data ≠ [] ∧ smallest ≤ d.nextAfter next room ∧
            SomePush P capacity smallest (d.nextAfter next room) (room - (d.fresh next).length)
              e l))

instance decidableSomePush (P : Nat → Nat → Datagram → List Datagram → Prop)
    [∀ n m d l, Decidable (P n m d l)] (capacity smallest : Nat) :
    (next room : Nat) → (d : Datagram) → (l : List Datagram) →
      Decidable (SomePush P capacity smallest next room d l)
  | next, room, d, [] =>
      inferInstanceAs (Decidable (room ≠ 0 ∧ d.index < bound capacity next [] ∧ P next room d []))
  | next, room, d, e :: l =>
      have := decidableSomePush P capacity smallest (d.nextAfter next room)
        (room - (d.fresh next).length) e l
      inferInstanceAs (Decidable (room ≠ 0 ∧ d.index < bound capacity next (e :: l) ∧
        (P next room d (e :: l) ∨
          (d.index ≤ next ∧ d.data ≠ [] ∧ smallest ≤ d.nextAfter next room ∧
            SomePush P capacity smallest (d.nextAfter next room) (room - (d.fresh next).length)
              e l))))

/-- `SomePush` for a call on `r`. -/
def CallMakes (P : Nat → Nat → Datagram → List Datagram → Prop) (r : StreamReassembler)
    (d : Datagram) : Prop :=
  SomePush P r.capacity r.smallestTemportyIndex r.nextAssemblingIndex r.output.remainingCapacity
    d r.storage

instance (P : Nat → Nat → Datagram → List Datagram → Prop) [∀ n m d l, Decidable (P n m d l)]
    (r : StreamReassembler) (d : Datagram) : Decidable (r.CallMakes P d) :=
  inferInstanceAs (Decidable (SomePush ..))

/-- The bound in terms of the store. -/
theorem indicator_eq_bound (r : StreamReassembler) :
    r.indicator = bound r.capacity r.nextAssemblingIndex r.storage := by
  unfold indicator firstUnassembleByteIndex bound
  cases r.storage <;> rfl

/-- A push is taken when there is room and its index is below the bound. -/
theorem not_refuses_iff (r : StreamReassembler) (index : Nat) :
    ¬ r.Refuses index ↔ r.output.remainingCapacity ≠ 0 ∧
      index < bound r.capacity r.nextAssemblingIndex r.storage := by
  rw [Refuses, indicator_eq_bound]
  omega

/-- A call that turns its piece away makes no push to speak of. -/
theorem not_callMakes_of_refuses {r : StreamReassembler} {d : Datagram}
    (h : r.Refuses d.index) : ¬ r.CallMakes P d := by
  intro hc
  have hacc : r.output.remainingCapacity ≠ 0 ∧
      d.index < bound r.capacity r.nextAssemblingIndex r.storage := by
    unfold CallMakes at hc
    cases hst : r.storage with
    | nil => rw [hst] at hc; exact ⟨hc.1, hc.2.1⟩
    | cons e l => rw [hst] at hc; exact ⟨hc.1, hc.2.1⟩
  exact (r.not_refuses_iff d.index).mpr hacc h

/-- The pushes of a call: its own, then those of the call on the first stored
datagram. -/
theorem callMakes_iff {r : StreamReassembler} {d : Datagram} (hacc : ¬ r.Refuses d.index) :
    r.CallMakes P d ↔
      P r.nextAssemblingIndex r.output.remainingCapacity d r.storage ∨
      ∃ front rest, r.storage = front :: rest ∧ d.index ≤ r.nextAssemblingIndex ∧ d.data ≠ [] ∧
        r.smallestTemportyIndex ≤ (r.assemble d.data d.index d.eof).1.nextAssemblingIndex ∧
        ((r.assemble d.data d.index d.eof).1.popFront front rest).CallMakes P front := by
  obtain ⟨hroom, hidx⟩ := (r.not_refuses_iff d.index).mp hacc
  unfold CallMakes
  cases hst : r.storage with
  | nil =>
      rw [hst] at hidx
      simp [SomePush, hroom, hidx]
  | cons front rest =>
      rw [hst] at hidx
      simp only [SomePush, popFront]
      rw [assemble_output, ByteStream.write_remainingCapacity, assemble_nextAssemblingIndex,
        assemble_capacity, assemble_smallestTemportyIndex, Datagram.ofData_self]
      constructor
      · rintro ⟨-, -, hP | ⟨h1, h2, h3, h4⟩⟩
        · exact .inl hP
        · exact .inr ⟨front, rest, rfl, h1, h2, h3, h4⟩
      · rintro (hP | ⟨_, _, heq, h1, h2, h3, h4⟩)
        · exact ⟨hroom, hidx, .inl hP⟩
        · obtain ⟨rfl, rfl⟩ := List.cons.inj heq
          exact ⟨hroom, hidx, .inr ⟨h1, h2, h3, h4⟩⟩

/-- What no push of a call meets, its own does not. -/
theorem not_own_of_not_callMakes {r : StreamReassembler} {d : Datagram}
    (hno : ¬ r.CallMakes P d) (href : ¬ r.Refuses d.index) :
    ¬ P r.nextAssemblingIndex r.output.remainingCapacity d r.storage :=
  fun hc => hno ((callMakes_iff href).mpr (.inl hc))

/-- What no push of a call meets, none meets of the call on the first stored
datagram. -/
theorem not_callMakes_front {r : StreamReassembler} {d : Datagram} (hno : ¬ r.CallMakes P d)
    (href : ¬ r.Refuses d.index) (hle : d.index ≤ r.nextAssemblingIndex) (hdata : d.data ≠ [])
    (hst : r.storage = front :: rest)
    (hgap : r.smallestTemportyIndex ≤ (r.assemble d.data d.index d.eof).1.nextAssemblingIndex) :
    ¬ ((r.assemble d.data d.index d.eof).1.popFront front rest).CallMakes P front :=
  fun hc => hno ((callMakes_iff href).mpr (.inr ⟨front, rest, hst, hle, hdata, hgap, hc⟩))

/-! ## Calls that return -/

/-- The call hangs: some push it makes finds its piece past the next index and
the scan of the stored datagrams stuck on it. -/
def Hangs (r : StreamReassembler) (data : List UInt8) (index : Nat) (eof : Bool) : Prop :=
  r.CallMakes (fun next _ d l => next < d.index ∧ Stuck d l) (Datagram.ofData data index eof)

instance (r : StreamReassembler) (data : List UInt8) (index : Nat) (eof : Bool) :
    Decidable (r.Hangs data index eof) :=
  inferInstanceAs (Decidable (CallMakes ..))

/-- On a sorted store, the pass never ends exactly when it is stuck. -/
theorem missingMiddleHandler_eq_none_iff (dg : Datagram) {r : StreamReassembler}
    (hs : SortedByIndex r.storage) :
    (∀ fuel, r.missingMiddleHandler fuel dg = none) ↔ Stuck dg r.storage := by
  rw [← scan_eq_none_iff (u := r.unassembledBytes) hs, ← missingMiddleLoop_eq_none_iff hs]
  simp only [missingMiddleHandler, Option.map_eq_none_iff]

theorem forall_pushSubstring_eq_none_iff {r : StreamReassembler} :
    (∀ fuel, pushSubstring fuel r data index eof = none) ↔
      ∀ fuel, pushSubstring (fuel + 1) r data index eof = none := by
  refine ⟨fun h fuel => h (fuel + 1), fun h fuel => ?_⟩
  cases fuel with
  | zero => rfl
  | succ fuel => exact h fuel

/-- One activation: a call hangs in its own scan or in the call it makes on the
first stored datagram. -/
private theorem pushSubstring_eq_none_step {r : StreamReassembler}
    (hs : SortedByIndex r.storage)
    (hrec : ∀ front rest, r.storage = front :: rest →
      ((∀ fuel, pushSubstring fuel ((r.assemble data index eof).1.popFront front rest)
          front.data front.index front.eof = none) ↔
        ((r.assemble data index eof).1.popFront front rest).Hangs front.data front.index
          front.eof)) :
    (∀ fuel, pushSubstring fuel r data index eof = none) ↔ r.Hangs data index eof := by
  rw [forall_pushSubstring_eq_none_iff]
  simp only [pushSubstring_succ]
  by_cases href : r.Refuses index
  · simp only [if_pos href]
    exact iff_of_false (by simp) (not_callMakes_of_refuses href)
  rw [Hangs, callMakes_iff href]
  by_cases hgt : r.nextAssemblingIndex < index
  · -- a piece past the next index makes no push but its own
    simp only [if_neg href, if_pos hgt]
    rw [missingMiddleHandler_eq_none_iff _ hs]
    simp [hgt, Nat.not_le.mpr hgt]
  simp only [if_neg href, if_neg hgt]
  cases hst : r.storage with
  | nil => simp [hgt]
  | cons front rest =>
      have ih := hrec front rest hst
      rw [Hangs, Datagram.ofData_self] at ih
      by_cases hgap : r.smallestTemportyIndex ≤
          (r.assemble data index eof).1.nextAssemblingIndex ∧ data ≠ []
      · simp only [if_pos hgap, Option.map_eq_none_iff, ih]
        constructor
        · exact fun h => .inr ⟨front, rest, rfl, Nat.not_lt.mp hgt, hgap.2, hgap.1, h⟩
        · rintro (⟨hc, -⟩ | ⟨_, _, heq, -, -, -, h⟩)
          · exact absurd hc hgt
          · obtain ⟨rfl, rfl⟩ := List.cons.inj heq
            exact h
      · simp only [if_neg hgap]
        refine iff_of_false (by simp) ?_
        rintro (⟨hc, -⟩ | ⟨_, _, -, -, hdata, hclosed, -⟩)
        · exact hgt hc
        · exact hgap ⟨hclosed, hdata⟩

/-- On a sorted store, a push runs out of every amount of fuel exactly when it
hangs. -/
theorem pushSubstring_eq_none_iff {r : StreamReassembler} (hs : SortedByIndex r.storage) :
    (∀ fuel, pushSubstring fuel r data index eof = none) ↔ r.Hangs data index eof := by
  -- each push takes a datagram off the list the next one starts from
  induction hst : r.storage generalizing r data index eof with
  | nil =>
      refine pushSubstring_eq_none_step hs fun front rest hc => ?_
      rw [hst] at hc
      contradiction
  | cons front rest ih =>
      refine pushSubstring_eq_none_step hs fun front' rest' hc => ?_
      rw [hst] at hc
      obtain ⟨rfl, rfl⟩ := List.cons.inj hc
      exact ih (List.pairwise_cons.mp (hst ▸ hs)).2 rfl

/-! ## Every reachable state -/

/-- Pushing keeps the store sorted. -/
theorem Pushes.sorted {r r' : StreamReassembler} (h : Pushes r d r')
    (hs : SortedByIndex r.storage) : SortedByIndex r'.storage := by
  induction h with
  | refuse => exact hs
  | store _ _ hmm => exact missingMiddleHandler_sorted hs hmm
  | take =>
      rw [finish_storage, assemble_storage]
      exact hs
  | drain _ _ _ hst _ _ ih =>
      rw [finish_storage]
      exact ih (List.pairwise_cons.mp (hst ▸ hs)).2

/-- The stored datagrams are sorted in every state a run reaches. -/
theorem exec_sorted (h : exec (Session.step fuel) (Session.new cap) ops = some s) :
    SortedByIndex s.reassembler.storage := by
  have hinit : SortedByIndex (Session.new cap).reassembler.storage := List.Pairwise.nil
  refine exec_invariant (P := fun s => SortedByIndex s.reassembler.storage) ?_ hinit h
  intro s op s' hs hstep
  cases op with
  | push data index eof =>
      obtain ⟨r, hr, rfl⟩ := Option.map_eq_some_iff.mp hstep
      exact (pushSubstring_pushes hr).sorted hs
  | read len =>
      rw [Session.step, Option.some.injEq] at hstep
      exact hstep ▸ hs

/-- **Exactly when `push_substring` returns**: from every state that pushes and
reads lead to, a push returns if and only if it does not hang. -/
theorem pushSubstring_returns_iff
    (h : exec (Session.step fuel) (Session.new cap) ops = some s)
    (data : List UInt8) (index : Nat) (eof : Bool) :
    (∃ n r, pushSubstring n s.reassembler data index eof = some r) ↔
      ¬ s.reassembler.Hangs data index eof := by
  rw [← pushSubstring_eq_none_iff (exec_sorted h), not_forall]
  constructor
  · rintro ⟨n, r, hr⟩
    exact ⟨n, by rw [hr]; simp⟩
  · rintro ⟨n, hn⟩
    obtain ⟨r, hr⟩ := Option.ne_none_iff_exists'.mp hn
    exact ⟨n, r, hr⟩

/-- Once `"de"` waits at index 3, the piece `"c"` before it is stored and `"ab"`
drains both. -/
theorem pushSubstring_returns_iff_drain :
    (∃ n r, pushSubstring n
      ((exec (Session.step 9) (Session.new 8)
        [.push [100, 101] 3 true, .push [99] 2 false]).getD (Session.new 8)).reassembler
      [97, 98] 0 false = some r) :=
  have hrun : exec (Session.step 9) (Session.new 8)
      [.push [100, 101] 3 true, .push [99] 2 false] = some _ := rfl
  (pushSubstring_returns_iff hrun [97, 98] 0 false).mpr (by decide)

/-- A shorter piece at the index of a stored one: `"abc"` after `"abcde"`, both
at index 10, is never done. -/
theorem pushSubstring_hangs_shorter :
    ∃ s, exec (Session.step 9) (Session.new 64) [.push [97, 98, 99, 100, 101] 10 false] = some s ∧
      ∀ fuel, pushSubstring fuel s.reassembler [97, 98, 99] 10 false = none :=
  have hrun : exec (Session.step 9) (Session.new 64)
      [.push [97, 98, 99, 100, 101] 10 false] = some _ := rfl
  ⟨_, hrun, (pushSubstring_eq_none_iff (exec_sorted hrun)).mpr (by decide)⟩

end StreamReassembler

end Sponge
