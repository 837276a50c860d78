import Mathlib.Algebra.Group.Nat.Defs
import Mathlib.Data.List.Sort
import Sponge.ByteStream

/-!
# Sponge.StreamReassembler

The stream reassembler (`stream_reassembler.hh`, `stream_reassembler.cc`):
substrings of a byte stream arrive in any order and overlap at will; what is
next in line is written to the output, the rest waits in a list of datagrams
sorted by index.

`size_t` sums that an index taken from the caller can push past `2 ^ 64` are
taken modulo `2 ^ 64`; the counters that only grow by bytes really handed in
are natural numbers.

Neither the scan of `missing_middle_handler`, which jumps back to the first
stored datagram, nor the recursion of `push_substring` is known to stop, so
both run on `fuel`: `none` means that the fuel ran out, and a call returns
when some amount of fuel is enough for it.  What a call that returns has done
is said by `Pushes`.
-/

namespace Sponge

/-! ## Datagrams -/

/-- A stored piece of the stream (`struct datagram`).  Its `size` is always the
length of its data. -/
structure Datagram where
  data : List UInt8
  index : Nat
  size : Nat
  eof : Bool
  size_eq : size = data.length

namespace Datagram

/-- `datagram dg{data, index, data.length(), eof}`. -/
def ofData (data : List UInt8) (index : Nat) (eof : Bool) : Datagram :=
  ⟨data, index, data.length, eof, rfl⟩

/-- `index + size`, as a `size_t`. -/
def tail (d : Datagram) : Nat := (d.index + d.size) % 2 ^ 64

@[simp] theorem ofData_data (d : List UInt8) (i : Nat) (e : Bool) : (ofData d i e).data = d := rfl
@[simp] theorem ofData_index (d : List UInt8) (i : Nat) (e : Bool) :
    (ofData d i e).index = i := rfl
@[simp] theorem ofData_size (d : List UInt8) (i : Nat) (e : Bool) :
    (ofData d i e).size = d.length := rfl

/-- A datagram is made of its data, its index and its flag. -/
@[simp] theorem ofData_self (d : Datagram) : ofData d.data d.index d.eof = d := by
  obtain ⟨data, index, size, eof, rfl⟩ := d
  rfl

theorem tail_le (d : Datagram) : d.tail ≤ d.index + d.size := Nat.mod_le _ _

/-- The end of a datagram is a `size_t`. -/
theorem tail_lt (d : Datagram) : d.tail < 2 ^ 64 := Nat.mod_lt _ (by decide)

end Datagram

/-- `overlap_merger`: `dg1` prolonged by the part of `dg2` that lies past its
end, and the number of bytes it gained. -/
def overlapMerger (dg1 dg2 : Datagram) : Datagram × Nat :=
  let startAt := (dg1.tail + 2 ^ 64 - dg2.index) % 2 ^ 64
  if startAt = 0 then (dg1, 0)
  else
    let nonOverlapPart := dg2.data.drop startAt
    ({ dg1 with
        data := dg1.data ++ nonOverlapPart
        size := dg1.size + nonOverlapPart.length
        size_eq := by rw [List.length_append, ← dg1.size_eq] },
      nonOverlapPart.length)

/-! ## The scan of the stored datagrams -/

/-- What the scan of `missing_middle_handler` works on: the new datagram, the
list and the count of stored bytes. -/
structure Scan where
  dg : Datagram
  storage : List Datagram
  unassembledBytes : Nat

/-- How the scan ends: with a `return`, or by leaving the loop to store `dg`. -/
inductive ScanEnd where
  | ret (s : Scan)
  | store (s : Scan)

/-- The loop of `missing_middle_handler` from position `ptr` on.  Setting the
iterator to `--begin()` makes the `++ptr` that follows land on `begin()`. -/
def missingMiddleLoop : Nat → Nat → Scan → Option ScanEnd
  | 0, _, _ => none
  | fuel + 1, ptr, s =>
      match s.storage[ptr]? with
      | none => some (.store s)
      | some p =>
          let ptrTail := p.tail
          let dgTail := s.dg.tail
          if s.dg.index = p.index ∧ ptrTail = dgTail then some (.ret s)
          else if s.dg.index > p.index ∧ dgTail > ptrTail then some (.store s)
          else if s.dg.index > p.index ∧ s.dg.index < ptrTail then
            if dgTail ≤ ptrTail then some (.ret s)
            else
              let p' := (overlapMerger p s.dg).1
              missingMiddleLoop fuel 0
                ⟨p', s.storage.eraseIdx ptr, s.unassembledBytes - p'.size⟩
          else if s.dg.index < p.index ∧ p.index < dgTail then
            -- replaced when it ends inside `dg`, merged otherwise
            let dg' := if ptrTail ≤ dgTail then s.dg else (overlapMerger s.dg p).1
            let s' : Scan := ⟨dg', s.storage.eraseIdx ptr, s.unassembledBytes - p.size⟩
            if s'.storage.length = 0 then some (.store s') else missingMiddleLoop fuel 0 s'
          else if s.dg.index = p.index then
            -- only a longer `dg` takes the place of `p`; the iterator restarts in any case
            let s' : Scan := if s.dg.size > p.size then
              ⟨s.dg, s.storage.eraseIdx ptr, s.unassembledBytes - p.size⟩ else s
            if s'.storage.length = 0 then some (.store s') else missingMiddleLoop fuel 0 s'
          else missingMiddleLoop fuel (ptr + 1) s

/-! ## The reassembler -/

/-- `StreamReassembler`; `storage` is `temporarily_descrete_data_storage`. -/
structure StreamReassembler where
  output : ByteStream
  capacity : Nat
  nextAssemblingIndex : Nat
  smallestTemportyIndex : Nat
  unassembledBytes : Nat
  storage : List Datagram

namespace StreamReassembler

/-- An empty reassembler over an empty stream. -/
def new (capacity : Nat) : StreamReassembler :=
  ⟨ByteStream.new capacity, capacity, 0, 0, 0, []⟩

/-- Zero stands for an empty store. -/
def firstUnassembleByteIndex (r : StreamReassembler) : Nat :=
  match r.storage with
  | [] => 0
  | front :: _ => front.index

/-- The first index that `push_substring` turns away. -/
def indicator (r : StreamReassembler) : Nat :=
  if r.firstUnassembleByteIndex ≥ r.nextAssemblingIndex then
    (r.capacity + r.firstUnassembleByteIndex) % 2 ^ 64
  else (r.capacity + r.nextAssemblingIndex) % 2 ^ 64

/-- `sort` by index; `std::list::sort` is stable, as insertion is. -/
def sortByIndex (l : List Datagram) : List Datagram :=
  l.insertionSort fun a b => a.index ≤ b.index

/-- What `missing_middle_handler` leaves behind after its scan: on a `return`
the list as the scan left it, else the list with `dg` put in its place. -/
def settle (r : StreamReassembler) : ScanEnd → StreamReassembler
  | .ret s => { r with storage := s.storage, unassembledBytes := s.unassembledBytes }
  | .store s =>
      let storage := sortByIndex (s.dg :: s.storage)
      { r with
        storage := storage
        unassembledBytes := s.unassembledBytes + s.dg.size
        smallestTemportyIndex := match storage with
          | [] => 0
          | front :: _ => front.index }

/-- A pass over the store, after which the new datagram is stored or not. -/
def missingMiddleHandler (fuel : Nat) (r : StreamReassembler) (dg : Datagram) :
    Option StreamReassembler :=
  (missingMiddleLoop fuel 0 ⟨dg, r.storage, r.unassembledBytes⟩).map r.settle

/-- `overlap_handler`: write the part of `newDg` past the next index; the flag
says that the index has run ahead of the output. -/
def overlapHandler (r : StreamReassembler) (newDg : Datagram) : StreamReassembler × Bool :=
  let startAt := r.nextAssemblingIndex - newDg.index
  let nonOverlapPart := newDg.data.drop startAt
  let r' := { r with
    output := (r.output.write nonOverlapPart).2
    nextAssemblingIndex := r.nextAssemblingIndex + nonOverlapPart.length }
  (r', r'.nextAssemblingIndex > r'.output.bytesWritten)

/-- The part of `push_substring` that writes, for a piece that does not start
past the next index: in order, overlapping, or nothing but a repetition. -/
def assemble (r : StreamReassembler) (data : List UInt8) (index : Nat) (eof : Bool) :
    StreamReassembler × Bool :=
  let reCap := r.output.remainingCapacity
  if index = r.nextAssemblingIndex then
    ({ r with
        nextAssemblingIndex := r.nextAssemblingIndex +
          (if data.length > reCap then reCap else data.length)
        output := (r.output.write data).2 }, false)
  else if (Datagram.ofData data index eof).tail > r.nextAssemblingIndex then
    r.overlapHandler (Datagram.ofData data index eof)
  else (r, false)

/-- `pop_front` of the stored datagrams, with the count of their bytes. -/
def popFront (r : StreamReassembler) (front : Datagram) (rest : List Datagram) :
    StreamReassembler :=
  { r with storage := rest, unassembledBytes := r.unassembledBytes - front.size }

/-- The last lines of `push_substring`. -/
def finish (r : StreamReassembler) (eof dataExceeded : Bool) : StreamReassembler :=
  if eof && !dataExceeded then { r with output := r.output.endInput } else r

/-- The drain at the end pushes stored datagrams again, by calls to `push_substring` itself. -/
def pushSubstring : Nat → StreamReassembler → List UInt8 → Nat → Bool → Option StreamReassembler
  | 0, _, _, _, _ => none
  | fuel + 1, r, data, index, eof =>
      if r.output.remainingCapacity = 0 then some r
      else if index ≥ r.indicator then some r
      else if index > r.nextAssemblingIndex then
        r.missingMiddleHandler fuel (Datagram.ofData data index eof)
      else
        let (r', dataExceeded) := r.assemble data index eof
        let drained :=
          match r'.storage with
          | [] => some r'
          | front :: rest =>
              if r'.nextAssemblingIndex ≥ r'.smallestTemportyIndex ∧ data.length ≠ 0 then
                pushSubstring fuel (r'.popFront front rest) front.data front.index front.eof
              else some r'
        match drained with
        | none => none
        | some r'' => some (r''.finish eof dataExceeded)

/-- `stream_out().read(len)`. -/
def readOut (r : StreamReassembler) (len : Nat) : List UInt8 × StreamReassembler :=
  ((r.output.read len).1, { r with output := (r.output.read len).2 })

/-! ## Runs -/

/-- What a run does to a reassembler: pushes, and reads of `stream_out()`. -/
inductive Op where
  | push (data : List UInt8) (index : Nat) (eof : Bool)
  | read (len : Nat)

/-- A reassembler together with the bytes read from it so far. -/
structure Session where
  reassembler : StreamReassembler
  consumed : List UInt8

def Session.new (capacity : Nat) : Session := ⟨StreamReassembler.new capacity, []⟩

/-- What is read is kept in `consumed`. -/
def Session.step (fuel : Nat) (s : Session) : Op → Option Session
  | .push data index eof =>
      (pushSubstring fuel s.reassembler data index eof).map fun r => { s with reassembler := r }
  | .read len =>
      some ⟨(s.reassembler.readOut len).2, s.consumed ++ (s.reassembler.readOut len).1⟩

/-! ## What a piece adds -/

end StreamReassembler

/-- The bytes of a piece that `push_substring` hands to the output, when `next`
is the index it waits for: all of them in order, those past `next` on an
overlap, none on a repetition. -/
def Datagram.fresh (d : Datagram) (next : Nat) : List UInt8 :=
  if d.index = next then d.data
  else if next < d.tail then d.data.drop (next - d.index)
  else []

/-- The index that is waited for after `d` has been taken in with `room` bytes
free.  In order it stops where the output is full; an overlap does not. -/
def Datagram.nextAfter (d : Datagram) (next room : Nat) : Nat :=
  if d.index = next then next + min (d.fresh next).length room
  else next + (d.fresh next).length

/-- Nothing comes of nothing. -/
theorem Datagram.fresh_of_nil {d : Datagram} (h : d.data = []) (next : Nat) :
    d.fresh next = [] := by
  simp [fresh, h]

/-- An empty piece moves nothing. -/
theorem Datagram.nextAfter_of_nil {d : Datagram} (h : d.data = []) (next room : Nat) :
    d.nextAfter next room = next := by
  simp [nextAfter, fresh_of_nil h]

namespace StreamReassembler

section assemble

variable (r : StreamReassembler) (data : List UInt8) (index : Nat) (eof : Bool)

/-- The output gets the fresh bytes of the piece, as far as they fit, and the next
index moves; nothing else changes. -/
theorem assemble_fst : (r.assemble data index eof).1 = { r with
    output := (r.output.write ((Datagram.ofData data index eof).fresh r.nextAssemblingIndex)).2
    nextAssemblingIndex := (Datagram.ofData data index eof).nextAfter r.nextAssemblingIndex
      r.output.remainingCapacity } := by
  by_cases heq : index = r.nextAssemblingIndex
  · have hmin : (if data.length > r.output.remainingCapacity then r.output.remainingCapacity
        else data.length) = min data.length r.output.remainingCapacity := by
      split <;> omega
    simp [assemble, Datagram.nextAfter, Datagram.fresh, heq, hmin]
  · by_cases ht : r.nextAssemblingIndex < (Datagram.ofData data index eof).tail
    · simp [assemble, overlapHandler, Datagram.nextAfter, Datagram.fresh, heq, ht]
    · simp [assemble, Datagram.nextAfter, Datagram.fresh, heq, ht, ByteStream.write]

@[simp] theorem assemble_storage : (r.assemble data index eof).1.storage = r.storage := by
  rw [assemble_fst]

@[simp] theorem assemble_capacity : (r.assemble data index eof).1.capacity = r.capacity := by
  rw [assemble_fst]

@[simp] theorem assemble_smallestTemportyIndex :
    (r.assemble data index eof).1.smallestTemportyIndex = r.smallestTemportyIndex := by
  rw [assemble_fst]

@[simp] theorem assemble_unassembledBytes :
    (r.assemble data index eof).1.unassembledBytes = r.unassembledBytes := by
  rw [assemble_fst]

@[simp] theorem assemble_output : (r.assemble data index eof).1.output =
    (r.output.write ((Datagram.ofData data index eof).fresh r.nextAssemblingIndex)).2 := by
  rw [assemble_fst]

@[simp] theorem assemble_nextAssemblingIndex : (r.assemble data index eof).1.nextAssemblingIndex =
    (Datagram.ofData data index eof).nextAfter r.nextAssemblingIndex
      r.output.remainingCapacity := by
  rw [assemble_fst]

/-- `data_exceeded` is raised on an overlap that leaves the index ahead of the
bytes written, and only there. -/
theorem assemble_snd_eq_true : (r.assemble data index eof).2 = true ↔
    index ≠ r.nextAssemblingIndex ∧
      r.nextAssemblingIndex < (Datagram.ofData data index eof).tail ∧
      (r.assemble data index eof).1.output.bytesWritten <
        (r.assemble data index eof).1.nextAssemblingIndex := by
  unfold assemble
  split
  · next h => simp [h]
  · next h =>
      split
      · next ht => simp [overlapHandler, h, ht]
      · next ht => simp [ht]

end assemble

@[simp] theorem finish_storage (r : StreamReassembler) (eof ex : Bool) :
    (r.finish eof ex).storage = r.storage := by
  unfold finish; split <;> rfl

@[simp] theorem finish_capacity (r : StreamReassembler) (eof ex : Bool) :
    (r.finish eof ex).capacity = r.capacity := by
  unfold finish; split <;> rfl

@[simp] theorem finish_nextAssemblingIndex (r : StreamReassembler) (eof ex : Bool) :
    (r.finish eof ex).nextAssemblingIndex = r.nextAssemblingIndex := by
  unfold finish; split <;> rfl

@[simp] theorem finish_bytesWritten (r : StreamReassembler) (eof ex : Bool) :
    (r.finish eof ex).output.bytesWritten = r.output.bytesWritten := by
  unfold finish; split <;> rfl

/-- Besides the stored datagrams, `missing_middle_handler` touches nothing that
concerns the output. -/
theorem missingMiddleHandler_frame {r r' : StreamReassembler}
    (h : r.missingMiddleHandler fuel dg = some r') :
    r'.output = r.output ∧ r'.capacity = r.capacity ∧
      r'.nextAssemblingIndex = r.nextAssemblingIndex := by
  obtain ⟨e, -, rfl⟩ := Option.map_eq_some_iff.mp h
  cases e <;> exact ⟨rfl, rfl, rfl⟩

/-! ## What one call does -/

/-- `push_substring` turns the piece away at once: no space, or past the bound. -/
def Refuses (r : StreamReassembler) (index : Nat) : Prop :=
  r.output.remainingCapacity = 0 ∨ r.indicator ≤ index

instance (r : StreamReassembler) (index : Nat) : Decidable (r.Refuses index) :=
  inferInstanceAs (Decidable (_ ∨ _))

/-- One activation of `push_substring`, with its exits told apart. -/
theorem pushSubstring_succ (fuel : Nat) (r : StreamReassembler) (data : List UInt8) (index : Nat)
    (eof : Bool) :
    pushSubstring (fuel + 1) r data index eof =
      if r.Refuses index then some r
      else if r.nextAssemblingIndex < index then
        r.missingMiddleHandler fuel (Datagram.ofData data index eof)
      else match r.storage with
        | [] => some ((r.assemble data index eof).1.finish eof (r.assemble data index eof).2)
        | front :: rest =>
            if r.smallestTemportyIndex ≤ (r.assemble data index eof).1.nextAssemblingIndex ∧
                data ≠ [] then
              (pushSubstring fuel ((r.assemble data index eof).1.popFront front rest)
                front.data front.index front.eof).map (·.finish eof (r.assemble data index eof).2)
            else some ((r.assemble data index eof).1.finish eof (r.assemble data index eof).2) := by
  rw [pushSubstring]
  by_cases hcap : r.output.remainingCapacity = 0
  · rw [if_pos hcap, if_pos (.inl hcap)]
  rw [if_neg hcap]
  by_cases hind : index ≥ r.indicator
  · rw [if_pos hind, if_pos (.inr hind)]
  rw [if_neg hind, if_neg (fun hr : r.Refuses index => hr.elim hcap hind)]
  by_cases hgt : index > r.nextAssemblingIndex
  · rw [if_pos hgt, if_pos hgt]
  rw [if_neg hgt, if_neg hgt]
  simp only [assemble_storage, assemble_smallestTemportyIndex]
  cases r.storage with
  | nil => rfl
  | cons front rest =>
      simp only [ne_eq, List.length_eq_zero_iff, ge_iff_le]
      by_cases hgap : r.smallestTemportyIndex ≤
          (r.assemble data index eof).1.nextAssemblingIndex ∧ ¬ data = []
      · rw [if_pos hgap, if_pos hgap]
        cases pushSubstring fuel ((r.assemble data index eof).1.popFront front rest)
          front.data front.index front.eof <;> rfl
      · rw [if_neg hgap, if_neg hgap]

/-- Everything a call of `push_substring` that returns can do: turn the piece away,
store it, take it in, or take it in and push the first stored datagram. -/
inductive Pushes : StreamReassembler → Datagram → StreamReassembler → Prop
  | refuse {r : StreamReassembler} {d : Datagram} (href : r.Refuses d.index) : Pushes r d r
  | store {r r' : StreamReassembler} {d : Datagram} {fuel : Nat} (href : ¬ r.Refuses d.index)
      (hgt : r.nextAssemblingIndex < d.index) (hmm : r.missingMiddleHandler fuel d = some r') :
      Pushes r d r'
  | take {r : StreamReassembler} {d : Datagram} (href : ¬ r.Refuses d.index)
      (hle : d.index ≤ r.nextAssemblingIndex)
      (hstop : r.storage = [] ∨ d.data = [] ∨
        (r.assemble d.data d.index d.eof).1.nextAssemblingIndex < r.smallestTemportyIndex) :
      Pushes r d ((r.assemble d.data d.index d.eof).1.finish d.eof
        (r.assemble d.data d.index d.eof).2)
  | drain {r r' : StreamReassembler} {d front : Datagram} {rest : List Datagram}
      (href : ¬ r.Refuses d.index) (hle : d.index ≤ r.nextAssemblingIndex) (hdata : d.data ≠ [])
      (hst : r.storage = front :: rest)
      (hgap : r.smallestTemportyIndex ≤ (r.assemble d.data d.index d.eof).1.nextAssemblingIndex)
      (hrec : Pushes ((r.assemble d.data d.index d.eof).1.popFront front rest) front r') :
      Pushes r d (r'.finish d.eof (r.assemble d.data d.index d.eof).2)

/-- A push that returns does what one of the constructors says. -/
theorem pushSubstring_pushes {r r' : StreamReassembler}
    (h : pushSubstring fuel r data index eof = some r') :
    Pushes r (Datagram.ofData data index eof) r' := by
  induction fuel generalizing r r' data index eof with
  | zero => simp [pushSubstring] at h
  | succ fuel ih =>
      rw [pushSubstring_succ] at h
      by_cases href : r.Refuses index
      · rw [if_pos href, Option.some.injEq] at h
        exact h ▸ .refuse href
      rw [if_neg href] at h
      by_cases hgt : r.nextAssemblingIndex < index
      · rw [if_pos hgt] at h
        exact .store href hgt h
      rw [if_neg hgt] at h
      have hle : index ≤ r.nextAssemblingIndex := Nat.not_lt.mp hgt
      cases hst : r.storage with
      | nil =>
          simp only [hst, Option.some.injEq] at h
          exact h ▸ .take href hle (.inl hst)
      | cons front rest =>
          simp only [hst] at h
          split at h
          · next hgap =>
              obtain ⟨r'', hrec, hfin⟩ := Option.map_eq_some_iff.mp h
              have hfront := ih hrec
              rw [Datagram.ofData_self] at hfront
              exact hfin ▸ .drain href hle hgap.2 hst hgap.1 hfront
          · next hgap =>
              have hstop : data = [] ∨ (r.assemble data index eof).1.nextAssemblingIndex <
                  r.smallestTemportyIndex := by
                rw [not_and_or, not_not] at hgap
                exact hgap.symm.imp_right Nat.not_le.mp
              exact Option.some.inj h ▸ .take href hle (.inr hstop)

/-! ## What a call does to the output -/

/-- The last part of a push only ends the stream. -/
theorem finish_extends (r : StreamReassembler) (eof ex : Bool) :
    r.output.Extends (r.finish eof ex).output := by
  unfold finish
  split
  · exact ByteStream.Extends.endInput r.output
  · exact ByteStream.Extends.refl r.output

/-- The first part only writes to it. -/
theorem assemble_extends (r : StreamReassembler) (data : List UInt8) (index : Nat) (eof : Bool) :
    r.output.Extends (r.assemble data index eof).1.output := by
  rw [assemble_output]
  exact ByteStream.Extends.write r.output _

namespace Pushes

/-- A push only writes to the output and ends its input. -/
theorem output_extends {r r' : StreamReassembler} (h : Pushes r d r') :
    r.output.Extends r'.output := by
  induction h with
  | refuse => exact ByteStream.Extends.refl _
  | store _ _ hmm =>
      rw [(missingMiddleHandler_frame hmm).1]
      exact ByteStream.Extends.refl _
  | take => exact (assemble_extends _ _ _ _).trans (finish_extends _ _ _)
  | drain _ _ _ _ _ _ ih =>
      exact ((assemble_extends _ _ _ _).trans ih).trans (finish_extends _ _ _)

/-- No push changes the capacity. -/
theorem capacity_eq {r r' : StreamReassembler} (h : Pushes r d r') : r'.capacity = r.capacity := by
  induction h with
  | refuse => rfl
  | store _ _ hmm => exact (missingMiddleHandler_frame hmm).2.1
  | take => rw [finish_capacity, assemble_capacity]
  | drain _ _ _ _ _ _ ih =>
      rw [finish_capacity, ih]
      exact assemble_capacity _ _ _ _

/-- The next index never falls behind the bytes written. -/
theorem bytesWritten_le {r r' : StreamReassembler} (h : Pushes r d r')
    (hr : r.output.bytesWritten ≤ r.nextAssemblingIndex) :
    r'.output.bytesWritten ≤ r'.nextAssemblingIndex := by
  have hasm : ∀ (r : StreamReassembler) (d : Datagram),
      r.output.bytesWritten ≤ r.nextAssemblingIndex →
      (r.assemble d.data d.index d.eof).1.output.bytesWritten ≤
        (r.assemble d.data d.index d.eof).1.nextAssemblingIndex := by
    intro r d hr
    rw [assemble_output, assemble_nextAssemblingIndex, ByteStream.write_bytesWritten,
      Datagram.nextAfter]
    split <;> omega
  induction h with
  | refuse => exact hr
  | store _ _ hmm =>
      obtain ⟨hout, -, hnx⟩ := missingMiddleHandler_frame hmm
      rw [hout, hnx]
      exact hr
  | take =>
      rw [finish_bytesWritten, finish_nextAssemblingIndex]
      exact hasm _ _ hr
  | drain _ _ _ _ _ _ ih =>
      rw [finish_bytesWritten, finish_nextAssemblingIndex]
      exact ih (hasm _ _ hr)

/-- A piece that does not start past the next index and carries `eof` ends the
input, unless it is turned away or exceeds the output. -/
theorem inputEnded_of_eof {r r' : StreamReassembler} (h : Pushes r d r')
    (href : ¬ r.Refuses d.index) (hle : d.index ≤ r.nextAssemblingIndex) (heof : d.eof = true)
    (hex : (r.assemble d.data d.index d.eof).2 = false) : r'.output.inputEnded = true := by
  have hfin : ∀ t : StreamReassembler, (t.finish true false).output.inputEnded = true :=
    fun _ => rfl
  cases h with
  | refuse hc => contradiction
  | store _ hgt => omega
  | take =>
      rw [hex, heof]
      exact hfin _
  | drain =>
      rw [hex, heof]
      exact hfin _

end Pushes

end StreamReassembler

end Sponge
