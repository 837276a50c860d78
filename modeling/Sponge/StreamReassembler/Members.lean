import Sponge.Lib.Call
import Sponge.StreamReassembler.Store

/-!
# Sponge.StreamReassembler.Members

The members of a `StreamReassembler` as the class keeps them.  Nothing ties the
`size` of a stored datagram to its data, and nothing ties `_unassembled_bytes`
to the list: the count is adjusted by hand wherever a datagram is erased,
merged, popped or stored.  Here every subtraction from it is checked, and one
that would go below zero throws `Underflow`.  The counters are natural numbers,
as in `Sponge.StreamReassembler`: they grow only by bytes that are handed in.

`Sponge.StreamReassembler` is the same class with the sizes tied to the data
and with subtraction that stops at zero.  As long as the count is right the two
do the same (`pushSubstring_members`), so that no subtraction ever fails and
what is known of the one holds of the other:

* `exec_books` — the books of the class in every state that pushes and reads
  lead to.
-/

namespace Sponge

/-! ## Datagrams -/

/-- `struct datagram` as it is declared. -/
structure Datagram.Members where
  data : List UInt8
  index : Nat
  size : Nat
  eof : Bool

namespace Datagram.Members

/-- `datagram dg{data, index, data.length(), eof}`. -/
def ofData (data : List UInt8) (index : Nat) (eof : Bool) : Datagram.Members :=
  ⟨data, index, data.length, eof⟩

/-- `index + size`, as a `size_t`. -/
def tail (d : Datagram.Members) : Nat := (d.index + d.size) % 2 ^ 64

/-- `overlap_merger`, with the data and the size each updated for itself. -/
def overlapMerger (dg1 dg2 : Datagram.Members) : Datagram.Members × Nat :=
  let startAt := (dg1.tail + 2 ^ 64 - dg2.index) % 2 ^ 64
  if startAt = 0 then (dg1, 0)
  else
    let nonOverlapPart := dg2.data.drop startAt
    ({ dg1 with
        data := dg1.data ++ nonOverlapPart
        size := dg1.size + nonOverlapPart.length },
      nonOverlapPart.length)

end Datagram.Members

namespace StreamReassembler

/-! ## The operations -/

/-- The members of the class. -/
structure Members where
  output : ByteStream
  capacity : Nat
  nextAssemblingIndex : Nat
  smallestTemportyIndex : Nat
  unassembledBytes : Nat
  storage : List Datagram.Members

/-- More was to be taken off `_unassembled_bytes` than it held. -/
structure Underflow where
  unassembledBytes : Nat
  size : Nat

namespace Members

/-- `_unassembled_bytes -= size`. -/
def takeOff (unassembledBytes size : Nat) : Call Underflow Nat :=
  if unassembledBytes < size then throw ⟨unassembledBytes, size⟩
  else pure (unassembledBytes - size)

/-- The variables of `missing_middle_handler` during its loop. -/
structure Scan where
  dg : Datagram.Members
  storage : List Datagram.Members
  unassembledBytes : Nat

/-- Whether the new datagram is still to be stored when the loop is over. -/
inductive ScanEnd where
  | ret (s : Scan)
  | store (s : Scan)

/-- The loop of `missing_middle_handler` from position `ptr` on. -/
def missingMiddleLoop : Nat → Nat → Scan → Call Underflow ScanEnd
  | 0, _, _ => .outOfFuel
  | fuel + 1, ptr, s =>
      match s.storage[ptr]? with
      | none => pure (.store s)
      | some p =>
          let ptrTail := p.tail
          let dgTail := s.dg.tail
          if s.dg.index = p.index ∧ ptrTail = dgTail then pure (.ret s)
          else if s.dg.index > p.index ∧ dgTail > ptrTail then pure (.store s)
          else if s.dg.index > p.index ∧ s.dg.index < ptrTail then
            if dgTail ≤ ptrTail then pure (.ret s)
            else do
              -- the size taken off is that of `p` after the merge
              let p' := (p.overlapMerger s.dg).1
              let count ← takeOff s.unassembledBytes p'.size
              missingMiddleLoop fuel 0 ⟨p', s.storage.eraseIdx ptr, count⟩
          else if s.dg.index < p.index ∧ p.index < dgTail then do
            let dg' := if ptrTail ≤ dgTail then s.dg else (s.dg.overlapMerger p).1
            let count ← takeOff s.unassembledBytes p.size
            let s' : Scan := ⟨dg', s.storage.eraseIdx ptr, count⟩
            if s'.storage.length = 0 then pure (.store s') else missingMiddleLoop fuel 0 s'
          else if s.dg.index = p.index then do
            let s' : Scan ← if s.dg.size > p.size then do
                let count ← takeOff s.unassembledBytes p.size
                pure ⟨s.dg, s.storage.eraseIdx ptr, count⟩
              else pure s
            if s'.storage.length = 0 then pure (.store s') else missingMiddleLoop fuel 0 s'
          else missingMiddleLoop fuel (ptr + 1) s

def new (capacity : Nat) : Members := ⟨ByteStream.new capacity, capacity, 0, 0, 0, []⟩

def firstUnassembleByteIndex (m : Members) : Nat :=
  match m.storage with
  | [] => 0
  | front :: _ => front.index

/-- The sum wraps around in 64 bits. -/
def indicator (m : Members) : Nat :=
  if m.firstUnassembleByteIndex ≥ m.nextAssemblingIndex then
    (m.capacity + m.firstUnassembleByteIndex) % 2 ^ 64
  else (m.capacity + m.nextAssemblingIndex) % 2 ^ 64

def sortByIndex (l : List Datagram.Members) : List Datagram.Members :=
  l.insertionSort fun a b => a.index ≤ b.index

/-- What `missing_middle_handler` does behind its scan. -/
def settle (m : Members) : ScanEnd → Members
  | .ret s => { m with storage := s.storage, unassembledBytes := s.unassembledBytes }
  | .store s =>
      let storage := sortByIndex (s.dg :: s.storage)
      { m with
        storage := storage
        unassembledBytes := s.unassembledBytes + s.dg.size
        smallestTemportyIndex := match storage with
          | [] => 0
          | front :: _ => front.index }

/-- The same loop, with every subtraction checked. -/
def missingMiddleHandler (fuel : Nat) (m : Members) (dg : Datagram.Members) :
    Call Underflow Members :=
  m.settle <$> missingMiddleLoop fuel 0 ⟨dg, m.storage, m.unassembledBytes⟩

/-- The part of a datagram that is new is written. -/
def overlapHandler (m : Members) (newDg : Datagram.Members) : Members × Bool :=
  let startAt := m.nextAssemblingIndex - newDg.index
  let nonOverlapPart := newDg.data.drop startAt
  let m' := { m with
    output := (m.output.write nonOverlapPart).2
    nextAssemblingIndex := m.nextAssemblingIndex + nonOverlapPart.length }
  (m', m'.nextAssemblingIndex > m'.output.bytesWritten)

/-- The part of `push_substring` that writes. -/
def assemble (m : Members) (data : List UInt8) (index : Nat) (eof : Bool) : Members × Bool :=
  let reCap := m.output.remainingCapacity
  if index = m.nextAssemblingIndex then
    ({ m with
        nextAssemblingIndex := m.nextAssemblingIndex +
          (if data.length > reCap then reCap else data.length)
        output := (m.output.write data).2 }, false)
  else if (Datagram.Members.ofData data index eof).tail > m.nextAssemblingIndex then
    m.overlapHandler (.ofData data index eof)
  else (m, false)

/-- The last lines of `push_substring`. -/
def finish (m : Members) (eof dataExceeded : Bool) : Members :=
  if eof && !dataExceeded then { m with output := m.output.endInput } else m

/-- The same push, with every subtraction checked. -/
def pushSubstring : Nat → Members → List UInt8 → Nat → Bool → Call Underflow Members
  | 0, _, _, _, _ => .outOfFuel
  | fuel + 1, m, data, index, eof =>
      if m.output.remainingCapacity = 0 then pure m
      else if index ≥ m.indicator then pure m
      else if index > m.nextAssemblingIndex then
        m.missingMiddleHandler fuel (.ofData data index eof)
      else
        let (m', dataExceeded) := m.assemble data index eof
        let drained : Call Underflow Members :=
          match m'.storage with
          | [] => pure m'
          | front :: rest =>
              if m'.nextAssemblingIndex ≥ m'.smallestTemportyIndex ∧ data.length ≠ 0 then do
                let count ← takeOff m'.unassembledBytes front.size
                pushSubstring fuel { m' with storage := rest, unassembledBytes := count }
                  front.data front.index front.eof
              else pure m'
        (·.finish eof dataExceeded) <$> drained

/-- A push that returns, or a read of `stream_out()`. -/
def step (fuel : Nat) (m : Members) : Op → Option Members
  | .push data index eof => (m.pushSubstring fuel data index eof).result?
  | .read len => some { m with output := (m.output.read len).2 }

end Members

end StreamReassembler

/-! ## Forgetting the ties -/

def Datagram.members (d : Datagram) : Datagram.Members := ⟨d.data, d.index, d.size, d.eof⟩

theorem Datagram.members_index (d : Datagram) : d.members.index = d.index := by rw [members]

theorem Datagram.members_size (d : Datagram) : d.members.size = d.size := by rw [members]

theorem Datagram.members_tail (d : Datagram) : d.members.tail = d.tail := by
  rw [Members.tail, members_index, members_size, tail]

theorem Datagram.members_overlapMerger (d e : Datagram) :
    (d.members.overlapMerger e.members).1 = (overlapMerger d e).1.members := by
  simp only [Members.overlapMerger, overlapMerger, members_tail, members_index]
  split <;> rfl

def Scan.members (s : Scan) : StreamReassembler.Members.Scan :=
  ⟨s.dg.members, s.storage.map Datagram.members, s.unassembledBytes⟩

theorem Scan.members_dg (s : Scan) : s.members.dg = s.dg.members := by rw [members]

theorem Scan.members_storage (s : Scan) :
    s.members.storage = s.storage.map Datagram.members := by rw [members]

theorem Scan.members_unassembledBytes (s : Scan) :
    s.members.unassembledBytes = s.unassembledBytes := by rw [members]

def ScanEnd.members : ScanEnd → StreamReassembler.Members.ScanEnd
  | .ret s => .ret s.members
  | .store s => .store s.members

namespace StreamReassembler

def members (r : StreamReassembler) : Members :=
  ⟨r.output, r.capacity, r.nextAssemblingIndex, r.smallestTemportyIndex, r.unassembledBytes,
    r.storage.map Datagram.members⟩

theorem members_output (r : StreamReassembler) : r.members.output = r.output := by rw [members]

theorem members_nextAssemblingIndex (r : StreamReassembler) :
    r.members.nextAssemblingIndex = r.nextAssemblingIndex := by rw [members]

theorem members_smallestTemportyIndex (r : StreamReassembler) :
    r.members.smallestTemportyIndex = r.smallestTemportyIndex := by rw [members]

theorem members_storage (r : StreamReassembler) :
    r.members.storage = r.storage.map Datagram.members := by rw [members]

namespace Members

/-- A subtraction that does not go below zero. -/
theorem takeOff_of_le (h : size ≤ count) : takeOff count size = pure (count - size) :=
  if_neg (Nat.not_lt.mpr h)

/-- The loop goes back to `begin()` with the same outcome. -/
theorem restart_members {fuel : Nat}
    (hloop : ∀ {s : Sponge.Scan}, s.unassembledBytes = bytesIn s.storage →
      missingMiddleLoop fuel 0 s.members =
        Call.ofOption ((Sponge.missingMiddleLoop fuel 0 s).map Sponge.ScanEnd.members))
    {s : Sponge.Scan} (hs : s.unassembledBytes = bytesIn s.storage) :
    (if s.members.storage.length = 0 then pure (.store s.members)
      else missingMiddleLoop fuel 0 s.members) =
      Call.ofOption ((if s.storage.length = 0 then some (.store s)
        else Sponge.missingMiddleLoop fuel 0 s).map Sponge.ScanEnd.members) := by
  rw [Scan.members_storage, List.length_map]
  split
  · rfl
  · exact hloop hs

/-- An erased datagram is taken off the count. -/
theorem takeOff_erased {s : Sponge.Scan} (hs : s.unassembledBytes = bytesIn s.storage)
    (hp : s.storage[ptr]? = some p) :
    takeOff s.unassembledBytes p.size = pure (s.unassembledBytes - p.size) ∧
      s.unassembledBytes - p.size = bytesIn (s.storage.eraseIdx ptr) := by
  have hsum := bytesIn_eraseIdx hp
  exact ⟨takeOff_of_le (by omega), by omega⟩

/-- As long as the count is right, the loop does the same on the members, and no
subtraction fails. -/
theorem missingMiddleLoop_members (fuel ptr : Nat) {s : Sponge.Scan}
    (hs : s.unassembledBytes = bytesIn s.storage) :
    missingMiddleLoop fuel ptr s.members =
      Call.ofOption ((Sponge.missingMiddleLoop fuel ptr s).map Sponge.ScanEnd.members) := by
  induction fuel generalizing ptr s with
  | zero => rfl
  | succ fuel ih =>
      have hget : s.members.storage[ptr]? = s.storage[ptr]?.map Datagram.members := by
        rw [Scan.members_storage, List.getElem?_map]
      rw [missingMiddleLoop, Sponge.missingMiddleLoop]
      cases hp : s.storage[ptr]? with
      | none =>
          rw [hp, Option.map_none] at hget
          simp only [hget]
          rfl
      | some p =>
          rw [hp, Option.map_some] at hget
          obtain ⟨htake, hcount⟩ := takeOff_erased hs hp
          have hrestart := fun dg => restart_members (s := ⟨dg, s.storage.eraseIdx ptr,
            s.unassembledBytes - p.size⟩) (ih 0) hcount
          simp only [Scan.members, ← List.eraseIdx_map] at hrestart
          simp only [hget]
          simp only [Scan.members_dg, Scan.members_unassembledBytes, Scan.members_storage,
            Datagram.members_index, Datagram.members_tail, Datagram.members_size,
            Datagram.members_overlapMerger, htake, pure_bind]
          by_cases hsame : s.dg.index = p.index ∧ p.tail = s.dg.tail
          · rw [if_pos hsame, if_pos hsame]
            rfl
          rw [if_neg hsame, if_neg hsame]
          by_cases hlater : s.dg.index > p.index ∧ s.dg.tail > p.tail
          · rw [if_pos hlater, if_pos hlater]
            rfl
          rw [if_neg hlater, if_neg hlater]
          by_cases hinside : s.dg.index > p.index ∧ s.dg.index < p.tail
          · -- the merge into `p` is never reached: such a `dg` has already left the loop
            have hend : s.dg.tail ≤ p.tail := by omega
            rw [if_pos hinside, if_pos hinside, if_pos hend, if_pos hend]
            rfl
          rw [if_neg hinside, if_neg hinside]
          by_cases hover : s.dg.index < p.index ∧ p.index < s.dg.tail
          · rw [if_pos hover, if_pos hover, ← apply_ite Datagram.members]
            exact hrestart _
          rw [if_neg hover, if_neg hover]
          by_cases hindex : s.dg.index = p.index
          · rw [if_pos hindex, if_pos hindex]
            by_cases hlonger : s.dg.size > p.size
            · simp only [if_pos hlonger]
              exact hrestart _
            · simp only [if_neg hlonger]
              exact restart_members (ih 0) hs
          · rw [if_neg hindex, if_neg hindex]
            exact ih (ptr + 1) hs

/-- To sort the members is to sort the datagrams. -/
theorem sortByIndex_map (l : List Datagram) :
    sortByIndex (l.map Datagram.members) =
      (StreamReassembler.sortByIndex l).map Datagram.members :=
  (List.map_insertionSort (fun a b : Datagram => a.index ≤ b.index)
    (fun a b : Datagram.Members => a.index ≤ b.index) Datagram.members l
    fun _ _ _ _ => Iff.rfl).symm

/-- What the loop leaves behind is the same. -/
theorem settle_members (r : StreamReassembler) (e : Sponge.ScanEnd) :
    r.members.settle e.members = (r.settle e).members := by
  cases e with
  | ret s => rfl
  | store s =>
      have hsort := sortByIndex_map (s.dg :: s.storage)
      simp only [Sponge.ScanEnd.members, settle, StreamReassembler.settle, Scan.members_dg,
        Scan.members_storage, ← List.map_cons, hsort]
      cases StreamReassembler.sortByIndex (s.dg :: s.storage) <;> rfl

/-- With the right count, no subtraction of the pass fails. -/
theorem missingMiddleHandler_members (fuel : Nat) {r : StreamReassembler}
    (hr : r.unassembledBytes = bytesIn r.storage) (dg : Datagram) :
    r.members.missingMiddleHandler fuel dg.members =
      Call.ofOption ((r.missingMiddleHandler fuel dg).map members) := by
  have hloop := missingMiddleLoop_members fuel 0 (s := ⟨dg, r.storage, r.unassembledBytes⟩) hr
  have hsettle : ∀ x : Option Sponge.ScanEnd,
      r.members.settle <$> (Call.ofOption (x.map Sponge.ScanEnd.members) : Call Underflow _) =
        Call.ofOption ((x.map r.settle).map members) := by
    intro x
    cases x with
    | none => rfl
    | some e =>
        rw [Option.map_some, Option.map_some, Option.map_some, Call.ofOption_some, map_pure,
          settle_members, Call.ofOption_some]
  rw [StreamReassembler.missingMiddleHandler, ← hsettle, ← hloop]
  rfl

theorem indicator_members (r : StreamReassembler) : r.members.indicator = r.indicator := by
  have hfirst : r.members.firstUnassembleByteIndex = r.firstUnassembleByteIndex := by
    unfold firstUnassembleByteIndex StreamReassembler.firstUnassembleByteIndex members
    cases r.storage <;> rfl
  rw [indicator, StreamReassembler.indicator, hfirst]
  rfl

/-- The first part of a push is the same. -/
theorem assemble_members (r : StreamReassembler) (data : List UInt8) (index : Nat) (eof : Bool) :
    r.members.assemble data index eof =
      ((r.assemble data index eof).1.members, (r.assemble data index eof).2) := by
  have htail : (Datagram.Members.ofData data index eof).tail =
      (Datagram.ofData data index eof).tail := (Datagram.ofData data index eof).members_tail
  unfold assemble StreamReassembler.assemble
  rw [htail, members_nextAssemblingIndex]
  split
  · rfl
  split
  · rfl
  · rfl

/-- The last part of a push is the same. -/
theorem finish_members (r : StreamReassembler) (eof ex : Bool) :
    r.members.finish eof ex = (r.finish eof ex).members := by
  unfold finish StreamReassembler.finish
  split <;> rfl

/-- **One call**: as long as the count is right, a push does the same on the members,
and none of its subtractions fails, whether it returns or not. -/
theorem pushSubstring_members (fuel : Nat) {r : StreamReassembler}
    (hr : r.unassembledBytes = bytesIn r.storage) (data : List UInt8) (index : Nat) (eof : Bool) :
    r.members.pushSubstring fuel data index eof =
      Call.ofOption ((r.pushSubstring fuel data index eof).map members) := by
  induction fuel generalizing r data index eof with
  | zero => rfl
  | succ fuel ih =>
      rw [pushSubstring, StreamReassembler.pushSubstring, indicator_members, assemble_members,
        members_nextAssemblingIndex, members_output]
      split
      · rfl
      split
      · rfl
      split
      · exact missingMiddleHandler_members fuel hr (Datagram.ofData data index eof)
      have hasm : (r.assemble data index eof).1.unassembledBytes =
          bytesIn (r.assemble data index eof).1.storage := by
        rw [assemble_unassembledBytes, assemble_storage]
        exact hr
      generalize r.assemble data index eof = a at hasm
      obtain ⟨r', ex⟩ := a
      simp only at hasm ⊢
      have hfin : ∀ r'' : StreamReassembler, (·.finish eof ex) <$>
          (pure r''.members : Call Underflow Members) = pure (r''.finish eof ex).members := by
        intro r''
        rw [map_pure, finish_members]
      cases hst : r'.storage with
      | nil =>
          have hst' : r'.members.storage = [] := by rw [members_storage, hst, List.map_nil]
          simp only [hst']
          exact hfin r'
      | cons front rest =>
          have hst' : r'.members.storage = front.members :: rest.map Datagram.members := by
            rw [members_storage, hst, List.map_cons]
          have hpop := popFront_unassembledBytes_eq hasm hst
          rw [hst, bytesIn] at hasm
          have hle : front.size ≤ r'.unassembledBytes := by omega
          have htake : takeOff r'.members.unassembledBytes front.members.size =
              pure (r'.unassembledBytes - front.size) := takeOff_of_le hle
          simp only [hst', htake, members_nextAssemblingIndex, members_smallestTemportyIndex,
            pure_bind]
          split
          · refine (congrArg _ (ih hpop front.data front.index front.eof)).trans ?_
            cases StreamReassembler.pushSubstring fuel (r'.popFront front rest) front.data
              front.index front.eof with
            | none => rfl
            | some r'' => exact hfin r''
          · exact hfin r'

/-! ## Every reachable state -/

/-- The members are those of a reassembler whose books are right. -/
def Kept (m : Members) : Prop :=
  ∃ r : StreamReassembler, r.members = m ∧ r.Tidy ∧ r.output.bytesWritten ≤ r.nextAssemblingIndex

/-- At first the books are empty. -/
theorem kept_new (cap : Nat) : (new cap).Kept :=
  ⟨StreamReassembler.new cap, rfl, tidy_new cap, Nat.le_refl 0⟩

/-- **Each step** keeps the books. -/
theorem Kept.step {m m' : Members} (hm : m.Kept) (h : m.step fuel op = some m') : m'.Kept := by
  obtain ⟨r, rfl, htidy, hle⟩ := hm
  cases op with
  | push data index eof =>
      rw [Members.step, pushSubstring_members fuel htidy.unassembledBytes_eq,
        Call.result?_ofOption] at h
      obtain ⟨r', hr', rfl⟩ := Option.map_eq_some_iff.mp h
      have hpushes := pushSubstring_pushes hr'
      exact ⟨r', rfl, htidy.pushes hpushes, hpushes.bytesWritten_le hle⟩
  | read len =>
      rw [Members.step, Option.some.injEq] at h
      refine ⟨(r.readOut len).2, h, ⟨htidy.sorted, htidy.unassembledBytes_eq, htidy.smallest_le⟩, ?_⟩
      simp only [readOut, ByteStream.read_bytesWritten]
      exact hle

/-- **The books of a reassembler**: in every state that returning pushes, of any data, at
any index and with or without `eof`, and reads lead to, the datagrams are sorted
by index and each has the size of its data; the count is the sum of the sizes,
and no subtraction that the next push makes from it fails, whatever is pushed;
the smallest index is not past the first datagram; and the next index has not
fallen behind the bytes written. -/
theorem exec_books (h : exec (step fuel) (new cap) ops = some m) :
    m.storage.Pairwise (fun a b => a.index ≤ b.index) ∧
    (∀ d ∈ m.storage, d.size = d.data.length) ∧
    m.unassembledBytes = (m.storage.map Datagram.Members.size).sum ∧
    (∀ n data index eof e, (m.pushSubstring n data index eof).run ≠ some (.error e)) ∧
    (∀ front rest, m.storage = front :: rest → m.smallestTemportyIndex ≤ front.index) ∧
    m.output.bytesWritten ≤ m.nextAssemblingIndex := by
  have hkept : m.Kept :=
    exec_invariant (fun _ _ _ hm hstep => Kept.step hm hstep) (kept_new cap) h
  obtain ⟨r, rfl, htidy, hle⟩ := hkept
  refine ⟨?_, ?_, ?_, ?_, ?_, hle⟩
  · exact List.pairwise_map.mpr htidy.sorted
  · intro d hd
    obtain ⟨e, -, rfl⟩ := List.mem_map.mp hd
    exact e.size_eq
  · have hsizes : (r.storage.map Datagram.members).map Datagram.Members.size =
        r.storage.map Datagram.size := List.map_map
    exact htidy.unassembledBytes_eq.trans
      ((bytesIn_eq_sum r.storage).trans (congrArg List.sum hsizes.symm))
  · intro n data index eof e
    rw [pushSubstring_members n htidy.unassembledBytes_eq]
    exact Call.run_ofOption_ne_error _ e
  · intro front rest hst
    obtain ⟨d, l, hdl, rfl, -⟩ := List.map_eq_cons_iff.mp hst
    exact htidy.smallest_le d (hdl ▸ List.mem_cons_self)

/-- `"cde"` is merged with the `"ef"` that waits behind it; `"a"` is written and read,
and leaves the two stored pieces where they are. -/
theorem exec_books_merge :
    ∃ m, exec (step 9) (new 16) [.push [101, 102] 4 false, .push [99, 100, 101] 2 false,
        .push [104] 7 true, .push [97] 0 false, .read 1] = some m ∧
      m.unassembledBytes = 5 ∧ m.unassembledBytes = (m.storage.map Datagram.Members.size).sum :=
  have hrun : exec (step 9) (new 16) [.push [101, 102] 4 false, .push [99, 100, 101] 2 false,
      .push [104] 7 true, .push [97] 0 false, .read 1] = some _ := rfl
  ⟨_, hrun, rfl, (exec_books hrun).2.2.1⟩

end Members

end StreamReassembler

end Sponge
