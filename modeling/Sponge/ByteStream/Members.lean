import Sponge.ByteStream
import Sponge.Lib.Run

/-!
# Sponge.ByteStream.Members

The members of a `ByteStream` as the class keeps them: counters of type `size_t`
that every operation updates for itself, and a list, with nothing that ties
them together.  `std::advance` past the end of the list is undefined, so
`peek_output` and `pop_output` may have no result (`none`).

`Sponge.ByteStream` is the same class with the ties in its type.  The members
show such a stream after every operation (`Shows`); from this come the facts
about the members that the rest of the code relies on (`bounded_fifo`).
-/

namespace Sponge

namespace ByteStream

/-- The members of the class, the counters with the width that `size_t` has. -/
structure Members where
  inputEnded : Bool := false
  capacity : UInt64
  bufferSize : UInt64 := 0
  bytesWritten : UInt64 := 0
  bytesRead : UInt64 := 0
  stream : List UInt8 := []

namespace Members

/-! ## The operations -/

def remainingCapacity (m : Members) : UInt64 := m.capacity - m.bufferSize

/-- One turn of the loop of `write`. -/
def pushBack (m : Members) (byte : UInt8) : Members :=
  { m with
    stream := m.stream ++ [byte]
    bufferSize := m.bufferSize + 1
    bytesWritten := m.bytesWritten + 1 }

/-- The subtraction wraps around if the buffer holds more than the capacity. -/
def write (m : Members) (data : List UInt8) : UInt64 × Members :=
  let remainingCapacity := m.capacity - m.bufferSize
  if remainingCapacity = 0 ∨ data.length = 0 then (0, m)
  else
    let writeableSize :=
      if data.length > remainingCapacity.toNat then remainingCapacity else UInt64.ofNat data.length
    (writeableSize, (data.take writeableSize.toNat).foldl pushBack m)

/-- `advance` from the begin of a list: what lies before the iterator and what
lies behind it. -/
def advance (l : List UInt8) (n : UInt64) : Option (List UInt8 × List UInt8) :=
  if n.toNat ≤ l.length then some (l.take n.toNat, l.drop n.toNat) else none

def peekOutput (m : Members) (len : UInt64) : Option (List UInt8) := do
  let peekLen := if len > m.bufferSize then m.bufferSize else len
  let (front, _) ← advance m.stream peekLen
  return front

/-- `none` stands for the list running out of elements. -/
def popOutput (m : Members) (len : UInt64) : Option Members := do
  let popLen := if len > m.bufferSize then m.bufferSize else len
  let (_, rest) ← advance m.stream popLen
  return { m with
    stream := rest
    bufferSize := m.bufferSize - popLen
    bytesRead := m.bytesRead + popLen }

def read (m : Members) (len : UInt64) : Option (List UInt8 × Members) :=
  if len = 0 then some ([], m)
  else do
    let read ← m.peekOutput len
    let m ← m.popOutput len
    return (read, m)

def endInput (m : Members) : Members := { m with inputEnded := true }

/-- The loop pushes the bytes it is given and counts them. -/
theorem foldl_pushBack (m : Members) (data : List UInt8) :
    data.foldl pushBack m = { m with
      stream := m.stream ++ data
      bufferSize := m.bufferSize + UInt64.ofNat data.length
      bytesWritten := m.bytesWritten + UInt64.ofNat data.length } := by
  induction data generalizing m with
  | nil => simp
  | cons byte data ih =>
      have hcount : ∀ n : UInt64,
          n + UInt64.ofNat (byte :: data).length = n + 1 + UInt64.ofNat data.length := by
        intro n
        rw [List.length_cons, Nat.add_comm, UInt64.ofNat_add, ← UInt64.add_assoc]
        rfl
      rw [List.foldl_cons, ih, hcount, hcount]
      simp [pushBack]

/-- What `write` does, by the number of bytes it takes. -/
theorem write_eq (m : Members) (data : List UInt8) :
    m.write data = (UInt64.ofNat (min data.length m.remainingCapacity.toNat),
      { m with
        stream := m.stream ++ data.take m.remainingCapacity.toNat
        bufferSize := m.bufferSize + UInt64.ofNat (min data.length m.remainingCapacity.toNat)
        bytesWritten := m.bytesWritten +
          UInt64.ofNat (min data.length m.remainingCapacity.toNat) }) := by
  unfold write remainingCapacity
  generalize m.capacity - m.bufferSize = room
  by_cases hnone : room = 0 ∨ data.length = 0
  · rw [if_pos hnone]
    rcases hnone with hzero | hnil
    · simp [hzero]
    · simp [List.length_eq_zero_iff.mp hnil]
  · rw [if_neg hnone]
    by_cases hmore : data.length > room.toNat
    · have hmin := Nat.min_eq_right (Nat.le_of_lt hmore)
      simp [if_pos hmore, foldl_pushBack, Nat.min_comm room.toNat, hmin]
    · have hle := Nat.le_of_not_lt hmore
      have hlen : (UInt64.ofNat data.length).toNat = data.length :=
        UInt64.toNat_ofNat_of_lt' (Nat.lt_of_le_of_lt hle room.toNat_lt)
      simp [if_neg hmore, foldl_pushBack, hlen, Nat.min_eq_left hle,
        List.take_of_length_le hle]

/-- `read` of nothing returns at once; to copy and pop nothing is the same. -/
theorem read_eq (m : Members) (len : UInt64) : m.read len = do
    let out ← m.peekOutput len
    let m ← m.popOutput len
    return (out, m) := by
  by_cases hlen : len = 0
  · subst hlen
    simp [read, peekOutput, popOutput, advance]
  · rw [read, if_neg hlen]

end Members

/-! ## Refinement -/

/-- The members hold what the stream says; the two totals as `size_t`. -/
structure Members.Shows (m : Members) (s : ByteStream) : Prop where
  inputEnded : m.inputEnded = s.inputEnded
  capacity : m.capacity.toNat = s.capacity
  bufferSize : m.bufferSize.toNat = s.bufferSize
  bytesWritten : m.bytesWritten = UInt64.ofNat s.bytesWritten
  bytesRead : m.bytesRead = UInt64.ofNat s.bytesRead
  stream : m.stream = s.stream

namespace Members.Shows

/-- An empty stream of any capacity that a `size_t` can hold. -/
theorem new (capacity : UInt64) : Shows { capacity := capacity } (new capacity.toNat) :=
  ⟨rfl, rfl, rfl, rfl, rfl, rfl⟩

variable {m : Members} {s : ByteStream}

/-- The subtraction in `remaining_capacity` does not wrap around. -/
theorem bufferSize_le (h : m.Shows s) : m.bufferSize ≤ m.capacity := by
  rw [UInt64.le_iff_toNat_le, h.bufferSize, h.capacity]
  exact s.bufferSize_le

/-- The difference of the two members does not go around. -/
theorem remainingCapacity (h : m.Shows s) : m.remainingCapacity.toNat = s.remainingCapacity := by
  rw [Members.remainingCapacity, UInt64.toNat_sub_of_le _ _ h.bufferSize_le, h.capacity,
    h.bufferSize]
  rfl

/-- Both take the same number of bytes. -/
theorem write_fst (h : m.Shows s) (data : List UInt8) :
    (m.write data).1.toNat = (s.write data).1 := by
  rw [Members.write_eq, ByteStream.write_fst, ← h.remainingCapacity]
  exact UInt64.toNat_ofNat_of_lt' (Nat.lt_of_le_of_lt (Nat.min_le_right _ _) (UInt64.toNat_lt _))

/-- A write keeps the two in step. -/
theorem write (h : m.Shows s) (data : List UInt8) :
    (m.write data).2.Shows (s.write data).2 where
  inputEnded := by rw [Members.write_eq, write_inputEnded, h.inputEnded]
  capacity := by rw [Members.write_eq, write_capacity, h.capacity]
  bufferSize := by
    have hle := (s.write data).2.bufferSize_le
    have hlt := m.capacity.toNat_lt
    rw [write_bufferSize, write_capacity, ← h.capacity, ← h.bufferSize,
      ← h.remainingCapacity] at hle
    rw [Members.write_eq, write_bufferSize, ← h.remainingCapacity, ← h.bufferSize]
    simp only [UInt64.toNat_add, UInt64.toNat_ofNat']
    rw [Nat.add_mod_mod, Nat.mod_eq_of_lt (by omega)]
  bytesWritten := by
    rw [Members.write_eq, write_bytesWritten, UInt64.ofNat_add, h.bytesWritten,
      h.remainingCapacity]
  bytesRead := by rw [Members.write_eq, write_bytesRead, h.bytesRead]
  stream := by rw [Members.write_eq, write_stream, h.stream, h.remainingCapacity]

/-- Lengths are clipped before the iterator is moved. -/
theorem clip (h : m.Shows s) (len : UInt64) :
    (if len > m.bufferSize then m.bufferSize else len).toNat = min len.toNat s.bufferSize := by
  rw [← h.bufferSize]
  split
  · next hlt => exact (Nat.min_eq_right (Nat.le_of_lt hlt)).symm
  · next hle => exact (Nat.min_eq_left (Nat.le_of_not_lt hle)).symm

/-- So the iterator stays within the list. -/
theorem advance (h : m.Shows s) (len : UInt64) :
    Members.advance m.stream (if len > m.bufferSize then m.bufferSize else len) =
      some (s.stream.take len.toNat, s.stream.drop len.toNat) := by
  have hle : min len.toNat s.bufferSize ≤ s.stream.length := by
    rw [length_stream]
    exact Nat.min_le_right _ _
  rw [Members.advance, h.clip, h.stream, if_pos hle, ← s.length_stream]
  simp [List.take_eq_take_iff, List.drop_eq_drop_iff]

/-- The list does not run out of elements, and both show the same bytes. -/
theorem peekOutput (h : m.Shows s) (len : UInt64) :
    m.peekOutput len = some (s.peekOutput len.toNat) := by
  simp only [Members.peekOutput, h.advance, peekOutput_eq]
  rfl

/-- The list does not run out of elements, and the two stay in step. -/
theorem popOutput (h : m.Shows s) (len : UInt64) :
    ∃ m', m.popOutput len = some m' ∧ m'.Shows (s.popOutput len.toNat) := by
  refine ⟨_, by simp only [Members.popOutput, h.advance]; rfl, ?_⟩
  have hclip := h.clip len
  generalize (if len > m.bufferSize then m.bufferSize else len) = popLen at hclip
  have hle : popLen ≤ m.bufferSize := by
    rw [UInt64.le_iff_toNat_le, hclip, h.bufferSize]
    exact Nat.min_le_right _ _
  refine ⟨h.inputEnded, h.capacity, ?_, ?_, ?_, (s.popOutput_stream _).symm⟩
  · rw [popOutput_bufferSize, UInt64.toNat_sub_of_le _ _ hle, hclip, h.bufferSize]
    omega
  · exact h.bytesWritten
  · rw [popOutput_bytesRead, UInt64.ofNat_add, ← hclip, UInt64.ofNat_toNat, h.bytesRead]

/-- A read returns the same bytes, and the two stay in step. -/
theorem read (h : m.Shows s) (len : UInt64) :
    ∃ m', m.read len = some ((s.read len.toNat).1, m') ∧ m'.Shows (s.read len.toNat).2 := by
  by_cases hlen : len = 0
  · subst hlen
    exact ⟨m, rfl, h⟩
  · have hlen' : len.toNat ≠ 0 := fun hzero => hlen (UInt64.toNat_inj.mp hzero)
    obtain ⟨m', hpop, hshows⟩ := h.popOutput len
    refine ⟨m', ?_, by rwa [ByteStream.read, if_neg hlen']⟩
    rw [Members.read, if_neg hlen, h.peekOutput, hpop, ByteStream.read, if_neg hlen']
    rfl

/-- The end of the input keeps the two in step. -/
theorem endInput (h : m.Shows s) : m.endInput.Shows s.endInput :=
  ⟨rfl, h.capacity, h.bufferSize, h.bytesWritten, h.bytesRead, h.stream⟩

end Members.Shows

/-! ## Runs -/

/-- What the users of a stream call. -/
inductive Op where
  | write (data : List UInt8)
  | peekOutput (len : UInt64)
  | popOutput (len : UInt64)
  | read (len : UInt64)
  | endInput

def step (s : ByteStream) : Op → ByteStream
  | .write data => (s.write data).2
  | .peekOutput _ => s
  | .popOutput len => s.popOutput len.toNat
  | .read len => (s.read len.toNat).2
  | .endInput => s.endInput

/-- No operation changes the capacity. -/
theorem foldl_step_capacity (s : ByteStream) (ops : List Op) :
    (ops.foldl step s).capacity = s.capacity := by
  induction ops generalizing s with
  | nil => rfl
  | cons op ops ih =>
      rw [List.foldl_cons, ih]
      cases op with
      | write data => exact s.write_capacity data
      | read len => exact s.read_capacity len.toNat
      | peekOutput | popOutput | endInput => rfl

/-- The members, with the bytes accepted and the bytes removed so far. -/
structure Log where
  members : Members
  accepted : List UInt8 := []
  removed : List UInt8 := []

namespace Log

def new (capacity : UInt64) : Log := { members := { capacity := capacity } }

/-- An operation, logged: a write by the count it returns, `pop_output` by what
has gone from the front of the list, and `read` by what it returns. -/
def step (l : Log) : Op → Option Log
  | .write data => some
      ⟨(l.members.write data).2, l.accepted ++ data.take (l.members.write data).1.toNat, l.removed⟩
  | .peekOutput len => (l.members.peekOutput len).map fun _ => l
  | .popOutput len => (l.members.popOutput len).map fun m =>
      ⟨m, l.accepted,
        l.removed ++ l.members.stream.take (l.members.stream.length - m.stream.length)⟩
  | .read len => (l.members.read len).map fun (out, m) => ⟨m, l.accepted, l.removed ++ out⟩
  | .endInput => some { l with members := l.members.endInput }

/-- The members show the stream, and what has been accepted and not removed is in
it. -/
structure Tracks (l : Log) (s : ByteStream) : Prop where
  shows : l.members.Shows s
  fifo : l.removed ++ s.stream = l.accepted

/-- At first nothing has happened. -/
theorem tracks_new (capacity : UInt64) :
    (new capacity).Tracks (ByteStream.new capacity.toNat) :=
  ⟨.new capacity, rfl⟩

/-- **Each operation** returns, and keeps to the stream. -/
theorem Tracks.step {l : Log} {s : ByteStream} (h : l.Tracks s) (op : Op) :
    ∃ l', l.step op = some l' ∧ l'.Tracks (s.step op) := by
  cases op with
  | write data =>
      refine ⟨_, rfl, h.shows.write data, ?_⟩
      simp only [ByteStream.step, h.shows.write_fst, write_fst, write_stream]
      rw [← List.append_assoc, h.fifo, List.append_cancel_left_eq, List.take_eq_take_iff]
      omega
  | peekOutput len =>
      refine ⟨l, ?_, h⟩
      rw [Log.step, h.shows.peekOutput]
      rfl
  | popOutput len =>
      obtain ⟨m, hm, hshows⟩ := h.shows.popOutput len
      refine ⟨_, by rw [Log.step, hm]; rfl, hshows, ?_⟩
      have hgone : s.stream.take (s.stream.length - (s.stream.length - len.toNat)) =
          s.stream.take len.toNat := by
        rw [List.take_eq_take_iff]
        omega
      simp only [ByteStream.step, h.shows.stream, hshows.stream, popOutput_stream,
        List.length_drop]
      rw [hgone, List.append_assoc, List.take_append_drop, h.fifo]
  | read len =>
      obtain ⟨m, hm, hshows⟩ := h.shows.read len
      refine ⟨_, by rw [Log.step, hm]; rfl, hshows, ?_⟩
      simp only [ByteStream.step, read_fst, read_stream]
      rw [List.append_assoc, List.take_append_drop, h.fifo]
  | endInput => exact ⟨_, rfl, h.shows.endInput, h.fifo⟩

/-- **Each run** returns, and keeps to the stream. -/
theorem Tracks.exec {l : Log} {s : ByteStream} (h : l.Tracks s) (ops : List Op) :
    ∃ l', exec Log.step l ops = some l' ∧ l'.Tracks (ops.foldl ByteStream.step s) := by
  induction ops generalizing l s with
  | nil => exact ⟨l, rfl, h⟩
  | cons op ops ih =>
      obtain ⟨l₁, hstep, h₁⟩ := h.step op
      obtain ⟨l₂, hexec, h₂⟩ := ih h₁
      exact ⟨l₂, exec_cons_eq_some.mpr ⟨l₁, hstep, hexec⟩, h₂⟩

/-- **A bounded FIFO**: after every sequence of operations on a stream of any capacity,
what was removed followed by what is buffered is what was accepted; the members
agree with each other and with the list; and the next write takes what fits, the
next `peek_output` shows the front of the list and the next `read` is that with
a `pop_output` behind it. -/
theorem bounded_fifo (capacity : UInt64) (ops : List Op) :
    ∃ l, exec step (new capacity) ops = some l ∧
      l.removed ++ l.members.stream = l.accepted ∧
      l.members.capacity = capacity ∧
      l.members.bufferSize ≤ capacity ∧
      l.members.bytesWritten = l.members.bytesRead + l.members.bufferSize ∧
      l.members.bufferSize.toNat = l.members.stream.length ∧
      l.members.remainingCapacity.toNat = capacity.toNat - l.members.bufferSize.toNat ∧
      (∀ data, (l.members.write data).1.toNat =
        min data.length l.members.remainingCapacity.toNat) ∧
      (∀ len, l.members.peekOutput len =
        some (l.members.stream.take (min len.toNat l.members.bufferSize.toNat))) ∧
      ∀ len, l.members.read len = do
        let out ← l.members.peekOutput len
        let m ← l.members.popOutput len
        return (out, m) := by
  obtain ⟨l, hexec, htracks⟩ := (tracks_new capacity).exec ops
  have hcap := foldl_step_capacity (ByteStream.new capacity.toNat) ops
  generalize ops.foldl ByteStream.step (ByteStream.new capacity.toNat) = s at htracks hcap
  have hshows := htracks.shows
  have hcapacity : l.members.capacity = capacity :=
    UInt64.toNat_inj.mp (hshows.capacity.trans hcap)
  refine ⟨l, hexec, ?_, hcapacity, ?_, ?_, ?_, ?_, fun data => ?_, fun len => ?_,
    l.members.read_eq⟩
  · rw [hshows.stream, htracks.fifo]
  · exact hcapacity ▸ hshows.bufferSize_le
  · rw [hshows.bytesWritten, hshows.bytesRead, s.bytesWritten_eq, UInt64.ofNat_add,
      ← hshows.bufferSize, UInt64.ofNat_toNat]
  · rw [hshows.bufferSize, hshows.stream, length_stream]
  · rw [hshows.remainingCapacity, hshows.bufferSize, remainingCapacity, hcap]
    rfl
  · rw [hshows.write_fst, hshows.remainingCapacity, write_fst]
  · rw [hshows.peekOutput, hshows.stream, hshows.bufferSize, ← s.length_stream, peekOutput_eq,
      ← List.take_take, List.take_length]

end Log

end ByteStream

end Sponge
