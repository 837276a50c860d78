/-!
# Sponge.ByteStream

The flow-controlled in-memory byte stream (`byte_stream.hh`,
`byte_stream.cc`): bytes are written on the input side, up to the capacity,
and read or popped from the output side.

The class keeps the size of its buffer and two running totals beside the
buffer itself.  How these hang together is part of the type: no operation
can build a `ByteStream` whose cached numbers are wrong, so no proof below
has to carry them along.
-/

namespace Sponge

/-- `ByteStream`: the private members of the class, with the three facts that
tie the cached counters to the buffer. -/
structure ByteStream where
  error : Bool
  inputEnded : Bool
  capacity : Nat
  bufferSize : Nat
  bytesWritten : Nat
  bytesRead : Nat
  stream : List UInt8
  bufferSize_eq : bufferSize = stream.length
  bufferSize_le : bufferSize ≤ capacity
  bytesWritten_eq : bytesWritten = bytesRead + bufferSize

namespace ByteStream

/-- A stream with room for `capacity` bytes. -/
def new (capacity : Nat) : ByteStream where
  error := false
  inputEnded := false
  capacity := capacity
  bufferSize := 0
  bytesWritten := 0
  bytesRead := 0
  stream := []
  bufferSize_eq := rfl
  bufferSize_le := Nat.zero_le _
  bytesWritten_eq := rfl

/-! ## The operations -/

/-- How many bytes a write would take. -/
def remainingCapacity (s : ByteStream) : Nat := s.capacity - s.bufferSize

def bufferEmpty (s : ByteStream) : Bool := s.stream.length == 0

/-- The end is reached once the input has ended and all is read. -/
def eof (s : ByteStream) : Bool := s.inputEnded && s.bufferEmpty

/-- Write as many bytes as fit; the first component is how many were accepted. -/
def write (s : ByteStream) (data : List UInt8) : Nat × ByteStream :=
  let remaining := s.capacity - s.bufferSize
  if remaining = 0 ∨ data.length = 0 then (0, s)
  else
    let writeableSize := if data.length > remaining then remaining else data.length
    (writeableSize,
      { s with
        -- the `push_back` loop over the first `writeable_size` bytes
        stream := s.stream ++ data.take writeableSize
        bufferSize := s.bufferSize + writeableSize
        bytesWritten := s.bytesWritten + writeableSize
        bufferSize_eq := by
          rw [List.length_append, List.length_take, ← s.bufferSize_eq]
          grind
        bufferSize_le := by
          have := s.bufferSize_le
          grind
        bytesWritten_eq := by
          have := s.bytesWritten_eq
          omega })

def peekOutput (s : ByteStream) (len : Nat) : List UInt8 :=
  let peekLen := if len > s.bufferSize then s.bufferSize else len
  s.stream.take peekLen

/-- Removes bytes from the front, and counts them as read. -/
def popOutput (s : ByteStream) (len : Nat) : ByteStream :=
  let popLen := if len > s.bufferSize then s.bufferSize else len
  { s with
    stream := s.stream.drop popLen
    bufferSize := s.bufferSize - popLen
    bytesRead := s.bytesRead + popLen
    bufferSize_eq := by rw [List.length_drop, s.bufferSize_eq]
    bufferSize_le := by have := s.bufferSize_le; omega
    bytesWritten_eq := by have := s.bytesWritten_eq; grind }

/-- Read, i.e. copy and then pop, the next `len` bytes. -/
def read (s : ByteStream) (len : Nat) : List UInt8 × ByteStream :=
  if len = 0 then ([], s) else (s.peekOutput len, s.popOutput len)

def endInput (s : ByteStream) : ByteStream := { s with inputEnded := true }

def setError (s : ByteStream) : ByteStream := { s with error := true }

/-! ## What the operations do to the members -/

@[simp] theorem length_stream (s : ByteStream) : s.stream.length = s.bufferSize :=
  s.bufferSize_eq.symm

@[simp] theorem bufferEmpty_eq_true (s : ByteStream) : s.bufferEmpty = true ↔ s.bufferSize = 0 := by
  simp [bufferEmpty]

/-- At the end, nothing is in the buffer and nothing will be. -/
theorem eof_eq_true (s : ByteStream) : s.eof = true ↔ s.inputEnded = true ∧ s.bufferSize = 0 := by
  simp [eof]

/-- The capacity not in use is what the bytes read have made free. -/
theorem bytesWritten_add_remainingCapacity (s : ByteStream) :
    s.bytesWritten + s.remainingCapacity = s.bytesRead + s.capacity := by
  have h1 := s.bufferSize_le
  have h2 := s.bytesWritten_eq
  unfold remainingCapacity
  omega

@[simp] theorem new_bufferSize : (new cap).bufferSize = 0 := rfl
@[simp] theorem new_inputEnded : (new cap).inputEnded = false := rfl

/-- A write accepts exactly what fits. -/
@[simp] theorem write_fst (s : ByteStream) (data : List UInt8) :
    (s.write data).1 = min data.length s.remainingCapacity := by
  simp only [write, remainingCapacity]
  split
  · simp only; omega
  · simp only; split <;> omega

@[simp] theorem write_stream (s : ByteStream) (data : List UInt8) :
    (s.write data).2.stream = s.stream ++ data.take s.remainingCapacity := by
  simp only [write, remainingCapacity]
  split
  · next h =>
      rcases h with h | h
      · simp [h]
      · simp [List.length_eq_zero_iff.mp h]
  · split
    · rfl
    · next h => simp [List.take_of_length_le (Nat.not_lt.mp h)]

@[simp] theorem write_bufferSize (s : ByteStream) (data : List UInt8) :
    (s.write data).2.bufferSize = s.bufferSize + min data.length s.remainingCapacity := by
  rw [(s.write data).2.bufferSize_eq, write_stream, List.length_append, List.length_take,
    ← s.bufferSize_eq, Nat.min_comm]

@[simp] theorem write_bytesRead (s : ByteStream) (data : List UInt8) :
    (s.write data).2.bytesRead = s.bytesRead := by
  simp only [write]; split <;> rfl

/-- What a write takes is counted. -/
@[simp] theorem write_bytesWritten (s : ByteStream) (data : List UInt8) :
    (s.write data).2.bytesWritten = s.bytesWritten + min data.length s.remainingCapacity := by
  rw [(s.write data).2.bytesWritten_eq, write_bytesRead, write_bufferSize, s.bytesWritten_eq,
    Nat.add_assoc]

@[simp] theorem write_capacity (s : ByteStream) (data : List UInt8) :
    (s.write data).2.capacity = s.capacity := by
  simp only [write]; split <;> rfl

@[simp] theorem write_inputEnded (s : ByteStream) (data : List UInt8) :
    (s.write data).2.inputEnded = s.inputEnded := by
  simp only [write]; split <;> rfl

@[simp] theorem write_error (s : ByteStream) (data : List UInt8) :
    (s.write data).2.error = s.error := by
  simp only [write]; split <;> rfl

@[simp] theorem write_remainingCapacity (s : ByteStream) (data : List UInt8) :
    (s.write data).2.remainingCapacity = s.remainingCapacity - data.length := by
  rw [remainingCapacity, write_capacity, write_bufferSize, remainingCapacity]
  have := s.bufferSize_le
  omega

/-- `peek_output` shows the front of the buffer. -/
theorem peekOutput_eq (s : ByteStream) (len : Nat) : s.peekOutput len = s.stream.take len := by
  simp only [peekOutput]
  split
  · next h =>
      rw [List.take_of_length_le (by simp), List.take_of_length_le (by simp; omega)]
  · rfl

@[simp] theorem popOutput_stream (s : ByteStream) (len : Nat) :
    (s.popOutput len).stream = s.stream.drop len := by
  simp only [popOutput]
  split
  · next h =>
      rw [List.drop_of_length_le (by simp), List.drop_of_length_le (by simp; omega)]
  · rfl

@[simp] theorem popOutput_bufferSize (s : ByteStream) (len : Nat) :
    (s.popOutput len).bufferSize = s.bufferSize - len := by
  rw [(s.popOutput len).bufferSize_eq, popOutput_stream, List.length_drop, length_stream]

/-- What is removed is counted. -/
theorem popOutput_bytesRead (s : ByteStream) (len : Nat) :
    (s.popOutput len).bytesRead = s.bytesRead + min len s.bufferSize := by
  simp only [popOutput]
  split <;> omega

/-- `read` returns the front of the buffer. -/
@[simp] theorem read_fst (s : ByteStream) (len : Nat) : (s.read len).1 = s.stream.take len := by
  simp only [read]
  split
  · next h => simp [h]
  · exact s.peekOutput_eq len

@[simp] theorem read_stream (s : ByteStream) (len : Nat) :
    (s.read len).2.stream = s.stream.drop len := by
  simp only [read]
  split
  · next h => simp [h]
  · exact s.popOutput_stream len

@[simp] theorem read_bytesWritten (s : ByteStream) (len : Nat) :
    (s.read len).2.bytesWritten = s.bytesWritten := by
  simp only [read]; split <;> rfl

@[simp] theorem read_inputEnded (s : ByteStream) (len : Nat) :
    (s.read len).2.inputEnded = s.inputEnded := by
  simp only [read]; split <;> rfl

@[simp] theorem read_capacity (s : ByteStream) (len : Nat) :
    (s.read len).2.capacity = s.capacity := by
  simp only [read]; split <;> rfl

@[simp] theorem read_error (s : ByteStream) (len : Nat) :
    (s.read len).2.error = s.error := by
  simp only [read]; split <;> rfl

@[simp] theorem read_bufferSize (s : ByteStream) (len : Nat) :
    (s.read len).2.bufferSize = s.bufferSize - len := by
  rw [(s.read len).2.bufferSize_eq, read_stream, List.length_drop, length_stream]

/-- A read counts what it returns. -/
theorem read_bytesRead (s : ByteStream) (len : Nat) :
    (s.read len).2.bytesRead = s.bytesRead + min len s.bufferSize := by
  simp only [read]
  split
  · next h => simp [h]
  · exact s.popOutput_bytesRead len

/-! ## What a writer can do -/

/-- `s'` is `s` after its writer has written and perhaps ended the input; nothing
has been read in between. -/
structure Extends (s s' : ByteStream) : Prop where
  capacity_eq : s'.capacity = s.capacity
  bytesRead_eq : s'.bytesRead = s.bytesRead
  bytesWritten_le : s.bytesWritten ≤ s'.bytesWritten
  inputEnded_mono : s.inputEnded = true → s'.inputEnded = true

namespace Extends

/-- A stream extends itself. -/
theorem refl (s : ByteStream) : Extends s s := ⟨rfl, rfl, Nat.le_refl _, id⟩

/-- One extension after another is an extension. -/
theorem trans (h : Extends s t) (h' : Extends t u) : Extends s u where
  capacity_eq := h'.capacity_eq.trans h.capacity_eq
  bytesRead_eq := h'.bytesRead_eq.trans h.bytesRead_eq
  bytesWritten_le := Nat.le_trans h.bytesWritten_le h'.bytesWritten_le
  inputEnded_mono := h'.inputEnded_mono ∘ h.inputEnded_mono

theorem write (s : ByteStream) (data : List UInt8) : Extends s (s.write data).2 :=
  ⟨s.write_capacity data, s.write_bytesRead data, by simp, by simp⟩

/-- The end of the input does not take anything away. -/
theorem endInput (s : ByteStream) : Extends s s.endInput := ⟨rfl, rfl, Nat.le_refl _, fun _ => rfl⟩

end Extends

end ByteStream

end Sponge
