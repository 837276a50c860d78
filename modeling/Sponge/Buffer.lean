import Sponge.Lib.Pieces
import Sponge.NetParser

/-!
# Sponge.Buffer

Buffers as they are stored (`buffer.hh`, `buffer.cc`): a shared string and an
offset into it, lists of these, and lists of views of them.

Elsewhere a `Buffer` is the bytes it shows.  That is all there is to see of it
(`map_str_removePrefix`), and the loops over the two kinds of lists, which pop
and trim their elements, are `drop` on the concatenation
(`removePrefix_concatenate`).
-/

namespace Sponge

/-! ## Buffers -/

/-- The members of `Buffer`.  The offset stays within the string, so the view that
`str` makes does too. -/
structure Buffer.Storage where
  storage : Option (List UInt8)
  startingOffset : Nat
  inside : ∀ s, storage = some s → startingOffset ≤ s.length

namespace Buffer.Storage

/-- A buffer made from a string shows all of it. -/
def ofString (s : List UInt8) : Storage := ⟨some s, 0, fun _ _ => Nat.zero_le _⟩

/-- The last `size() - _starting_offset` bytes of the string. -/
def str (b : Storage) : Buffer :=
  match b.storage with
  | none => []
  | some s => s.drop b.startingOffset

def size (b : Storage) : Nat := b.str.length

/-- Moves the offset; a buffer that has nothing left to show lets go of the string. -/
def removePrefix (b : Storage) (n : Nat) : Except Exception Storage :=
  if h : n > b.str.length then .error (.outOfRange "Buffer::remove_prefix")
  else .ok {
    storage := b.storage.filter fun s => b.startingOffset + n ≠ s.length
    startingOffset := b.startingOffset + n
    inside := by
      intro s hs
      obtain ⟨hs, -⟩ := Option.filter_eq_some_iff.mp hs
      have hin := b.inside s hs
      simp only [str, hs, List.length_drop] at h
      omega }

/-- A buffer can be taken for the bytes it shows. -/
theorem map_str_removePrefix (b : Storage) (n : Nat) :
    (b.removePrefix n).map str = b.str.removePrefix n := by
  unfold removePrefix Buffer.removePrefix
  split
  · rfl
  · obtain ⟨_ | s, offset, hin⟩ := b
    · simp [Except.map, str]
    · by_cases hend : offset + n = s.length
      · simp [Except.map, str, hend, Option.filter]
      · simp [Except.map, str, hend, Option.filter]

/-- On what the buffer has, it is `drop`. -/
theorem map_str_removePrefix_of_le {b : Storage} (h : n ≤ b.str.length) :
    (b.removePrefix n).map str = .ok (b.str.drop n) := by
  rw [map_str_removePrefix, Buffer.removePrefix, if_neg (Nat.not_lt.mpr h)]

end Buffer.Storage

/-! ## Lists of buffers -/

/-- The member of `BufferList`. -/
abbrev BufferList.Storage := List Buffer.Storage

namespace BufferList.Storage

def concatenate (l : Storage) : List UInt8 := l.foldl (fun ret buf => ret ++ buf.str) []

def size (l : Storage) : Nat := l.foldl (fun ret buf => ret + buf.size) 0

def removePrefix (l : Storage) (n : Nat) : Except Exception Storage :=
  removeFront Buffer.Storage.str Buffer.Storage.removePrefix
    (.outOfRange "BufferList::remove_prefix") l n

/-- The loop that appends is the concatenation. -/
theorem concatenate_eq (l : Storage) : l.concatenate = l.flatMap Buffer.Storage.str :=
  List.flatMap_eq_foldl.symm

/-- The sizes of the buffers add up to that of the string. -/
theorem size_eq (l : Storage) : l.size = l.concatenate.length := by
  rw [concatenate_eq]
  exact foldl_length_view Buffer.Storage.str l

end BufferList.Storage

/-! ## Lists of views -/

/-- The member of `BufferViewList`; a `std::string_view` is the bytes it shows. -/
abbrev BufferViewList := List (List UInt8)

namespace BufferViewList

/-- One view for each buffer. -/
def ofBufferList (buffers : BufferList.Storage) : BufferViewList :=
  buffers.map Buffer.Storage.str

def size (l : BufferViewList) : Nat := l.foldl (fun ret view => ret + view.length) 0

/-- The lengths of the views add up to that of the string. -/
theorem size_eq (l : BufferViewList) : l.size = l.flatten.length := by
  rw [← List.flatMap_id]
  exact foldl_length_view id l

/-- The text names the class the other way round. -/
def removePrefix (l : BufferViewList) (n : Nat) : Except Exception BufferViewList :=
  removeFront id (fun view n => .ok (view.drop n))
    (.outOfRange "BufferListView::remove_prefix") l n

/-- The loop over the views drops from what they show. -/
theorem map_flatten_removePrefix (l : BufferViewList) (n : Nat) :
    (l.removePrefix n).map List.flatten =
      if n ≤ l.flatten.length then .ok (l.flatten.drop n)
        else .error (.outOfRange "BufferListView::remove_prefix") := by
  have hflatten : (List.flatten : BufferViewList → List UInt8) = (·.flatMap id) :=
    funext fun views => List.flatMap_id.symm
  rw [hflatten]
  exact map_flatMap_removeFront id _ _ (fun _ _ _ => rfl) l n

end BufferViewList

/-- **Two loops, one string**: for every list of buffers, empty and trimmed ones
included, and every `n`, both `remove_prefix` leave the concatenation without its
first `n` bytes, and both throw exactly when there are fewer. -/
theorem BufferList.removePrefix_concatenate (l : BufferList.Storage) (n : Nat) :
    (l.removePrefix n).map BufferList.Storage.concatenate =
      (if n ≤ l.size then .ok (l.concatenate.drop n)
        else .error (.outOfRange "BufferList::remove_prefix")) ∧
    ((BufferViewList.ofBufferList l).removePrefix n).map List.flatten =
      (if n ≤ l.size then .ok (l.concatenate.drop n)
        else .error (.outOfRange "BufferListView::remove_prefix")) := by
  have hconcat : BufferList.Storage.concatenate = (·.flatMap Buffer.Storage.str) :=
    funext BufferList.Storage.concatenate_eq
  have hviews : (BufferViewList.ofBufferList l).flatten = l.concatenate :=
    l.concatenate_eq.symm
  rw [l.size_eq]
  constructor
  · rw [hconcat]
    exact map_flatMap_removeFront _ _ _ (fun _ _ => Buffer.Storage.map_str_removePrefix_of_le) l n
  · rw [BufferViewList.map_flatten_removePrefix, hviews]

end Sponge
