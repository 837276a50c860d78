/-!
# Sponge.Lib.Excerpt

Excerpts of a list: `Excerpt S i d` says that `d` is what `S` reads from
position `i` on, for as long as `d` is.  The lemmas say how excerpts are cut,
prolonged and glued at an overlap, so that the proofs about stored pieces
never redo list arithmetic.

This module depends only on the Lean 4 core library.
-/

namespace Sponge

/-- `d` is the part of `S` at positions `i, …, i + d.length - 1`. -/
def Excerpt (S : List α) (i : Nat) (d : List α) : Prop :=
  i + d.length ≤ S.length ∧ d = (S.drop i).take d.length

instance [DecidableEq α] (S : List α) (i : Nat) (d : List α) : Decidable (Excerpt S i d) :=
  inferInstanceAs (Decidable (_ ∧ _))

namespace Excerpt

/-- The empty list is an excerpt at every position up to the end. -/
theorem nil {S : List α} (h : i ≤ S.length) : Excerpt S i [] := ⟨by simpa using h, by simp⟩

/-- Dropping the front of an excerpt moves it forward. -/
theorem drop {S d : List α} (h : Excerpt S i d) (k : Nat) (hk : k ≤ d.length) :
    Excerpt S (i + k) (d.drop k) := by
  obtain ⟨hle, heq⟩ := h
  refine ⟨by rw [List.length_drop]; omega, ?_⟩
  calc
    d.drop k = ((S.drop i).take d.length).drop k := by rw [← heq]
    _ = ((S.drop i).drop k).take (d.length - k) := by rw [List.drop_take]
    _ = (S.drop (i + k)).take (d.drop k).length := by rw [List.drop_drop, List.length_drop]

/-- The front of an excerpt is an excerpt. -/
theorem take {S d : List α} (h : Excerpt S i d) (k : Nat) : Excerpt S i (d.take k) := by
  obtain ⟨hle, heq⟩ := h
  refine ⟨by rw [List.length_take]; omega, ?_⟩
  calc
    d.take k = ((S.drop i).take d.length).take k := by rw [← heq]
    _ = (S.drop i).take (d.take k).length := by
        rw [List.take_take, List.length_take]

/-- Two excerpts that touch glue to one. -/
theorem append {S d e : List α} (hd : Excerpt S i d) (he : Excerpt S (i + d.length) e) :
    Excerpt S i (d ++ e) := by
  refine ⟨by rw [List.length_append]; have := he.1; omega, ?_⟩
  calc
    d ++ e = (S.drop i).take d.length ++ (S.drop (i + d.length)).take e.length := by
        rw [← hd.2, ← he.2]
    _ = (S.drop i).take (d.length + e.length) := by
        rw [← List.drop_drop, List.take_add]
    _ = (S.drop i).take (d ++ e).length := by rw [List.length_append]

/-- Excerpts survive growth of the list. -/
theorem mono {S T d : List α} (h : Excerpt S i d) (hST : S <+: T) : Excerpt T i d := by
  obtain ⟨e, rfl⟩ := hST
  obtain ⟨hle, heq⟩ := h
  refine ⟨by rw [List.length_append]; omega, ?_⟩
  rw [List.drop_append_of_le_length (by omega), List.take_append_of_le_length
    (by rw [List.length_drop]; omega)]
  exact heq

/-- Appending the excerpt at its own position prolongs a prefix. -/
theorem take_append {S d : List α} (h : Excerpt S i d) :
    S.take i ++ d = S.take (i + d.length) := by
  rw [List.take_add, ← h.2]

end Excerpt

end Sponge
