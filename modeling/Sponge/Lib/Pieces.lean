/-!
# Sponge.Lib.Pieces

A string kept in pieces.  `view` says what a piece shows, and `trim` takes
elements off its front; `removeFront` takes elements off the front of the
whole, popping the pieces that go entirely and trimming the first that stays.

Whatever the pieces are, this is `drop` on the string they show, as long as it
is `drop` on a single piece (`map_flatMap_removeFront`).  Its length is added up
piece by piece (`foldl_length_view`).

This module depends only on the Lean 4 core library.
-/

namespace Sponge

section

variable {α π ε : Type} (view : π → List α) (trim : π → Nat → Except ε π) (short : ε)

/-- Takes `n` elements off the front of the pieces; `short` when there are not that
many. -/
def removeFront : List π → Nat → Except ε (List π)
  | [], n => if n > 0 then .error short else .ok []
  | p :: l, n =>
      if n > 0 then
        if n < (view p).length then (trim p n).map (· :: l)
        else removeFront l (n - (view p).length)
      else .ok (p :: l)

/-- The lengths of the pieces add up to that of the string. -/
theorem foldl_length_view (l : List π) :
    l.foldl (fun ret p => ret + (view p).length) 0 = (l.flatMap view).length := by
  have hfold : ∀ ret, l.foldl (fun ret p => ret + (view p).length) ret =
      ret + (l.flatMap view).length := by
    induction l with
    | nil => exact fun _ => rfl
    | cons p l ih =>
        intro ret
        rw [List.foldl_cons, ih, List.flatMap_cons, List.length_append, Nat.add_assoc]
  rw [hfold, Nat.zero_add]

/-- **Dropping from the pieces is dropping from the string**, and it fails exactly when
the string is too short. -/
theorem map_flatMap_removeFront
    (htrim : ∀ p n, n ≤ (view p).length → (trim p n).map view = .ok ((view p).drop n))
    (l : List π) (n : Nat) :
    (removeFront view trim short l n).map (·.flatMap view) =
      if n ≤ (l.flatMap view).length then .ok ((l.flatMap view).drop n) else .error short := by
  induction l generalizing n with
  | nil =>
      rw [removeFront]
      by_cases hn : n > 0
      · simp [Except.map, hn, Nat.not_le.mpr hn]
      · simp [Except.map, hn, Nat.le_of_not_lt hn]
  | cons p l ih =>
      rw [removeFront, List.flatMap_cons, List.length_append]
      by_cases hn : n > 0
      · rw [if_pos hn]
        by_cases hlt : n < (view p).length
        · -- `p` stays, and is the only piece that changes
          have hfuse : ((trim p n).map (· :: l)).map (·.flatMap view) =
              ((trim p n).map view).map (· ++ l.flatMap view) := by
            cases trim p n <;> simp [Except.map]
          rw [if_pos hlt, hfuse, htrim p n (Nat.le_of_lt hlt), if_pos (by omega),
            List.drop_append_of_le_length (Nat.le_of_lt hlt)]
          rfl
        · rw [if_neg hlt, ih]
          have hdrop : (view p ++ l.flatMap view).drop n =
              (l.flatMap view).drop (n - (view p).length) := by
            rw [List.drop_append, List.drop_eq_nil_of_le (Nat.le_of_not_lt hlt), List.nil_append]
          rw [hdrop]
          congr 1
          simp only [eq_iff_iff]
          omega
      · have hzero : n = 0 := Nat.eq_zero_of_not_pos hn
        simp [Except.map, hzero]

end

end Sponge
