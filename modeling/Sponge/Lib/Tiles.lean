import Mathlib.Algebra.GroupWithZero.Nat

/-!
# Sponge.Lib.Tiles

Pieces laid end to end: `Tiles len P a l b` says that the pieces of `l` cover
the positions from `a` to `b`, each starting where the one before it ends, and
that `P` holds of every piece at its start.  A queue of such pieces is
prolonged at its end and shortened at its front, and the lemmas follow these
two ways.
-/

namespace Sponge

/-- The pieces of `l` cover `a` to `b`, with `P` at the start of each. -/
def Tiles (len : α → Nat) (P : Nat → α → Prop) : Nat → List α → Nat → Prop
  | a, [], b => a = b
  | a, x :: l, b => P a x ∧ Tiles len P (a + len x) l b

namespace Tiles

variable {len : α → Nat} {P Q : Nat → α → Prop}

@[simp] theorem nil_iff : Tiles len P a [] b ↔ a = b := Iff.rfl

@[simp] theorem cons_iff : Tiles len P a (x :: l) b ↔ P a x ∧ Tiles len P (a + len x) l b :=
  Iff.rfl

/-- The end is the start plus all lengths. -/
theorem eq_add_sum (h : Tiles len P a l b) : b = a + (l.map len).sum := by
  induction l generalizing a with
  | nil => exact (Nat.add_zero a).symm ▸ h.symm
  | cons x l ih =>
      rw [List.map_cons, List.sum_cons, ← Nat.add_assoc]
      exact ih h.2

/-- The tiles go forward. -/
theorem le (h : Tiles len P a l b) : a ≤ b := by
  have := h.eq_add_sum
  omega

/-- Two runs of tiles meet somewhere. -/
theorem append_iff : Tiles len P a (l ++ m) b ↔ ∃ c, Tiles len P a l c ∧ Tiles len P c m b := by
  induction l generalizing a with
  | nil => simp
  | cons x l ih => simp [ih, and_assoc]

/-- One more piece at the end. -/
theorem concat (h : Tiles len P a l b) (hx : P b x) : Tiles len P a (l ++ [x]) (b + len x) :=
  append_iff.mpr ⟨b, h, hx, rfl⟩

/-- Every piece starts somewhere. -/
theorem exists_start (h : Tiles len P a l b) (hx : x ∈ l) : ∃ c, P c x := by
  induction l generalizing a with
  | nil => contradiction
  | cons y l ih =>
      cases hx with
      | head => exact ⟨a, h.1⟩
      | tail _ hx => exact ih h.2 hx

/-- The tiles may be asked for less. -/
theorem mono (h : Tiles len P a l b) (hPQ : ∀ c x, P c x → Q c x) : Tiles len Q a l b := by
  induction l generalizing a with
  | nil => exact h
  | cons x l ih => exact ⟨hPQ a x h.1, ih h.2⟩

end Tiles

end Sponge
