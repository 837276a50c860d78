import Mathlib.Algebra.GroupWithZero.Nat
import Mathlib.Order.Interval.Finset.Nat

/-!
# Sponge.Lib.Spans

Items that occupy spans of positions: `a` those from `lo a` on, `size a` of
them.  A list in which no two items overlap covers as many positions as its
sizes add up to, and so fits into any range that contains it.
-/

namespace Sponge

section spans

variable {α : Type*} (lo size : α → Nat)

/-- The positions of one item. -/
def span (a : α) : Finset Nat := Finset.Ico (lo a) (lo a + size a)

/-- The positions that the items of a list cover. -/
def covered : List α → Finset Nat
  | [] => ∅
  | a :: l => span lo size a ∪ covered l

/-- Two items have a position in common. -/
def Overlap (a b : α) : Prop := max (lo a) (lo b) < min (lo a + size a) (lo b + size b)

instance (a b : α) : Decidable (Overlap lo size a b) := inferInstanceAs (Decidable (_ < _))

variable {lo size} {l : List α}

/-- To overlap goes both ways. -/
theorem Overlap.symm (h : Overlap lo size a b) : Overlap lo size b a := by
  unfold Overlap at h ⊢
  omega

theorem mem_span : i ∈ span lo size a ↔ lo a ≤ i ∧ i < lo a + size a := Finset.mem_Ico

theorem mem_covered : i ∈ covered lo size l ↔ ∃ a ∈ l, lo a ≤ i ∧ i < lo a + size a := by
  induction l with
  | nil => simp [covered]
  | cons a l ih => rw [covered, Finset.mem_union, mem_span, ih, List.exists_mem_cons_iff]

/-- What overlaps none of the spans is apart from what they cover. -/
theorem disjoint_covered (h : ∀ b ∈ l, ¬ Overlap lo size a b) :
    Disjoint (span lo size a) (covered lo size l) := by
  rw [Finset.disjoint_left]
  intro i hi hc
  obtain ⟨b, hb, hbi⟩ := mem_covered.mp hc
  refine h b hb ?_
  rw [mem_span] at hi
  unfold Overlap
  omega

/-- Without overlaps every position is counted once. -/
theorem card_covered (h : l.Pairwise fun a b => ¬ Overlap lo size a b) :
    (covered lo size l).card = (l.map size).sum := by
  induction l with
  | nil => rfl
  | cons a l ih =>
      obtain ⟨ha, hl⟩ := List.pairwise_cons.mp h
      rw [covered, Finset.card_union_of_disjoint (disjoint_covered ha), ih hl, span, Nat.card_Ico,
        List.map_cons, List.sum_cons, Nat.add_sub_cancel_left]

/-- Without overlaps the sizes add up to no more than the range that holds them. -/
theorem sum_size_le (h : l.Pairwise fun a b => ¬ Overlap lo size a b)
    (hin : ∀ a ∈ l, 0 < size a → b ≤ lo a ∧ lo a + size a ≤ e) : (l.map size).sum ≤ e - b := by
  rw [← card_covered h, ← Nat.card_Ico]
  refine Finset.card_le_card fun i hi => ?_
  obtain ⟨a, ha, hai⟩ := mem_covered.mp hi
  have := hin a ha (by omega)
  rw [Finset.mem_Ico]
  omega

end spans

end Sponge
