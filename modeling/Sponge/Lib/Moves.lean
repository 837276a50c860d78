/-!
# Sponge.Lib.Moves

Computations over a state that could throw and do not: `Moves R x` says that
`x` returns from every state and takes it to one related to it by `R`.  For a
reflexive and transitive `R` this is proved along the computation: its single
steps move the state, and so does everything put together from them.

This module depends only on the Lean 4 core library.
-/

namespace Sponge

/-- The computation returns from every state, and moves it along `R`. -/
def Moves (R : σ → σ → Prop) (x : StateT σ (Except ε) α) : Prop :=
  ∀ s, ∃ a s', x.run s = .ok (a, s') ∧ R s s'

section

variable {R : σ → σ → Prop} {x y : StateT σ (Except ε) α}

/-- To do nothing moves nowhere. -/
theorem moves_pure [Std.Refl R] (a : α) : Moves R (pure a : StateT σ (Except ε) α) :=
  fun s => ⟨a, s, rfl, Std.Refl.refl s⟩

/-- Nor does a look at the state. -/
theorem moves_get [Std.Refl R] : Moves R (get : StateT σ (Except ε) σ) :=
  fun s => ⟨s, s, rfl, Std.Refl.refl s⟩

/-- One move after the other. -/
theorem Moves.bind [Trans R R R] {f : α → StateT σ (Except ε) β} (hx : Moves R x)
    (hf : ∀ a, Moves R (f a)) : Moves R (x >>= f) := by
  intro s
  obtain ⟨a, s', hrun, hs⟩ := hx s
  obtain ⟨b, s'', hrun', hs'⟩ := hf a s'
  refine ⟨b, s'', ?_, Trans.trans hs hs'⟩
  rw [StateT.run_bind, hrun]
  exact hrun'

/-- Either move. -/
theorem Moves.ite [Decidable c] (hx : Moves R x) (hy : Moves R y) :
    Moves R (if c then x else y) := by
  split
  · exact hx
  · exact hy

end

end Sponge
