/-!
# Sponge.Lib.Call

Calls that may throw or may not return.  A `Call` is a computation with
exceptions on top of one that may run out of fuel; `Returns x a` says that it
comes back with `a`, and `Throws x e` that it throws `e`.  What a call made of
several parts does is read off part by part with `returns_bind_iff` and
`throws_bind_iff`; what it can throw at all (`OnlyThrows`) is put together by
`OnlyThrows.bind`.

This module depends only on the Lean 4 core library.
-/

namespace Sponge

/-- `none` stands for a call that never comes back. -/
abbrev Call (ε : Type) := ExceptT ε Option

/-- A call that never comes back. -/
def Call.outOfFuel : Call ε α := ExceptT.mk none

/-- The result of a call that comes back and does not throw. -/
def Call.result? (x : Call ε α) : Option α :=
  match x.run with
  | some (.ok a) => some a
  | _ => none

/-- The call comes back with `a`. -/
def Returns (x : Call ε α) (a : α) : Prop := x.run = some (.ok a)

/-- What a call leaves when it returns. -/
theorem result?_eq_some_iff {x : Call ε α} : x.result? = some a ↔ Returns x a := by
  unfold Call.result? Returns
  split
  · next h => simp [h]
  · next h => exact iff_of_false nofun (h a)

/-- One call after the other: both return. -/
theorem returns_bind_iff {x : Call ε α} {f : α → Call ε β} :
    Returns (x >>= f) b ↔ ∃ a, Returns x a ∧ Returns (f a) b := by
  unfold Returns
  rw [ExceptT.run_bind]
  cases hx : x.run with
  | none => simp
  | some r =>
      cases r with
      | error e => simp
      | ok a => simp

@[simp] theorem returns_pure_iff : Returns (pure a : Call ε α) b ↔ a = b := by
  simp [Returns]

@[simp] theorem returns_lift_iff {x : Except ε α} :
    Returns (liftM x : Call ε α) b ↔ x = .ok b := by
  cases x <;> simp [Returns, liftM, monadLift, MonadLift.monadLift]

@[simp] theorem not_returns_outOfFuel : ¬ Returns (Call.outOfFuel : Call ε α) b := nofun

/-- A call that does not throw, but may not come back. -/
def Call.ofOption (x : Option α) : Call ε α := ExceptT.lift x

@[simp] theorem Call.ofOption_some (a : α) : (ofOption (some a) : Call ε α) = pure a := rfl

@[simp] theorem Call.result?_ofOption (x : Option α) :
    (ofOption x : Call ε α).result? = x := by
  cases x <;> rfl

/-- What cannot throw does not. -/
theorem Call.run_ofOption_ne_error (x : Option α) (e : ε) :
    (ofOption x : Call ε α).run ≠ some (.error e) := by
  cases x <;> exact nofun

@[simp] theorem returns_ofOption_iff {x : Option α} :
    Returns (Call.ofOption x : Call ε α) a ↔ x = some a := by
  cases x <;> simp [Returns, Call.ofOption]

/-! ## Calls that throw -/

/-- The call comes back with the exception `e`. -/
def Throws (x : Call ε α) (e : ε) : Prop := x.run = some (.error e)

/-- One call after the other: the first throws, or the second does. -/
theorem throws_bind_iff {x : Call ε α} {f : α → Call ε β} :
    Throws (x >>= f) e ↔ Throws x e ∨ ∃ a, Returns x a ∧ Throws (f a) e := by
  unfold Throws Returns
  rw [ExceptT.run_bind]
  cases hx : x.run with
  | none => simp
  | some r =>
      cases r with
      | error e => simp
      | ok a => simp

@[simp] theorem not_throws_pure : ¬ Throws (pure a : Call ε α) e := nofun

@[simp] theorem not_throws_outOfFuel : ¬ Throws (Call.outOfFuel : Call ε α) e := nofun

@[simp] theorem not_throws_ofOption {x : Option α} : ¬ Throws (Call.ofOption x : Call ε α) e :=
  Call.run_ofOption_ne_error x e

@[simp] theorem throws_throw_iff : Throws (throw e : Call ε α) e' ↔ e = e' := by
  simp [Throws]

@[simp] theorem not_returns_throw : ¬ Returns (throw e : Call ε α) a := nofun

/-- The call with its exceptions renamed. -/
def Call.adapt (f : ε → ε') (x : Call ε α) : Call ε' α :=
  ExceptT.mk (x.run.map (Except.mapError f))

@[simp] theorem Call.run_adapt (f : ε → ε') (x : Call ε α) :
    (x.adapt f).run = x.run.map (Except.mapError f) := rfl

@[simp] theorem returns_adapt_iff {f : ε → ε'} {x : Call ε α} :
    Returns (x.adapt f) a ↔ Returns x a := by
  unfold Returns
  rw [Call.run_adapt]
  cases x.run with
  | none => simp
  | some r =>
      cases r with
      | ok b =>
          show some (Except.ok b) = some (.ok a) ↔ _
          simp
      | error e =>
          show some (Except.error (f e)) = some (.ok a) ↔ _
          simp

/-- What is thrown is translated. -/
theorem throws_adapt_iff {f : ε → ε'} {x : Call ε α} :
    Throws (x.adapt f) e' ↔ ∃ e, Throws x e ∧ f e = e' := by
  unfold Throws
  rw [Call.run_adapt]
  cases x.run with
  | none => simp
  | some r =>
      cases r with
      | ok b =>
          show some (Except.ok b) = some (.error e') ↔ _
          simp
      | error e =>
          show some (Except.error (f e)) = some (.error e') ↔ _
          simp

/-- An error is thrown. -/
theorem throws_lift_iff {x : Except ε α} : Throws (liftM x : Call ε α) e ↔ x = .error e := by
  cases x <;> simp [Throws, liftM, monadLift, MonadLift.monadLift]

/-! ## What a call can throw -/

/-- All that the call throws has `F`. -/
def OnlyThrows (F : ε → Prop) (x : Call ε α) : Prop := ∀ ⦃e⦄, Throws x e → F e

section
variable {F : ε → Prop} {x y : Call ε α}

@[simp] theorem onlyThrows_pure (a : α) : OnlyThrows F (pure a : Call ε α) :=
  fun _ h => absurd h not_throws_pure

@[simp] theorem onlyThrows_outOfFuel : OnlyThrows F (Call.outOfFuel : Call ε α) :=
  fun _ h => absurd h not_throws_outOfFuel

@[simp] theorem onlyThrows_ofOption (x : Option α) : OnlyThrows F (Call.ofOption x) :=
  fun _ h => absurd h not_throws_ofOption

@[simp] theorem onlyThrows_throw_iff : OnlyThrows F (throw e : Call ε α) ↔ F e := by
  simp [OnlyThrows]

/-- What succeeds throws nothing. -/
theorem onlyThrows_lift {x : Except ε α} (h : x = .ok a) : OnlyThrows F (liftM x : Call ε α) := by
  intro e he
  rw [throws_lift_iff, h] at he
  contradiction

/-- A call made of two, where the second one counts on what the first has returned. -/
theorem OnlyThrows.bind {f : α → Call ε β} (hx : OnlyThrows F x)
    (hf : ∀ a, Returns x a → OnlyThrows F (f a)) : OnlyThrows F (x >>= f) := by
  intro e h
  rcases throws_bind_iff.mp h with h | ⟨a, ha, h⟩
  · exact hx h
  · exact hf a ha h

/-- Both branches, each under its condition. -/
theorem OnlyThrows.ite [Decidable c] (hx : c → OnlyThrows F x) (hy : ¬ c → OnlyThrows F y) :
    OnlyThrows F (if c then x else y) := by
  split
  · next h => exact hx h
  · next h => exact hy h

/-- The translation of what is thrown. -/
theorem OnlyThrows.adapt {G : ε' → Prop} {f : ε → ε'} (hx : OnlyThrows F x)
    (hf : ∀ e, F e → G (f e)) : OnlyThrows G (x.adapt f) := by
  intro e' h
  obtain ⟨e, he, rfl⟩ := throws_adapt_iff.mp h
  exact hf e (hx he)

end

/-! ## More fuel -/

/-- What `x` returns, `y` returns, as it does when it is `x` with more fuel. -/
def Call.Approx (x y : Call ε α) : Prop := ∀ ⦃a⦄, Returns x a → Returns y a

/-- One call after the other: more fuel for both. -/
theorem Call.Approx.bind {x y : Call ε α} {f g : α → Call ε β} (hxy : Approx x y)
    (hfg : ∀ a, Approx (f a) (g a)) : Approx (x >>= f) (y >>= g) := by
  intro b h
  obtain ⟨a, ha, hb⟩ := returns_bind_iff.mp h
  exact returns_bind_iff.mpr ⟨a, hxy ha, hfg a hb⟩

end Sponge
