/-!
# Sponge.Lib.Run

Runs of a machine whose operations may fail to return: `step s a = none`
stands for an operation that never comes back, and `exec` chains the
operations that do.  The invariant rule is stated once, with the side
condition every step of the run is assumed to meet (`Along`), and so is the
rule that carries a run through a function commuting with the step.  Chains of
labelled steps (`Steps`) come with the same rule.  Where `step` runs on fuel,
more of it does not change a run (`FuelMono`).

This module depends only on the Lean 4 core library.
-/

namespace Sponge

/-! ## Runs -/

/-- The state after a list of operations; `none` as soon as one of them does
not return. -/
def exec (step : σ → α → Option σ) : σ → List α → Option σ
  | s, [] => some s
  | s, a :: as =>
      match step s a with
      | some s' => exec step s' as
      | none => none

/-- `C` holds of every operation of the run and the state it starts in. -/
def Along (step : σ → α → Option σ) (C : σ → α → Prop) : σ → List α → Prop
  | _, [] => True
  | s, a :: as => C s a ∧
      match step s a with
      | some s' => Along step C s' as
      | none => True

instance decidableAlong (step : σ → α → Option σ) (C : σ → α → Prop)
    [∀ s a, Decidable (C s a)] : (s : σ) → (as : List α) → Decidable (Along step C s as)
  | _, [] => isTrue trivial
  | s, a :: as =>
      have : Decidable (match step s a with
          | some s' => Along step C s' as
          | none => True) := by
        cases step s a with
        | none => exact isTrue trivial
        | some s' => exact decidableAlong step C s' as
      inferInstanceAs (Decidable (C s a ∧ _))

@[simp] theorem exec_nil (step : σ → α → Option σ) (s : σ) : exec step s [] = some s := rfl

/-- A run that returns takes its first step and then the rest. -/
theorem exec_cons_eq_some {step : σ → α → Option σ} :
    exec step s (a :: as) = some s' ↔ ∃ t, step s a = some t ∧ exec step t as = some s' := by
  simp only [exec]
  cases step s a with
  | none => simp
  | some t => simp

/-- A run over an append is the run of the first part, then of the second. -/
theorem exec_append_eq_some {step : σ → α → Option σ} :
    exec step s (as ++ bs) = some s' ↔
      ∃ t, exec step s as = some t ∧ exec step t bs = some s' := by
  induction as generalizing s with
  | nil => simp
  | cons a as ih =>
      simp only [List.cons_append, exec_cons_eq_some, ih]
      constructor
      · rintro ⟨u, hu, t, ht, hs⟩
        exact ⟨t, ⟨u, hu, ht⟩, hs⟩
      · rintro ⟨t, ⟨u, hu, ht⟩, hs⟩
        exact ⟨u, hu, t, ht, hs⟩

/-- Two conditions along a run. -/
theorem Along.and {step : σ → α → Option σ} {C D : σ → α → Prop}
    (h : Along step C s as) (h' : Along step D s as) :
    Along step (fun s a => C s a ∧ D s a) s as := by
  induction as generalizing s with
  | nil => trivial
  | cons a as ih =>
      simp only [Along] at h h' ⊢
      refine ⟨⟨h.1, h'.1⟩, ?_⟩
      cases hs : step s a with
      | none => trivial
      | some t =>
          simp only [hs] at h h'
          exact ih h.2 h'.2

/-- What holds of every operation in a run holds along it. -/
theorem along_of_forall {step : σ → α → Option σ} {D : α → Prop} (hD : ∀ a ∈ as, D a) :
    Along step (fun _ a => D a) s as := by
  induction as generalizing s with
  | nil => trivial
  | cons a as ih =>
      simp only [Along]
      refine ⟨hD a List.mem_cons_self, ?_⟩
      cases step s a with
      | none => trivial
      | some t => exact ih fun b hb => hD b (List.mem_cons_of_mem a hb)

/-- A condition along a run, joined by what holds of every operation in it. -/
theorem Along.and_forall {step : σ → α → Option σ} {C : σ → α → Prop} {D : α → Prop}
    (h : Along step C s as) (hD : ∀ a ∈ as, D a) : Along step (fun s a => D a ∧ C s a) s as :=
  (along_of_forall hD).and h

/-! ## Invariants -/

/-- **Invariant rule**: what every step meeting `C` preserves holds at the end
of every run all of whose steps meet `C`. -/
theorem exec_invariant_along {step : σ → α → Option σ} {C : σ → α → Prop} {P : σ → Prop}
    (hstep : ∀ s a s', P s → C s a → step s a = some s' → P s')
    (hP : P s) (hC : Along step C s as) (h : exec step s as = some s') : P s' := by
  induction as generalizing s with
  | nil =>
      rw [exec_nil, Option.some.injEq] at h
      exact h ▸ hP
  | cons a as ih =>
      obtain ⟨t, ht, hrest⟩ := exec_cons_eq_some.mp h
      simp only [Along, ht] at hC
      exact ih (hstep s a t hP hC.1 ht) hC.2 hrest

/-- The invariant rule without a side condition. -/
theorem exec_invariant {step : σ → α → Option σ} {P : σ → Prop}
    (hstep : ∀ s a s', P s → step s a = some s' → P s')
    (hP : P s) (h : exec step s as = some s') : P s' :=
  exec_invariant_along (C := fun _ _ => True) (fun s a s' hs _ => hstep s a s' hs) hP
    (along_of_forall (D := fun _ => True) fun _ _ => trivial) h

/-- **Response rule**: what the operation `a` brings about from a state in the
invariant `I`, and every step keeps, holds at the end of every run with `a`
in it. -/
theorem exec_response_along {step : σ → α → Option σ} {C : σ → α → Prop} {I P : σ → Prop}
    (hI : ∀ s b s', I s → C s b → step s b = some s' → I s')
    (hkeep : ∀ s b s', I s → P s → C s b → step s b = some s' → P s')
    (hmake : ∀ s s', I s → C s a → step s a = some s' → P s')
    (ha : a ∈ as) (hs : I s) (hC : Along step C s as) (h : exec step s as = some s') : P s' := by
  induction as generalizing s with
  | nil => simp at ha
  | cons b as ih =>
      obtain ⟨t, ht, hrest⟩ := exec_cons_eq_some.mp h
      simp only [Along, ht] at hC
      have hIt := hI s b t hs hC.1 ht
      rcases List.mem_cons.mp ha with rfl | ha'
      · refine (exec_invariant_along (P := fun s => I s ∧ P s) ?_
          ⟨hIt, hmake s t hs hC.1 ht⟩ hC.2 hrest).2
        exact fun s b s' hs hb hstep =>
          ⟨hI s b s' hs.1 hb hstep, hkeep s b s' hs.1 hs.2 hb hstep⟩
      · exact ih ha' hIt hC.2 hrest

/-- A run of operations that always return. -/
theorem exec_some (next : σ → α → σ) (s : σ) (as : List α) :
    exec (fun s a => some (next s a)) s as = some (as.foldl next s) := by
  induction as generalizing s with
  | nil => rfl
  | cons a as ih => exact ih (next s a)

/-- **Counting rule**: a number that no step lowers is the same at the end of a run
exactly if every step of the run meets the condition under which it stays. -/
theorem exec_eq_iff_along {step : σ → α → Option σ} {C : σ → α → Prop} {f : σ → Nat}
    (hle : ∀ s a s', step s a = some s' → f s ≤ f s')
    (heq : ∀ s a s', step s a = some s' → (f s' = f s ↔ C s a))
    (h : exec step s as = some s') : f s' = f s ↔ Along step C s as := by
  induction as generalizing s with
  | nil =>
      rw [exec_nil, Option.some.injEq] at h
      simp [Along, h]
  | cons a as ih =>
      obtain ⟨t, ht, hrest⟩ := exec_cons_eq_some.mp h
      have hst := hle s a t ht
      have hts' : f t ≤ f s' := exec_invariant (P := fun u => f t ≤ f u)
        (fun u b v hu huv => Nat.le_trans hu (hle u b v huv)) (Nat.le_refl _) hrest
      simp only [Along, ht, ← heq s a t ht, ← ih hrest]
      omega

/-! ## Simulation by a function -/

/-- If `f` carries every step on `a` to the step on `g a`, it carries every run. -/
theorem exec_map {step : σ → α → Option σ} {step' : τ → β → Option τ} {f : σ → τ} {g : α → β}
    (hsim : ∀ s a, step' (f s) (g a) = (step s a).map f) (s : σ) (as : List α) :
    exec step' (f s) (as.map g) = (exec step s as).map f := by
  induction as generalizing s with
  | nil => rfl
  | cons a as ih =>
      simp only [List.map_cons, exec, hsim]
      cases step s a with
      | none => rfl
      | some t => exact ih t

/-- A condition on what `f` makes of the states, along the run that it makes of a run. -/
theorem along_of_map {step : σ → α → Option σ} {step' : τ → α → Option τ} {f : σ → τ}
    {C : τ → α → Prop} (hsim : ∀ s a, step' (f s) a = (step s a).map f)
    (h : Along step' C (f s) as) : Along step (fun s a => C (f s) a) s as := by
  induction as generalizing s with
  | nil => trivial
  | cons a as ih =>
      simp only [Along, hsim] at h ⊢
      refine ⟨h.1, ?_⟩
      cases hs : step s a with
      | none => trivial
      | some t =>
          simp only [hs, Option.map_some] at h
          exact ih h.2

/-- **Simulation rule**: if every step of one machine is a run of the other, so is every
run. -/
theorem exec_simulates {step : σ → α → Option σ} {step' : τ → β → Option τ} {R : σ → τ → Prop}
    (hstep : ∀ s a s' t, R s t → step s a = some s' →
      ∃ bs t', exec step' t bs = some t' ∧ R s' t')
    (hR : R s t) (h : exec step s as = some s') :
    ∃ bs t', exec step' t bs = some t' ∧ R s' t' := by
  induction as generalizing s t with
  | nil =>
      rw [exec_nil, Option.some.injEq] at h
      exact ⟨[], t, rfl, h ▸ hR⟩
  | cons a as ih =>
      obtain ⟨u, hu, h⟩ := exec_cons_eq_some.mp h
      obtain ⟨bs, v, hv, huv⟩ := hstep s a u t hR hu
      obtain ⟨bs', w, hw, hs'⟩ := ih huv h
      exact ⟨bs ++ bs', w, exec_append_eq_some.mpr ⟨v, hv, hw⟩, hs'⟩

/-! ## Labelled steps -/

/-- A chain of `R`-steps with the list of their labels. -/
inductive Steps (R : σ → α → σ → Prop) : σ → List α → σ → Prop
  | nil (s : σ) : Steps R s [] s
  | cons {s t u : σ} {a : α} {as : List α} : R s a t → Steps R t as u → Steps R s (a :: as) u

/-- One step. -/
theorem Steps.single {R : σ → α → σ → Prop} (h : R s a t) : Steps R s [a] t :=
  .cons h (.nil t)

/-- One run after the other. -/
theorem Steps.append {R : σ → α → σ → Prop} (h : Steps R s as t) (h' : Steps R t bs u) :
    Steps R s (as ++ bs) u := by
  induction h with
  | nil s => exact h'
  | cons hR _ ih => exact .cons hR (ih h')

/-- What every step preserves, a chain preserves. -/
theorem Steps.preserves {R : σ → α → σ → Prop} {P : σ → Prop}
    (hstep : ∀ s a t, P s → R s a t → P t) (h : Steps R s as t) (hP : P s) : P t := by
  induction h with
  | nil s => exact hP
  | cons hR _ ih => exact ih (hstep _ _ _ hP hR)

/-- What every step preserves, with the labels seen so far, a chain preserves. -/
theorem Steps.invariant {R : σ → α → σ → Prop} {P : σ → List α → Prop}
    (hstep : ∀ s a t pre, P s pre → R s a t → P t (pre ++ [a]))
    (h : Steps R s as t) (hP : P s pre) : P t (pre ++ as) := by
  induction h generalizing pre with
  | nil s => rwa [List.append_nil]
  | cons hR _ ih =>
      have hnext := ih (hstep _ _ _ _ hP hR)
      rwa [List.append_assoc, List.singleton_append] at hnext

/-! ## Steps that run on fuel -/

/-- What a call gives with some fuel, it gives with more. -/
def FuelMono (step : Nat → σ → α → Option σ) : Prop :=
  ∀ {m n s a s'}, m ≤ n → step m s a = some s' → step n s a = some s'

/-- More fuel does not change a run. -/
theorem FuelMono.exec {step : Nat → σ → α → Option σ} (hstep : FuelMono step) (hle : m ≤ n)
    (h : exec (step m) s as = some s') : exec (step n) s as = some s' := by
  induction as generalizing s with
  | nil => exact h
  | cons a as ih =>
      obtain ⟨t, ht, hrest⟩ := exec_cons_eq_some.mp h
      exact exec_cons_eq_some.mpr ⟨t, hstep hle ht, ih hrest⟩

/-- A record kept beside the state does not change that. -/
theorem FuelMono.record {step : Nat → σ → α → Option σ} (hstep : FuelMono step) (f : τ → σ)
    (g : τ → α → σ → τ) : FuelMono fun fuel t a => (step fuel (f t) a).map (g t a) := by
  intro m n t a t' hle h
  obtain ⟨s, hs, rfl⟩ := Option.map_eq_some_iff.mp h
  exact Option.map_eq_some_iff.mpr ⟨s, hstep hle hs, rfl⟩

/-- The runs on fuel are the chains of calls that return, whatever fuel each call
takes. -/
theorem FuelMono.exists_exec_iff {step : Nat → σ → α → Option σ} (hstep : FuelMono step) :
    (∃ fuel, Sponge.exec (step fuel) s as = some s') ↔
      Steps (fun s a t => ∃ fuel, step fuel s a = some t) s as s' := by
  constructor
  · rintro ⟨fuel, h⟩
    induction as generalizing s with
    | nil =>
        rw [exec_nil, Option.some.injEq] at h
        exact h ▸ .nil s
    | cons a as ih =>
        obtain ⟨t, ht, hrest⟩ := exec_cons_eq_some.mp h
        exact .cons ⟨fuel, ht⟩ (ih hrest)
  · intro h
    induction h with
    | nil s => exact ⟨0, rfl⟩
    | cons hcall _ ih =>
        obtain ⟨m, hm⟩ := hcall
        obtain ⟨n, hn⟩ := ih
        exact ⟨max m n, exec_cons_eq_some.mpr ⟨_, hstep (Nat.le_max_left m n) hm,
          hstep.exec (Nat.le_max_right m n) hn⟩⟩

end Sponge
