import Sponge.EventLoop
import Sponge.Lib.Run

/-!
# Sponge.EventLoop.Cancel

A rule is cancelled at most once, and neither its callback nor its cancellation
is called after that.

The rules are given numbers, and these two closures write down when they are
called (`logged`); the interest of a rule is a question that changes nothing and
is not written down.  Either loop of `wait_next_event` calls at most one of the
two for each rule, in the order of the rules, and drops just the rules it cancels
(`Pass`); the rest is bookkeeping over the log.
-/

namespace Sponge

namespace EventLoop

/-- The callback, or the cancellation, of the rule with this number was called. -/
inductive Event where
  | called (rule : Nat)
  | cancelled (rule : Nat)
  deriving DecidableEq, Repr

namespace Event

def rule : Event → Nat
  | called i | cancelled i => i

end Event

/-- The rule with a callback and a cancellation that write down that they were called. -/
def Rule.logged (r : Rule σ) (i : Nat) : Rule (σ × List Event) where
  fd p := r.fd p.1
  direction := r.direction
  callback p := do return (← r.callback p.1, p.2 ++ [.called i])
  interest p := r.interest p.1
  cancel p := do return (← r.cancel p.1, p.2 ++ [.cancelled i])

/-- Rules with numbers, all of them logged. -/
def logged (numbered : List (Rule σ × Nat)) : List (Rule (σ × List Event)) :=
  numbered.map fun p => p.1.logged p.2

/-- A callback is written down after what it does. -/
theorem logged_callback {r : Rule σ} {p p' : σ × List Event}
    (h : Returns ((r.logged i).callback p) p') :
    Returns (r.callback p.1) p'.1 ∧ p'.2 = p.2 ++ [.called i] := by
  obtain ⟨s, hs, h⟩ := returns_bind_iff.mp h
  rw [returns_pure_iff] at h
  subst h
  exact ⟨hs, rfl⟩

/-- So is a cancellation. -/
theorem logged_cancel {r : Rule σ} {p p' : σ × List Event}
    (h : Returns ((r.logged i).cancel p) p') :
    Returns (r.cancel p.1) p'.1 ∧ p'.2 = p.2 ++ [.cancelled i] := by
  obtain ⟨s, hs, h⟩ := returns_bind_iff.mp h
  rw [returns_pure_iff] at h
  subst h
  exact ⟨hs, rfl⟩

/-! ## One pass over the rules -/

/-- One of the loops went over `before`, did `events` and left `after`: it dealt with the
rules in order, with each at most once, and dropped those it cancelled. -/
structure Pass (before after : List (Rule σ × Nat)) (events : List Event) : Prop where
  left : after.Sublist before
  order : (events.map Event.rule).Sublist (before.map Prod.snd)
  dropped : ∀ p ∈ before, p ∈ after ↔ .cancelled p.2 ∉ events

section
variable {before after : List (Rule σ × Nat)} {r : Rule σ}

theorem pass_nil : Pass ([] : List (Rule σ × Nat)) [] [] := ⟨.refl _, .refl _, by simp⟩

/-- Numbers in `events` are those of rules in `before`. -/
theorem Pass.mem_of_event (h : Pass before after events) (he : e ∈ events) :
    e.rule ∈ before.map Prod.snd :=
  h.order.subset (List.mem_map_of_mem he)

/-- A rule that is left alone. -/
theorem Pass.skip (h : Pass before after events) (hi : i ∉ before.map Prod.snd) :
    Pass ((r, i) :: before) ((r, i) :: after) events where
  left := h.left.cons_cons _
  order := h.order.cons _
  dropped := by
    refine List.forall_mem_cons.mpr ⟨iff_of_true List.mem_cons_self fun he => ?_, fun p hp => ?_⟩
    · exact hi (h.mem_of_event he)
    · have hne : p ≠ (r, i) := by
        rintro rfl
        exact hi (List.mem_map_of_mem hp)
      rw [List.mem_cons, or_iff_right hne, h.dropped p hp]

/-- A rule whose callback is called. -/
theorem Pass.call (h : Pass before after events) (hi : i ∉ before.map Prod.snd) :
    Pass ((r, i) :: before) ((r, i) :: after) (.called i :: events) where
  left := h.left.cons_cons _
  order := h.order.cons_cons _
  dropped := by
    intro p hp
    rw [(h.skip hi).dropped p hp]
    simp

/-- A rule that is cancelled and removed. -/
theorem Pass.cancel (h : Pass before after events) (hi : i ∉ before.map Prod.snd) :
    Pass ((r, i) :: before) after (.cancelled i :: events) where
  left := h.left.cons _
  order := h.order.cons_cons _
  dropped := by
    refine List.forall_mem_cons.mpr ⟨iff_of_false (fun hmem => ?_) (by simp), fun p hp => ?_⟩
    · exact hi (List.mem_map_of_mem (h.left.subset hmem))
    · have hne : p.2 ≠ i := fun heq => hi (heq ▸ List.mem_map_of_mem hp)
      rw [h.dropped p hp, List.mem_cons, not_or]
      exact ⟨fun hn => ⟨by simpa using hne, hn⟩, fun hn => hn.2⟩

/-- The first loop is a pass over the rules. -/
theorem setUp_pass (hnodup : (before.map Prod.snd).Nodup)
    (h : Returns (setUp (logged before) p) polled) :
    ∃ after events, Pass before after events ∧ polled.rules = logged after ∧
      polled.state.2 = p.2 ++ events := by
  induction before generalizing p polled with
  | nil =>
      rw [logged, List.map_nil, setUp, returns_pure_iff] at h
      subst h
      exact ⟨[], [], pass_nil, rfl, by simp⟩
  | cons ri before ih =>
      obtain ⟨r, i⟩ := ri
      obtain ⟨hi, hnodup⟩ := List.nodup_cons.mp hnodup
      rcases setUp_cons_cases h with ⟨t, ht, h, -⟩ | ⟨rest, hrest, rfl, -⟩
      · obtain ⟨after, events, hpass, hrules, hlog⟩ := ih hnodup h
        refine ⟨after, _, hpass.cancel hi, hrules, ?_⟩
        rw [hlog, (logged_cancel ht).2, List.append_assoc]
        rfl
      · obtain ⟨after, events, hpass, hrules, hlog⟩ := ih hnodup hrest
        exact ⟨_, events, hpass.skip hi, congrArg (r.logged i :: ·) hrules, hlog⟩

/-- The second loop is one too. -/
theorem serve_pass {triples : List (Rule (σ × List Event) × Option Direction × Revents)}
    (hrules : triples.map Prod.fst = logged before) (hnodup : (before.map Prod.snd).Nodup)
    (h : Returns (serve triples p) (rules', p')) :
    ∃ after events, Pass before after events ∧ rules' = logged after ∧ p'.2 = p.2 ++ events := by
  induction triples generalizing before p rules' p' with
  | nil =>
      obtain rfl : before = [] := by simpa [logged] using hrules.symm
      rw [serve, returns_pure_iff, Prod.mk.injEq] at h
      obtain ⟨rfl, rfl⟩ := h
      exact ⟨[], [], pass_nil, rfl, by simp⟩
  | cons t triples ih =>
      obtain ⟨rule, asked, revents⟩ := t
      obtain ⟨⟨r, i⟩, before, rfl, rfl, htail⟩ := List.map_eq_cons_iff.mp hrules.symm
      obtain ⟨hi, hnodup⟩ := List.nodup_cons.mp hnodup
      obtain ⟨⟨stays, u⟩, hhandle, h⟩ := returns_bind_iff.mp h
      obtain ⟨⟨rest, v⟩, hserve, h⟩ := returns_bind_iff.mp h
      rw [returns_pure_iff, Prod.mk.injEq] at h
      obtain ⟨rfl, rfl⟩ := h
      obtain ⟨after, events, hpass, rfl, hlog⟩ := ih htail.symm hnodup hserve
      rcases handle_cases hhandle with ⟨rfl, -, hcancel⟩ | ⟨rfl, -, hcall, -⟩ | ⟨rfl, -, -, rfl⟩
      · refine ⟨after, _, hpass.cancel hi, rfl, ?_⟩
        rw [hlog, (logged_cancel hcancel).2, List.append_assoc]
        rfl
      · refine ⟨_, _, hpass.call hi, rfl, ?_⟩
        rw [hlog, (logged_callback hcall).2, List.append_assoc]
        rfl
      · exact ⟨_, events, hpass.skip hi, rfl, hlog⟩

end

/-! ## The log -/

/-- The log of a loop that had the rules `all` and has `now`: those that are gone were
cancelled, and nothing of them came after that. -/
structure Tidy (all now : List (Rule σ × Nat)) (log : List Event) : Prop where
  left : now.Sublist all
  gone : ∀ p ∈ all, p ∈ now ↔ .cancelled p.2 ∉ log
  last : ∀ pre post i, log = pre ++ .cancelled i :: post → ∀ e ∈ post, e.rule ≠ i

/-- A pass deals with each rule once, so nothing of it comes after its cancellation. -/
theorem Pass.last {before after : List (Rule σ × Nat)} (hp : Pass before after events)
    (hnodup : (before.map Prod.snd).Nodup) (h : events = pre ++ .cancelled i :: post) :
    ∀ e ∈ post, e.rule ≠ i := by
  have hrules := hp.order.nodup hnodup
  rw [h, List.map_append, List.map_cons] at hrules
  have hlater := (List.nodup_cons.mp (List.nodup_append.mp hrules).2.1).1
  intro e he heq
  exact hlater (List.mem_map.mpr ⟨e, he, heq⟩)

/-- **Each pass** keeps the record and the list in step. -/
theorem Tidy.pass {all now after : List (Rule σ × Nat)} (ht : Tidy all now log)
    (hnodup : (all.map Prod.snd).Nodup) (hp : Pass now after events) :
    Tidy all after (log ++ events) where
  left := hp.left.trans ht.left
  gone := by
    intro p hmem
    rw [List.mem_append, not_or, ← ht.gone p hmem]
    constructor
    · exact fun hafter => ⟨hp.left.subset hafter, (hp.dropped p (hp.left.subset hafter)).mp hafter⟩
    · exact fun hnow => (hp.dropped p hnow.1).mpr hnow.2
  last := by
    intro pre post i heq
    have hnow := (ht.left.map Prod.snd).nodup hnodup
    rcases List.append_eq_append_iff.mp heq with ⟨pre', -, hevents⟩ | ⟨rest, hlog, hpost⟩
    · exact hp.last hnow hevents
    · cases rest with
      | nil => exact hp.last hnow (show events = [] ++ _ from hpost.symm)
      | cons e₀ rest =>
          obtain ⟨rfl, rfl⟩ := List.cons.inj hpost
          refine List.forall_mem_append.mpr ⟨ht.last pre rest i hlog, fun e he hei => ?_⟩
          -- the rule of a new event had not been cancelled
          obtain ⟨q, hq, hqe⟩ := List.mem_map.mp (hp.mem_of_event he)
          refine (ht.gone q (ht.left.subset hq)).mp hq ?_
          rw [hlog, hqe, hei]
          simp

/-- Before the first pass nothing is written down. -/
theorem tidy_nil (all : List (Rule σ × Nat)) : Tidy all all [] where
  left := .refl _
  gone := by simp
  last := by simp

/-- One call of `wait_next_event` is two passes. -/
theorem Tidy.step {all now : List (Rule σ × Nat)} (ht : Tidy all now p.2)
    (hnodup : (all.map Prod.snd).Nodup) (h : step (logged now, p) answer = some (rules', p')) :
    ∃ now', rules' = logged now' ∧ Tidy all now' p'.2 := by
  obtain ⟨result, h⟩ := step_eq_some.mp h
  obtain ⟨polled, hpolled, hcases⟩ := waitNextEvent_cases h
  obtain ⟨after, events, hpass, hrules, hlog⟩ :=
    setUp_pass ((ht.left.map Prod.snd).nodup hnodup) hpolled
  have hafter := ht.pass hnodup hpass
  rcases hcases with ⟨rfl, rfl, -⟩ | ⟨-, -, hserve⟩
  · exact ⟨after, hrules, hlog ▸ hafter⟩
  · have hassign := map_fst_assign polled.pollfds answer.revents polled.rules 0
    obtain ⟨after', events', hpass', hrules', hlog'⟩ := serve_pass (hassign.trans hrules)
      ((hafter.left.map Prod.snd).nodup hnodup) hserve
    refine ⟨after', hrules', ?_⟩
    rw [hlog', hlog]
    exact hafter.pass hnodup hpass'

/-- **Cancelled for good**: over any number of calls to `wait_next_event` that return, whatever
the closures do to the state and `poll` answers, a rule is cancelled at most once,
and neither its callback nor its cancellation is called after that; the rules that
are left are those that were not cancelled, in their order. -/
theorem cancelled_for_good (rules : List (Rule σ)) (s : σ) (answers : List PollAnswer)
    (h : exec step (logged rules.zipIdx, (s, [])) answers = some (rules', (s', log))) :
    (∀ pre post i, log = pre ++ .cancelled i :: post → ∀ e ∈ post, e.rule ≠ i) ∧
    ∃ now, rules' = logged now ∧ now.Sublist rules.zipIdx ∧
      ∀ p ∈ rules.zipIdx, p ∈ now ↔ .cancelled p.2 ∉ log := by
  have hnodup : (rules.zipIdx.map Prod.snd).Nodup := by
    rw [List.zipIdx_map_snd]
    exact List.nodup_range'
  have hrun := exec_invariant (P := fun l : List (Rule (σ × List Event)) × σ × List Event =>
      ∃ now, l.1 = logged now ∧ Tidy rules.zipIdx now l.2.2) ?_ ⟨_, rfl, tidy_nil _⟩ h
  · obtain ⟨now, hnow, htidy⟩ := hrun
    exact ⟨htidy.last, now, hnow, htidy.left, htidy.gone⟩
  · rintro ⟨_, p⟩ answer l' ⟨now, rfl, htidy⟩ hstep
    exact htidy.step hnodup hstep

/-- A rule that finds its descriptor at the end. -/
def readOnce : Rule FDWrapper where
  fd := id
  direction := .In
  callback fd := return { fd with eof := true, readCount := fd.readCount + 1 }
  interest _ := true
  cancel := pure

/-- A rule that reads to the end of its input and is cancelled then. -/
theorem cancelled_for_good_readOnce :
    ∃ rules' fd', exec step (logged [readOnce].zipIdx, ({}, []))
        [.ready [{ pollIn := true }], .timeout] =
          some (rules', (fd', [.called 0, .cancelled 0])) ∧ rules' = [] := by
  have hrun : exec step (logged [readOnce].zipIdx, ({}, []))
      [.ready [{ pollIn := true }], .timeout] = some (_, (_, [.called 0, .cancelled 0])) := rfl
  obtain ⟨-, now, hrules, hsub, hgone⟩ := cancelled_for_good [readOnce] {} _ hrun
  have hnot := (hgone (readOnce, 0) (by simp)).not.mpr (by simp)
  have hnow : now = [] := List.eq_nil_iff_forall_not_mem.mpr fun p hp =>
    hnot (List.mem_singleton.mp (hsub.subset hp) ▸ hp)
  exact ⟨_, _, hrun, by rw [hrules, hnow]; rfl⟩

end EventLoop

end Sponge
