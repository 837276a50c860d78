import Sponge.FileDescriptor

/-!
# Sponge.EventLoop

The event loop (`eventloop.hh`, `eventloop.cc`).  Its rules are closures over
the state of the program that set it up, here an arbitrary type `σ` in which the
descriptors of the rules are kept as well: duplicates of a descriptor share one
`FDWrapper`.  The closures leave the list of rules alone.

`poll` is answered by the kernel, so its answer is an argument of
`wait_next_event`.  Each call goes through the rules twice: once to drop those
that are over and to ask the others for their interest, and once, with an index
into the list of `pollfd`s beside the iterator, to act on the answer.

* `goThrough_eq_serve`: index and iterator stay in step while rules are erased,
  so every rule is judged by the `pollfd` that was made for it;
* `waitNextEvent_eq`: so the whole call can be told without them;
* `Contract.waitNextEvent_returns`, `Contract.waitNextEvent_throws`: what the
  closures keep, the loop keeps, where a callback may count on what its rule's
  interest ensured; and an exception comes from a state that was kept so.
-/

namespace Sponge

/-- `EventLoop::Direction`. -/
inductive Direction where
  | In
  | Out
  deriving DecidableEq, Repr

namespace EventLoop

/-- A descriptor with what to do when it is ready, whether that is wanted, and what to do when the
rule goes.  The closures share a state, the variables that they capture. -/
structure Rule (σ : Type) where
  fd : σ → FDWrapper
  direction : Direction
  callback : σ → Call Failure σ
  interest : σ → Bool
  cancel : σ → Call Failure σ

/-- The count that a callback has to move. -/
def Rule.serviceCount (rule : Rule σ) (s : σ) : UInt32 :=
  match rule.direction with
  | .In => (rule.fd s).readCount
  | .Out => (rule.fd s).writeCount

/-- The bits of `revents`. -/
structure Revents where
  pollIn : Bool := false
  pollOut : Bool := false
  pollErr : Bool := false
  pollHup : Bool := false
  pollNval : Bool := false
  deriving DecidableEq, Repr

/-- What `poll` returns. -/
inductive PollAnswer where
  | failed (errno : Nat)
  | timeout
  | ready (revents : List Revents)

/-- What `wait_next_event` returns. -/
inductive Result where
  | Success
  | Timeout
  | Exit
  deriving DecidableEq, Repr

def EINTR : Nat := 4

/-- The bits of `revents & events`; no events are `none`. -/
def isReady (events : Option Direction) (revents : Revents) : Bool :=
  match events with
  | none => false
  | some .In => revents.pollIn
  | some .Out => revents.pollOut

/-- The status was asked for and the only condition is a hangup. -/
def isDefunct (events : Option Direction) (revents : Revents) : Bool :=
  revents.pollHup && events.isSome && !isReady events revents

/-- Thrown for `POLLERR` and for an invalid descriptor. -/
def pollError : Failure := .exception (.runtimeError "EventLoop: error on polled file descriptor")

/-- Thrown when a callback has not used its descriptor and is still wanted. -/
def busyWait : Failure := .exception (.runtimeError
  "EventLoop: busy wait detected: callback did not read/write fd and is still interested")

/-- The rules that are left, the `events` of their `pollfd`s, whether there is something to
poll, and the state. -/
structure Polled (σ : Type) where
  rules : List (Rule σ)
  pollfds : List (Option Direction)
  somethingToPoll : Bool
  state : σ

/-- The first loop of `wait_next_event`. -/
def setUp : List (Rule σ) → σ → Call Failure (Polled σ)
  | [], s => return ⟨[], [], false, s⟩
  | rule :: rules, s =>
      if rule.direction = .In ∧ (rule.fd s).eof = true then do
        let s ← rule.cancel s
        setUp rules s
      else if (rule.fd s).closed then do
        let s ← rule.cancel s
        setUp rules s
      else do
        let interested := rule.interest s
        let rest ← setUp rules s
        return {
          rules := rule :: rest.rules
          pollfds := (if interested then some rule.direction else none) :: rest.pollfds
          somethingToPoll := interested || rest.somethingToPoll
          state := rest.state }

/-- What the second loop does with one rule: `false` if it is erased. -/
def handle (rule : Rule σ) (events : Option Direction) (revents : Revents) (s : σ) :
    Call Failure (Bool × σ) :=
  if revents.pollErr || revents.pollNval then throw pollError
  else if isDefunct events revents then do
    let s ← rule.cancel s
    return (false, s)
  else if isReady events revents then do
    let countBefore := rule.serviceCount s
    let s ← rule.callback s
    if countBefore == rule.serviceCount s && rule.interest s then throw busyWait
    else return (true, s)
  else return (true, s)

/-- The second loop of `wait_next_event`.  To read past the end of `pollfds`, which is
undefined, is an exception here. -/
def goThrough (pollfds : List (Option Direction)) (revents : List Revents) :
    List (Rule σ) → Nat → σ → Call Failure (List (Rule σ) × σ)
  | [], _, s => return ([], s)
  | rule :: rules, idx, s =>
      match pollfds[idx]? with
      | none => throw (.exception (.outOfRange "pollfds"))
      | some events => do
          let (stays, s) ← handle rule events (revents.getD idx {}) s
          let (rest, s) ← goThrough pollfds revents rules (idx + 1) s
          return (if stays then rule :: rest else rest, s)

/-- A failed `poll` is as one that reports nothing, unless a signal was caught.  The closures
change the state but not the list of rules: one that calls `add_rule` or `wait_next_event`
of its own loop, as none in the repository does, is outside the model. -/
def waitNextEvent (rules : List (Rule σ)) (s : σ) (answer : PollAnswer) :
    Call Failure (Result × List (Rule σ) × σ) := do
  let polled ← setUp rules s
  if !polled.somethingToPoll then return (.Exit, polled.rules, polled.state)
  else
    match answer with
    | .timeout => return (.Timeout, polled.rules, polled.state)
    | .failed errno =>
        if errno = EINTR then return (.Exit, polled.rules, polled.state)
        else do
          let (rules, s) ← goThrough polled.pollfds [] polled.rules 0 polled.state
          return (.Success, rules, s)
    | .ready revents => do
        let (rules, s) ← goThrough polled.pollfds revents polled.rules 0 polled.state
        return (.Success, rules, s)

/-! ## Index and iterator -/

/-- The second loop over the rules with what belongs to each of them. -/
def serve : List (Rule σ × Option Direction × Revents) → σ → Call Failure (List (Rule σ) × σ)
  | [], s => return ([], s)
  | (rule, events, revents) :: rest, s => do
      let (stays, s) ← handle rule events revents s
      let (rules, s) ← serve rest s
      return (if stays then rule :: rules else rules, s)

/-- Each rule with its `pollfd`, those of the first one being at `idx`. -/
def assign (pollfds : List (Option Direction)) (revents : List Revents) (rules : List (Rule σ))
    (idx : Nat) : List (Rule σ × Option Direction × Revents) :=
  (rules.zipIdx idx).map fun p => (p.1, pollfds.getD p.2 none, revents.getD p.2 {})

/-- Each rule is served once. -/
theorem map_fst_assign (pollfds : List (Option Direction)) (revents : List Revents)
    (rules : List (Rule σ)) (idx : Nat) : (assign pollfds revents rules idx).map Prod.fst = rules := by
  rw [assign, List.map_map]
  exact List.zipIdx_map_fst idx rules

/-- **Index and iterator stay in step**, whatever is erased. -/
theorem goThrough_eq_serve {rules : List (Rule σ)} (h : idx + rules.length ≤ pollfds.length)
    (revents : List Revents) (s : σ) :
    goThrough pollfds revents rules idx s = serve (assign pollfds revents rules idx) s := by
  induction rules generalizing idx s with
  | nil => rfl
  | cons rule rules ih =>
      rw [List.length_cons] at h
      have hlt : idx < pollfds.length := by omega
      have hget : pollfds[idx]? = some (pollfds.getD idx none) := by
        rw [List.getD_eq_getElem?_getD, List.getElem?_eq_getElem hlt]
        rfl
      simp only [goThrough, hget, assign, List.zipIdx_cons, List.map_cons, serve]
      refine bind_congr fun r => ?_
      rw [ih (by omega), assign]

/-! ### Without an index -/

/-- The first loop, which keeps with each rule that is left what it asks for. -/
def register : List (Rule σ) → σ → Call Failure (List (Rule σ × Option Direction) × σ)
  | [], s => return ([], s)
  | rule :: rules, s =>
      if rule.direction = .In ∧ (rule.fd s).eof = true then do
        let s ← rule.cancel s
        register rules s
      else if (rule.fd s).closed then do
        let s ← rule.cancel s
        register rules s
      else do
        let events := if rule.interest s then some rule.direction else none
        let (rest, s) ← register rules s
        return ((rule, events) :: rest, s)

/-- Each rule gets the next of the `revents`. -/
def report : List (Rule σ × Option Direction) → List Revents →
    List (Rule σ × Option Direction × Revents)
  | [], _ => []
  | (rule, events) :: rest, revents => (rule, events, revents.headD {}) :: report rest revents.tail

/-- The first loop, with each rule beside its entry. -/
theorem setUp_eq_register (rules : List (Rule σ)) (s : σ) : setUp rules s = (do
    let (registered, s) ← register rules s
    return ⟨registered.map Prod.fst, registered.map Prod.snd,
      registered.any fun p => p.2.isSome, s⟩) := by
  induction rules generalizing s with
  | nil => rfl
  | cons rule rules ih =>
      unfold setUp register
      split
      · simp [ih]
      · split
        · simp [ih]
        · cases hint : rule.interest s <;> simp [ih]

/-- The second loop, with each rule beside its entry: the index into `pollfds` is the position in
the list. -/
theorem assign_eq_report (registered : List (Rule σ × Option Direction)) (revents : List Revents)
    (idx : Nat) (front : List (Option Direction)) (hfront : front.length = idx) :
    assign (front ++ registered.map Prod.snd) revents (registered.map Prod.fst) idx =
      report registered (revents.drop idx) := by
  induction registered generalizing front idx with
  | nil => rfl
  | cons p registered ih =>
      obtain ⟨rule, events⟩ := p
      have htail := ih (idx + 1) (front ++ [events]) (by simp [hfront])
      have hevents : (front ++ events :: registered.map Prod.snd).getD idx none = events := by
        simp [← hfront]
      have hrevents : revents.getD idx {} = (revents.drop idx).headD {} := by
        rw [List.headD_eq_head?_getD, List.head?_drop, List.getD_eq_getElem?_getD]
      rw [List.append_assoc, List.singleton_append] at htail
      simp only [List.map_cons, report, List.tail_drop, ← htail, assign, List.zipIdx_cons, hevents,
        hrevents]

/-- Nothing is done where nothing is reported. -/
theorem serve_report_nil (registered : List (Rule σ × Option Direction)) (s : σ) :
    serve (report registered []) s = pure (registered.map Prod.fst, s) := by
  induction registered with
  | nil => rfl
  | cons p registered ih =>
      obtain ⟨rule, events⟩ := p
      have hquiet : handle rule events {} s = pure (true, s) := by
        cases events with
        | none => rfl
        | some d => cases d <;> rfl
      simp [report, serve, hquiet, ih]

/-- **What `wait_next_event` does**: it never reads past the end of its `pollfd`s, and
every rule that is left after the first loop is dealt with according to what was
registered and reported for itself, whichever rules are erased before it.  An
error of `poll` other than an interruption is no error: nothing is called and
the result is `Success`. -/
theorem waitNextEvent_eq (rules : List (Rule σ)) (s : σ) (answer : PollAnswer) :
    waitNextEvent rules s answer = (do
      let (registered, s) ← register rules s
      let left := registered.map Prod.fst
      if registered.any fun p => p.2.isSome then
        match answer with
        | .timeout => return (.Timeout, left, s)
        | .failed errno => return (if errno = EINTR then .Exit else .Success, left, s)
        | .ready revents => do
            let (left, s) ← serve (report registered revents) s
            return (.Success, left, s)
      else return (.Exit, left, s)) := by
  rw [waitNextEvent, setUp_eq_register, bind_assoc]
  refine bind_congr fun ⟨registered, s⟩ => ?_
  have hgo : ∀ revents, goThrough (registered.map Prod.snd) revents (registered.map Prod.fst) 0 s =
      serve (report registered revents) s := by
    intro revents
    rw [goThrough_eq_serve (by simp)]
    have heq := assign_eq_report registered revents 0 [] rfl
    rw [List.nil_append, List.drop_zero] at heq
    rw [heq]
  simp only [pure_bind, hgo]
  cases hsome : registered.any fun p => p.2.isSome with
  | false => rfl
  | true =>
      cases answer with
      | timeout => rfl
      | ready revents => rfl
      | failed errno =>
          by_cases hintr : errno = EINTR
          · simp [hintr]
          · simp [hintr, serve_report_nil]

/-! ## What the first loop does -/

/-- The loop has no more use for the rule: its descriptor is closed, or at its end where the
rule is to read. -/
def Rule.IsOver (rule : Rule σ) (s : σ) : Prop :=
  rule.direction = .In ∧ (rule.fd s).eof = true ∨ (rule.fd s).closed = true

/-- What the first loop does with the first rule. -/
theorem setUp_cons_cases {rule : Rule σ} (h : Returns (setUp (rule :: rules) s) polled) :
    (∃ t, Returns (rule.cancel s) t ∧ Returns (setUp rules t) polled ∧ rule.IsOver s) ∨
    ∃ rest, Returns (setUp rules s) rest ∧ polled = {
      rules := rule :: rest.rules
      pollfds := (if rule.interest s then some rule.direction else none) :: rest.pollfds
      somethingToPoll := rule.interest s || rest.somethingToPoll
      state := rest.state } ∧ ¬ rule.IsOver s := by
  unfold setUp at h
  by_cases heof : rule.direction = .In ∧ (rule.fd s).eof = true
  · rw [if_pos heof] at h
    obtain ⟨t, hcancel, h⟩ := returns_bind_iff.mp h
    exact .inl ⟨t, hcancel, h, .inl heof⟩
  rw [if_neg heof] at h
  by_cases hclosed : (rule.fd s).closed = true
  · rw [if_pos hclosed] at h
    obtain ⟨t, hcancel, h⟩ := returns_bind_iff.mp h
    exact .inl ⟨t, hcancel, h, .inr hclosed⟩
  · rw [if_neg hclosed] at h
    obtain ⟨rest, hrest, h⟩ := returns_bind_iff.mp h
    rw [returns_pure_iff] at h
    exact .inr ⟨rest, hrest, h.symm, not_or.mpr ⟨heof, hclosed⟩⟩

/-- The rules that are left are in their order, with one `pollfd` each. -/
theorem setUp_sublist {rules : List (Rule σ)} (h : Returns (setUp rules s) polled) :
    polled.rules.Sublist rules ∧ polled.pollfds.length = polled.rules.length := by
  induction rules generalizing s polled with
  | nil =>
      rw [setUp, returns_pure_iff] at h
      subst h
      exact ⟨.refl _, rfl⟩
  | cons rule rules ih =>
      rcases setUp_cons_cases h with ⟨t, -, h, -⟩ | ⟨rest, hrest, rfl, -⟩
      · exact ⟨(ih h).1.cons rule, (ih h).2⟩
      · exact ⟨(ih hrest).1.cons_cons rule, congrArg (· + 1) (ih hrest).2⟩

/-- What no cancellation changes is the same after the first loop. -/
theorem setUp_keeps {rules : List (Rule σ)} {f : σ → β}
    (hkeep : ∀ r ∈ rules, ∀ t t', Returns (r.cancel t) t' → f t' = f t)
    (h : Returns (setUp rules s) polled) : f polled.state = f s := by
  induction rules generalizing s polled with
  | nil =>
      rw [setUp, returns_pure_iff] at h
      exact h ▸ rfl
  | cons rule rules ih =>
      obtain ⟨hfirst, hkeep⟩ := List.forall_mem_cons.mp hkeep
      rcases setUp_cons_cases h with ⟨t, ht, h, -⟩ | ⟨rest, hrest, rfl, -⟩
      · exact (ih hkeep h).trans (hfirst s t ht)
      · have heq : f rest.state = f s := ih hkeep hrest
        exact heq

/-- There is nothing to poll when no rule that is left is interested, where to cancel a rule
does not change the interest of those before it. -/
theorem setUp_idle {rules : List (Rule σ)}
    (hapart : rules.Pairwise fun r r' =>
      ∀ t t', Returns (r'.cancel t) t' → r.interest t' = r.interest t)
    (h : Returns (setUp rules s) polled) (hidle : polled.somethingToPoll = false) :
    ∀ r ∈ polled.rules, r.interest polled.state = false := by
  induction rules generalizing s polled with
  | nil =>
      rw [setUp, returns_pure_iff] at h
      simp [← h]
  | cons rule rules ih =>
      obtain ⟨hfirst, hapart⟩ := List.pairwise_cons.mp hapart
      rcases setUp_cons_cases h with ⟨t, -, h, -⟩ | ⟨rest, hrest, rfl, -⟩
      · exact ih hapart h hidle
      · obtain ⟨hrule, hothers⟩ := Bool.or_eq_false_iff.mp hidle
        refine List.forall_mem_cons.mpr ⟨?_, ih hapart hrest hothers⟩
        exact (setUp_keeps (f := rule.interest) hfirst hrest).trans hrule

/-- What `poll` reports. -/
def PollAnswer.revents : PollAnswer → List Revents
  | .ready revents => revents
  | .failed _ | .timeout => []

/-- All that a call can do after the first loop: leave it at that, or go through what was
reported. -/
theorem waitNextEvent_cases {rules rules' : List (Rule σ)}
    (h : Returns (waitNextEvent rules s answer) (result, rules', s')) :
    ∃ polled, Returns (setUp rules s) polled ∧
      ((rules' = polled.rules ∧ s' = polled.state ∧
          (result = .Exit ∧ (polled.somethingToPoll = false ∨ answer = .failed EINTR) ∨
            result = .Timeout ∧ answer = .timeout)) ∨
        (result = .Success ∧ polled.somethingToPoll = true ∧
          Returns (serve (assign polled.pollfds answer.revents polled.rules 0) polled.state)
            (rules', s'))) := by
  unfold waitNextEvent at h
  obtain ⟨polled, hpolled, h⟩ := returns_bind_iff.mp h
  refine ⟨polled, hpolled, ?_⟩
  have hlen : 0 + polled.rules.length ≤ polled.pollfds.length := by
    rw [(setUp_sublist hpolled).2, Nat.zero_add]
  have hgo : ∀ {revents}, Returns (do
      let (rules, s) ← goThrough polled.pollfds revents polled.rules 0 polled.state
      return (Result.Success, rules, s)) (result, rules', s') → result = .Success ∧
        Returns (serve (assign polled.pollfds revents polled.rules 0) polled.state)
          (rules', s') := by
    intro revents hr
    rw [goThrough_eq_serve hlen] at hr
    obtain ⟨⟨rules₁, s₁⟩, hserve, hr⟩ := returns_bind_iff.mp hr
    rw [returns_pure_iff, Prod.mk.injEq, Prod.mk.injEq] at hr
    obtain ⟨rfl, rfl, rfl⟩ := hr
    exact ⟨rfl, hserve⟩
  cases hsome : polled.somethingToPoll with
  | false =>
      simp only [hsome, Bool.not_false, ↓reduceIte, returns_pure_iff, Prod.mk.injEq] at h
      obtain ⟨rfl, rfl, rfl⟩ := h
      exact .inl ⟨rfl, rfl, .inl ⟨rfl, .inl rfl⟩⟩
  | true =>
      simp only [hsome, Bool.not_true, Bool.false_eq_true, ↓reduceIte] at h
      cases answer with
      | timeout =>
          simp only [returns_pure_iff, Prod.mk.injEq] at h
          obtain ⟨rfl, rfl, rfl⟩ := h
          exact .inl ⟨rfl, rfl, .inr ⟨rfl, rfl⟩⟩
      | failed errno =>
          by_cases hintr : errno = EINTR
          · simp only [hintr, ↓reduceIte, returns_pure_iff, Prod.mk.injEq] at h
            obtain ⟨rfl, rfl, rfl⟩ := h
            exact .inl ⟨rfl, rfl, .inl ⟨rfl, .inr (by rw [hintr])⟩⟩
          · simp only [hintr, ↓reduceIte] at h
            exact .inr ⟨(hgo h).1, rfl, (hgo h).2⟩
      | ready revents => exact .inr ⟨(hgo h).1, rfl, (hgo h).2⟩

/-- What the second loop does with a rule: it cancels it, calls it, or leaves it. -/
theorem handle_cases {rule : Rule σ}
    (h : Returns (handle rule events revents s) (stays, s')) :
    (stays = false ∧ isDefunct events revents = true ∧ Returns (rule.cancel s) s') ∨
    (stays = true ∧ isReady events revents = true ∧ Returns (rule.callback s) s' ∧
      (rule.serviceCount s' ≠ rule.serviceCount s ∨ rule.interest s' = false)) ∨
    (stays = true ∧ isDefunct events revents = false ∧ isReady events revents = false ∧ s' = s) := by
  unfold handle at h
  by_cases herr : (revents.pollErr || revents.pollNval) = true
  · rw [if_pos herr] at h
    exact absurd h not_returns_throw
  rw [if_neg herr] at h
  by_cases hdef : isDefunct events revents = true
  · rw [if_pos hdef] at h
    obtain ⟨t, hcancel, h⟩ := returns_bind_iff.mp h
    rw [returns_pure_iff, Prod.mk.injEq] at h
    obtain ⟨rfl, rfl⟩ := h
    exact .inl ⟨rfl, hdef, hcancel⟩
  rw [if_neg hdef] at h
  by_cases hready : isReady events revents = true
  · rw [if_pos hready] at h
    obtain ⟨t, hcall, h⟩ := returns_bind_iff.mp h
    by_cases hbusy : (rule.serviceCount s == rule.serviceCount t && rule.interest t) = true
    · rw [if_pos hbusy] at h
      exact absurd h not_returns_throw
    · rw [if_neg hbusy, returns_pure_iff, Prod.mk.injEq] at h
      obtain ⟨rfl, rfl⟩ := h
      refine .inr (.inl ⟨rfl, hready, hcall, ?_⟩)
      rw [Bool.and_eq_true, beq_iff_eq, not_and_or, Bool.not_eq_true] at hbusy
      exact hbusy.imp_left fun hne heq => hne heq.symm
  · rw [if_neg hready, returns_pure_iff, Prod.mk.injEq] at h
    obtain ⟨rfl, rfl⟩ := h
    exact .inr (.inr ⟨rfl, by simpa using hdef, by simpa using hready, rfl⟩)

/-- The second loop only removes rules. -/
theorem serve_sublist {triples : List (Rule σ × Option Direction × Revents)}
    (h : Returns (serve triples s) (rules', s')) : rules'.Sublist (triples.map Prod.fst) := by
  induction triples generalizing s rules' s' with
  | nil =>
      rw [serve, returns_pure_iff, Prod.mk.injEq] at h
      exact h.1 ▸ .refl _
  | cons t triples ih =>
      obtain ⟨⟨stays, u⟩, -, h⟩ := returns_bind_iff.mp h
      obtain ⟨⟨rest, v⟩, hserve, h⟩ := returns_bind_iff.mp h
      rw [returns_pure_iff, Prod.mk.injEq] at h
      rw [← h.1, List.map_cons]
      cases stays with
      | true => exact (ih hserve).cons_cons t.1
      | false => exact (ih hserve).cons t.1

/-- No rule comes to the loop, and they keep their order. -/
theorem waitNextEvent_sublist {rules rules' : List (Rule σ)}
    (h : Returns (waitNextEvent rules s answer) (result, rules', s')) : rules'.Sublist rules := by
  obtain ⟨polled, hpolled, hcases⟩ := waitNextEvent_cases h
  have hkept := (setUp_sublist hpolled).1
  rcases hcases with ⟨rfl, -⟩ | ⟨-, -, hserve⟩
  · exact hkept
  · have hsub := serve_sublist hserve
    rw [map_fst_assign] at hsub
    exact hsub.trans hkept

/-! ## What the closures keep -/

/-- What the closures of some rules promise about `P`, which is about the rules in place and
the state: a callback keeps it, and a cancellation brings it about without the
rule that is cancelled.  A callback may count on what its rule ensures before it
is polled, which the closures of the other rules leave alone. -/
structure Contract (P : List (Rule σ) → σ → Prop) (Pre : Rule σ → σ → Prop)
    (rules : List (Rule σ)) : Prop where
  interest : ∀ {live r s}, live.Sublist rules → r ∈ live → P live s → ¬ r.IsOver s →
    r.interest s = true → Pre r s
  callback : ∀ {live r s s'}, live.Sublist rules → r ∈ live → P live s → Pre r s →
    Returns (r.callback s) s' → P live s'
  cancel : ∀ {front r back s s'}, (front ++ r :: back).Sublist rules → P (front ++ r :: back) s →
    Returns (r.cancel s) s' → P (front ++ back) s'
  apart : rules.Pairwise fun r r' =>
    (∀ s s', Pre r s → Pre r' s → Returns (r.callback s) s' → Pre r' s') ∧
    (∀ s s', Pre r' s → Returns (r.cancel s) s' → Pre r' s') ∧
    ∀ s s', Pre r s → Returns (r'.cancel s) s' → Pre r s'

/-- Nothing is promised, for those who only ask for the exceptions. -/
theorem contract_trivial (rules : List (Rule σ)) :
    Contract (fun _ _ => True) (fun _ _ => True) rules where
  interest _ _ _ _ _ := trivial
  callback _ _ _ _ _ := trivial
  cancel _ _ _ := trivial
  apart := List.pairwise_of_forall fun _ _ =>
    ⟨fun _ _ _ _ _ => trivial, fun _ _ _ _ => trivial, fun _ _ _ _ => trivial⟩

/-- What every cancellation keeps, the first loop keeps. -/
theorem setUp_invariant {Q : σ → Prop} {rules : List (Rule σ)}
    (hcancel : ∀ r ∈ rules, ∀ s s', Q s → Returns (r.cancel s) s' → Q s') (hs : Q s)
    (h : Returns (setUp rules s) polled) : Q polled.state := by
  induction rules generalizing s polled with
  | nil =>
      rw [setUp, returns_pure_iff] at h
      exact h ▸ hs
  | cons rule rules ih =>
      obtain ⟨hrule, hrules⟩ := List.forall_mem_cons.mp hcancel
      rcases setUp_cons_cases h with ⟨t, ht, h, -⟩ | ⟨rest, hrest, rfl, -⟩
      · exact ih hrules (hrule s t hs ht) h
      · have hstate : Q rest.state := ih hrules hs hrest
        exact hstate

/-- Only what was polled is ready. -/
theorem isSome_of_isReady (h : isReady events revents = true) : events.isSome = true := by
  cases events with
  | none => simp [isReady] at h
  | some d => rfl

section
variable {P : List (Rule σ) → σ → Prop} {Pre : Rule σ → σ → Prop}
  {all rules rules' front : List (Rule σ)}

/-- After the first loop, what is polled has what its callback needs; `front` are the rules
the loop has been through. -/
theorem Contract.setUp_returns (hc : Contract P Pre all) (front : List (Rule σ))
    (hsub : (front ++ rules).Sublist all) (hs : P (front ++ rules) s) (h : Returns (setUp rules s) polled) :
    P (front ++ polled.rules) polled.state ∧
      ∀ p ∈ polled.rules.zip polled.pollfds, p.2.isSome = true → Pre p.1 polled.state := by
  induction rules generalizing s polled front with
  | nil =>
      rw [setUp, returns_pure_iff] at h
      subst h
      exact ⟨hs, by simp⟩
  | cons rule rules ih =>
      rcases setUp_cons_cases h with ⟨t, ht, h, -⟩ | ⟨rest, hrest, rfl, hlive⟩
      · exact ih front (((List.sublist_cons_self rule rules).append_left front).trans hsub)
          (hc.cancel hsub hs ht) h
      · have heq : front ++ [rule] ++ rules = front ++ rule :: rules := by simp
        have hrest' := ih (front ++ [rule]) (heq ▸ hsub) (heq ▸ hs) hrest
        rw [List.append_assoc, List.singleton_append] at hrest'
        refine ⟨hrest'.1, ?_⟩
        rw [List.zip_cons_cons]
        refine List.forall_mem_cons.mpr ⟨fun hsome => ?_, hrest'.2⟩
        have hinterest : rule.interest s = true := by
          by_contra hno
          simp [hno] at hsome
        have hpre := hc.interest hsub (List.mem_append_right front List.mem_cons_self) hs hlive
          hinterest
        have happart := (List.pairwise_cons.mp
          (hc.apart.sublist ((List.sublist_append_right front _).trans hsub))).1
        have hpolled : Pre rule rest.state :=
          setUp_invariant (fun r' hr' u u' => (happart r' hr').2.2 u u') hpre hrest
        exact hpolled

/-- What a closure of the first rule leaves to those after it. -/
theorem Contract.handle_returns (hc : Contract P Pre all) {rule : Rule σ}
    {triples : List (Rule σ × Option Direction × Revents)}
    (hsub : (front ++ rule :: triples.map Prod.fst).Sublist all)
    (hs : P (front ++ rule :: triples.map Prod.fst) s)
    (hpreRule : events.isSome = true → Pre rule s)
    (hpreTail : ∀ t ∈ triples, t.2.1.isSome = true → Pre t.1 s)
    (h : Returns (handle rule events revents s) (stays, u)) :
    P (front ++ (if stays then [rule] else []) ++ triples.map Prod.fst) u ∧
      ∀ t ∈ triples, t.2.1.isSome = true → Pre t.1 u := by
  have happart := (List.pairwise_cons.mp
    (hc.apart.sublist ((List.sublist_append_right front _).trans hsub))).1
  have hmem : ∀ t ∈ triples, t.1 ∈ triples.map Prod.fst := fun t => List.mem_map_of_mem
  rcases handle_cases h with ⟨rfl, -, hcancel⟩ | ⟨rfl, hready, hcall, -⟩ | ⟨rfl, -, -, rfl⟩
  · refine ⟨?_, fun t ht hsome => (happart t.1 (hmem t ht)).2.1 s u (hpreTail t ht hsome) hcancel⟩
    simpa using hc.cancel hsub hs hcancel
  · have hpre := hpreRule (isSome_of_isReady hready)
    refine ⟨?_, fun t ht hsome => (happart t.1 (hmem t ht)).1 s u hpre (hpreTail t ht hsome) hcall⟩
    simpa using hc.callback hsub (List.mem_append_right front List.mem_cons_self) hs hpre hcall
  · exact ⟨by simpa using hs, hpreTail⟩

/-- Whether the rule stays or not, the order is kept. -/
theorem sublist_of_stays (front : List (Rule σ)) (rule : Rule σ) (rest : List (Rule σ))
    (stays : Bool) :
    (front ++ (if stays then [rule] else []) ++ rest).Sublist (front ++ rule :: rest) := by
  rw [List.append_assoc]
  refine List.Sublist.append_left ?_ front
  cases stays with
  | true => exact .refl _
  | false => exact List.sublist_cons_self rule rest

/-- The second loop keeps what the contract is about. -/
theorem Contract.serve_returns (hc : Contract P Pre all) (front : List (Rule σ))
    {triples : List (Rule σ × Option Direction × Revents)}
    (hsub : (front ++ triples.map Prod.fst).Sublist all) (hs : P (front ++ triples.map Prod.fst) s)
    (hpre : ∀ t ∈ triples, t.2.1.isSome = true → Pre t.1 s)
    (h : Returns (serve triples s) (rules', s')) : P (front ++ rules') s' := by
  induction triples generalizing s rules' s' front with
  | nil =>
      rw [serve, returns_pure_iff, Prod.mk.injEq] at h
      obtain ⟨rfl, rfl⟩ := h
      exact hs
  | cons t triples ih =>
      obtain ⟨rule, events, revents⟩ := t
      obtain ⟨hpreRule, hpreTail⟩ := List.forall_mem_cons.mp hpre
      obtain ⟨⟨stays, u⟩, hhandle, h⟩ := returns_bind_iff.mp h
      obtain ⟨⟨rest, v⟩, hserve, h⟩ := returns_bind_iff.mp h
      rw [returns_pure_iff, Prod.mk.injEq] at h
      obtain ⟨rfl, rfl⟩ := h
      obtain ⟨hu, hpreTail'⟩ := hc.handle_returns hsub hs hpreRule hpreTail hhandle
      have hv := ih _ ((sublist_of_stays front rule _ stays).trans hsub) hu hpreTail' hserve
      cases stays with
      | true => simpa using hv
      | false => simpa using hv

/-- What comes with the rules in `assign` comes with them in the lists it is made of. -/
theorem mem_assign {polled : Polled σ} (hlen : polled.pollfds.length = polled.rules.length)
    (h : t ∈ assign polled.pollfds revents polled.rules 0) :
    (t.1, t.2.1) ∈ polled.rules.zip polled.pollfds := by
  obtain ⟨⟨rule, i⟩, hmem, rfl⟩ := List.mem_map.mp h
  have hrule := List.mk_mem_zipIdx_iff_getElem?.mp hmem
  have hlt := hlen.symm ▸ (List.getElem?_eq_some_iff.mp hrule).1
  have hevents : polled.pollfds[i]? = some (polled.pollfds.getD i none) := by
    rw [List.getD_eq_getElem?_getD, List.getElem?_eq_getElem hlt]
    rfl
  exact List.mem_of_getElem? (List.getElem?_zip_eq_some.mpr ⟨hrule, hevents⟩)

/-- **Contract rule** for one call. -/
theorem Contract.waitNextEvent_returns (hc : Contract P Pre all) (hsub : rules.Sublist all)
    (hs : P rules s) (h : Returns (waitNextEvent rules s answer) (result, rules', s')) :
    P rules' s' := by
  obtain ⟨polled, hpolled, hcases⟩ := waitNextEvent_cases h
  obtain ⟨hstate, hpre⟩ := hc.setUp_returns [] hsub hs hpolled
  obtain ⟨hkept, hlen⟩ := setUp_sublist hpolled
  rcases hcases with ⟨rfl, rfl, -⟩ | ⟨-, -, hserve⟩
  · exact hstate
  · have hrules := map_fst_assign polled.pollfds answer.revents polled.rules 0
    refine hc.serve_returns [] ?_ ?_
      (fun t ht hsome => hpre _ (mem_assign hlen ht) hsome) hserve
    · rw [hrules]
      exact hkept.trans hsub
    · rw [hrules]
      exact hstate

end

/-! ## What a call throws -/

/-- The exceptions of a loop over `rules` in states with `P`: a descriptor is in error, a
closure throws, or a callback has neither used its descriptor nor lost its interest. -/
inductive Cause (P : List (Rule σ) → σ → Prop) (Pre : Rule σ → σ → Prop)
    (rules : List (Rule σ)) : Failure → Prop
  | poll : Cause P Pre rules pollError
  | callback (live : List (Rule σ)) (r : Rule σ) (s : σ) (e : Failure) : r ∈ rules → P live s →
      Pre r s → Throws (r.callback s) e → Cause P Pre rules e
  | cancel (live : List (Rule σ)) (r : Rule σ) (s : σ) (e : Failure) : r ∈ rules → P live s →
      Throws (r.cancel s) e → Cause P Pre rules e
  | busy (live : List (Rule σ)) (r : Rule σ) (s s' : σ) : r ∈ rules → P live s → Pre r s →
      Returns (r.callback s) s' → r.serviceCount s' = r.serviceCount s → r.interest s' = true →
      Cause P Pre rules busyWait

section
variable {P : List (Rule σ) → σ → Prop} {Pre : Rule σ → σ → Prop} {all rules front : List (Rule σ)}

/-- What the first loop throws comes from a cancellation. -/
theorem Contract.setUp_throws (hc : Contract P Pre all) (front : List (Rule σ))
    (hsub : (front ++ rules).Sublist all) (hs : P (front ++ rules) s) (h : Throws (setUp rules s) e) : Cause P Pre all e := by
  induction rules generalizing s front with
  | nil => exact absurd h not_throws_pure
  | cons rule rules ih =>
      have hrule : rule ∈ all := hsub.subset (List.mem_append_right front List.mem_cons_self)
      have hcancel : Throws (do let s ← rule.cancel s; setUp rules s) e → Cause P Pre all e := by
        intro h
        rcases throws_bind_iff.mp h with h | ⟨u, hu, h⟩
        · exact .cancel _ rule s e hrule hs h
        · exact ih front (((List.sublist_cons_self rule rules).append_left front).trans hsub)
            (hc.cancel hsub hs hu) h
      unfold setUp at h
      split at h
      · exact hcancel h
      · split at h
        · exact hcancel h
        · rcases throws_bind_iff.mp h with h | ⟨u, -, h⟩
          · have heq : front ++ [rule] ++ rules = front ++ rule :: rules := by simp
            exact ih (front ++ [rule]) (heq ▸ hsub) (heq ▸ hs) h
          · exact absurd h not_throws_pure

/-- What is thrown for one rule comes from its closures, or from the loop itself. -/
theorem handle_throws {rule : Rule σ} (hrule : rule ∈ all) (hs : P rules s)
    (hpre : events.isSome = true → Pre rule s) (h : Throws (handle rule events revents s) e) :
    Cause P Pre all e := by
  unfold handle at h
  split at h
  · rw [throws_throw_iff] at h
    exact h ▸ .poll
  · split at h
    · rcases throws_bind_iff.mp h with h | ⟨u, -, h⟩
      · exact .cancel rules rule s e hrule hs h
      · exact absurd h not_throws_pure
    · split at h
      · next hready =>
          have hpre := hpre (isSome_of_isReady hready)
          rcases throws_bind_iff.mp h with h | ⟨u, hcall, h⟩
          · exact .callback rules rule s e hrule hs hpre h
          · split at h
            · next hbusy =>
                obtain ⟨hcount, hint⟩ := Bool.and_eq_true_iff.mp hbusy
                rw [throws_throw_iff] at h
                exact h ▸ .busy rules rule s u hrule hs hpre hcall (beq_iff_eq.mp hcount).symm hint
            · exact absurd h not_throws_pure
      · exact absurd h not_throws_pure

/-- What the second loop throws comes from one of the rules. -/
theorem Contract.serve_throws (hc : Contract P Pre all) (front : List (Rule σ))
    {triples : List (Rule σ × Option Direction × Revents)}
    (hsub : (front ++ triples.map Prod.fst).Sublist all) (hs : P (front ++ triples.map Prod.fst) s)
    (hpre : ∀ t ∈ triples, t.2.1.isSome = true → Pre t.1 s) (h : Throws (serve triples s) e) :
    Cause P Pre all e := by
  induction triples generalizing s front with
  | nil => exact absurd h not_throws_pure
  | cons t triples ih =>
      obtain ⟨rule, events, revents⟩ := t
      have hrule : rule ∈ all := hsub.subset (List.mem_append_right front List.mem_cons_self)
      obtain ⟨hpreRule, hpreTail⟩ := List.forall_mem_cons.mp hpre
      rcases throws_bind_iff.mp h with h | ⟨⟨stays, u⟩, hhandle, h⟩
      · exact handle_throws hrule hs hpreRule h
      rcases throws_bind_iff.mp h with h | ⟨v, -, h⟩
      · obtain ⟨hu, hpreTail'⟩ := hc.handle_returns hsub hs hpreRule hpreTail hhandle
        exact ih _ ((sublist_of_stays front rule _ stays).trans hsub) hu hpreTail' h
      · exact absurd h not_throws_pure

/-- **Exception rule** for one call: every exception has its cause in a state that the
closures lead to, and there is no reading past the end. -/
theorem Contract.waitNextEvent_throws (hc : Contract P Pre all) (hsub : rules.Sublist all)
    (hs : P rules s) (h : Throws (waitNextEvent rules s answer) e) : Cause P Pre all e := by
  unfold waitNextEvent at h
  rcases throws_bind_iff.mp h with h | ⟨polled, hpolled, h⟩
  · exact hc.setUp_throws [] hsub hs h
  obtain ⟨hkept, hlen⟩ := setUp_sublist hpolled
  obtain ⟨hstate, hpre⟩ := hc.setUp_returns [] hsub hs hpolled
  have hgo : ∀ {revents}, Throws (do
      let (rules, s) ← goThrough polled.pollfds revents polled.rules 0 polled.state
      return (Result.Success, rules, s)) e → Cause P Pre all e := by
    intro revents h
    rw [goThrough_eq_serve (by rw [hlen, Nat.zero_add])] at h
    rcases throws_bind_iff.mp h with h | ⟨u, -, h⟩
    · have hrules := map_fst_assign polled.pollfds revents polled.rules 0
      refine hc.serve_throws [] ?_ ?_
        (fun t ht hsome => hpre _ (mem_assign hlen ht) hsome) h
      · rw [hrules]
        exact hkept.trans hsub
      · rw [hrules]
        exact hstate
    · exact absurd h not_throws_pure
  split at h
  · exact absurd h not_throws_pure
  · split at h
    · exact absurd h not_throws_pure
    · split at h
      · exact absurd h not_throws_pure
      · exact hgo h
    · exact hgo h

end

/-! ## Runs -/

/-- The rules that are left and the state, after one call. -/
def step (l : List (Rule σ) × σ) (answer : PollAnswer) : Option (List (Rule σ) × σ) :=
  (waitNextEvent l.1 l.2 answer).result?.map Prod.snd

theorem step_eq_some {l l' : List (Rule σ) × σ} :
    step l answer = some l' ↔ ∃ result, Returns (waitNextEvent l.1 l.2 answer) (result, l'.1, l'.2) := by
  simp only [step, Option.map_eq_some_iff, result?_eq_some_iff]
  constructor
  · rintro ⟨⟨result, l'⟩, h, rfl⟩
    exact ⟨result, h⟩
  · rintro ⟨result, h⟩
    exact ⟨_, h, rfl⟩

end EventLoop

end Sponge
