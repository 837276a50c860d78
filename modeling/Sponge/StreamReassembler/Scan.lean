import Sponge.StreamReassembler

/-!
# Sponge.StreamReassembler.Scan

The scan of `missing_middle_handler`, restarts and all, against a single pass
over the stored datagrams.

On a store sorted by index every restart of the loop walks over datagrams it
has already passed and comes back to the place where it was, so the loop is
the one pass `scan`, with one exception: a datagram at the index of the new
one that is longer than it sends the iterator back with nothing changed, and
the loop never ends.  `scan` answers `none` there.

* `missingMiddleLoop_eq_some_iff` — the loop ends as `scan` says;
* `missingMiddleLoop_eq_none_iff` — it runs out of every amount of fuel
  exactly where `scan` answers `none`;
* `scan_eq_none_iff` — that is, exactly on the stores that are `Stuck`.

What the pass does with each datagram is said once, by `Passes`, and what is
true of the store afterwards is proved by induction on it.
-/

namespace Sponge

/-! ## One pass -/

namespace ScanEnd

/-- What the scan was working on when it ended. -/
def state : ScanEnd → Scan
  | .ret s => s
  | .store s => s

/-- The same end of the scan with further datagrams in front of the list. -/
def prepend (pre : List Datagram) : ScanEnd → ScanEnd
  | .ret s => .ret { s with storage := pre ++ s.storage }
  | .store s => .store { s with storage := pre ++ s.storage }

@[simp] theorem prepend_nil (e : ScanEnd) : e.prepend [] = e := by cases e <;> rfl

theorem prepend_prepend (e : ScanEnd) (pre post : List Datagram) :
    (e.prepend post).prepend pre = e.prepend (pre ++ post) := by
  cases e <;> simp [prepend]

theorem state_prepend (e : ScanEnd) (pre : List Datagram) :
    (e.prepend pre).state = { e.state with storage := pre ++ e.state.storage } := by
  cases e <;> rfl

end ScanEnd

/-- The new datagram after it has swallowed `p`, which starts inside it. -/
def swallow (dg p : Datagram) : Datagram :=
  if p.tail ≤ dg.tail then dg else (overlapMerger dg p).1

@[simp] theorem swallow_index (dg p : Datagram) : (swallow dg p).index = dg.index := by
  simp only [swallow, overlapMerger]
  split
  · rfl
  · split <;> rfl

/-- The end of two merged datagrams is the farther of their ends. -/
theorem swallow_end {dg p : Datagram} (hdg : dg.tail = dg.index + dg.size)
    (hp : p.tail = p.index + p.size) (hin : p.index < dg.tail) :
    dg.index + (swallow dg p).size = max (dg.index + dg.size) (p.index + p.size) := by
  by_cases hend : p.tail ≤ dg.tail
  · rw [swallow, if_pos hend]
    omega
  · have hlt := dg.tail_lt
    have hstart : (dg.tail + 2 ^ 64 - p.index) % 2 ^ 64 = dg.tail - p.index := by omega
    have hlen : (p.data.drop (dg.tail - p.index)).length = p.size - (dg.tail - p.index) := by
      rw [List.length_drop, p.size_eq]
    have hne : dg.tail - p.index ≠ 0 := by omega
    rw [swallow, if_neg hend]
    simp only [overlapMerger, hstart, if_neg hne, hlen]
    omega

/-- So is their tail. -/
theorem swallow_tail {dg p : Datagram} (hdg : dg.tail = dg.index + dg.size)
    (hp : p.tail = p.index + p.size) (hin : p.index < dg.tail) :
    (swallow dg p).tail = max dg.tail p.tail := by
  have hend := swallow_end hdg hp hin
  have hdglt := dg.tail_lt
  have hplt := p.tail_lt
  rw [Datagram.tail, swallow_index, hend, Nat.mod_eq_of_lt (by omega), hdg, hp]

/-- The scan as one pass over the list, without positions and restarts. -/
def scan (dg : Datagram) (u : Nat) : List Datagram → Option ScanEnd
  | [] => some (.store ⟨dg, [], u⟩)
  | p :: rest =>
      if dg.index = p.index ∧ p.tail = dg.tail then some (.ret ⟨dg, p :: rest, u⟩)
      else if p.index < dg.index then
        if p.tail < dg.tail then some (.store ⟨dg, p :: rest, u⟩)
        else if dg.index < p.tail then some (.ret ⟨dg, p :: rest, u⟩)
        else (scan dg u rest).map (ScanEnd.prepend [p])
      else if p.index = dg.index then
        if p.size < dg.size then scan dg (u - p.size) rest else none
      else if p.index < dg.tail then scan (swallow dg p) (u - p.size) rest
      else (scan dg u rest).map (ScanEnd.prepend [p])

/-- Datagrams the scan passes by. -/
def Skipped (dg p : Datagram) : Prop :=
  (p.index < dg.index ∧ dg.tail ≤ p.tail ∧ p.tail ≤ dg.index) ∨
    (dg.index < p.index ∧ dg.tail ≤ p.index)

/-- The stored datagrams are in the order of their indices. -/
def SortedByIndex (l : List Datagram) : Prop := l.Pairwise fun a b => a.index ≤ b.index

/-- The sort of the source sorts. -/
theorem sortedByIndex_sortByIndex (l : List Datagram) :
    SortedByIndex (StreamReassembler.sortByIndex l) := by
  have : IsTrans Datagram fun a b => a.index ≤ b.index := ⟨fun _ _ _ => Nat.le_trans⟩
  have : Std.Total fun a b : Datagram => a.index ≤ b.index := ⟨fun a b => Nat.le_total _ _⟩
  exact List.pairwise_insertionSort (fun a b : Datagram => a.index ≤ b.index) l

/-! ## The loop, one iteration at a time -/

/-- The loop goes back to `begin()`, unless nothing is left. -/
def restart (fuel : Nat) (s : Scan) : Option ScanEnd :=
  if s.storage.length = 0 then some (.store s) else missingMiddleLoop fuel 0 s

/-- One iteration on the datagram `p`.  The merge of `dg` into an earlier
datagram is never reached: a `dg` that starts later and ends later than `p`
has already left the loop. -/
theorem missingMiddleLoop_succ (fuel : Nat) {s : Scan} (hp : s.storage[ptr]? = some p) :
    missingMiddleLoop (fuel + 1) ptr s =
      if s.dg.index = p.index ∧ p.tail = s.dg.tail then some (.ret s)
      else if p.index < s.dg.index then
        if p.tail < s.dg.tail then some (.store s)
        else if s.dg.index < p.tail then some (.ret s)
        else missingMiddleLoop fuel (ptr + 1) s
      else if p.index = s.dg.index then
        if p.size < s.dg.size then
          restart fuel ⟨s.dg, s.storage.eraseIdx ptr, s.unassembledBytes - p.size⟩
        else missingMiddleLoop fuel 0 s
      else if p.index < s.dg.tail then
        restart fuel ⟨swallow s.dg p, s.storage.eraseIdx ptr, s.unassembledBytes - p.size⟩
      else missingMiddleLoop fuel (ptr + 1) s := by
  have hne : s.storage.length ≠ 0 := by
    intro h0
    rw [List.length_eq_zero_iff.mp h0] at hp
    simp at hp
  rw [missingMiddleLoop]
  simp only [hp]
  by_cases hsame : s.dg.index = p.index ∧ p.tail = s.dg.tail
  · rw [if_pos hsame, if_pos hsame]
  rw [if_neg hsame, if_neg hsame]
  rcases Nat.lt_trichotomy p.index s.dg.index with hlt | heq | hgt
  · rw [if_pos hlt]
    by_cases hbreak : p.tail < s.dg.tail
    · rw [if_pos ⟨hlt, hbreak⟩, if_pos hbreak]
    rw [if_neg (fun h => hbreak h.2), if_neg hbreak]
    by_cases hin : s.dg.index < p.tail
    · rw [if_pos ⟨hlt, hin⟩, if_pos (Nat.not_lt.mp hbreak), if_pos hin]
    · rw [if_neg (fun h => hin h.2), if_neg (fun h => by omega), if_neg (by omega), if_neg hin]
  · simp only [gt_iff_lt, heq, Nat.lt_irrefl, false_and, ↓reduceIte]
    by_cases hsize : p.size < s.dg.size
    · simp only [hsize, ↓reduceIte]; rfl
    · simp only [hsize, hne, ↓reduceIte]
  · have hnlt : ¬ p.index < s.dg.index := by omega
    have hne' : ¬ p.index = s.dg.index := by omega
    have hne'' : ¬ s.dg.index = p.index := by omega
    simp only [gt_iff_lt, hnlt, hgt, hne', hne'', false_and, true_and, ↓reduceIte]
    by_cases hin : p.index < s.dg.tail
    · simp only [hin, ↓reduceIte]; rfl
    · simp only [hin, ↓reduceIte]

/-- A scan that ends needs no more fuel than it got. -/
theorem missingMiddleLoop_mono (h : missingMiddleLoop fuel ptr s = some e) (hle : fuel ≤ fuel') :
    missingMiddleLoop fuel' ptr s = some e := by
  induction fuel generalizing ptr s fuel' with
  | zero => simp [missingMiddleLoop] at h
  | succ fuel ih =>
      obtain ⟨fuel', rfl⟩ : ∃ n, fuel' = n + 1 := ⟨fuel' - 1, by omega⟩
      have hle' : fuel ≤ fuel' := by omega
      have hrestart : ∀ t, restart fuel t = some e → restart fuel' t = some e := by
        intro t ht
        unfold restart at ht ⊢
        split at ht
        · next h0 => rw [if_pos h0]; exact ht
        · next h0 => rw [if_neg h0]; exact ih ht hle'
      cases hp : s.storage[ptr]? with
      | none =>
          rw [missingMiddleLoop] at h ⊢
          simp only [hp] at h ⊢
          exact h
      | some p =>
          rw [missingMiddleLoop_succ _ hp] at h ⊢
          grind

/-- The loop walks over the datagrams it skips. -/
theorem missingMiddleLoop_walk (fuel u : Nat) (rest : List Datagram)
    (hpre : ∀ p ∈ pre, Skipped dg p) (k : Nat) (hk : k ≤ pre.length) :
    missingMiddleLoop (fuel + k) (pre.length - k) ⟨dg, pre ++ rest, u⟩ =
      missingMiddleLoop fuel pre.length ⟨dg, pre ++ rest, u⟩ := by
  induction k with
  | zero => rfl
  | succ k ih =>
      have hlt : pre.length - (k + 1) < pre.length := by omega
      have hget : (pre ++ rest)[pre.length - (k + 1)]? = some pre[pre.length - (k + 1)] := by
        rw [List.getElem?_append_left hlt, List.getElem?_eq_getElem hlt]
      have hskip := hpre _ (List.getElem_mem hlt)
      rw [← Nat.add_assoc, missingMiddleLoop_succ _ (s := ⟨dg, pre ++ rest, u⟩) hget]
      rw [show pre.length - (k + 1) + 1 = pre.length - k by omega, ih (by omega)]
      simp only
      rcases hskip with ⟨h1, h2, h3⟩ | ⟨h1, h2⟩
      · rw [if_neg (by omega), if_pos h1, if_neg (by omega), if_neg (by omega)]
      · rw [if_neg (by omega), if_neg (by omega), if_neg (by omega), if_neg (by omega)]

/-- What returns from the position behind the skipped datagrams is what a
restart at `begin()` comes to. -/
theorem missingMiddleLoop_begin (hpre : ∀ p ∈ pre, Skipped dg p)
    (h : missingMiddleLoop fuel pre.length ⟨dg, pre ++ rest, u⟩ = some e) :
    missingMiddleLoop (fuel + pre.length) 0 ⟨dg, pre ++ rest, u⟩ = some e := by
  have hwalk := missingMiddleLoop_walk fuel u rest hpre pre.length (Nat.le_refl _)
  rw [Nat.sub_self] at hwalk
  rw [hwalk, h]

/-- If the scan does not end from behind the skipped datagrams, neither does it
end from `begin()`. -/
theorem missingMiddleLoop_begin_eq_none (hpre : ∀ p ∈ pre, Skipped dg p)
    (h : missingMiddleLoop fuel pre.length ⟨dg, pre ++ rest, u⟩ = none) :
    missingMiddleLoop fuel 0 ⟨dg, pre ++ rest, u⟩ = none := by
  have hwalk := missingMiddleLoop_walk fuel u rest hpre pre.length (Nat.le_refl _)
  rw [Nat.sub_self] at hwalk
  cases hl : missingMiddleLoop fuel 0 ⟨dg, pre ++ rest, u⟩ with
  | none => rfl
  | some e =>
      have hmono := missingMiddleLoop_mono hl (Nat.le_add_right fuel pre.length)
      rw [hwalk, h] at hmono
      contradiction

/-! ## The loop is the pass -/

private theorem getElem?_append_cons (pre : List Datagram) (p : Datagram) (rest : List Datagram) :
    (pre ++ p :: rest)[pre.length]? = some p := by
  simp

private theorem eraseIdx_append_cons (pre : List Datagram) (p : Datagram) (rest : List Datagram) :
    (pre ++ p :: rest).eraseIdx pre.length = pre ++ rest := by
  rw [List.eraseIdx_append_of_length_le (Nat.le_refl _), Nat.sub_self, List.eraseIdx_zero,
    List.tail_cons]

/-- Nothing has been skipped when `dg` reaches into a later datagram. -/
private theorem eq_nil_of_overlap (hpre : ∀ q ∈ pre, Skipped dg q)
    (hs : SortedByIndex (pre ++ p :: rest)) (hlt : dg.index < p.index) (hin : p.index < dg.tail) :
    pre = [] := by
  rw [List.eq_nil_iff_forall_not_mem]
  intro q hq
  have hqp : q.index ≤ p.index :=
    (List.pairwise_append.mp hs).2.2 q hq p List.mem_cons_self
  rcases hpre q hq with ⟨h1, h2, h3⟩ | ⟨h1, h2⟩ <;> omega

private theorem sortedByIndex_erase (hs : SortedByIndex (pre ++ p :: rest)) :
    SortedByIndex (pre ++ rest) :=
  List.Pairwise.sublist (List.Sublist.append_left (List.sublist_cons_self _ _) _) hs

/-- The datagrams skipped so far, with one more. -/
private theorem skipped_concat (hpre : ∀ q ∈ pre, Skipped dg q) (hp : Skipped dg p) :
    ∀ q ∈ pre ++ [p], Skipped dg q := by
  intro q hq
  rcases List.mem_append.mp hq with h | h
  · exact hpre q h
  · rw [List.mem_singleton.mp h]; exact hp

/-- What the pass and the loop do with the datagram `p` behind those already
skipped: end, skip it too, go on without it, or get stuck on it. -/
private theorem scan_cons_cases (u : Nat) (hpre : ∀ q ∈ pre, Skipped dg q)
    (hs : SortedByIndex (pre ++ p :: rest)) :
    (∃ e, scan dg u (p :: rest) = some e ∧ ∀ fuel,
      missingMiddleLoop (fuel + 1) pre.length ⟨dg, pre ++ p :: rest, u⟩ = some (e.prepend pre)) ∨
    (Skipped dg p ∧ scan dg u (p :: rest) = (scan dg u rest).map (ScanEnd.prepend [p]) ∧ ∀ fuel,
      missingMiddleLoop (fuel + 1) pre.length ⟨dg, pre ++ p :: rest, u⟩ =
        missingMiddleLoop fuel (pre.length + 1) ⟨dg, pre ++ p :: rest, u⟩) ∨
    (∃ dg' u', (∀ q ∈ pre, Skipped dg' q) ∧ scan dg u (p :: rest) = scan dg' u' rest ∧ ∀ fuel,
      missingMiddleLoop (fuel + 1) pre.length ⟨dg, pre ++ p :: rest, u⟩ =
        restart fuel ⟨dg', pre ++ rest, u'⟩) ∨
    (scan dg u (p :: rest) = none ∧ ∀ fuel,
      missingMiddleLoop (fuel + 1) pre.length ⟨dg, pre ++ p :: rest, u⟩ =
        missingMiddleLoop fuel 0 ⟨dg, pre ++ p :: rest, u⟩) := by
  have hstep (fuel) := missingMiddleLoop_succ fuel (s := ⟨dg, pre ++ p :: rest, u⟩)
    (getElem?_append_cons pre p rest)
  simp only [eraseIdx_append_cons] at hstep
  simp only [hstep, scan]
  by_cases hsame : dg.index = p.index ∧ p.tail = dg.tail
  · simp only [if_pos hsame]
    exact .inl ⟨_, rfl, fun _ => rfl⟩
  simp only [if_neg hsame]
  rcases Nat.lt_trichotomy p.index dg.index with hlt | heq | hgt
  · simp only [if_pos hlt]
    by_cases hbreak : p.tail < dg.tail
    · simp only [if_pos hbreak]
      exact .inl ⟨_, rfl, fun _ => rfl⟩
    simp only [if_neg hbreak]
    by_cases hin : dg.index < p.tail
    · simp only [if_pos hin]
      exact .inl ⟨_, rfl, fun _ => rfl⟩
    simp only [if_neg hin]
    have hskip : Skipped dg p := .inl ⟨hlt, Nat.not_lt.mp hbreak, Nat.not_lt.mp hin⟩
    exact .inr (.inl ⟨hskip, by simp⟩)
  · simp only [if_neg (Nat.not_lt.mpr (Nat.le_of_eq heq.symm)), if_pos heq]
    by_cases hsize : p.size < dg.size
    · simp only [if_pos hsize]
      exact .inr (.inr (.inl ⟨dg, u - p.size, hpre, rfl, fun _ => rfl⟩))
    · simp only [if_neg hsize]
      exact .inr (.inr (.inr (by simp)))
  · simp only [if_neg (Nat.lt_asymm hgt), if_neg (Nat.ne_of_gt hgt)]
    by_cases hin : p.index < dg.tail
    · simp only [if_pos hin]
      have hnil := eq_nil_of_overlap hpre hs hgt hin
      exact .inr (.inr (.inl ⟨swallow dg p, u - p.size, by simp [hnil], rfl, fun _ => rfl⟩))
    · simp only [if_neg hin]
      exact .inr (.inl ⟨.inr ⟨hgt, Nat.not_lt.mp hin⟩, by simp⟩)

/-- Where the pass ends, the loop ends the same way. -/
theorem missingMiddleLoop_of_scan (hpre : ∀ p ∈ pre, Skipped dg p)
    (hs : SortedByIndex (pre ++ rest)) (h : scan dg u rest = some e) :
    ∃ fuel, missingMiddleLoop fuel pre.length ⟨dg, pre ++ rest, u⟩ = some (e.prepend pre) := by
  induction rest generalizing pre dg u e with
  | nil =>
      simp only [scan, Option.some.injEq] at h
      subst h
      exact ⟨1, by simp [missingMiddleLoop, ScanEnd.prepend]⟩
  | cons p rest ih =>
      rcases scan_cons_cases u hpre hs with ⟨e', hscan, hloop⟩ | ⟨hskip, hscan, hloop⟩ |
          ⟨dg', u', hpre', hscan, hloop⟩ | ⟨hscan, -⟩
      · obtain rfl : e' = e := Option.some.inj (hscan.symm.trans h)
        exact ⟨1, hloop 0⟩
      · -- skipping `p` moves it to the datagrams already passed
        obtain ⟨e', he', rfl⟩ := Option.map_eq_some_iff.mp (hscan.symm.trans h)
        obtain ⟨fuel, hf⟩ := ih (skipped_concat hpre hskip) (by simpa using hs) he'
        refine ⟨fuel + 1, ?_⟩
        rw [hloop, ScanEnd.prepend_prepend]
        simpa using hf
      · -- a restart walks over the skipped datagrams again
        have hrest := hscan.symm.trans h
        obtain ⟨fuel, hf⟩ := ih hpre' (sortedByIndex_erase hs) hrest
        refine ⟨fuel + pre.length + 1, ?_⟩
        rw [hloop, restart]
        split
        · next h0 =>
            obtain ⟨rfl, rfl⟩ := List.append_eq_nil_iff.mp (List.length_eq_zero_iff.mp h0)
            simp only [scan, Option.some.injEq] at hrest
            simp [← hrest]
        · exact missingMiddleLoop_begin hpre' hf
      · exact absurd (hscan.symm.trans h) (by simp)

/-- Where the pass has no answer, the loop never ends. -/
theorem missingMiddleLoop_of_scan_eq_none (hpre : ∀ p ∈ pre, Skipped dg p)
    (hs : SortedByIndex (pre ++ rest)) (h : scan dg u rest = none) (fuel : Nat) :
    missingMiddleLoop fuel pre.length ⟨dg, pre ++ rest, u⟩ = none := by
  induction rest generalizing pre dg u fuel with
  | nil => simp [scan] at h
  | cons p rest ih =>
      -- every iteration at `p` either goes on to a scan without an answer or comes back to `p`
      induction fuel with
      | zero => rfl
      | succ fuel ihf =>
          rcases scan_cons_cases u hpre hs with ⟨e, hscan, -⟩ | ⟨hskip, hscan, hloop⟩ |
              ⟨dg', u', hpre', hscan, hloop⟩ | ⟨-, hloop⟩
          · exact absurd (hscan.symm.trans h) (by simp)
          · have hrest := Option.map_eq_none_iff.mp (hscan.symm.trans h)
            have hf := ih (skipped_concat hpre hskip) (by simpa using hs) hrest fuel
            rw [hloop]
            simpa using hf
          · have hrest := hscan.symm.trans h
            have hf := ih hpre' (sortedByIndex_erase hs) hrest fuel
            rw [hloop, restart]
            split
            · next h0 =>
                obtain ⟨rfl, rfl⟩ := List.append_eq_nil_iff.mp (List.length_eq_zero_iff.mp h0)
                simp [scan] at hrest
            · exact missingMiddleLoop_begin_eq_none hpre' hf
          · rw [hloop]
            exact missingMiddleLoop_begin_eq_none hpre ihf

/-- **The loop is the pass**: on a sorted store, `missing_middle_handler` leaves
its loop as `scan` says, given enough fuel. -/
theorem missingMiddleLoop_eq_some_iff (hs : SortedByIndex storage) :
    (∃ fuel, missingMiddleLoop fuel 0 ⟨dg, storage, u⟩ = some e) ↔ scan dg u storage = some e := by
  constructor
  · rintro ⟨fuel, hf⟩
    cases hscan : scan dg u storage with
    | none =>
        have hnone := missingMiddleLoop_of_scan_eq_none (List.forall_mem_nil _) hs hscan fuel
        rw [List.length_nil, List.nil_append, hf] at hnone
        contradiction
    | some e' =>
        obtain ⟨fuel', hf'⟩ := missingMiddleLoop_of_scan (List.forall_mem_nil _) hs hscan
        rw [List.length_nil, List.nil_append, ScanEnd.prepend_nil] at hf'
        have h1 := missingMiddleLoop_mono hf (Nat.le_max_left fuel fuel')
        have h2 := missingMiddleLoop_mono hf' (Nat.le_max_right fuel fuel')
        rw [← h1, ← h2]
  · intro hscan
    obtain ⟨fuel, hf⟩ := missingMiddleLoop_of_scan (List.forall_mem_nil _) hs hscan
    rw [List.length_nil, List.nil_append, ScanEnd.prepend_nil] at hf
    exact ⟨fuel, hf⟩

/-- The loop runs out of every amount of fuel exactly where the pass has no
answer. -/
theorem missingMiddleLoop_eq_none_iff (hs : SortedByIndex storage) :
    (∀ fuel, missingMiddleLoop fuel 0 ⟨dg, storage, u⟩ = none) ↔ scan dg u storage = none := by
  constructor
  · intro hall
    cases hscan : scan dg u storage with
    | none => rfl
    | some e =>
        obtain ⟨fuel, hf⟩ := (missingMiddleLoop_eq_some_iff hs).mpr hscan
        rw [hall] at hf
        contradiction
  · intro hscan fuel
    exact missingMiddleLoop_of_scan_eq_none (List.forall_mem_nil _) hs hscan fuel

/-- `missing_middle_handler` puts away what the pass leaves. -/
theorem missingMiddleHandler_eq_some {r r' : StreamReassembler} (hs : SortedByIndex r.storage)
    (h : r.missingMiddleHandler fuel dg = some r') :
    ∃ e, scan dg r.unassembledBytes r.storage = some e ∧ r' = r.settle e := by
  obtain ⟨e, he, hr⟩ := Option.map_eq_some_iff.mp h
  exact ⟨e, (missingMiddleLoop_eq_some_iff hs).mp ⟨fuel, he⟩, hr.symm⟩

/-- The datagrams on the list after the pass. -/
def ScanEnd.stored : ScanEnd → List Datagram
  | .ret s => s.storage
  | .store s => s.dg :: s.storage

/-- What was passed over stays stored. -/
theorem ScanEnd.mem_stored_prepend {e : ScanEnd} :
    d ∈ (e.prepend pre).stored ↔ d ∈ pre ∨ d ∈ e.stored := by
  cases e <;> simp [prepend, stored, or_left_comm]

@[simp] theorem mem_settle_storage {r : StreamReassembler} :
    d ∈ (r.settle e).storage ↔ d ∈ e.stored := by
  cases e with
  | ret s => rfl
  | store s =>
      rw [StreamReassembler.settle, StreamReassembler.sortByIndex, List.mem_insertionSort]
      rfl

/-! ## How the pass comes to its answer -/

/-- The pass for `dg`, datagram by datagram: it ends at one that contains `dg`, or
that `dg` outlasts; it keeps those it skips, and goes on without a shorter one at
the same index and without those it swallows. -/
inductive Passes : Datagram → Nat → List Datagram → ScanEnd → Prop
  | done (dg : Datagram) (u : Nat) : Passes dg u [] (.store ⟨dg, [], u⟩)
  | repeated {dg p : Datagram} (u : Nat) (rest : List Datagram) (hle : p.index ≤ dg.index)
      (htail : dg.tail ≤ p.tail) : Passes dg u (p :: rest) (.ret ⟨dg, p :: rest, u⟩)
  | discrete {dg p : Datagram} (u : Nat) (rest : List Datagram) (hlt : p.index < dg.index)
      (htail : p.tail < dg.tail) : Passes dg u (p :: rest) (.store ⟨dg, p :: rest, u⟩)
  | skip {dg p : Datagram} {u : Nat} {rest : List Datagram} {e : ScanEnd}
      (hskip : Skipped dg p) (hrest : Passes dg u rest e) :
      Passes dg u (p :: rest) (e.prepend [p])
  | replace {dg p : Datagram} {u : Nat} {rest : List Datagram} {e : ScanEnd}
      (hindex : p.index = dg.index) (htail : p.tail ≠ dg.tail) (hsize : p.size < dg.size)
      (hrest : Passes dg (u - p.size) rest e) : Passes dg u (p :: rest) e
  | swallow {dg p : Datagram} {u : Nat} {rest : List Datagram} {e : ScanEnd}
      (hlt : dg.index < p.index) (hin : p.index < dg.tail)
      (hrest : Passes (swallow dg p) (u - p.size) rest e) : Passes dg u (p :: rest) e

/-- What the loop does, as a derivation. -/
theorem scan_passes (h : scan dg u l = some e) : Passes dg u l e := by
  induction l generalizing dg u e with
  | nil =>
      rw [scan, Option.some.injEq] at h
      exact h ▸ .done dg u
  | cons p rest ih =>
      have hskip : Skipped dg p → (scan dg u rest).map (ScanEnd.prepend [p]) = some e →
          Passes dg u (p :: rest) e := by
        intro hs hm
        obtain ⟨e', he', rfl⟩ := Option.map_eq_some_iff.mp hm
        exact .skip hs (ih he')
      rw [scan] at h
      split at h
      · next hsame =>
          exact Option.some.inj h ▸ .repeated u rest (Nat.le_of_eq hsame.1.symm)
            (Nat.le_of_eq hsame.2.symm)
      split at h
      · next hlt =>
          split at h
          · next htail => exact Option.some.inj h ▸ .discrete u rest hlt htail
          split at h
          · next htail _ =>
              exact Option.some.inj h ▸ .repeated u rest (Nat.le_of_lt hlt) (Nat.not_lt.mp htail)
          · next htail hout =>
              exact hskip (.inl ⟨hlt, Nat.not_lt.mp htail, Nat.not_lt.mp hout⟩) h
      split at h
      · next hsame _ hindex =>
          split at h
          · next hsize =>
              exact .replace hindex (fun htail => hsame ⟨hindex.symm, htail⟩) hsize (ih h)
          · contradiction
      have hlt : dg.index < p.index := by omega
      split at h
      · next hin => exact .swallow hlt hin (ih h)
      · next hout => exact hskip (.inr ⟨hlt, Nat.not_lt.mp hout⟩) h

/-- The pass only takes datagrams off the list. -/
theorem Passes.sublist (h : Passes dg u l e) : e.state.storage.Sublist l := by
  induction h with
  | done => exact List.Sublist.refl _
  | repeated => exact List.Sublist.refl _
  | discrete => exact List.Sublist.refl _
  | skip _ _ ih =>
      rw [ScanEnd.state_prepend]
      exact ih.cons_cons _
  | replace _ _ _ _ ih => exact ih.cons _
  | swallow _ _ _ ih => exact ih.cons _

/-- What is stored was on the list, or is what the pass has made of `dg`. -/
theorem Passes.mem_stored (h : Passes dg u l e) (hd : d ∈ e.stored) :
    d = e.state.dg ∨ d ∈ l := by
  cases e with
  | ret s => exact .inr (h.sublist.subset hd)
  | store s => exact (List.mem_cons.mp hd).imp_right fun hd' => h.sublist.subset hd'

/-- The pass never moves `dg`. -/
theorem Passes.dg_index (h : Passes dg u l e) : e.state.dg.index = dg.index := by
  induction h with
  | done => rfl
  | repeated => rfl
  | discrete => rfl
  | skip _ _ ih =>
      rw [ScanEnd.state_prepend]
      exact ih
  | replace _ _ _ _ ih => exact ih
  | swallow _ _ _ ih => rw [ih, swallow_index]

/-- `P` holds of `dg`, as it is by then, and a datagram that the pass for `dg`
swallows. -/
def Swallows (P : Datagram → Datagram → Prop) (dg : Datagram) : List Datagram → Prop
  | [] => False
  | p :: rest =>
      if p.index < dg.index then dg.tail ≤ p.tail ∧ p.tail ≤ dg.index ∧ Swallows P dg rest
      else if p.index = dg.index then
        p.tail ≠ dg.tail ∧ p.size < dg.size ∧ Swallows P dg rest
      else if p.index < dg.tail then P dg p ∨ Swallows P (swallow dg p) rest
      else Swallows P dg rest

instance decidableSwallows (P : Datagram → Datagram → Prop) [∀ a b, Decidable (P a b)] :
    (dg : Datagram) → (l : List Datagram) → Decidable (Swallows P dg l)
  | _, [] => isFalse id
  | dg, p :: rest =>
      have := decidableSwallows P dg rest
      have := decidableSwallows P (swallow dg p) rest
      inferInstanceAs (Decidable (
        if p.index < dg.index then dg.tail ≤ p.tail ∧ p.tail ≤ dg.index ∧ Swallows P dg rest
        else if p.index = dg.index then
          p.tail ≠ dg.tail ∧ p.size < dg.size ∧ Swallows P dg rest
        else if p.index < dg.tail then P dg p ∨ Swallows P (swallow dg p) rest
        else Swallows P dg rest))

theorem not_swallows_false : ¬ Swallows (fun _ _ => False) dg l := by
  induction l generalizing dg with
  | nil => exact id
  | cons p rest ih =>
      simp only [Swallows, ih, and_false, or_false, ite_self, not_false_eq_true]

/-- What swallowing preserves, but for the swallows that `P` is about, the pass
preserves. -/
theorem Passes.forall_unless {Q : Datagram → Prop}
    (hsw : ∀ dg p, Q dg → Q p → dg.index < p.index → p.index < dg.tail → ¬ P dg p →
      Q (Sponge.swallow dg p))
    (hdg : Q dg) (hl : ∀ d ∈ l, Q d) (hno : ¬ Swallows P dg l) (h : Passes dg u l e) :
    Q e.state.dg := by
  induction h with
  | done => exact hdg
  | repeated => exact hdg
  | discrete => exact hdg
  | skip hskip _ ih =>
      rw [ScanEnd.state_prepend]
      refine ih hdg (fun d hd => hl d (List.mem_cons_of_mem _ hd)) (fun hc => hno ?_)
      rw [Swallows]
      rcases hskip with ⟨hlt, htail, hend⟩ | ⟨hlt, hout⟩
      · rw [if_pos hlt]
        exact ⟨htail, hend, hc⟩
      · rw [if_neg (by omega), if_neg (by omega), if_neg (by omega)]
        exact hc
  | replace hindex htail hsize _ ih =>
      refine ih hdg (fun d hd => hl d (List.mem_cons_of_mem _ hd)) (fun hc => hno ?_)
      rw [Swallows, if_neg (by omega), if_pos hindex]
      exact ⟨htail, hsize, hc⟩
  | swallow hlt hin _ ih =>
      rw [Swallows, if_neg (by omega), if_neg (by omega), if_pos hin, not_or] at hno
      exact ih (hsw _ _ hdg (hl _ List.mem_cons_self) hlt hin hno.1)
        (fun d hd => hl d (List.mem_cons_of_mem _ hd)) hno.2

/-- The store stays sorted. -/
theorem missingMiddleHandler_sorted {r r' : StreamReassembler} (hs : SortedByIndex r.storage)
    (h : r.missingMiddleHandler fuel dg = some r') : SortedByIndex r'.storage := by
  obtain ⟨e, he, rfl⟩ := missingMiddleHandler_eq_some hs h
  cases e with
  | ret s => exact List.Pairwise.sublist (scan_passes he).sublist hs
  | store s => exact sortedByIndex_sortByIndex _

/-! ## Where the loop hangs -/

/-- The scan for `dg` never ends: after stored datagrams that end exactly where
an empty `dg` starts, and shorter ones at the index of `dg`, it meets a longer
one at that index. -/
def Stuck (dg : Datagram) : List Datagram → Prop
  | [] => False
  | p :: rest =>
      if p.index = dg.index then p.tail ≠ dg.tail ∧ (p.size < dg.size → Stuck dg rest)
      else p.index < dg.index ∧ dg.tail ≤ p.tail ∧ p.tail ≤ dg.index ∧ Stuck dg rest

instance decidableStuck (dg : Datagram) : (l : List Datagram) → Decidable (Stuck dg l)
  | [] => isFalse id
  | p :: rest =>
      have := decidableStuck dg rest
      inferInstanceAs (Decidable (if p.index = dg.index
        then p.tail ≠ dg.tail ∧ (p.size < dg.size → Stuck dg rest)
        else p.index < dg.index ∧ dg.tail ≤ p.tail ∧ p.tail ≤ dg.index ∧ Stuck dg rest))

/-- Behind the index of `dg` the scan always ends. -/
private theorem scan_ne_none_of_lt (h : ∀ q ∈ l, dg.index < q.index) : scan dg u l ≠ none := by
  induction l generalizing dg u with
  | nil => simp [scan]
  | cons p rest ih =>
      have hp := h p List.mem_cons_self
      have hrest : ∀ q ∈ rest, dg.index < q.index := fun q hq => h q (List.mem_cons_of_mem p hq)
      rw [scan, if_neg (by omega), if_neg (by omega), if_neg (by omega)]
      split
      · exact ih (by simpa using hrest)
      · rw [ne_eq, Option.map_eq_none_iff]
        exact ih hrest

/-- **Exactly the stuck stores hang the scan.** -/
theorem scan_eq_none_iff (hs : SortedByIndex storage) :
    scan dg u storage = none ↔ Stuck dg storage := by
  induction storage generalizing u with
  | nil => simp [scan, Stuck]
  | cons p rest ih =>
      obtain ⟨hp, hrest⟩ := List.pairwise_cons.mp hs
      rcases Nat.lt_trichotomy p.index dg.index with hlt | heq | hgt
      · have hst : Stuck dg (p :: rest) ↔
            dg.tail ≤ p.tail ∧ p.tail ≤ dg.index ∧ Stuck dg rest := by
          rw [Stuck, if_neg (by omega)]
          simp [hlt]
        rw [hst, scan, if_neg (by omega), if_pos hlt]
        split
        · next hb => simp only [reduceCtorEq, false_iff]; omega
        · next hb =>
            split
            · next hin => simp only [reduceCtorEq, false_iff]; omega
            · next hin =>
                rw [Option.map_eq_none_iff, ih hrest]
                exact ⟨fun h => ⟨Nat.not_lt.mp hb, Nat.not_lt.mp hin, h⟩, fun h => h.2.2⟩
      · have hst : Stuck dg (p :: rest) ↔
            p.tail ≠ dg.tail ∧ (p.size < dg.size → Stuck dg rest) := by
          rw [Stuck, if_pos heq]
        rw [hst, scan]
        by_cases htail : p.tail = dg.tail
        · rw [if_pos ⟨heq.symm, htail⟩]
          simp [htail]
        rw [if_neg (fun h => htail h.2), if_neg (by omega), if_pos heq]
        split
        · next hsize => rw [ih hrest]; simp [htail, hsize]
        · next hsize => simp [htail, hsize]
      · have hall : ∀ q ∈ p :: rest, dg.index < q.index := by
          intro q hq
          rcases List.mem_cons.mp hq with rfl | hq'
          · exact hgt
          · exact Nat.lt_of_lt_of_le hgt (hp q hq')
        have hst : ¬ Stuck dg (p :: rest) := by
          rw [Stuck, if_neg (by omega)]
          omega
        exact ⟨fun h => absurd h (scan_ne_none_of_lt hall), fun h => absurd h hst⟩

end Sponge
