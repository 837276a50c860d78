import Sponge.Network
import Sponge.StreamReassembler.Scan

/-!
# Sponge.Network.Fuel

How much fuel a run is given does not matter, as long as its calls return.

Only the scan of the reassembler and the recursion of `push_substring` use
fuel; everything above passes it on.  A call that returns with some fuel
returns the same with more, so the runs `exec (Network.step fuel)` are all
the runs whose calls return (`Network.exists_exec_iff`).
-/

namespace Sponge

namespace StreamReassembler

/-- More fuel for the pass. -/
theorem missingMiddleHandler_mono {r r' : StreamReassembler} (hle : fuel ≤ fuel')
    (h : r.missingMiddleHandler fuel dg = some r') : r.missingMiddleHandler fuel' dg = some r' := by
  obtain ⟨e, he, rfl⟩ := Option.map_eq_some_iff.mp h
  rw [missingMiddleHandler, missingMiddleLoop_mono he hle, Option.map_some]

/-- More fuel for the drain. -/
theorem pushSubstring_mono {r r' : StreamReassembler} (hle : fuel ≤ fuel')
    (h : pushSubstring fuel r data index eof = some r') :
    pushSubstring fuel' r data index eof = some r' := by
  induction fuel generalizing fuel' r r' data index eof with
  | zero => simp [pushSubstring] at h
  | succ fuel ih =>
      obtain ⟨fuel', rfl⟩ : ∃ n, fuel' = n + 1 := ⟨fuel' - 1, by omega⟩
      have hle' : fuel ≤ fuel' := Nat.le_of_succ_le_succ hle
      rw [pushSubstring_succ] at h ⊢
      by_cases href : r.Refuses index
      · rwa [if_pos href] at h ⊢
      rw [if_neg href] at h ⊢
      by_cases hgt : r.nextAssemblingIndex < index
      · rw [if_pos hgt] at h ⊢
        exact missingMiddleHandler_mono hle' h
      rw [if_neg hgt] at h ⊢
      cases hst : r.storage with
      | nil => simpa only [hst] using h
      | cons front rest =>
          simp only [hst] at h ⊢
          split at h
          · next hgap =>
              obtain ⟨r'', hrec, rfl⟩ := Option.map_eq_some_iff.mp h
              rw [if_pos hgap, ih hle' hrec, Option.map_some]
          · next hgap => rwa [if_neg hgap]

/-- Runs of the reassembler. -/
theorem Session.fuelMono : FuelMono Session.step := by
  intro m n s op s' hle h
  cases op with
  | push data index eof =>
      obtain ⟨r, hr, rfl⟩ := Option.map_eq_some_iff.mp h
      rw [Session.step, pushSubstring_mono hle hr, Option.map_some]
  | read len => exact h

end StreamReassembler

namespace TCPReceiver

/-- More fuel for the receiver. -/
theorem segmentReceived_mono {r r' : TCPReceiver} (hle : fuel ≤ fuel')
    (h : r.segmentReceived fuel seg = some r') : r.segmentReceived fuel' seg = some r' := by
  unfold segmentReceived at h ⊢
  by_cases hearly : (r.firstSegment && !seg.header.syn) = true
  · rwa [if_pos hearly] at h ⊢
  rw [if_neg hearly] at h ⊢
  simp only at h ⊢
  by_cases hlow : (r.listen seg).absSeqno = 1 ∧
      (r.listen seg).tempAbsSeqno seg < (r.listen seg).absSeqno
  · rwa [if_pos hlow] at h ⊢
  rw [if_neg hlow] at h ⊢
  split at h
  · contradiction
  · next reassembler hpush => rwa [StreamReassembler.pushSubstring_mono hle hpush]

/-- Runs of the receiver. -/
theorem fuelMono : FuelMono step := by
  intro m n r op r' hle h
  cases op with
  | segment seg => exact segmentReceived_mono hle h
  | read len => exact h

end TCPReceiver

namespace TCPConnection

/-- More fuel for the connection. -/
theorem segmentReceived_mono {c d : TCPConnection} (hle : fuel ≤ fuel')
    (h : c.segmentReceived fuel seg = some d) : c.segmentReceived fuel' seg = some d := by
  unfold segmentReceived at h ⊢
  simp only at h ⊢
  by_cases hrst : seg.header.rst = true
  · rwa [if_pos hrst] at h ⊢
  rw [if_neg hrst] at h ⊢
  split at h
  · contradiction
  · next r hr => rwa [TCPReceiver.segmentReceived_mono hle hr]

/-- Runs of the connection. -/
theorem fuelMono : FuelMono step := by
  intro m n c op d hle h
  cases op with
  | segmentReceived seg => exact segmentReceived_mono hle h
  | tick ms =>
      -- the reset that `tick` hands to `segment_received` never gets to the receiver
      have habort (k) : (c.ticked ms).abort k = some _ := abort_eq rfl
      have htick (k) : c.step k (.tick ms) = if
          (c.ticked ms).sender.consecutiveRetransmissions > TCPConfig.MAX_RETX_ATTEMPTS then
          ((c.ticked ms).abort k).map finish else some (c.ticked ms).finish := rfl
      rw [htick, habort] at h ⊢
      exact h
  | _ => exact h

end TCPConnection

/-- More fuel for an endpoint. -/
theorem Endpoint.step_mono {p p' : Endpoint} {wire : List TCPSegment} (hle : fuel ≤ fuel')
    (h : p.step fuel wire op = some p') : p.step fuel' wire op = some p' := by
  obtain ⟨hcan, c, hc, hp⟩ := step_eq_some.mp h
  exact step_eq_some.mpr ⟨hcan, c, TCPConnection.fuelMono hle hc, hp⟩

namespace Network

/-- More fuel never changes a result. -/
theorem fuelMono : FuelMono step := by
  rintro m n net ⟨side, op⟩ net' hle h
  cases side with
  | A =>
      obtain ⟨a, ha, rfl⟩ := Option.map_eq_some_iff.mp h
      rw [step, Endpoint.step_mono hle ha, Option.map_some]
  | B =>
      obtain ⟨b, hb, rfl⟩ := Option.map_eq_some_iff.mp h
      rw [step, Endpoint.step_mono hle hb, Option.map_some]

/-- **The runs of the network** are the chains of calls that return, however long
each of them takes. -/
theorem exists_exec_iff {n n' : Network} {acts : List (Side × TCPConnection.Op)} :
    (∃ fuel, exec (step fuel) n acts = some n') ↔
      Steps (fun n act n' => ∃ fuel, n.step fuel act = some n') n acts n' :=
  fuelMono.exists_exec_iff

end Network

end Sponge
