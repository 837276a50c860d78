import Sponge.TCPSpongeSocket

/-!
# Sponge.TCPSpongeSocket.Exit

What is left to do when the loop of a socket ends by itself, that is, neither
because the owner wants it to nor because of a signal: nothing.
-/

namespace Sponge

namespace TCPSpongeSocket

open EventLoop (waitNextEvent EINTR)

variable {A : FdAdapter α} {s s' : TCPSpongeSocket α}

/-- To cancel a rule does not change the interest of those before it. -/
theorem interests_apart (A : FdAdapter α) (fuel : Nat) :
    (rules A fuel).Pairwise fun r r' =>
      ∀ t t', Returns (r'.cancel t) t' → r.interest t' = r.interest t := by
  have hpure : ∀ {t t' : TCPSpongeSocket α} {r : EventLoop.Rule (TCPSpongeSocket α)},
      Returns (pure t : Call Failure _) t' → r.interest t' = r.interest t := by
    intro t t' r h
    rw [returns_pure_iff.mp h]
  have hend : ∀ {t t' : TCPSpongeSocket α}, Returns (rule2.cancel t) t' →
      (rule1 A fuel).interest t' = (rule1 A fuel).interest t := by
    intro t t' h
    rw [← returns_pure_iff.mp h]
    rfl
  simp only [rules, List.pairwise_cons, List.mem_cons, List.not_mem_nil, or_false,
    forall_eq_or_imp, forall_eq]
  exact ⟨⟨fun _ _ => hend, fun _ _ => hpure, fun _ _ => hpure⟩,
    ⟨fun _ _ => hpure, fun _ _ => hpure⟩, fun _ _ => hpure, by simp, by simp⟩

/-- **The end of the loop**: with the rules that are left, the connection is over, what has
been assembled is with the owner, the inbound direction is shut down if there
is nothing more to come, and no segment waits to be sent. -/
theorem turn_exit {h h' : Running α} {t : Turn} (hrules : h.rules.Sublist (rules A fuel))
    (hturn : Returns (turn A fuel h t) (false, h')) (habort : t.abort = false)
    (hsignal : t.answer ≠ .failed EINTR) :
    (rule1 A fuel ∈ h'.rules → h'.sock.tcp.active = false) ∧
    (rule3 ∈ h'.rules → h'.sock.tcp.inboundStream.bufferEmpty = true ∧
      (h'.sock.tcp.inboundStream.eof = true ∨ h'.sock.tcp.inboundStream.error = true →
        h'.sock.inboundShutdown = true)) ∧
    (rule4 A ∈ h'.rules → h'.sock.tcp.segmentsOut = []) := by
  have hidle : ∀ r ∈ h'.rules, r.interest h'.sock = false := by
    obtain ⟨⟨ret, rules', sock⟩, hwait, hturn⟩ := returns_bind_iff.mp hturn
    obtain ⟨polled, hpolled, hcases⟩ := EventLoop.waitNextEvent_cases hwait
    simp only [habort, Bool.or_false] at hturn
    split at hturn
    · next hexit =>
        rw [returns_pure_iff, Prod.mk.injEq] at hturn
        rw [← hturn.2]
        rcases hcases with ⟨rfl, rfl, ⟨-, hidle | heq⟩ | ⟨rfl, -⟩⟩ | ⟨rfl, -⟩
        · exact EventLoop.setUp_idle ((interests_apart A fuel).sublist hrules) hpolled hidle
        · exact absurd heq hsignal
        · exact absurd hexit (by decide)
        · exact absurd hexit (by decide)
    · split at hturn
      · obtain ⟨tcp, -, hturn⟩ := returns_bind_iff.mp hturn
        obtain ⟨adapter, -, hturn⟩ := returns_bind_iff.mp hturn
        simp at hturn
      · simp at hturn
  refine ⟨fun h1 => hidle _ h1, fun h3 => ?_, fun h4 => ?_⟩
  · have hint := hidle _ h3
    simp only [rule3, Bool.or_eq_false_iff, Bool.not_eq_false', Bool.and_eq_false_iff] at hint
    refine ⟨hint.1, fun hends => hint.2.resolve_left fun hnone => ?_⟩
    rcases hends with heof | herror
    · simp [heof] at hnone
    · simp [herror] at hnone
  · have hint := hidle _ h4
    simpa [rule4] using hint

end TCPSpongeSocket

end Sponge
