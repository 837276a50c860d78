import Sponge.StreamReassembler.Complete

/-!
# Sponge.StreamReassembler.Ending

The input ends with the last byte of `S` and not before, whatever the capacity.

`push_substring` ends the input for the flag of its piece, unless `data_exceeded`
was raised.  Only the overlap raises it, so two things can end the input early:
a last piece in order that does not fit (`CutsEndAt`), and, once an overlap has
run the next index past the bytes written, any last piece that looks like a
repetition.  Without these the flag comes with all of `S` (`Closes`).
-/

namespace Sponge

namespace StreamReassembler

/-- A piece in order that ends the stream brings more bytes than there is room for. -/
def CutsEndAt (next room : Nat) (d : Datagram) (_ : List Datagram) : Prop :=
  d.index = next ∧ d.eof = true ∧ room < d.size

instance (next room : Nat) (d : Datagram) (l : List Datagram) :
    Decidable (CutsEndAt next room d l) :=
  inferInstanceAs (Decidable (_ ∧ _ ∧ _))

/-! ## The invariant -/

/-- `d` is in its place, and ends `S` if it carries `eof`. -/
def Lasts (S : List UInt8) (d : Datagram) : Prop :=
  Placed S (S.length + 1) d ∧ (d.eof = true → d.index + d.size = S.length)

/-- The output is a prefix of `S`, and all of it once the input has ended. -/
structure Closes (S : List UInt8) (consumed : List UInt8) (r : StreamReassembler) : Prop
    extends Assembles S (S.length + 1) consumed r where
  lasts : ∀ d ∈ r.storage, Lasts S d
  ended : r.output.inputEnded = true → r.output.bytesWritten = S.length

/-- At first nothing is written. -/
theorem closes_new (S : List UInt8) (cap : Nat) : Closes S [] (new cap) where
  toAssembles := assembles_new S (S.length + 1) cap
  lasts := by simp [new]
  ended := by simp [new]

/-- A datagram that ends `S` has nothing to gain from another. -/
theorem Lasts.swallow (hS : S.length < 2 ^ 64) (hdg : Lasts S dg) (hp : Lasts S p)
    (hlt : dg.index < p.index) (hin : p.index < dg.tail) : Lasts S (swallow dg p) := by
  refine ⟨Placed.swallow hS (Nat.lt_succ_self _) hdg.1 hp.1 hlt hin, ?_⟩
  rw [swallow_eof, swallow_index]
  intro heof
  have hlast := hdg.2 heof
  have hdgt := Datagram.tail_of_excerpt hS (hdg.1.resolve_right (by omega))
  have hpe := hp.1.resolve_right (by omega)
  have hpt := Datagram.tail_of_excerpt hS hpe
  have hple := hpe.1
  rw [← p.size_eq] at hple
  rw [Sponge.swallow, if_pos (by omega)]
  exact hlast

section calls

variable {S consumed : List UInt8} {r r' : StreamReassembler} {d : Datagram}

/-- A last piece that neither overruns nor is cut completes the stream. -/
theorem Closes.complete_of_eof (hr : r.Closes S consumed) (hS : S.length < 2 ^ 64)
    (hd : Lasts S d) (hle : d.index ≤ r.nextAssemblingIndex)
    (hfit : ¬ OverrunsAt r.nextAssemblingIndex r.output.remainingCapacity d r.storage)
    (hcut : ¬ CutsEndAt r.nextAssemblingIndex r.output.remainingCapacity d r.storage)
    (heof : d.eof = true) :
    (r.assemble d.data d.index d.eof).1.output.bytesWritten = S.length := by
  have hlast := hd.2 heof
  have hnext := hr.next_eq
  have hbound := hr.next_le
  have htail := Datagram.tail_of_excerpt hS (hd.1.resolve_right (by omega))
  have hfresh := Datagram.length_fresh htail hle
  rw [assemble_output, ByteStream.write_bytesWritten, Datagram.ofData_self]
  simp only [OverrunsAt, CutsEndAt, heof, true_and] at hfit hcut
  omega

/-- What is written goes on in the stream, and the last byte only comes last. -/
theorem Closes.assemble (hr : r.Closes S consumed) (hd : Lasts S d)
    (hle : d.index ≤ r.nextAssemblingIndex)
    (hfit : ¬ OverrunsAt r.nextAssemblingIndex r.output.remainingCapacity d r.storage) :
    (r.assemble d.data d.index d.eof).1.Closes S consumed := by
  have hasm := hr.toAssembles.assemble (Nat.lt_succ_self _) hd.1 hle hfit
  refine ⟨hasm, ?_, ?_⟩
  · rw [assemble_storage]
    exact hr.lasts
  · intro hended
    rw [assemble_output, ByteStream.write_inputEnded] at hended
    have hall := hr.ended hended
    have hgrow := (r.assemble_extends d.data d.index d.eof).bytesWritten_le
    have hbound := hasm.next_le
    rw [hasm.next_eq] at hbound
    omega

theorem Closes.popFront (hr : r.Closes S consumed) (hst : r.storage = front :: rest) :
    (r.popFront front rest).Closes S consumed :=
  ⟨hr.toAssembles.popFront hst, fun d hd => hr.lasts d (hst ▸ List.mem_cons_of_mem front hd),
    hr.ended⟩

/-- The stream is ended only behind its last byte. -/
theorem Closes.finish (hr : r.Closes S consumed)
    (heof : eof = true → r.output.bytesWritten = S.length) (ex : Bool) :
    (r.finish eof ex).Closes S consumed := by
  refine ⟨hr.toAssembles.finish eof ex, ?_, ?_⟩
  · rw [finish_storage]
    exact hr.lasts
  · intro hended
    rw [finish_bytesWritten]
    unfold StreamReassembler.finish at hended
    split at hended
    · next hc => exact heof (Bool.and_eq_true_iff.mp hc).1
    · exact hr.ended hended

/-- What is merged or stored keeps its place. -/
theorem Closes.missingMiddleHandler (hr : r.Closes S consumed) (hS : S.length < 2 ^ 64)
    (hd : Lasts S d) (h : r.missingMiddleHandler fuel d = some r') : r'.Closes S consumed := by
  refine ⟨hr.toAssembles.missingMiddleHandler hS (Nat.lt_succ_self _) hd.1 h, ?_, ?_⟩
  · exact missingMiddleHandler_forall (fun _ _ => Lasts.swallow hS) hr.sorted hd hr.lasts h
  · rw [(missingMiddleHandler_frame h).1]
    exact hr.ended

/-- **One call** that neither overruns nor cuts the end off keeps the invariant. -/
theorem Closes.pushes (hr : r.Closes S consumed) (h : Pushes r d r') (hS : S.length < 2 ^ 64)
    (hd : Lasts S d) (hfit : ¬ r.CallMakes OverrunsAt d) (hcut : ¬ r.CallMakes CutsEndAt d) :
    r'.Closes S consumed := by
  induction h with
  | refuse => exact hr
  | store _ _ hmm => exact hr.missingMiddleHandler hS hd hmm
  | take href hle =>
      have hfit' := not_own_of_not_callMakes hfit href
      have hcut' := not_own_of_not_callMakes hcut href
      exact (hr.assemble hd hle hfit').finish (hr.complete_of_eof hS hd hle hfit' hcut') _
  | @drain r r' d front rest href hle hdata hst hgap hrec ih =>
      have hfit' := not_own_of_not_callMakes hfit href
      have hcut' := not_own_of_not_callMakes hcut href
      have hmid := hr.assemble hd hle hfit'
      have hst' := (r.assemble_storage d.data d.index d.eof).trans hst
      have hend := ih (hmid.popFront hst') (hr.lasts front (hst ▸ List.mem_cons_self))
        (not_callMakes_front hfit href hle hdata hst hgap)
        (not_callMakes_front hcut href hle hdata hst hgap)
      refine hend.finish (fun heof => ?_) _
      -- the front has been pushed on a stream that was complete already
      have hall := hr.complete_of_eof hS hd hle hfit' hcut' heof
      have hgrow := hrec.output_extends.bytesWritten_le
      have hbound := hend.next_le
      rw [hend.next_eq] at hbound
      exact Nat.le_antisymm hbound (hall ▸ hgrow)

/-- What is read moves from the stream to what was read before. -/
theorem Closes.readOut (hr : r.Closes S consumed) (len : Nat) :
    (r.readOut len).2.Closes S (consumed ++ (r.readOut len).1) := by
  refine ⟨hr.toAssembles.readOut len, hr.lasts, ?_⟩
  simp only [StreamReassembler.readOut, ByteStream.read_inputEnded, ByteStream.read_bytesWritten]
  exact hr.ended

end calls

/-! ## Runs -/

/-- **One operation** with a piece of `S` that does not overrun or cut the end off. -/
theorem Closes.of_step {s s' : Session} {op : Op} (hS : S.length < 2 ^ 64)
    (hs : s.reassembler.Closes S s.consumed)
    (hop : op.PieceOf S ∧ ¬ op.Overruns s ∧ ¬ op.Makes CutsEndAt s)
    (h : Session.step fuel s op = some s') : s'.reassembler.Closes S s'.consumed := by
  cases op with
  | push data index eof =>
      obtain ⟨⟨hex, hlast⟩, hfit, hcut⟩ := hop
      obtain ⟨r, hr, rfl⟩ := Option.map_eq_some_iff.mp h
      exact hs.pushes (pushSubstring_pushes hr) hS ⟨.inl hex, hlast.mp⟩ hfit hcut
  | read len =>
      rw [Session.step, Option.some.injEq] at h
      exact h ▸ hs.readOut len

/-- **No premature end**: as long as no call overruns or cuts the end off, an input
that has ended has got all of `S`. -/
theorem consumed_append_stream_eq_of_inputEnded (hS : S.length < 2 ^ 64)
    (hops : ∀ op ∈ ops, Op.PieceOf S op)
    (hfit : Along (Session.step fuel) (fun s op => ¬ op.Overruns s ∧ ¬ op.Makes CutsEndAt s)
      (Session.new cap) ops)
    (h : exec (Session.step fuel) (Session.new cap) ops = some s)
    (hended : s.reassembler.output.inputEnded = true) :
    s.consumed ++ s.reassembler.output.stream = S := by
  have hcloses : s.reassembler.Closes S s.consumed :=
    exec_invariant_along (P := fun s : Session => s.reassembler.Closes S s.consumed)
      (fun _ _ _ => Closes.of_step hS) (closes_new S cap) (hfit.and_forall hops) h
  rw [hcloses.prefix_eq, hcloses.next_eq, hcloses.ended hended, List.take_length]

/-- `"abcd"` through a reassembler of capacity 2, its end twice. -/
theorem consumed_append_stream_eq_of_inputEnded_twice :
    ∃ s, exec (Session.step 9) (Session.new 2)
        [.push [99, 100] 2 true, .push [97, 98] 0 false, .read 2, .push [99, 100] 2 true] =
          some s ∧
      s.consumed ++ s.reassembler.output.stream = [97, 98, 99, 100] :=
  have hrun : exec (Session.step 9) (Session.new 2)
      [.push [99, 100] 2 true, .push [97, 98] 0 false, .read 2, .push [99, 100] 2 true] =
        some _ := rfl
  ⟨_, hrun, consumed_append_stream_eq_of_inputEnded (by decide) (by decide) (by decide) hrun rfl⟩

/-- The calls return and end the input before all of `S` has been written. -/
def EndsEarly (S : List UInt8) (cap : Nat) (ops : List Op) : Prop :=
  (∀ op ∈ ops, Op.PieceOf S op) ∧ ∃ fuel s,
    exec (Session.step fuel) (Session.new cap) ops = some s ∧
      s.reassembler.output.inputEnded = true ∧
      s.reassembler.output.bytesWritten < S.length

/-- With capacity 1, `"ab"` in order ends the input behind `"a"`; and with capacity 2
the second `"bcd"`, after the first has overrun and a read has made room, is taken for
a repetition. -/
theorem input_ends_early :
    EndsEarly [97, 98] 1 [.push [97, 98] 0 true] ∧
    EndsEarly [97, 98, 99, 100] 2
      [.push [97, 98] 0 false, .read 1, .push [98, 99, 100] 1 true, .read 1,
        .push [98, 99, 100] 1 true] :=
  ⟨⟨by decide, 9, _, rfl, rfl, by decide⟩, ⟨by decide, 9, _, rfl, rfl, by decide⟩⟩

end StreamReassembler

end Sponge
