import Sponge.StreamReassembler.Prefix

/-!
# Sponge.StreamReassembler.Window

A sender that respects the window never makes `push_substring` overrun.

The window ends at `windowEnd`, the bytes read plus the capacity.  A piece
that ends there or before, and one of a single byte, can overlap what is
assembled by no more than there is room for.  Merging stored pieces keeps this
(`InWindow.swallow`), so in contrast to `Assembles` the invariant `Windowed` needs
no condition on the calls.  It also says that the input ends with the last
byte of `S`, once `S` is closed, and not before.
-/

namespace Sponge

/-- `d` holds what `S` has at its index, within the window that ends at `W` unless
it is a single byte, and carries `eof` only at the end of a closed `S`; or it
lies past `top`. -/
def InWindow (S : List UInt8) (top : Nat) (closed : Bool) (W : Nat) (d : Datagram) : Prop :=
  (Excerpt S d.index d.data ∧ (d.tail ≤ W ∨ d.size ≤ 1) ∧
    (d.eof = true → closed = true ∧ d.index + d.size = S.length)) ∨
  (top ≤ d.index ∧ d.eof = false)

theorem InWindow.placed (h : InWindow S top closed W d) : Placed S top d :=
  h.imp And.left And.left

/-- The window only moves on. -/
theorem InWindow.mono_window (h : InWindow S top closed W d) (hW : W ≤ W') : InWindow S top closed W' d :=
  h.imp_left fun ⟨hex, hin, heof⟩ => ⟨hex, hin.imp_left (Nat.le_trans · hW), heof⟩

/-- As long as it is not closed, `S` may grow. -/
theorem InWindow.mono (h : InWindow S top closed W d) (hST : S <+: T)
    (hclosed : closed = true → closed' = true ∧ T = S) (htop : top' ≤ top) :
    InWindow T top' closed' W d := by
  rcases h with ⟨hex, hin, heof⟩ | ⟨hpast, heof⟩
  · refine .inl ⟨hex.mono hST, hin, fun he => ?_⟩
    obtain ⟨hc, hend⟩ := heof he
    obtain ⟨hc', rfl⟩ := hclosed hc
    exact ⟨hc', hend⟩
  · exact .inr ⟨Nat.le_trans htop hpast, heof⟩

@[simp] theorem swallow_eof (dg p : Datagram) : (swallow dg p).eof = dg.eof := by
  simp only [swallow, overlapMerger]
  split
  · rfl
  · split <;> rfl

/-- What is fresh of a piece reaches from the next index to the end of the piece. -/
theorem Datagram.length_fresh {d : Datagram} (htail : d.tail = d.index + d.size)
    (hle : d.index ≤ next) : (d.fresh next).length = d.index + d.size - next := by
  unfold fresh
  by_cases heq : d.index = next
  · rw [if_pos heq, ← d.size_eq]
    omega
  rw [if_neg heq]
  by_cases hlt : next < d.tail
  · rw [if_pos hlt, List.length_drop, ← d.size_eq]
    omega
  · rw [if_neg hlt, List.length_nil]
    omega

/-- Swallowing keeps a piece within the window. -/
theorem InWindow.swallow (hS : S.length < 2 ^ 64) (htop : S.length < top)
    (hdg : InWindow S top closed W dg) (hp : InWindow S top closed W p) (hlt : dg.index < p.index)
    (hin : p.index < dg.tail) : InWindow S top closed W (swallow dg p) := by
  rcases hdg with ⟨hex, hwin, heof⟩ | ⟨hpast, hne⟩
  · have hdgt := Datagram.tail_of_excerpt hS hex
    have hdle := hex.1
    rw [← dg.size_eq] at hdle
    obtain ⟨hpex, hpwin, -⟩ := hp.resolve_right (fun hc => by omega)
    have hpt := Datagram.tail_of_excerpt hS hpex
    have hple := hpex.1
    rw [← p.size_eq] at hple
    by_cases hend : p.tail ≤ dg.tail
    · rw [Sponge.swallow, if_pos hend]
      exact .inl ⟨hex, hwin, heof⟩
    · have hmerged : Placed S top (Sponge.swallow dg p) :=
        Placed.swallow hS htop (.inl hex) (.inl hpex) hlt hin
      have htail := swallow_tail hdgt hpt hin
      refine .inl ⟨hmerged.resolve_right (by rw [swallow_index]; omega), ?_, ?_⟩
      · -- both pieces have at least two bytes
        rw [htail]
        omega
      · rw [swallow_eof]
        intro he
        have := (heof he).2
        omega
  · exact .inr ⟨by rwa [swallow_index], by rwa [swallow_eof]⟩

namespace StreamReassembler

/-- Where the window ends: no byte at this index or behind it has room. -/
def windowEnd (r : StreamReassembler) : Nat := r.output.bytesRead + r.output.capacity

/-- The window ends where the room does. -/
theorem windowEnd_eq (r : StreamReassembler) :
    r.windowEnd = r.output.bytesWritten + r.output.remainingCapacity :=
  (ByteStream.bytesWritten_add_remainingCapacity _).symm

/-- The pieces of `S` that came in fit the window, and the input has ended only if
`S` is closed and complete. -/
structure Windowed (S : List UInt8) (top : Nat) (closed : Bool) (consumed : List UInt8)
    (r : StreamReassembler) : Prop extends Assembles S top consumed r where
  stored : ∀ d ∈ r.storage, InWindow S top closed r.windowEnd d
  ended : r.output.inputEnded = true → closed = true ∧ r.output.bytesWritten = S.length

/-- An empty store is within every window. -/
theorem windowed_new (S : List UInt8) (top : Nat) (closed : Bool) (cap : Nat) :
    Windowed S top closed [] (new cap) where
  toAssembles := assembles_new S top cap
  stored := by simp [new]
  ended := by simp [new]

/-- The sender may have sent more, or ended the stream. -/
theorem Windowed.mono {r : StreamReassembler} (hr : r.Windowed S top closed consumed)
    (hST : S <+: T) (hclosed : closed = true → closed' = true ∧ T = S) (htop : top' ≤ top) :
    r.Windowed T top' closed' consumed := by
  have hle := hr.next_le
  refine ⟨⟨hr.sorted, hr.next_eq, Nat.le_trans hle hST.length_le, ?_, ?_⟩, ?_, ?_⟩
  · obtain ⟨U, rfl⟩ := hST
    rw [List.take_append_of_le_length hle]
    exact hr.prefix_eq
  · exact fun d hd => ((hr.stored d hd).mono hST hclosed htop).placed
  · exact fun d hd => (hr.stored d hd).mono hST hclosed htop
  · intro hended
    obtain ⟨hc, hall⟩ := hr.ended hended
    obtain ⟨hc', rfl⟩ := hclosed hc
    exact ⟨hc', hall⟩

/-- A piece within the window does not overrun. -/
theorem Windowed.not_overrunsAt {r : StreamReassembler}
    (hr : r.Windowed S top closed consumed) (hS : S.length < 2 ^ 64) (htop : S.length < top)
    (hd : InWindow S top closed r.windowEnd d) :
    ¬ OverrunsAt r.nextAssemblingIndex r.output.remainingCapacity d l := by
  rintro ⟨hbefore, hafter, hover⟩
  have hnext := hr.next_eq
  have hle := hr.next_le
  have hend := r.windowEnd_eq
  rcases hd with ⟨hex, hwin, -⟩ | ⟨hpast, -⟩
  · have htail := Datagram.tail_of_excerpt hS hex
    omega
  · omega

/-- What is written takes as much room as it is long. -/
theorem assemble_windowEnd (r : StreamReassembler) (data : List UInt8) (index : Nat) (eof : Bool) :
    (r.assemble data index eof).1.windowEnd = r.windowEnd := by
  rw [windowEnd, assemble_output, ByteStream.write_bytesRead, ByteStream.write_capacity, windowEnd]

/-- Taking in a piece within the window keeps the invariant. -/
theorem Windowed.assemble {r : StreamReassembler} (hr : r.Windowed S top closed consumed)
    (hS : S.length < 2 ^ 64) (htop : S.length < top) (hd : InWindow S top closed r.windowEnd d)
    (hle : d.index ≤ r.nextAssemblingIndex) :
    (r.assemble d.data d.index d.eof).1.Windowed S top closed consumed := by
  have hasm := hr.toAssembles.assemble htop hd.placed hle (hr.not_overrunsAt hS htop hd)
  refine ⟨hasm, ?_, ?_⟩
  · rw [assemble_storage, assemble_windowEnd]
    exact hr.stored
  · intro hended
    rw [assemble_output, ByteStream.write_inputEnded] at hended
    obtain ⟨hclosed, hall⟩ := hr.ended hended
    have hgrow := (r.assemble_extends d.data d.index d.eof).bytesWritten_le
    have hbound := hasm.next_le
    rw [hasm.next_eq] at hbound
    exact ⟨hclosed, by omega⟩

/-- A piece within the window that carries `eof` completes the stream. -/
theorem Windowed.complete_of_eof {r : StreamReassembler} (hr : r.Windowed S top closed consumed)
    (hS : S.length < 2 ^ 64) (hd : InWindow S top closed r.windowEnd d)
    (hle : d.index ≤ r.nextAssemblingIndex) (href : ¬ r.Refuses d.index) (heof : d.eof = true) :
    closed = true ∧ (r.assemble d.data d.index d.eof).1.output.bytesWritten = S.length := by
  have hroom := ((r.not_refuses_iff d.index).mp href).1
  have hnext := hr.next_eq
  have hbound := hr.next_le
  have hend := r.windowEnd_eq
  rcases hd with ⟨hex, hwin, hclosed⟩ | ⟨-, hne⟩
  · obtain ⟨hclosed, hlast⟩ := hclosed heof
    have htail := Datagram.tail_of_excerpt hS hex
    have hfresh := Datagram.length_fresh htail hle
    refine ⟨hclosed, ?_⟩
    rw [assemble_output, ByteStream.write_bytesWritten, Datagram.ofData_self]
    omega
  · rw [heof] at hne
    contradiction

/-- Taking the first datagram off the list keeps the invariant. -/
theorem Windowed.popFront {r : StreamReassembler} (hr : r.Windowed S top closed consumed)
    (hst : r.storage = front :: rest) : (r.popFront front rest).Windowed S top closed consumed :=
  ⟨hr.toAssembles.popFront hst, fun d hd => hr.stored d (hst ▸ List.mem_cons_of_mem front hd),
    hr.ended⟩

/-- Ending the input of a complete stream keeps the invariant. -/
theorem Windowed.finish {r : StreamReassembler} (hr : r.Windowed S top closed consumed)
    (heof : eof = true → closed = true ∧ r.output.bytesWritten = S.length) (ex : Bool) :
    (r.finish eof ex).Windowed S top closed consumed := by
  refine ⟨hr.toAssembles.finish eof ex, ?_, ?_⟩
  · unfold StreamReassembler.finish
    split <;> exact hr.stored
  · intro hended
    rw [finish_bytesWritten]
    unfold StreamReassembler.finish at hended
    split at hended
    · next hc => exact heof (Bool.and_eq_true_iff.mp hc).1
    · exact hr.ended hended

/-- Storing a piece within the window keeps the invariant. -/
theorem Windowed.missingMiddleHandler {r r' : StreamReassembler}
    (hr : r.Windowed S top closed consumed) (hS : S.length < 2 ^ 64) (htop : S.length < top)
    (hd : InWindow S top closed r.windowEnd d) (h : r.missingMiddleHandler fuel d = some r') :
    r'.Windowed S top closed consumed := by
  obtain ⟨hout, -, -⟩ := missingMiddleHandler_frame h
  refine ⟨hr.toAssembles.missingMiddleHandler hS htop hd.placed h, ?_, ?_⟩
  · rw [windowEnd, hout]
    exact missingMiddleHandler_forall (fun _ _ => InWindow.swallow hS htop) hr.sorted hd hr.stored h
  · rw [hout]
    exact hr.ended

/-- **One call**: pushing a piece within the window keeps the invariant. -/
theorem Windowed.pushes {r r' : StreamReassembler} (hr : r.Windowed S top closed consumed)
    (h : Pushes r d r') (hS : S.length < 2 ^ 64) (htop : S.length < top)
    (hd : InWindow S top closed r.windowEnd d) : r'.Windowed S top closed consumed := by
  induction h with
  | refuse => exact hr
  | store _ _ hmm => exact hr.missingMiddleHandler hS htop hd hmm
  | take href hle =>
      exact (hr.assemble hS htop hd hle).finish (hr.complete_of_eof hS hd hle href) _
  | @drain r r' d front rest href hle _ hst _ hrec ih =>
      have hmid := hr.assemble hS htop hd hle
      have hst' := (r.assemble_storage d.data d.index d.eof).trans hst
      have hend := ih (hmid.popFront hst') (hmid.stored _ (hst' ▸ List.mem_cons_self))
      refine hend.finish (fun heof => ?_) _
      -- the front has been pushed on a stream that was complete already
      obtain ⟨hclosed, hall⟩ := hr.complete_of_eof hS hd hle href heof
      have hgrow := hrec.output_extends.bytesWritten_le
      have hbound := hend.next_le
      rw [hend.next_eq] at hbound
      exact ⟨hclosed, Nat.le_antisymm hbound (hall ▸ hgrow)⟩

/-- Reading opens the window further. -/
theorem windowEnd_le_readOut (r : StreamReassembler) (len : Nat) :
    r.windowEnd ≤ (r.readOut len).2.windowEnd := by
  simp only [windowEnd, readOut, ByteStream.read_bytesRead, ByteStream.read_capacity]
  omega

/-- A read moves the window on. -/
theorem Windowed.readOut {r : StreamReassembler} (hr : r.Windowed S top closed consumed)
    (len : Nat) : (r.readOut len).2.Windowed S top closed (consumed ++ (r.readOut len).1) := by
  refine ⟨hr.toAssembles.readOut len, ?_, ?_⟩
  · exact fun d hd => (hr.stored d hd).mono_window (r.windowEnd_le_readOut len)
  · simp only [StreamReassembler.readOut, ByteStream.read_inputEnded,
      ByteStream.read_bytesWritten]
    exact hr.ended

end StreamReassembler

end Sponge
