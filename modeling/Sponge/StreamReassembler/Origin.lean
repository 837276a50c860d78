import Sponge.StreamReassembler.Prefix

/-!
# Sponge.StreamReassembler.Origin

Every byte of the output comes from a piece that had it at its index, also when
the pieces contradict each other.

`src i b` stands for "some piece has had the byte `b` at the index `i`".  The
invariant `Stems` says this of the output and of the store; as for `Assembles`,
only an overlap that overruns breaks it.
-/

namespace Sponge

/-- The byte that the datagram has at an index of the stream. -/
def Datagram.byteAt (d : Datagram) (i : Nat) : Option UInt8 :=
  if d.index ≤ i then d.data[i - d.index]? else none

/-- What is fresh of a piece has kept its place. -/
theorem Datagram.byteAt_of_fresh {d : Datagram} (hle : d.index ≤ next)
    (h : (d.fresh next)[j]? = some b) : d.byteAt (next + j) = some b := by
  rw [byteAt, if_pos (by omega)]
  unfold fresh at h
  split at h
  · next heq => rwa [heq, Nat.add_sub_cancel_left]
  · split at h
    · rwa [List.getElem?_drop, show next - d.index + j = next + j - d.index by omega] at h
    · simp at h

/-- A merged datagram has its bytes from the two it is made of. -/
theorem byteAt_swallow {dg p : Datagram} (hsize : dg.size < 2 ^ 64) (hlt : dg.index < p.index)
    (hin : p.index < dg.tail) (h : (swallow dg p).byteAt i = some b) :
    dg.byteAt i = some b ∨ p.byteAt i = some b := by
  unfold swallow at h
  split at h
  · exact .inl h
  have htail64 := dg.tail_lt
  have htail : dg.tail = dg.index + dg.size := by
    have hmod : dg.tail = (dg.index + dg.size) % 2 ^ 64 := rfl
    omega
  have hstart : (dg.tail + 2 ^ 64 - p.index) % 2 ^ 64 = dg.tail - p.index := by omega
  simp only [overlapMerger, hstart, if_neg (show dg.tail - p.index ≠ 0 by omega)] at h
  unfold Datagram.byteAt at h ⊢
  split at h
  · next hi =>
      rw [if_pos hi]
      by_cases hdg : i - dg.index < dg.data.length
      · rw [List.getElem?_append_left hdg] at h
        exact .inl h
      · -- behind the end of `dg`, the bytes are those of `p` in their place
        have hlen := dg.size_eq
        rw [List.getElem?_append_right (Nat.not_lt.mp hdg), List.getElem?_drop] at h
        rw [if_pos (show p.index ≤ i by omega), show i - p.index =
          dg.tail - p.index + (i - dg.index - dg.data.length) by omega]
        exact .inr h
  · contradiction

/-- Two datagrams that overlap make one that is not too long. -/
theorem swallow_size_lt {dg p : Datagram} (hdg : dg.size < 2 ^ 64) (hp : p.size < 2 ^ 64)
    (hlt : dg.index < p.index) (hin : p.index < dg.tail) : (swallow dg p).size < 2 ^ 64 := by
  by_cases hend : p.tail ≤ dg.tail
  · rwa [swallow, if_pos hend]
  have hdgmod : dg.tail = (dg.index + dg.size) % 2 ^ 64 := rfl
  have hpmod : p.tail = (p.index + p.size) % 2 ^ 64 := rfl
  have hlt64 := p.tail_lt
  have hmerged : dg.index + (swallow dg p).size = max (dg.index + dg.size) (p.index + p.size) :=
    swallow_end (by omega) (by omega) hin
  omega

namespace StreamReassembler

/-- Every byte of the datagram has been at its place in some piece. -/
def From (src : Nat → UInt8 → Prop) (d : Datagram) : Prop :=
  d.size < 2 ^ 64 ∧ ∀ i b, d.byteAt i = some b → src i b

/-- Every byte of the merged datagram comes from one of the two. -/
theorem From.swallow (hdg : From src dg) (hp : From src p) (hlt : dg.index < p.index)
    (hin : p.index < dg.tail) : From src (swallow dg p) :=
  ⟨swallow_size_lt hdg.1 hp.1 hlt hin,
    fun i b h => (byteAt_swallow hdg.1 hlt hin h).elim (hdg.2 i b) (hp.2 i b)⟩

/-- The next index counts the bytes written, and every byte read, buffered or stored has
been at its place in some piece. -/
structure Stems (src : Nat → UInt8 → Prop) (consumed : List UInt8) (r : StreamReassembler) :
    Prop where
  sorted : SortedByIndex r.storage
  next_eq : r.nextAssemblingIndex = r.output.bytesWritten
  length_eq : (consumed ++ r.output.stream).length = r.output.bytesWritten
  output : ∀ i b, (consumed ++ r.output.stream)[i]? = some b → src i b
  stored : ∀ d ∈ r.storage, From src d

/-- At first there are no bytes. -/
theorem stems_new (src : Nat → UInt8 → Prop) (cap : Nat) : Stems src [] (new cap) where
  sorted := List.Pairwise.nil
  next_eq := rfl
  length_eq := rfl
  output := by simp [new, ByteStream.new]
  stored := by simp [new]

/-- There may be more sources. -/
theorem Stems.mono {r : StreamReassembler} (hr : r.Stems src consumed)
    (h : ∀ i b, src i b → src' i b) : r.Stems src' consumed :=
  ⟨hr.sorted, hr.next_eq, hr.length_eq, fun i b hb => h i b (hr.output i b hb),
    fun d hd => ⟨(hr.stored d hd).1, fun i b hb => h i b ((hr.stored d hd).2 i b hb)⟩⟩

section calls

variable {src : Nat → UInt8 → Prop} {consumed : List UInt8} {r r' : StreamReassembler}
  {d : Datagram}

/-- Taking in fresh bytes that stem from a piece keeps the invariant. -/
theorem Stems.assemble (hr : r.Stems src consumed) (hle : d.index ≤ r.nextAssemblingIndex)
    (hfresh : ∀ j b, (d.fresh r.nextAssemblingIndex)[j]? = some b →
      src (r.nextAssemblingIndex + j) b)
    (hfit : ¬ OverrunsAt r.nextAssemblingIndex r.output.remainingCapacity d r.storage) :
    (r.assemble d.data d.index d.eof).1.Stems src consumed := by
  have hafter := nextAfter_eq hle hfit
  have hlen := hr.length_eq
  refine ⟨?_, ?_, ?_, ?_, ?_⟩
  · rw [assemble_storage]
    exact hr.sorted
  · rw [assemble_output, assemble_nextAssemblingIndex, ByteStream.write_bytesWritten,
      Datagram.ofData_self, hafter, hr.next_eq]
  · rw [assemble_output, ByteStream.write_bytesWritten, ByteStream.write_stream,
      Datagram.ofData_self, ← List.append_assoc, List.length_append, List.length_take, hlen,
      Nat.min_comm]
  · intro i b hb
    rw [assemble_output, ByteStream.write_stream, Datagram.ofData_self, ← List.append_assoc] at hb
    by_cases hi : i < (consumed ++ r.output.stream).length
    · rw [List.getElem?_append_left hi] at hb
      exact hr.output i b hb
    · rw [List.getElem?_append_right (Nat.not_lt.mp hi), List.getElem?_take] at hb
      split at hb
      · have := hfresh _ b hb
        rwa [hr.next_eq, ← hlen, Nat.add_sub_cancel' (Nat.not_lt.mp hi)] at this
      · contradiction
  · rw [assemble_storage]
    exact hr.stored

theorem Stems.popFront (hr : r.Stems src consumed) (hst : r.storage = front :: rest) :
    (r.popFront front rest).Stems src consumed where
  sorted := (List.pairwise_cons.mp (hst ▸ hr.sorted)).2
  next_eq := hr.next_eq
  length_eq := hr.length_eq
  output := hr.output
  stored := fun d hd => hr.stored d (hst ▸ List.mem_cons_of_mem front hd)

theorem Stems.finish (hr : r.Stems src consumed) (eof ex : Bool) :
    (r.finish eof ex).Stems src consumed := by
  unfold StreamReassembler.finish
  split
  · exact ⟨hr.sorted, hr.next_eq, hr.length_eq, hr.output, hr.stored⟩
  · exact hr

/-- What is merged or stored keeps its sources. -/
theorem Stems.missingMiddleHandler (hr : r.Stems src consumed) (hd : From src d)
    (h : r.missingMiddleHandler fuel d = some r') : r'.Stems src consumed := by
  obtain ⟨hout, -, hnx⟩ := missingMiddleHandler_frame h
  refine ⟨missingMiddleHandler_sorted hr.sorted h, ?_, ?_, ?_, ?_⟩
  · rw [hout, hnx]
    exact hr.next_eq
  · rw [hout]
    exact hr.length_eq
  · rw [hout]
    exact hr.output
  · exact missingMiddleHandler_forall (fun _ _ => From.swallow) hr.sorted hd hr.stored h

/-- **One call** keeps the invariant unless it overruns, if what it stores or writes of
its piece has been at its place. -/
theorem Stems.pushes (hr : r.Stems src consumed) (h : Pushes r d r')
    (hstore : ¬ r.Refuses d.index → r.nextAssemblingIndex < d.index → From src d)
    (hfresh : ¬ r.Refuses d.index → d.index ≤ r.nextAssemblingIndex →
      ∀ j b, (d.fresh r.nextAssemblingIndex)[j]? = some b → src (r.nextAssemblingIndex + j) b)
    (hfit : ¬ r.CallMakes OverrunsAt d) : r'.Stems src consumed := by
  induction h with
  | refuse => exact hr
  | store href hgt hmm => exact hr.missingMiddleHandler (hstore href hgt) hmm
  | take href hle =>
      exact (hr.assemble hle (hfresh href hle) (not_own_of_not_callMakes hfit href)).finish _ _
  | @drain r r' d front rest href hle hdata hst hgap _ ih =>
      have hmid := hr.assemble hle (hfresh href hle) (not_own_of_not_callMakes hfit href)
      have hst' := (r.assemble_storage d.data d.index d.eof).trans hst
      have hfront := hr.stored front (hst ▸ List.mem_cons_self)
      exact (ih (hmid.popFront hst') (fun _ _ => hfront)
        (fun _ hle' j b hb => hfront.2 _ b (Datagram.byteAt_of_fresh hle' hb))
        (not_callMakes_front hfit href hle hdata hst hgap)).finish _ _

/-- What is read keeps its sources. -/
theorem Stems.readOut (hr : r.Stems src consumed) (len : Nat) :
    (r.readOut len).2.Stems src (consumed ++ (r.readOut len).1) := by
  have happend : consumed ++ (r.readOut len).1 ++ (r.readOut len).2.output.stream =
      consumed ++ r.output.stream := by
    rw [StreamReassembler.readOut, ByteStream.read_fst, ByteStream.read_stream, List.append_assoc,
      List.take_append_drop]
  have hwritten : (r.readOut len).2.output.bytesWritten = r.output.bytesWritten :=
    ByteStream.read_bytesWritten _ _
  refine ⟨hr.sorted, ?_, ?_, ?_, hr.stored⟩
  · rw [hwritten]
    exact hr.next_eq
  · rw [happend, hwritten]
    exact hr.length_eq
  · rw [happend]
    exact hr.output

end calls

end StreamReassembler

end Sponge
