import Sponge.Lib.Excerpt
import Sponge.StreamReassembler.Return

/-!
# Sponge.StreamReassembler.Prefix

Pieces of one byte string `S` go in at their own indices; what comes out, read
or still buffered, is a prefix of `S`.

The invariant `Assembles` ties `_next_assembling_index` to the number of bytes
written and says of each stored datagram that it is the excerpt of `S` at its
index.  All three paths that write keep it, with one exception: on an overlap
with more new bytes than there is room for, the output takes what fits and the
index moves past all of them.  A call in which that happens `Overruns`.

A datagram far past the end of `S` can never be assembled, so what it holds is
left open (`Placed`).
-/

namespace Sponge

/-! ## Placed datagrams -/

/-- `d` holds what `S` has at its index, or lies past `top`. -/
def Placed (S : List UInt8) (top : Nat) (d : Datagram) : Prop :=
  Excerpt S d.index d.data ∨ top ≤ d.index

/-- An excerpt ends where its `size_t` tail says. -/
theorem Datagram.tail_of_excerpt {d : Datagram} (hS : S.length < 2 ^ 64)
    (h : Excerpt S d.index d.data) : d.tail = d.index + d.size := by
  have hle := h.1
  rw [← d.size_eq] at hle
  exact Nat.mod_eq_of_lt (by omega)

/-- Swallowing a datagram keeps the new one in its place. -/
theorem Placed.swallow (hS : S.length < 2 ^ 64) (htop : S.length < top) (hdg : Placed S top dg)
    (hp : Placed S top p) (hlt : dg.index < p.index) (hin : p.index < dg.tail) :
    Placed S top (swallow dg p) := by
  unfold Sponge.swallow
  split
  · exact hdg
  · next hend =>
      rcases hdg with hdg | hdg
      · have hdgt := Datagram.tail_of_excerpt hS hdg
        have hdle := hdg.1
        rw [← dg.size_eq] at hdle
        have hpe : Excerpt S p.index p.data := hp.resolve_right (by omega)
        have hpt := Datagram.tail_of_excerpt hS hpe
        have hlt64 := dg.tail_lt
        have hstart : (dg.tail + 2 ^ 64 - p.index) % 2 ^ 64 = dg.tail - p.index := by omega
        have hne : dg.tail - p.index ≠ 0 := by omega
        -- the part of `p` past the end of `dg` is the excerpt that follows it
        have hrest := hpe.drop (dg.tail - p.index) (by rw [← p.size_eq]; omega)
        rw [show p.index + (dg.tail - p.index) = dg.index + dg.data.length by
          rw [← dg.size_eq]; omega] at hrest
        simp only [overlapMerger, hstart, if_neg hne]
        exact .inl (hdg.append hrest)
      · refine .inr ?_
        simp only [overlapMerger]
        split <;> exact hdg

namespace StreamReassembler

/-- What swallowing preserves, but for the swallows that `P` is about,
`missing_middle_handler` preserves. -/
theorem missingMiddleHandler_forall_unless {Q : Datagram → Prop} {r r' : StreamReassembler}
    (hsw : ∀ dg p, Q dg → Q p → dg.index < p.index → p.index < dg.tail → ¬ P dg p →
      Q (swallow dg p))
    (hs : SortedByIndex r.storage) (hdg : Q dg) (hl : ∀ d ∈ r.storage, Q d)
    (hno : ¬ Swallows P dg r.storage) (h : r.missingMiddleHandler fuel dg = some r') :
    ∀ d ∈ r'.storage, Q d := by
  obtain ⟨e, he, rfl⟩ := missingMiddleHandler_eq_some hs h
  intro d hd
  rcases (scan_passes he).mem_stored (mem_settle_storage.mp hd) with rfl | hd'
  · exact (scan_passes he).forall_unless hsw hdg hl hno
  · exact hl d hd'

/-- What swallowing preserves, `missing_middle_handler` preserves. -/
theorem missingMiddleHandler_forall {Q : Datagram → Prop} {r r' : StreamReassembler}
    (hsw : ∀ dg p, Q dg → Q p → dg.index < p.index → p.index < dg.tail → Q (swallow dg p))
    (hs : SortedByIndex r.storage) (hdg : Q dg) (hl : ∀ d ∈ r.storage, Q d)
    (h : r.missingMiddleHandler fuel dg = some r') : ∀ d ∈ r'.storage, Q d :=
  missingMiddleHandler_forall_unless (fun dg p hdg hp hlt hin _ => hsw dg p hdg hp hlt hin) hs
    hdg hl not_swallows_false h

/-! ## The invariant -/

/-- The output of `r`, after `consumed` has been read from it, is the part of `S`
before the next index, and what is stored is in its place. -/
structure Assembles (S : List UInt8) (top : Nat) (consumed : List UInt8)
    (r : StreamReassembler) : Prop where
  sorted : SortedByIndex r.storage
  next_eq : r.nextAssemblingIndex = r.output.bytesWritten
  next_le : r.nextAssemblingIndex ≤ S.length
  prefix_eq : consumed ++ r.output.stream = S.take r.nextAssemblingIndex
  placed : ∀ d ∈ r.storage, Placed S top d

/-- At first nothing is assembled. -/
theorem assembles_new (S : List UInt8) (top cap : Nat) : Assembles S top [] (new cap) where
  sorted := List.Pairwise.nil
  next_eq := rfl
  next_le := Nat.zero_le _
  prefix_eq := rfl
  placed := by simp [new]

/-- The overlap of a push with what is already assembled brings more new bytes
than there is room for. -/
def OverrunsAt (next room : Nat) (d : Datagram) (_ : List Datagram) : Prop :=
  d.index < next ∧ next < d.tail ∧ room < d.index + d.size - next

instance (next room : Nat) (d : Datagram) (l : List Datagram) :
    Decidable (OverrunsAt next room d l) :=
  inferInstanceAs (Decidable (_ ∧ _ ∧ _))

/-- In the call, an overlap runs the next index past the bytes written. -/
def Overruns (r : StreamReassembler) (data : List UInt8) (index : Nat) (eof : Bool) : Prop :=
  r.CallMakes OverrunsAt (Datagram.ofData data index eof)

instance (r : StreamReassembler) (data : List UInt8) (index : Nat) (eof : Bool) :
    Decidable (r.Overruns data index eof) :=
  inferInstanceAs (Decidable (CallMakes ..))

/-- The fresh bytes of a placed piece are the excerpt at the next index. -/
theorem fresh_excerpt {d : Datagram} (hd : Excerpt S d.index d.data)
    (hle : d.index ≤ next) (hnext : next ≤ S.length) : Excerpt S next (d.fresh next) := by
  unfold Datagram.fresh
  split
  · next heq => exact heq ▸ hd
  · split
    · next hne hlt =>
        have htail := d.tail_le
        rw [d.size_eq] at htail
        have hdrop := hd.drop (next - d.index) (by omega)
        rwa [Nat.add_sub_cancel' hle] at hdrop
    · exact Excerpt.nil hnext

/-- Unless it overruns, a piece moves the next index by the bytes that fit. -/
theorem nextAfter_eq {d : Datagram} (hle : d.index ≤ next)
    (hfit : ¬ OverrunsAt next room d l) :
    d.nextAfter next room = next + min (d.fresh next).length room := by
  unfold Datagram.nextAfter
  split
  · rfl
  · next hne =>
      have hlen : (d.fresh next).length ≤ room := by
        unfold Datagram.fresh
        rw [if_neg hne]
        split
        · next hlt =>
            rw [List.length_drop, ← d.size_eq]
            unfold OverrunsAt at hfit
            omega
        · exact Nat.zero_le _
      omega

/-- Taking in a placed piece that does not overrun keeps the invariant. -/
theorem Assembles.assemble {r : StreamReassembler} (hr : r.Assembles S top consumed)
    (htop : S.length < top) (hd : Placed S top d) (hle : d.index ≤ r.nextAssemblingIndex)
    (hfit : ¬ OverrunsAt r.nextAssemblingIndex r.output.remainingCapacity d r.storage) :
    (r.assemble d.data d.index d.eof).1.Assembles S top consumed := by
  have hnext := hr.next_le
  have hex : Excerpt S d.index d.data := hd.resolve_right (by omega)
  have hfresh : Excerpt S r.nextAssemblingIndex (d.fresh r.nextAssemblingIndex) :=
    fresh_excerpt hex hle hr.next_le
  have hafter := nextAfter_eq hle hfit
  have htake := hfresh.take r.output.remainingCapacity
  refine ⟨?_, ?_, ?_, ?_, ?_⟩
  · rw [assemble_storage]
    exact hr.sorted
  · rw [assemble_output, assemble_nextAssemblingIndex, ByteStream.write_bytesWritten,
      Datagram.ofData_self, hafter, hr.next_eq]
  · rw [assemble_nextAssemblingIndex, Datagram.ofData_self, hafter]
    have hlen := hfresh.1
    omega
  · rw [assemble_output, assemble_nextAssemblingIndex, ByteStream.write_stream,
      Datagram.ofData_self, hafter, ← List.append_assoc, hr.prefix_eq, htake.take_append,
      List.length_take, Nat.min_comm]
  · rw [assemble_storage]
    exact hr.placed

/-- Ending the input leaves the bytes alone. -/
theorem Assembles.finish {r : StreamReassembler} (hr : r.Assembles S top consumed)
    (eof ex : Bool) : (r.finish eof ex).Assembles S top consumed := by
  unfold StreamReassembler.finish
  split
  · exact ⟨hr.sorted, hr.next_eq, hr.next_le, hr.prefix_eq, hr.placed⟩
  · exact hr

/-- Storing a placed piece keeps the invariant. -/
theorem Assembles.missingMiddleHandler {r r' : StreamReassembler} (hS : S.length < 2 ^ 64)
    (htop : S.length < top) (hr : r.Assembles S top consumed) (hd : Placed S top d)
    (h : r.missingMiddleHandler fuel d = some r') : r'.Assembles S top consumed := by
  obtain ⟨hout, hcap, hnx⟩ := missingMiddleHandler_frame h
  refine ⟨missingMiddleHandler_sorted hr.sorted h, ?_, ?_, ?_, ?_⟩
  · rw [hout, hnx]; exact hr.next_eq
  · rw [hnx]; exact hr.next_le
  · rw [hout, hnx]; exact hr.prefix_eq
  · exact missingMiddleHandler_forall (fun _ _ => Placed.swallow hS htop) hr.sorted hd
      hr.placed h

/-- Taking the first datagram off the list keeps the invariant. -/
theorem Assembles.popFront {r : StreamReassembler} (hr : r.Assembles S top consumed)
    (hst : r.storage = front :: rest) : (r.popFront front rest).Assembles S top consumed where
  sorted := (List.pairwise_cons.mp (hst ▸ hr.sorted)).2
  next_eq := hr.next_eq
  next_le := hr.next_le
  prefix_eq := hr.prefix_eq
  placed := fun d hd => hr.placed d (hst ▸ List.mem_cons_of_mem front hd)

/-- **One call**: pushing a placed piece keeps the invariant, unless the call
overruns. -/
theorem Assembles.pushes {r r' : StreamReassembler} (hr : r.Assembles S top consumed)
    (h : Pushes r d r') (hS : S.length < 2 ^ 64) (htop : S.length < top) (hd : Placed S top d)
    (hfit : ¬ r.CallMakes OverrunsAt d) : r'.Assembles S top consumed := by
  induction h with
  | refuse => exact hr
  | store _ _ hmm => exact hr.missingMiddleHandler hS htop hd hmm
  | take href hle =>
      exact (hr.assemble htop hd hle (not_own_of_not_callMakes hfit href)).finish _ _
  | drain href hle hdata hst hgap _ ih =>
      have hmid := hr.assemble htop hd hle (not_own_of_not_callMakes hfit href)
      exact (ih (hmid.popFront ((assemble_storage _ _ _ _).trans hst))
        (hr.placed _ (hst ▸ List.mem_cons_self))
        (not_callMakes_front hfit href hle hdata hst hgap)).finish _ _

/-- Reading moves bytes from the buffer to those consumed. -/
theorem Assembles.readOut {r : StreamReassembler} (hr : r.Assembles S top consumed) (len : Nat) :
    (r.readOut len).2.Assembles S top (consumed ++ (r.readOut len).1) := by
  refine ⟨hr.sorted, ?_, hr.next_le, ?_, hr.placed⟩
  · rw [StreamReassembler.readOut, ByteStream.read_bytesWritten]
    exact hr.next_eq
  · rw [StreamReassembler.readOut, ByteStream.read_fst, ByteStream.read_stream, List.append_assoc,
      List.take_append_drop]
    exact hr.prefix_eq

/-! ## Runs -/

/-- The operation is a read or pushes a piece of `S` at its own index, with `eof`
on the pieces that end `S`. -/
def Op.PieceOf (S : List UInt8) : Op → Prop
  | .push data index eof =>
      Excerpt S index data ∧ (eof = true ↔ index + data.length = S.length)
  | .read _ => True

instance (S : List UInt8) : (op : Op) → Decidable (op.PieceOf S)
  | .push data index eof =>
      inferInstanceAs (Decidable (Excerpt S index data ∧
        (eof = true ↔ index + data.length = S.length)))
  | .read _ => inferInstanceAs (Decidable True)

/-- The operation is a push that overruns. -/
def Op.Overruns (s : Session) : Op → Prop
  | .push data index eof => s.reassembler.Overruns data index eof
  | .read _ => False

instance (s : Session) : (op : Op) → Decidable (op.Overruns s)
  | .push data index eof => inferInstanceAs (Decidable (s.reassembler.Overruns data index eof))
  | .read _ => inferInstanceAs (Decidable False)

/-- A run of pushes of pieces of `S` and of reads, in which no push overruns,
keeps the invariant. -/
theorem exec_assembles (hS : S.length < 2 ^ 64) (hops : ∀ op ∈ ops, Op.PieceOf S op)
    (hfit : Along (Session.step fuel) (fun s op => ¬ op.Overruns s) (Session.new cap) ops)
    (h : exec (Session.step fuel) (Session.new cap) ops = some s) :
    s.reassembler.Assembles S (S.length + 1) s.consumed := by
  refine exec_invariant_along
    (P := fun s => s.reassembler.Assembles S (S.length + 1) s.consumed) ?_
    (assembles_new S (S.length + 1) cap) (hfit.and_forall hops) h
  intro s op s' hs hop hstep
  cases op with
  | push data index eof =>
      obtain ⟨r, hr, rfl⟩ := Option.map_eq_some_iff.mp hstep
      exact hs.pushes (pushSubstring_pushes hr) hS (Nat.lt_succ_self _) (.inl hop.1.1) hop.2
  | read len =>
      rw [Session.step, Option.some.injEq] at hstep
      exact hstep ▸ hs.readOut len

/-- **Only a prefix comes out**: as long as no push overruns, the bytes read so
far followed by the bytes buffered are a prefix of `S`. -/
theorem consumed_append_stream_prefix (hS : S.length < 2 ^ 64)
    (hops : ∀ op ∈ ops, Op.PieceOf S op)
    (hfit : Along (Session.step fuel) (fun s op => ¬ op.Overruns s) (Session.new cap) ops)
    (h : exec (Session.step fuel) (Session.new cap) ops = some s) :
    s.consumed ++ s.reassembler.output.stream <+: S := by
  rw [(exec_assembles hS hops hfit h).prefix_eq]
  exact List.take_prefix _ S

/-- `"abcdef"` through a reassembler of capacity 4, the second half first and the
last piece overlapping. -/
theorem consumed_append_stream_prefix_overlap :
    ∃ s, exec (Session.step 9) (Session.new 4)
        [.push [99, 100] 2 false, .push [97, 98] 0 false, .read 3,
          .push [99, 100, 101, 102] 2 true] = some s ∧
      s.consumed ++ s.reassembler.output.stream <+: [97, 98, 99, 100, 101, 102] :=
  have hrun : exec (Session.step 9) (Session.new 4)
      [.push [99, 100] 2 false, .push [97, 98] 0 false, .read 3,
        .push [99, 100, 101, 102] 2 true] = some _ := rfl
  ⟨_, hrun, consumed_append_stream_prefix (by decide) (by decide) (by decide) hrun⟩

/-- With capacity 3, `"abcde"` on top of `"a"` leaves the next index at 5 and only
`"abc"` in the output; the `"f"` that follows is written right behind it. -/
theorem not_prefix_of_overrun :
    ∃ s, (∀ op ∈ [.push [97] 0 false, .push [97, 98, 99, 100, 101] 0 false, .read 3,
          .push [102] 5 true], Op.PieceOf [97, 98, 99, 100, 101, 102] op) ∧
      exec (Session.step 9) (Session.new 3)
        [.push [97] 0 false, .push [97, 98, 99, 100, 101] 0 false, .read 3,
          .push [102] 5 true] = some s ∧
      ¬ s.consumed ++ s.reassembler.output.stream <+: [97, 98, 99, 100, 101, 102] :=
  ⟨_, by decide, rfl, by decide⟩

end StreamReassembler

end Sponge
