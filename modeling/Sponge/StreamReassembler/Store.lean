import Mathlib.Algebra.GroupWithZero.Nat
import Mathlib.Data.List.Perm.Basic
import Sponge.StreamReassembler.Return

/-!
# Sponge.StreamReassembler.Store

The books that the reassembler keeps by hand beside its list: the count of the
stored bytes, adjusted at every erase, merge, pop and push, and the smallest
stored index, which is only set when a datagram is stored.

`Tidy` says what they are worth.  The count is exact; the smallest index may lag
behind the list, but never runs ahead of it.
-/

namespace Sponge

/-- The bytes in a list of datagrams. -/
def bytesIn : List Datagram → Nat
  | [] => 0
  | d :: l => d.size + bytesIn l

/-- The order does not matter. -/
theorem bytesIn_perm {l l' : List Datagram} (h : l.Perm l') : bytesIn l = bytesIn l' := by
  induction h with
  | nil => rfl
  | cons d _ ih => rw [bytesIn, bytesIn, ih]
  | swap d e l =>
      simp only [bytesIn]
      omega
  | trans _ _ ih ih' => exact ih.trans ih'

/-- An erased datagram takes its bytes along. -/
theorem bytesIn_eraseIdx {l : List Datagram} (hp : l[ptr]? = some p) :
    bytesIn l = p.size + bytesIn (l.eraseIdx ptr) := by
  obtain ⟨hlt, rfl⟩ := List.getElem?_eq_some_iff.mp hp
  exact (bytesIn_perm (List.getElem_cons_eraseIdx_perm hlt)).symm

/-- The count is the sum of the sizes. -/
theorem bytesIn_eq_sum (l : List Datagram) : bytesIn l = (l.map Datagram.size).sum := by
  induction l with
  | nil => rfl
  | cons d l ih => rw [bytesIn, ih, List.map_cons, List.sum_cons]

/-- Empty datagrams have no bytes. -/
theorem bytesIn_eq_zero {l : List Datagram} (h : ∀ d ∈ l, d.data = []) : bytesIn l = 0 := by
  induction l with
  | nil => rfl
  | cons d l ih =>
      rw [bytesIn, ih fun e he => h e (List.mem_cons_of_mem d he), d.size_eq,
        h d List.mem_cons_self]
      rfl

/-- The pass takes off the count what it takes off the list. -/
theorem Passes.unassembledBytes_eq (h : Passes dg u l e) (hu : u = k + bytesIn l) :
    e.state.unassembledBytes = k + bytesIn e.state.storage := by
  induction h generalizing k with
  | done => exact hu
  | repeated => exact hu
  | discrete => exact hu
  | skip _ _ ih =>
      rw [ScanEnd.state_prepend]
      rw [bytesIn, ← Nat.add_assoc] at hu
      rw [List.singleton_append, bytesIn, ← Nat.add_assoc]
      exact ih hu
  | replace _ _ _ _ ih =>
      refine ih ?_
      rw [bytesIn] at hu
      omega
  | swallow _ _ _ ih =>
      refine ih ?_
      rw [bytesIn] at hu
      omega

namespace StreamReassembler

/-- The books are right: the list is sorted, the count is that of its bytes, and
the smallest index is a lower bound. -/
structure Tidy (r : StreamReassembler) : Prop where
  sorted : SortedByIndex r.storage
  unassembledBytes_eq : r.unassembledBytes = bytesIn r.storage
  smallest_le : ∀ d ∈ r.storage, r.smallestTemportyIndex ≤ d.index

/-- At first the books are empty. -/
theorem tidy_new (cap : Nat) : (new cap).Tidy where
  sorted := List.Pairwise.nil
  unassembledBytes_eq := rfl
  smallest_le := by simp [new]

/-- The first datagram of a sorted list has the smallest index. -/
theorem firstUnassembleByteIndex_le {r : StreamReassembler} (hs : SortedByIndex r.storage) :
    ∀ d ∈ r.storage, r.firstUnassembleByteIndex ≤ d.index := by
  unfold firstUnassembleByteIndex
  cases hst : r.storage with
  | nil => simp
  | cons front rest =>
      intro d hd
      rcases List.mem_cons.mp hd with rfl | hd'
      · exact Nat.le_refl _
      · exact (List.pairwise_cons.mp (hst ▸ hs)).1 d hd'

/-- The pass keeps the books. -/
theorem Tidy.missingMiddleHandler {r r' : StreamReassembler} (hr : r.Tidy)
    (h : r.missingMiddleHandler fuel dg = some r') : r'.Tidy := by
  have hsorted := missingMiddleHandler_sorted hr.sorted h
  obtain ⟨e, he, rfl⟩ := missingMiddleHandler_eq_some hr.sorted h
  have hcount := (scan_passes he).unassembledBytes_eq (k := 0)
    (by rw [Nat.zero_add]; exact hr.unassembledBytes_eq)
  rw [Nat.zero_add] at hcount
  cases e with
  | ret s =>
      exact ⟨hsorted, hcount, fun d hd => hr.smallest_le d ((scan_passes he).sublist.subset hd)⟩
  | store s =>
      refine ⟨hsorted, ?_, firstUnassembleByteIndex_le hsorted⟩
      have hperm : bytesIn (sortByIndex (s.dg :: s.storage)) = bytesIn (s.dg :: s.storage) :=
        bytesIn_perm (List.perm_insertionSort _ _)
      simp only [settle]
      rw [hperm, bytesIn, Nat.add_comm]
      exact congrArg (s.dg.size + ·) hcount

/-- The first part of a push does not touch the books. -/
theorem Tidy.assemble {r : StreamReassembler} (hr : r.Tidy) (data : List UInt8) (index : Nat)
    (eof : Bool) : (r.assemble data index eof).1.Tidy := by
  refine ⟨?_, ?_, ?_⟩
  · rw [assemble_storage]
    exact hr.sorted
  · rw [assemble_storage, assemble_unassembledBytes]
    exact hr.unassembledBytes_eq
  · rw [assemble_storage, assemble_smallestTemportyIndex]
    exact hr.smallest_le

/-- A popped datagram takes its bytes off the count. -/
theorem popFront_unassembledBytes_eq {r : StreamReassembler}
    (hr : r.unassembledBytes = bytesIn r.storage) (hst : r.storage = front :: rest) :
    (r.popFront front rest).unassembledBytes = bytesIn (r.popFront front rest).storage := by
  rw [hst, bytesIn] at hr
  simp only [popFront]
  omega

/-- What is taken from the store is taken off the count. -/
theorem Tidy.popFront {r : StreamReassembler} (hr : r.Tidy) (hst : r.storage = front :: rest) :
    (r.popFront front rest).Tidy where
  sorted := (List.pairwise_cons.mp (hst ▸ hr.sorted)).2
  unassembledBytes_eq := popFront_unassembledBytes_eq hr.unassembledBytes_eq hst
  smallest_le := fun d hd => hr.smallest_le d (hst ▸ List.mem_cons_of_mem front hd)

theorem Tidy.finish {r : StreamReassembler} (hr : r.Tidy) (eof ex : Bool) :
    (r.finish eof ex).Tidy := by
  unfold StreamReassembler.finish
  split
  · exact ⟨hr.sorted, hr.unassembledBytes_eq, hr.smallest_le⟩
  · exact hr

/-- **One call**: every push, whatever its data, index and flag, keeps the books
right. -/
theorem Tidy.pushes {r r' : StreamReassembler} (hr : r.Tidy) (h : Pushes r d r') : r'.Tidy := by
  induction h with
  | refuse => exact hr
  | store _ _ hmm => exact hr.missingMiddleHandler hmm
  | take => exact (hr.assemble _ _ _).finish _ _
  | @drain r r' d front rest _ _ _ hst _ _ ih =>
      have hst' := (r.assemble_storage d.data d.index d.eof).trans hst
      exact (ih ((hr.assemble _ _ _).popFront hst')).finish _ _

end StreamReassembler

end Sponge
