import Mathlib.Algebra.Group.Int.Defs
import Mathlib.Algebra.GroupWithZero.Nat

/-!
# Sponge.WrappingInt32

32-bit sequence numbers (`wrapping_integers.hh`, `wrapping_integers.cc`):
`wrap` takes an absolute 64-bit sequence number to its place relative to an
initial sequence number, `unwrap` goes back to an absolute number near a
checkpoint.

The absolute numbers are natural numbers.  What `unwrap` does in `int32_t` and
`int64_t` is written with the balanced residue `Int.bmod`, so that it is also
right where the signed types overflow.
-/

namespace Sponge

/-- A sequence number as it travels. -/
structure WrappingInt32 where
  rawValue : UInt32
  deriving DecidableEq, Repr

namespace WrappingInt32

/-- `operator+`: the point `b` steps past `a`. -/
def add (a : WrappingInt32) (b : UInt32) : WrappingInt32 := ⟨a.rawValue + b⟩

/-- `operator-`: the offset of `a` relative to `b`, an `int32_t`. -/
def sub (a b : WrappingInt32) : Int := ((a.rawValue - b.rawValue).toNat : Int).bmod (2 ^ 32)

@[simp] theorem add_rawValue (a : WrappingInt32) (b : UInt32) :
    (a.add b).rawValue = a.rawValue + b := rfl

end WrappingInt32

/-- The number that stands for `n`. -/
def wrap (n : Nat) (isn : WrappingInt32) : WrappingInt32 := isn.add (UInt32.ofNat n)

/-- The number nearest to the checkpoint that `n` stands for; below zero, the next one up. -/
def unwrap (n isn : WrappingInt32) (checkpoint : Nat) : Nat :=
  let rlt := wrap checkpoint isn
  let distance := n.sub rlt
  -- `int64_t Abs_seqno = checkpoint + distance`
  let absSeqno := (checkpoint + distance).bmod (2 ^ 64)
  if absSeqno ≥ 0 then absSeqno.toNat else ((absSeqno + 2 ^ 32) % 2 ^ 64).toNat

/-! ## Offsets -/

@[simp] theorem wrap_zero (isn : WrappingInt32) : wrap 0 isn = isn := by
  simp [wrap, WrappingInt32.add]

/-- A difference has 32 bits and a sign. -/
theorem sub_bounds (a b : WrappingInt32) : -2 ^ 31 ≤ a.sub b ∧ a.sub b < 2 ^ 31 := by
  unfold WrappingInt32.sub
  generalize (a.rawValue - b.rawValue).toNat = x
  rw [Int.bmod_def]
  omega

/-- The offset between two wrapped numbers is their difference, reduced. -/
theorem wrap_sub_wrap (v c : Nat) (isn : WrappingInt32) :
    (wrap v isn).sub (wrap c isn) = ((v : Int) - c).bmod (2 ^ 32) := by
  have hraw : (isn.rawValue + UInt32.ofNat v - (isn.rawValue + UInt32.ofNat c)).toNat =
      (2 ^ 32 - c % 2 ^ 32 + v % 2 ^ 32) % 2 ^ 32 := by
    rw [UInt32.toNat_sub, UInt32.toNat_add, UInt32.toNat_add, UInt32.toNat_ofNat',
      UInt32.toNat_ofNat']
    omega
  unfold WrappingInt32.sub wrap
  rw [WrappingInt32.add_rawValue, WrappingInt32.add_rawValue, hraw, Int.bmod_def, Int.bmod_def]
  omega

/-! ## Unwrapping what was wrapped -/

/-- `unwrap` from the offset as an integer. -/
theorem unwrap_eq (n isn : WrappingInt32) (c : Nat) : unwrap n isn c =
    if 0 ≤ (c + n.sub (wrap c isn)).bmod (2 ^ 64) then
      ((c + n.sub (wrap c isn)).bmod (2 ^ 64)).toNat
    else (((c + n.sub (wrap c isn)).bmod (2 ^ 64) + 2 ^ 32) % 2 ^ 64).toNat := rfl

/-- A number within `2 ^ 31` of the checkpoint is found again. -/
theorem unwrap_wrap_of_near (isn : WrappingInt32) (hv : v < 2 ^ 63) (hlo : c ≤ v + 2 ^ 31)
    (hhi : v < c + 2 ^ 31) : unwrap (wrap v isn) isn c = v := by
  have hd : ((v : Int) - c).bmod (2 ^ 32) = v - c := by rw [Int.bmod_def]; omega
  have habs : ((c : Int) + (v - c)).bmod (2 ^ 64) = v := by rw [Int.bmod_def]; omega
  rw [unwrap_eq, wrap_sub_wrap, hd, habs]
  split <;> omega

/-- With number and checkpoint below `2 ^ 32`, `unwrap` is off only where the
number is more than `2 ^ 31` behind: there it takes it for one of the next
round. -/
theorem unwrap_wrap_of_lt (isn : WrappingInt32) (hv : v < 2 ^ 32) (hc : c < 2 ^ 32) :
    unwrap (wrap v isn) isn c = if v + 2 ^ 31 < c then v + 2 ^ 32 else v := by
  rw [unwrap_eq, wrap_sub_wrap]
  by_cases hbehind : v + 2 ^ 31 < c
  · have hd : ((v : Int) - c).bmod (2 ^ 32) = v - c + 2 ^ 32 := by rw [Int.bmod_def]; omega
    have habs : ((c : Int) + (v - c + 2 ^ 32)).bmod (2 ^ 64) = (v : Int) + 2 ^ 32 := by
      rw [Int.bmod_def]; omega
    rw [hd, habs, if_pos (by omega), if_pos hbehind]
    omega
  rw [if_neg hbehind]
  by_cases hfar : v < c + 2 ^ 31
  · have hd : ((v : Int) - c).bmod (2 ^ 32) = v - c := by rw [Int.bmod_def]; omega
    have habs : ((c : Int) + (v - c)).bmod (2 ^ 64) = v := by rw [Int.bmod_def]; omega
    rw [hd, habs, if_pos (by omega)]
    omega
  · -- the number next to the checkpoint is negative, and a round is added
    have hd : ((v : Int) - c).bmod (2 ^ 32) = v - c - 2 ^ 32 := by rw [Int.bmod_def]; omega
    have habs : ((c : Int) + (v - c - 2 ^ 32)).bmod (2 ^ 64) = (v : Int) - 2 ^ 32 := by
      rw [Int.bmod_def]; omega
    rw [hd, habs, if_neg (by omega)]
    omega

/-- What lands in a window of `2 ^ 31` numbers below the checkpoint is the
checkpoint moved by the offset, and no conversion overflowed. -/
theorem unwrap_eq_of_window (h1 : lo ≤ unwrap n isn c) (h2 : unwrap n isn c ≤ c)
    (hw : c ≤ lo + 2 ^ 31) :
    (unwrap n isn c : Int) = c + n.sub (wrap c isn) ∧ unwrap n isn c < 2 ^ 63 := by
  have hd := sub_bounds n (wrap c isn)
  rw [unwrap_eq] at h1 h2 ⊢
  generalize n.sub (wrap c isn) = d at hd h1 h2 ⊢
  obtain ⟨k, hk⟩ : ∃ k, (c + d).bmod (2 ^ 64) = c + d - k * 2 ^ 64 :=
    ⟨((c + d) - (c + d).bmod (2 ^ 64)) / 2 ^ 64, by rw [Int.bmod_def]; omega⟩
  have hlt : (c + d).bmod (2 ^ 64) < 2 ^ 63 := by rw [Int.bmod_def]; omega
  generalize (c + d).bmod (2 ^ 64) = x at hk hlt h1 h2 ⊢
  by_cases hx : 0 ≤ x
  · rw [if_pos hx] at h1 h2 ⊢
    omega
  · rw [if_neg hx] at h1 h2
    omega

/-! ## The closest number -/

/-- A number that is as far from `c`, up to whole rounds, as `n` is from its wrapped
place wraps to `n`. -/
theorem wrap_eq_of_emod {n isn : WrappingInt32} {x c : Nat}
    (h : (x : Int) % 2 ^ 32 = (c + n.sub (wrap c isn)) % 2 ^ 32) : wrap x isn = n := by
  obtain ⟨raw⟩ := n
  have hraw := raw.toNat_lt
  have hisn := isn.rawValue.toNat_lt
  unfold WrappingInt32.sub wrap at h
  rw [WrappingInt32.add_rawValue, UInt32.toNat_sub, UInt32.toNat_add, UInt32.toNat_ofNat',
    Int.bmod_def] at h
  simp only at h
  unfold wrap WrappingInt32.add
  rw [WrappingInt32.mk.injEq, ← UInt32.toNat_inj, UInt32.toNat_add, UInt32.toNat_ofNat']
  omega

/-- Below the limits of `int64_t`, `unwrap` moves the checkpoint by the offset, and by
one round more where that would be negative. -/
theorem unwrap_cases (n isn : WrappingInt32) (hc : c < 2 ^ 63 - 2 ^ 31) :
    (unwrap n isn c : Int) = c + n.sub (wrap c isn) ∨
      ((c : Int) + n.sub (wrap c isn) < 0 ∧
        (unwrap n isn c : Int) = c + n.sub (wrap c isn) + 2 ^ 32) := by
  have hd := sub_bounds n (wrap c isn)
  rw [unwrap_eq]
  generalize n.sub (wrap c isn) = d at hd ⊢
  have hmod : ((c : Int) + d).bmod (2 ^ 64) = c + d := by rw [Int.bmod_def]; omega
  rw [hmod]
  by_cases hneg : 0 ≤ (c : Int) + d
  · rw [if_pos hneg]
    exact .inl (Int.toNat_of_nonneg hneg)
  · rw [if_neg hneg]
    exact .inr ⟨by omega, by omega⟩

/-- **`unwrap` finds the closest number**: below the limits of `int64_t` it is one that
wraps to `n`, no other 64-bit number that does is closer to the checkpoint, and so
a number less than `2 ^ 31` away is found again. -/
theorem unwrap_closest (n isn : WrappingInt32) (checkpoint : Nat)
    (hc : checkpoint < 2 ^ 63 - 2 ^ 31) :
    unwrap n isn checkpoint < 2 ^ 64 ∧ wrap (unwrap n isn checkpoint) isn = n ∧
      (∀ y < 2 ^ 64, wrap y isn = n →
        ¬ ((y : Int) - checkpoint).natAbs < ((unwrap n isn checkpoint : Int) - checkpoint).natAbs) ∧
      ∀ v : Nat, ((v : Int) - checkpoint).natAbs < 2 ^ 31 →
        unwrap (wrap v isn) isn checkpoint = v := by
  have hd := sub_bounds n (wrap checkpoint isn)
  have hx := unwrap_cases n isn hc
  refine ⟨by omega, ?_, ?_, ?_⟩
  · apply wrap_eq_of_emod (c := checkpoint)
    omega
  · rintro y - rfl
    rw [wrap_sub_wrap] at hx hd
    have hy : ((y : Int) - checkpoint).bmod (2 ^ 32) % 2 ^ 32 = (y - checkpoint) % 2 ^ 32 :=
      Int.bmod_emod
    generalize ((y : Int) - checkpoint).bmod (2 ^ 32) = d at hx hd hy
    omega
  · intro v hv
    exact unwrap_wrap_of_near isn (by omega) (by omega) (by omega)

/-- Just before the first wrap of the raw numbers, a number of the next round. -/
theorem unwrap_closest_round :
    unwrap ⟨4⟩ ⟨7⟩ (2 ^ 32 - 2) = 2 ^ 32 - 3 ∧ wrap (2 ^ 32 - 3) ⟨7⟩ = ⟨4⟩ := by
  have hclosest := unwrap_closest ⟨4⟩ ⟨7⟩ (2 ^ 32 - 2) (by decide)
  have hvalue : unwrap ⟨4⟩ ⟨7⟩ (2 ^ 32 - 2) = 2 ^ 32 - 3 := by decide
  exact ⟨hvalue, hvalue ▸ hclosest.2.1⟩

/-! ## Translation -/

section translation

variable (n isn : WrappingInt32) (a : UInt32)

/-- Another initial number shifts all others. -/
theorem wrap_add (c : Nat) : wrap c (isn.add a) = (wrap c isn).add a := by
  simp only [wrap, WrappingInt32.add, UInt32.add_assoc, UInt32.add_comm]

/-- Differences stay. -/
theorem add_sub_add (m : WrappingInt32) : (n.add a).sub (m.add a) = n.sub m := by
  have hraw : (n.rawValue + a - (m.rawValue + a)).toNat = (n.rawValue - m.rawValue).toNat := by
    rw [UInt32.toNat_sub, UInt32.toNat_sub, UInt32.toNat_add, UInt32.toNat_add]
    have hm := m.rawValue.toNat_lt
    omega
  unfold WrappingInt32.sub
  rw [WrappingInt32.add_rawValue, WrappingInt32.add_rawValue, hraw]

/-- `unwrap` only depends on the offset of a number from its initial one. -/
theorem unwrap_add (c : Nat) : unwrap (n.add a) (isn.add a) c = unwrap n isn c := by
  simp only [unwrap, wrap_add, add_sub_add]

end translation

end Sponge
