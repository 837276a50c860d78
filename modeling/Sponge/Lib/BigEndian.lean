import Mathlib.Algebra.GroupWithZero.Nat

/-!
# Sponge.Lib.BigEndian

Numbers as bytes, the most significant one first: `beBytes len n` writes the
low `len` bytes of `n`, `beValue` reads bytes back, and `beField b i len` is
the number that stands at position `i` of the string `b`.
-/

namespace Sponge

/-- The `len` low bytes of `n`, the most significant one first. -/
def beBytes : Nat → Nat → List UInt8
  | 0, _ => []
  | len + 1, n => UInt8.ofNat (n / 256 ^ len) :: beBytes len n

/-- The number that the bytes spell. -/
def beValue (bytes : List UInt8) : Nat := bytes.foldl (fun n byte => n * 256 + byte.toNat) 0

/-- The number in the `len` bytes at position `i` of `b`. -/
def beField (b : List UInt8) (i len : Nat) : Nat := beValue ((b.drop i).take len)

@[simp] theorem length_beBytes (len n : Nat) : (beBytes len n).length = len := by
  induction len with
  | zero => rfl
  | succ len ih => simp [beBytes, ih]

/-- One byte stands for itself. -/
theorem beBytes_one (byte : UInt8) : beBytes 1 byte.toNat = [byte] := by
  simp [beBytes]

@[simp] theorem beValue_nil : beValue [] = 0 := rfl

/-- The loop that reads a number, from any start. -/
theorem foldl_beValue (n : Nat) (l : List UInt8) :
    l.foldl (fun n byte => n * 256 + byte.toNat) n = n * 256 ^ l.length + beValue l := by
  induction l generalizing n with
  | nil => simp
  | cons byte l ih =>
      have hcons : beValue (byte :: l) = (0 * 256 + byte.toNat) * 256 ^ l.length + beValue l := by
        rw [← ih, beValue, List.foldl_cons]
      rw [List.foldl_cons, ih, hcons, List.length_cons, Nat.pow_succ]
      simp only [Nat.zero_mul, Nat.zero_add, Nat.add_mul, Nat.add_assoc]
      rw [Nat.mul_assoc, Nat.mul_comm 256]

/-- The first byte weighs most. -/
theorem beValue_cons (byte : UInt8) (l : List UInt8) :
    beValue (byte :: l) = byte.toNat * 256 ^ l.length + beValue l := by
  rw [beValue, List.foldl_cons, foldl_beValue, Nat.zero_mul, Nat.zero_add]

/-- A number of so many bytes. -/
theorem beValue_lt (l : List UInt8) : beValue l < 256 ^ l.length := by
  induction l with
  | nil => simp
  | cons byte l ih =>
      have hbyte := byte.toNat_lt
      have hle : byte.toNat * 256 ^ l.length ≤ 255 * 256 ^ l.length :=
        Nat.mul_le_mul_right _ (by omega)
      rw [beValue_cons, List.length_cons, Nat.pow_succ]
      omega

/-- What is written is read back, up to what does not fit. -/
theorem beValue_beBytes (len n : Nat) : beValue (beBytes len n) = n % 256 ^ len := by
  induction len with
  | zero => simp [beBytes, Nat.mod_one]
  | succ len ih =>
      rw [beBytes, beValue_cons, ih, length_beBytes, UInt8.toNat_ofNat', Nat.mod_pow_succ (b := 256),
        Nat.add_comm, Nat.mul_comm]

/-- Bytes above those written do not matter. -/
theorem beBytes_add_mul (len n m : Nat) : beBytes len (m * 256 ^ len + n) = beBytes len n := by
  induction len generalizing m with
  | zero => rfl
  | succ len ih =>
      have hpow : m * 256 ^ (len + 1) + n = m * 256 * 256 ^ len + n := by
        rw [Nat.pow_succ, Nat.mul_comm (256 ^ len), ← Nat.mul_assoc]
      rw [beBytes, beBytes, hpow, ih]
      congr 1
      apply UInt8.toNat_inj.mp
      rw [UInt8.toNat_ofNat', UInt8.toNat_ofNat', Nat.add_comm (m * 256 * 256 ^ len),
        Nat.add_mul_div_right _ _ (Nat.pow_pos (by decide)), Nat.add_mul_mod_self_right]

/-- What is read is written back. -/
theorem beBytes_beValue (l : List UInt8) : beBytes l.length (beValue l) = l := by
  induction l with
  | nil => rfl
  | cons byte l ih =>
      rw [List.length_cons, beBytes, beValue_cons, beBytes_add_mul, ih]
      congr 1
      rw [Nat.add_comm, Nat.add_mul_div_right _ _ (Nat.pow_pos (by decide)),
        Nat.div_eq_of_lt (beValue_lt l), Nat.zero_add, UInt8.ofNat_toNat]

end Sponge
