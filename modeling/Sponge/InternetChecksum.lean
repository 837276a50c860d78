import Mathlib.Algebra.GroupWithZero.Nat
import Sponge.Lib.BigEndian
import Sponge.Lib.OnesComplement

/-!
# Sponge.InternetChecksum

The Internet checksum (`InternetChecksum` in `util.hh`, `util.cc`).  The bytes
are added into a 32-bit sum, those at even places as high bytes, and the sum is
folded to 16 bits at the end.

`words` and `Verifies` say what is computed: the ones'-complement sum of the
16-bit words of the string.  The two agree as long as the 32-bit sum does not
wrap (`value_add`), and they do however the string is cut (`value_chunks`).
-/

namespace Sponge

/-- The sum so far, and whether the next byte is the second of a word. -/
structure InternetChecksum where
  sum : UInt32
  parity : Bool
  deriving DecidableEq, Repr

namespace InternetChecksum

def new (initialSum : UInt32) : InternetChecksum := ⟨initialSum, false⟩

/-- One turn of the loop of `add`. -/
def addByte (c : InternetChecksum) (byte : UInt8) : InternetChecksum :=
  let val : UInt16 := byte.toUInt16
  let val := if !c.parity then val <<< 8 else val
  { sum := c.sum + val.toUInt32, parity := !c.parity }

def add (c : InternetChecksum) (data : List UInt8) : InternetChecksum := data.foldl addByte c

/-- The loop of `value`.  Every turn makes `ret` smaller, so `ret` turns are enough
(`toNat_foldLoop`). -/
def foldLoop : Nat → UInt32 → UInt32
  | 0, ret => ret
  | n + 1, ret => if ret > 0xffff then foldLoop n ((ret >>> 16) + (ret &&& 0xffff)) else ret

/-- The loop folds the carries back in. -/
def value (c : InternetChecksum) : UInt16 := (~~~(foldLoop c.sum.toNat c.sum)).toUInt16

/-! ## What is computed -/

/-- The 16-bit words of a string, a last odd byte filled up with zero. -/
def words : List UInt8 → List Nat
  | [] => []
  | [a] => [a.toNat * 256]
  | a :: b :: rest => (a.toNat * 256 + b.toNat) :: words rest

/-- The ones'-complement sum of `c` and the words of `b` is all ones. -/
def Verifies (c : Nat) (b : List UInt8) : Prop :=
  OnesComplement.sum 0xffff c (words b) = 0xffff

instance (c : Nat) (b : List UInt8) : Decidable (Verifies c b) :=
  inferInstanceAs (Decidable (_ = _))

/-! ## The sum -/

/-- What a string adds to the sum; the parity tells whether the first byte is a low
one. -/
def weight : Bool → List UInt8 → Nat
  | _, [] => 0
  | parity, byte :: rest =>
      (if parity then byte.toNat else byte.toNat * 256) + weight (!parity) rest

/-- One byte, as a number. -/
theorem toNat_addByte (c : InternetChecksum) (byte : UInt8) :
    (c.addByte byte).sum.toNat =
      (c.sum.toNat + if c.parity then byte.toNat else byte.toNat * 256) % 2 ^ 32 := by
  have hbyte := byte.toNat_lt
  cases hp : c.parity with
  | true => simp [addByte, hp, UInt32.toNat_add]
  | false =>
      have hshift : byte.toNat <<< 8 % 65536 = byte.toNat * 256 := by
        rw [Nat.shiftLeft_eq]
        exact Nat.mod_eq_of_lt (by omega)
      simp [addByte, hp, UInt32.toNat_add, hshift]

/-- A string adds its weight. -/
theorem toNat_add (c : InternetChecksum) (data : List UInt8) :
    (c.add data).sum.toNat = (c.sum.toNat + weight c.parity data) % 2 ^ 32 := by
  induction data generalizing c with
  | nil => exact (Nat.mod_eq_of_lt c.sum.toNat_lt).symm
  | cons byte data ih =>
      have hcons : c.add (byte :: data) = (c.addByte byte).add data := rfl
      rw [hcons, ih, toNat_addByte, Nat.mod_add_mod, weight, Nat.add_assoc]
      rfl

/-- Adding one string after the other is adding both at once. -/
theorem add_append (c : InternetChecksum) (a b : List UInt8) : c.add (a ++ b) = (c.add a).add b :=
  List.foldl_append

/-- Adding in two parts, the first of even length. -/
theorem weight_append (p : Bool) {a : List UInt8} (h : a.length % 2 = 0) (b : List UInt8) :
    weight p (a ++ b) = weight p a + weight p b := by
  induction a using words.induct with
  | case1 => simp [weight]
  | case2 x => simp at h
  | case3 x y a ih =>
      simp only [List.length_cons] at h
      have hrest := ih (by omega)
      simp only [List.cons_append, weight, Bool.not_not, hrest]
      omega

/-- Word by word or byte by byte, the sum is the same. -/
theorem sum_words (b : List UInt8) : (words b).sum = weight false b := by
  induction b using words.induct with
  | case1 => rfl
  | case2 a => simp [words, weight]
  | case3 a b rest ih => simp [words, weight, ih, Nat.add_assoc]

theorem le_of_mem_words {b : List UInt8} (h : w ∈ words b) : w ≤ 0xffff := by
  induction b using words.induct with
  | case1 => simp [words] at h
  | case2 a =>
      have ha := a.toNat_lt
      simp only [words, List.mem_singleton] at h
      omega
  | case3 a b rest ih =>
      have ha := a.toNat_lt
      have hb := b.toNat_lt
      simp only [words, List.mem_cons] at h
      rcases h with rfl | hw
      · omega
      · exact ih hw

/-- Each two bytes add less than a full word. -/
theorem weight_le (b : List UInt8) : weight false b ≤ 0xffff * ((b.length + 1) / 2) := by
  induction b using words.induct with
  | case1 => simp [weight]
  | case2 a =>
      have ha := a.toNat_lt
      simp [weight]
      omega
  | case3 a b rest ih =>
      have ha := a.toNat_lt
      have hb := b.toNat_lt
      simp only [weight, Bool.not_false, Bool.not_true, List.length_cons]
      simp only [Bool.false_eq_true, ↓reduceIte]
      omega

/-! ## The value -/

/-- One turn of the loop adds the high part to the low part. -/
theorem toNat_foldTurn (ret : UInt32) :
    ((ret >>> 16) + (ret &&& 0xffff)).toNat =
      ret.toNat / (0xffff + 1) + ret.toNat % (0xffff + 1) := by
  have hret := ret.toNat_lt
  have hlow : ret.toNat &&& 0xffff = ret.toNat % 2 ^ 16 := Nat.and_two_pow_sub_one_eq_mod _ 16
  rw [UInt32.toNat_add, UInt32.toNat_shiftRight, UInt32.toNat_and]
  simp only [UInt32.reduceToNat, Nat.reduceMod, Nat.shiftRight_eq_div_pow, hlow]
  omega

/-- The loop folds the sum to 16 bits. -/
theorem toNat_foldLoop (h : ret.toNat ≤ n) :
    (foldLoop n ret).toNat = OnesComplement.reduce 0xffff ret.toNat := by
  induction n generalizing ret with
  | zero =>
      have h0 : ret.toNat = 0 := by omega
      rw [foldLoop, h0]
      rfl
  | succ n ih =>
      rw [foldLoop]
      by_cases hbig : ret > 0xffff
      · have hlt : 0xffff < ret.toNat := UInt32.lt_iff_toNat_lt.mp hbig
        rw [if_pos hbig, ih (by rw [toNat_foldTurn]; omega), toNat_foldTurn,
          OnesComplement.reduce_div_add_mod]
      · have hle : ret.toNat ≤ 0xffff := by
          rw [gt_iff_lt, UInt32.lt_iff_toNat_lt] at hbig
          exact Nat.le_of_not_lt hbig
        rw [if_neg hbig, OnesComplement.reduce_of_le hle]

/-- The value is the complement of the folded sum. -/
theorem toNat_value (c : InternetChecksum) :
    c.value.toNat = 0xffff - OnesComplement.reduce 0xffff c.sum.toNat := by
  have hfold := toNat_foldLoop (Nat.le_refl c.sum.toNat)
  have hle := OnesComplement.reduce_le (M := 0xffff) (by decide) c.sum.toNat
  rw [value, UInt32.toNat_toUInt16, UInt32.toNat_not, hfold]
  simp only [UInt32.size]
  omega

/-- **The checksum of a string**: as long as the 32-bit sum does not wrap, the
complement of the ones'-complement sum of its words. -/
theorem value_add (c : UInt32) {b : List UInt8} (h : c.toNat + weight false b < 2 ^ 32) :
    ((new c).add b).value.toNat = 0xffff - OnesComplement.sum 0xffff c.toNat (words b) := by
  rw [toNat_value, toNat_add, new, Nat.mod_eq_of_lt h,
    OnesComplement.sum_eq_reduce (by decide) _ fun _ => le_of_mem_words, sum_words]

/-- The checksum of a string is zero exactly when the string verifies. -/
theorem value_add_eq_zero_iff (c : UInt32) {b : List UInt8}
    (h : c.toNat + weight false b < 2 ^ 32) :
    ((new c).add b).value = 0 ↔ Verifies c.toNat b := by
  have hle := OnesComplement.reduce_le (M := 0xffff) (by decide) (c.toNat + (words b).sum)
  have hvalue := value_add c h
  rw [← OnesComplement.sum_eq_reduce (by decide) _ fun _ => le_of_mem_words] at hle
  rw [← UInt16.toNat_inj, hvalue, Verifies]
  simp only [UInt16.toNat_zero]
  omega

/-! ## Writing the checksum -/

/-- What verifying comes to for the sum as a number. -/
theorem verifies_iff (c : Nat) (b : List UInt8) :
    Verifies c b ↔ OnesComplement.reduce 0xffff (c + weight false b) = 0xffff := by
  rw [Verifies, OnesComplement.sum_eq_reduce (by decide) _ fun _ => le_of_mem_words, sum_words]

/-- A number of two bytes at an even place adds itself. -/
theorem weight_beBytes_two (h : v < 2 ^ 16) : weight false (beBytes 2 v) = v := by
  simp only [beBytes, weight, Bool.not_false, UInt8.toNat_ofNat']
  simp
  omega

/-- What a string with a 16-bit field at an even place adds to the sum. -/
theorem weight_field {a : List UInt8} (ha : a.length % 2 = 0) (h : v < 2 ^ 16) (b : List UInt8) :
    weight false (a ++ (beBytes 2 v ++ b)) = weight false a + v + weight false b := by
  rw [weight_append false ha, weight_append false (by simp), weight_beBytes_two h, Nat.add_assoc]

/-- **The checksum makes the string verify**: written into a field that was zero when
it was computed, it completes the sum to all ones. -/
theorem verifies_checksum {a : List UInt8} (ha : a.length % 2 = 0) (c : Nat) (b : List UInt8)
    (hv : v = 0xffff - OnesComplement.reduce 0xffff
      (c + weight false (a ++ (beBytes 2 0 ++ b)))) :
    Verifies c (a ++ (beBytes 2 v ++ b)) := by
  rw [weight_field ha (by decide)] at hv
  have hlt : v < 2 ^ 16 := by omega
  have hsum : c + (weight false a + v + weight false b) =
      c + (weight false a + 0 + weight false b) +
        (0xffff - OnesComplement.reduce 0xffff (c + (weight false a + 0 + weight false b))) := by
    omega
  rw [verifies_iff, weight_field ha hlt, hsum, OnesComplement.reduce_add_complement (by decide)]

/-! ## Chunks -/

/-- What the checksum of a string is: the complement of the ones'-complement sum of
an initial sum of 16 bits and the words of the string. -/
def checksum (initialSum : Nat) (b : List UInt8) : Nat :=
  0xffff - (words b).foldl (OnesComplement.add 0xffff) initialSum

/-- The loop of `value` with its end left open: `none` when it is not done after
`n` tests of its condition. -/
def foldTurns : Nat → UInt32 → Option UInt32
  | 0, _ => none
  | n + 1, ret => if ret > 0xffff then foldTurns n ((ret >>> 16) + (ret &&& 0xffff)) else some ret

/-- Where the loop ends, `foldLoop` has ended too. -/
theorem foldLoop_of_foldTurns (h : foldTurns n ret = some r) (hm : ret.toNat ≤ m) :
    foldLoop m ret = r := by
  induction n generalizing m ret with
  | zero => simp [foldTurns] at h
  | succ n ih =>
      rw [foldTurns] at h
      by_cases hbig : ret > 0xffff
      · have hlt : 0xffff < ret.toNat := UInt32.lt_iff_toNat_lt.mp hbig
        obtain ⟨m, rfl⟩ : ∃ k, m = k + 1 := ⟨m - 1, by omega⟩
        rw [if_pos hbig] at h
        rw [foldLoop, if_pos hbig]
        exact ih h (by rw [toNat_foldTurn]; omega)
      · rw [if_neg hbig, Option.some.injEq] at h
        cases m with
        | zero => exact h
        | succ m => rw [foldLoop, if_neg hbig, h]

/-- The first turn leaves at most one carry and the second none, so the third test ends
the loop, whatever the sum. -/
theorem foldTurns_three (ret : UInt32) : foldTurns 3 ret = some (foldLoop ret.toNat ret) := by
  have hret := ret.toNat_lt
  have hone := toNat_foldTurn ret
  have htwo := toNat_foldTurn ((ret >>> 16) + (ret &&& 0xffff))
  have hstop : ∃ r, foldTurns 3 ret = some r := by
    simp only [foldTurns, gt_iff_lt, UInt32.lt_iff_toNat_lt, UInt32.reduceToNat]
    split
    · split
      · rw [if_neg (by omega)]
        exact ⟨_, rfl⟩
      · exact ⟨_, rfl⟩
    · exact ⟨_, rfl⟩
  obtain ⟨r, hr⟩ := hstop
  rw [hr, foldLoop_of_foldTurns hr (Nat.le_refl _)]

/-- How a string is cut does not matter: the parity is carried from chunk to chunk. -/
theorem foldl_add (c : InternetChecksum) (chunks : List (List UInt8)) :
    chunks.foldl add c = c.add chunks.flatten := by
  rw [add, List.foldl_flatten]
  rfl

/-- Up to 128 KiB the 32-bit sum does not wrap: with all bits set in the string and in
the initial sum it comes to `2 ^ 32 - 1`. -/
theorem toNat_add_new {c : UInt32} {b : List UInt8} (hc : c.toNat ≤ 65535)
    (hb : b.length ≤ 131072) : ((new c).add b).sum.toNat = c.toNat + (words b).sum := by
  have hweight := weight_le b
  have hlt : c.toNat + weight false b < 2 ^ 32 := by omega
  rw [toNat_add, sum_words, new, Nat.mod_eq_of_lt hlt]

/-- **The checksum of a string in chunks**: for every string of at most 128 KiB, every
way of cutting it and every initial sum of 16 bits, the value is the checksum of
the whole string; the loop that folds it ends; and after every byte the 32-bit
sum is the sum of the words so far, with nothing lost. -/
theorem value_chunks {c : UInt32} {chunks : List (List UInt8)} (hc : c.toNat ≤ 65535)
    (hlen : chunks.flatten.length ≤ 131072) :
    (chunks.foldl add (new c)).value.toNat = checksum c.toNat chunks.flatten ∧
    (∃ ret, foldTurns 3 (chunks.foldl add (new c)).sum = some ret ∧
      (chunks.foldl add (new c)).value = (~~~ret).toUInt16) ∧
    ∀ before part rest after, chunks = before ++ (part ++ rest) :: after →
      ((before.foldl add (new c)).add part).sum.toNat =
        c.toNat + (words (before.flatten ++ part)).sum := by
  refine ⟨?_, ⟨_, foldTurns_three _, rfl⟩, fun before part rest after hcut => ?_⟩
  · rw [foldl_add, toNat_value, toNat_add_new hc hlen, checksum,
      ← OnesComplement.sum_eq_reduce (by decide) _ fun _ => le_of_mem_words, OnesComplement.sum,
      OnesComplement.reduce_of_le hc]
  · have hle : (before.flatten ++ part).length ≤ 131072 := by
      simp only [hcut, List.flatten_append, List.flatten_cons, List.length_append] at hlen
      rw [List.length_append]
      omega
    rw [foldl_add, ← add_append, toNat_add_new hc hle]

/-- Three bytes in an odd, an empty and an even chunk, on an initial sum that makes the
sum carry. -/
theorem value_chunks_odd :
    (([[1], [], [2, 3]].foldl add (new 0xffff)).value.toNat = checksum 0xffff [1, 2, 3]) ∧
      checksum 0xffff [1, 2, 3] = 0xfbfd :=
  ⟨(value_chunks (by decide) (by decide)).1, by decide⟩

/-! ## A changed byte -/

/-- Another byte at one place changes the sum by the difference, once or 256 times. -/
theorem weight_set (p : Bool) {b : List UInt8} (h : b[i]? = some old) (byte : UInt8) :
    ∃ unit, (unit = 1 ∨ unit = 256) ∧
      weight p (b.set i byte) + old.toNat * unit = weight p b + byte.toNat * unit := by
  induction b generalizing i p with
  | nil => simp at h
  | cons first rest ih =>
      cases i with
      | zero =>
          rw [List.getElem?_cons_zero, Option.some.injEq] at h
          subst h
          cases p with
          | true => exact ⟨1, .inl rfl, by simp [weight]; omega⟩
          | false => exact ⟨256, .inr rfl, by simp [weight]; omega⟩
      | succ i =>
          rw [List.getElem?_cons_succ] at h
          obtain ⟨unit, hunit, heq⟩ := ih (!p) h
          refine ⟨unit, hunit, ?_⟩
          rw [List.set_cons_succ, weight, weight]
          omega

/-- **A changed byte shows**: the sum moves by less than `0xffff`, so of two strings that
differ in one byte at most one verifies. -/
theorem Verifies.not_set {b : List UInt8} (hb : Verifies c b) (h : b[i]? = some old)
    (hne : byte ≠ old) : ¬ Verifies c (b.set i byte) := by
  intro hset
  rw [verifies_iff] at hb hset
  have hmod := OnesComplement.reduce_mod (M := 0xffff) (c + weight false b)
  have hmod' := OnesComplement.reduce_mod (M := 0xffff) (c + weight false (b.set i byte))
  rw [hb] at hmod
  rw [hset] at hmod'
  have hne' : byte.toNat ≠ old.toNat := fun heq => hne (UInt8.toNat_inj.mp heq)
  have hbyte := byte.toNat_lt
  have hold := old.toNat_lt
  obtain ⟨unit, rfl | rfl, heq⟩ := weight_set false h byte <;> omega

end InternetChecksum

end Sponge
