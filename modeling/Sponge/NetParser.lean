import Mathlib.Data.Nat.Bitwise
import Sponge.Lib.BigEndian

/-!
# Sponge.NetParser

Reading and writing numbers in network byte order (`parser.hh`, `parser.cc`)
over strings that can lose bytes at the front (`buffer.hh`, `buffer.cc`).

A `Buffer` is the bytes it shows, and a `BufferList` the list of its buffers.
What throws returns `Except`; a parser is a computation over the state
`NetParser` that may throw (`Parse`).  None of the parser's own methods does:
each is the same as a function of the state (`parseInt_run`,
`removePrefix_run`), reading a number and moving on by its size, with an error
flag that stays once it is set.
-/

namespace Sponge

/-- What the code throws, with its text. -/
inductive Exception where
  | outOfRange (what : String)
  | runtimeError (what : String)
  deriving DecidableEq, Repr

@[simp] theorem ok_bind (a : α) (f : α → Except ε β) : (Except.ok a >>= f) = f a := rfl

@[simp] theorem pure_eq_ok (a : α) : (pure a : Except ε α) = .ok a := rfl

/-! ## Buffers -/

abbrev Buffer := List UInt8

namespace Buffer

/-- `Buffer::at`; the text is the standard library's. -/
def byteAt (b : Buffer) (n : Nat) : Except Exception UInt8 :=
  match b[n]? with
  | some byte => .ok byte
  | none => .error (.outOfRange "basic_string_view::at")

/-- Throws if there are fewer bytes. -/
def removePrefix (b : Buffer) (n : Nat) : Except Exception Buffer :=
  if n > b.length then .error (.outOfRange "Buffer::remove_prefix") else .ok (b.drop n)

end Buffer

abbrev BufferList := List Buffer

namespace BufferList

/-- `BufferList::operator Buffer`. -/
def toBuffer : BufferList → Except Exception Buffer
  | [] => .ok []
  | [b] => .ok b
  | _ => .error (.runtimeError
      "BufferList: please use concatenate() to combine a multi-Buffer BufferList into one Buffer")

def concatenate (l : BufferList) : Buffer := l.flatten

def size (l : BufferList) : Nat := (l.map List.length).sum

@[simp] theorem length_concatenate (l : BufferList) : l.concatenate.length = l.size := by
  simp [concatenate, size]

/-- A list of one buffer or none is a buffer. -/
theorem toBuffer_eq {l : BufferList} (h : l.length ≤ 1) : l.toBuffer = .ok l.concatenate := by
  match l with
  | [] => rfl
  | [b] => simp [toBuffer, concatenate]
  | _ :: _ :: _ => simp at h

end BufferList

/-! ## The parser -/

/-- The result of a parse, in the order of the source. -/
inductive ParseResult where
  | NoError
  | BadChecksum
  | PacketTooShort
  | WrongIPVersion
  | HeaderTooShort
  | TruncatedPacket
  | Unsupported
  deriving DecidableEq, Repr

/-- What is left to read, and the error so far. -/
structure NetParser where
  buffer : Buffer
  error : ParseResult := .NoError
  deriving DecidableEq, Repr

/-- A computation over a parser that may throw. -/
abbrev Parse := StateT NetParser (Except Exception)

namespace NetParser

/-- `NetParser::error`. -/
def hasError (p : NetParser) : Bool := p.error != .NoError

/-- An error is noted, not thrown. -/
def checkSize (size : Nat) : Parse Unit :=
  modify fun p => if size > p.buffer.length then { p with error := .PacketTooShort } else p

/-- The loop of `_parse_int`, in a type of `len` bytes. -/
def intLoop (len : Nat) (buffer : Buffer) : Except Exception Nat :=
  (List.range len).foldlM (fun ret i => do
    let byte ← buffer.byteAt i
    pure ((ret * 256 + byte.toNat) % 256 ^ len)) 0

/-- `_parse_int` for a type of `len` bytes. -/
def parseInt (len : Nat) : Parse Nat := do
  checkSize len
  let p ← get
  if p.hasError then return 0
  let ret ← intLoop len p.buffer
  let buffer ← p.buffer.removePrefix len
  set { p with buffer := buffer }
  return ret

def u32 : Parse UInt32 := do return UInt32.ofNat (← parseInt 4)

def u16 : Parse UInt16 := do return UInt16.ofNat (← parseInt 2)

def u8 : Parse UInt8 := do return UInt8.ofNat (← parseInt 1)

/-- After an error, nothing is skipped. -/
def removePrefix (n : Nat) : Parse Unit := do
  checkSize n
  let p ← get
  if p.hasError then return
  let buffer ← p.buffer.removePrefix n
  set { p with buffer := buffer }

/-! ## What the methods do -/

/-- The parser after the next `n` bytes, or after having failed to get them. -/
def advance (p : NetParser) (n : Nat) : NetParser :=
  if n > p.buffer.length then { p with error := .PacketTooShort }
  else if p.hasError then p
  else { p with buffer := p.buffer.drop n }

/-- The number in the next `len` bytes, or zero. -/
def intValue (p : NetParser) (len : Nat) : Nat :=
  if len > p.buffer.length then 0
  else if p.hasError then 0
  else beValue (p.buffer.take len)

/-- The loop reads the bytes it is given one after the other. -/
theorem intLoop_eq {buffer : Buffer} (h : len ≤ buffer.length) :
    intLoop len buffer = .ok (beValue (buffer.take len)) := by
  suffices ∀ n ≤ len, (List.range n).foldlM (fun ret i => do
      let byte ← buffer.byteAt i
      pure ((ret * 256 + byte.toNat) % 256 ^ len)) 0 =
        (.ok (beValue (buffer.take n)) : Except Exception Nat) from this len (Nat.le_refl len)
  intro n hn
  induction n with
  | zero => rfl
  | succ n ih =>
      have hlt : n < buffer.length := by omega
      have hvalue : beValue (buffer.take (n + 1)) = beValue (buffer.take n) * 256 + buffer[n].toNat := by
        rw [List.take_succ_eq_append_getElem hlt, beValue, List.foldl_append]
        rfl
      have hbound := beValue_lt (buffer.take (n + 1))
      rw [List.length_take, Nat.min_eq_left (by omega)] at hbound
      have hpow : 256 ^ (n + 1) ≤ 256 ^ len := Nat.pow_le_pow_right (by decide) hn
      rw [List.range_succ, List.foldlM_append, ih (by omega)]
      simp only [List.foldlM_cons, List.foldlM_nil, Buffer.byteAt, List.getElem?_eq_getElem hlt]
      rw [hvalue] at hbound ⊢
      show Except.ok _ = _
      rw [Nat.mod_eq_of_lt (by omega)]

/-- `_parse_int` never throws. -/
theorem parseInt_run (len : Nat) (p : NetParser) :
    (parseInt len).run p = .ok (p.intValue len, p.advance len) := by
  unfold parseInt checkSize intValue advance
  by_cases hshort : len > p.buffer.length
  · simp [hshort, hasError]
  · by_cases herr : p.hasError = true
    · simp [hshort, herr]
    · simp [hshort, herr, intLoop_eq (Nat.le_of_not_lt hshort), Buffer.removePrefix]

/-- `remove_prefix` never throws. -/
theorem removePrefix_run (n : Nat) (p : NetParser) :
    (removePrefix n).run p = .ok ((), p.advance n) := by
  unfold removePrefix checkSize advance
  by_cases hshort : n > p.buffer.length
  · simp [hshort, hasError]
  · by_cases herr : p.hasError = true
    · simp [hshort, herr]
    · simp [hshort, herr, Buffer.removePrefix]

@[simp] theorem u32_run (p : NetParser) :
    u32.run p = .ok (UInt32.ofNat (p.intValue 4), p.advance 4) := by
  simp only [u32, StateT.run_bind, parseInt_run]
  rfl

@[simp] theorem u16_run (p : NetParser) :
    u16.run p = .ok (UInt16.ofNat (p.intValue 2), p.advance 2) := by
  simp only [u16, StateT.run_bind, parseInt_run]
  rfl

@[simp] theorem u8_run (p : NetParser) :
    u8.run p = .ok (UInt8.ofNat (p.intValue 1), p.advance 1) := by
  simp only [u8, StateT.run_bind, parseInt_run]
  rfl

/-! ## At a known position -/

/-- As long as there are bytes, the parser moves through the string. -/
theorem advance_drop {b : Buffer} (h : i + n ≤ b.length) :
    advance ⟨b.drop i, .NoError⟩ n = ⟨b.drop (i + n), .NoError⟩ := by
  have hlen : ¬ n > b.length - i := by omega
  simp [advance, hasError, hlen]

/-- As long as there are bytes, the parser reads the string's fields. -/
theorem intValue_drop {b : Buffer} (h : i + n ≤ b.length) :
    intValue ⟨b.drop i, .NoError⟩ n = beField b i n := by
  have hlen : ¬ n > b.length - i := by omega
  simp [intValue, hasError, hlen, beField]

/-- The parser has read `n` bytes of `b`, or has failed. -/
def Past (b : Buffer) (n : Nat) (p : NetParser) : Prop :=
  p.error = .NoError → n ≤ b.length ∧ p.buffer = b.drop n

/-- At the start nothing is read. -/
theorem past_start (b : Buffer) : Past b 0 { buffer := b } := by
  simp [Past]

/-- What is read moves on. -/
theorem Past.advance (h : Past b n p) : Past b (n + m) (p.advance m) := by
  unfold NetParser.advance
  split
  · simp [Past]
  · next hlen =>
      split
      · next herr => simp_all [Past, hasError]
      · next herr =>
          intro hok
          obtain ⟨hn, hbuf⟩ := h hok
          rw [hbuf, List.length_drop] at hlen
          exact ⟨by omega, by rw [hbuf, List.drop_drop]⟩

end NetParser

/-! ## The unparser -/

/-- `std::string::resize`. -/
def resize (s : List UInt8) (n : Nat) : List UInt8 :=
  s.take n ++ List.replicate (n - s.length) 0

/-- A string that grows is filled up with zeros. -/
theorem resize_of_le {s : List UInt8} (h : s.length ≤ n) :
    resize s n = s ++ List.replicate (n - s.length) 0 := by
  rw [resize, List.take_of_length_le h]

namespace NetUnparser

/-- `_unparse_int` for a type of `len` bytes. -/
def unparseInt (len : Nat) (s : List UInt8) (val : Nat) : List UInt8 :=
  (List.range len).foldl (fun s i => s ++ [UInt8.ofNat (val >>> ((len - i - 1) * 8) &&& 0xff)]) s

def u32 (s : List UInt8) (val : UInt32) : List UInt8 := unparseInt 4 s val.toNat

def u16 (s : List UInt8) (val : UInt16) : List UInt8 := unparseInt 2 s val.toNat

def u8 (s : List UInt8) (val : UInt8) : List UInt8 := unparseInt 1 s val.toNat

/-- One byte of a number. -/
theorem ofNat_shiftRight_and (val k : Nat) :
    UInt8.ofNat (val >>> (k * 8) &&& 0xff) = UInt8.ofNat (val / 256 ^ k) := by
  have hand : val >>> (k * 8) &&& 0xff = val >>> (k * 8) % 2 ^ 8 :=
    Nat.and_two_pow_sub_one_eq_mod _ 8
  have hpow : 2 ^ (k * 8) = 256 ^ k := by
    rw [Nat.mul_comm, Nat.pow_mul]
  apply UInt8.toNat_inj.mp
  rw [UInt8.toNat_ofNat', UInt8.toNat_ofNat', hand, Nat.mod_mod, Nat.shiftRight_eq_div_pow, hpow]

theorem foldl_append_singleton (f : α → UInt8) (s : List UInt8) (l : List α) :
    l.foldl (fun s i => s ++ [f i]) s = s ++ l.map f := by
  induction l generalizing s with
  | nil => simp
  | cons i l ih => rw [List.foldl_cons, ih, List.map_cons, List.append_assoc, List.singleton_append]

/-- The loop appends the bytes of the number. -/
theorem unparseInt_eq (len : Nat) (s : List UInt8) (val : Nat) :
    unparseInt len s val = s ++ beBytes len val := by
  rw [unparseInt, foldl_append_singleton]
  congr 1
  induction len with
  | zero => rfl
  | succ len ih =>
      rw [List.range_succ_eq_map, List.map_cons, List.map_map, beBytes, ← ih,
        show len + 1 - 0 - 1 = len by omega, ofNat_shiftRight_and]
      congr 2
      funext i
      rw [Function.comp_apply, show len + 1 - i.succ - 1 = len - i - 1 by omega]

@[simp] theorem u32_eq (s : List UInt8) (val : UInt32) : u32 s val = s ++ beBytes 4 val.toNat :=
  unparseInt_eq 4 s _

@[simp] theorem u16_eq (s : List UInt8) (val : UInt16) : u16 s val = s ++ beBytes 2 val.toNat :=
  unparseInt_eq 2 s _

@[simp] theorem u8_eq (s : List UInt8) (val : UInt8) : u8 s val = s ++ beBytes 1 val.toNat :=
  unparseInt_eq 1 s _

end NetUnparser

/-! ## Bits of a field -/

/-- A flag in a byte is one of its bits. -/
theorem and_ne_zero_of_uint8 {mask : UInt8} (h : mask.toNat = 2 ^ k) (byte : UInt8) :
    (byte &&& mask != 0) = byte.toNat.testBit k := by
  have hand : (byte &&& mask).toNat = (byte.toNat.testBit k).toNat * 2 ^ k := by
    rw [UInt8.toNat_and, h, Nat.and_two_pow]
  rw [Bool.eq_iff_iff, bne_iff_ne, ne_eq, ← UInt8.toNat_inj, hand]
  cases byte.toNat.testBit k <;> simp

/-- A flag in a 16-bit field is one of its bits. -/
theorem and_ne_zero_of_uint16 {mask : UInt16} (h : mask.toNat = 2 ^ k) (field : UInt16) :
    (field &&& mask != 0) = field.toNat.testBit k := by
  have hand : (field &&& mask).toNat = (field.toNat.testBit k).toNat * 2 ^ k := by
    rw [UInt16.toNat_and, h, Nat.and_two_pow]
  rw [Bool.eq_iff_iff, bne_iff_ne, ne_eq, ← UInt16.toNat_inj, hand]
  cases field.toNat.testBit k <;> simp

/-- The upper half of a byte. -/
theorem toNat_shiftRight_four (byte : UInt8) : (byte >>> 4).toNat = byte.toNat / 16 := by
  simp [UInt8.toNat_shiftRight, Nat.shiftRight_eq_div_pow]

/-- The lower half of a byte. -/
theorem toNat_and_fifteen (byte : UInt8) : (byte &&& 0x0f).toNat = byte.toNat % 16 := by
  rw [UInt8.toNat_and]
  exact Nat.and_two_pow_sub_one_eq_mod _ 4

/-- A header length in units of four bytes that was found large enough, and the skip
that the code computes from it in `size_t`. -/
theorem skip_eq {field : UInt8} (h : ¬ field < 5) :
    5 ≤ field.toNat ∧ (field.toNat * 4 + 2 ^ 64 - 20) % 2 ^ 64 = 4 * field.toNat - 20 := by
  have hlt := field.toNat_lt
  have hge : 5 ≤ field.toNat := by
    rw [UInt8.lt_iff_toNat_lt] at h
    exact Nat.le_of_not_lt h
  omega

/-- A field of one, two or four bytes fits its type. -/
theorem beField_lt (b : List UInt8) (i len : Nat) : beField b i len < 256 ^ len := by
  have hlt := beValue_lt ((b.drop i).take len)
  have hle : ((b.drop i).take len).length ≤ len := List.length_take_le _ _
  exact Nat.lt_of_lt_of_le hlt (Nat.pow_le_pow_right (by decide) hle)

@[simp] theorem toNat_ofNat_beField_one (b : List UInt8) (i : Nat) :
    (UInt8.ofNat (beField b i 1)).toNat = beField b i 1 := by
  rw [UInt8.toNat_ofNat']
  exact Nat.mod_eq_of_lt (beField_lt b i 1)

@[simp] theorem toNat_ofNat_beField_two (b : List UInt8) (i : Nat) :
    (UInt16.ofNat (beField b i 2)).toNat = beField b i 2 := by
  rw [UInt16.toNat_ofNat']
  exact Nat.mod_eq_of_lt (beField_lt b i 2)

@[simp] theorem toNat_ofNat_beField_four (b : List UInt8) (i : Nat) :
    (UInt32.ofNat (beField b i 4)).toNat = beField b i 4 := by
  rw [UInt32.toNat_ofNat']
  exact Nat.mod_eq_of_lt (beField_lt b i 4)

/-! ## Strings that are long enough -/

/-- A string with enough bytes starts with a number. -/
theorem beBytes_beField_append {b : Buffer} (h : n ≤ b.length) :
    beBytes n (beField b 0 n) ++ b.drop n = b := by
  have hbytes := beBytes_beValue (b.take n)
  rw [List.length_take, Nat.min_eq_left h] at hbytes
  rw [beField, List.drop_zero, hbytes, List.take_append_drop]

/-- A byte to read. -/
theorem exists_u8_append {b : Buffer} (h : 1 ≤ b.length) :
    ∃ (val : UInt8) (t : Buffer), b = beBytes 1 val.toNat ++ t := by
  refine ⟨UInt8.ofNat (beField b 0 1), b.drop 1, ?_⟩
  rw [toNat_ofNat_beField_one, beBytes_beField_append h]

/-- Two bytes to read. -/
theorem exists_u16_append {b : Buffer} (h : 2 ≤ b.length) :
    ∃ (val : UInt16) (t : Buffer), b = beBytes 2 val.toNat ++ t := by
  refine ⟨UInt16.ofNat (beField b 0 2), b.drop 2, ?_⟩
  rw [toNat_ofNat_beField_two, beBytes_beField_append h]

/-- Four bytes to read. -/
theorem exists_u32_append {b : Buffer} (h : 4 ≤ b.length) :
    ∃ (val : UInt32) (t : Buffer), b = beBytes 4 val.toNat ++ t := by
  refine ⟨UInt32.ofNat (beField b 0 4), b.drop 4, ?_⟩
  rw [toNat_ofNat_beField_four, beBytes_beField_append h]

/-! ## Reading what was written -/

namespace NetParser

/-- To move on past a string leaves what follows. -/
theorem advance_append {c : Buffer} (h : c.length = n) :
    advance ⟨c ++ t, .NoError⟩ n = ⟨t, .NoError⟩ := by
  subst h
  simp [advance, hasError]

/-- A number is read as it was written, up to its width. -/
theorem intValue_beBytes (len n : Nat) (t : Buffer) :
    intValue ⟨beBytes len n ++ t, .NoError⟩ len = n % 256 ^ len := by
  have hshort : ¬ len > (beBytes len n ++ t).length := by simp
  have htake : (beBytes len n ++ t).take len = beBytes len n := by
    rw [List.take_append_of_le_length (by simp), List.take_of_length_le (by simp)]
  simp only [intValue, hshort, hasError, htake, beValue_beBytes]
  rfl

/-- Four bytes are read as they were written. -/
theorem u32_run_beBytes (val : UInt32) (t : Buffer) :
    u32.run ⟨beBytes 4 val.toNat ++ t, .NoError⟩ = .ok (val, ⟨t, .NoError⟩) := by
  have hval : val.toNat < 256 ^ 4 := val.toNat_lt
  rw [u32_run, intValue_beBytes, advance_append (length_beBytes 4 _), Nat.mod_eq_of_lt hval,
    UInt32.ofNat_toNat]

/-- Two bytes are read as they were written. -/
theorem u16_run_beBytes (val : UInt16) (t : Buffer) :
    u16.run ⟨beBytes 2 val.toNat ++ t, .NoError⟩ = .ok (val, ⟨t, .NoError⟩) := by
  have hval : val.toNat < 256 ^ 2 := val.toNat_lt
  rw [u16_run, intValue_beBytes, advance_append (length_beBytes 2 _), Nat.mod_eq_of_lt hval,
    UInt16.ofNat_toNat]

/-- One byte is read as it was written. -/
theorem u8_run_beBytes (val : UInt8) (t : Buffer) :
    u8.run ⟨beBytes 1 val.toNat ++ t, .NoError⟩ = .ok (val, ⟨t, .NoError⟩) := by
  have hval : val.toNat < 256 ^ 1 := val.toNat_lt
  rw [u8_run, intValue_beBytes, advance_append (length_beBytes 1 _), Nat.mod_eq_of_lt hval,
    UInt8.ofNat_toNat]

theorem u8_run_cons (byte : UInt8) (t : Buffer) :
    u8.run ⟨byte :: t, .NoError⟩ = .ok (byte, ⟨t, .NoError⟩) := by
  have hrun := u8_run_beBytes byte t
  rwa [beBytes_one] at hrun

end NetParser

end Sponge
