import NeuralMesh.Codec.Base64
import NeuralMesh.Js.StringText

/-! UTF-8. Encoding is Lean's; decoding is the state machine of the Encoding
Standard, which replaces every ill-formed sequence by U+FFFD instead of
failing, and which returns the text that was encoded. -/
namespace NeuralMesh.Codec

open NeuralMesh.Js

def utf8 (text : Text) : Bytes := text.flatMap String.utf8EncodeChar

def replacement : Char := Char.ofNat 0xFFFD

/-- An unfinished sequence: the bytes still needed, the range of the next one
and the bits read so far. -/
structure Pending where
  needed : Nat
  lower : Nat
  upper : Nat
  bits : Nat

def openSequence (b : Nat) : Text × Option Pending :=
  if b < 0x80 then ([Char.ofNat b], none)
  else if 0xC2 ≤ b ∧ b ≤ 0xDF then ([], some ⟨1, 0x80, 0xBF, b % 32⟩)
  else if 0xE0 ≤ b ∧ b ≤ 0xEF then
    ([], some ⟨2, if b = 0xE0 then 0xA0 else 0x80, if b = 0xED then 0x9F else 0xBF, b % 16⟩)
  else if 0xF0 ≤ b ∧ b ≤ 0xF4 then
    ([], some ⟨3, if b = 0xF0 then 0x90 else 0x80, if b = 0xF4 then 0x8F else 0xBF, b % 8⟩)
  else ([replacement], none)

def continueSequence (p : Pending) (b : Nat) : Text × Option Pending :=
  if p.lower ≤ b ∧ b ≤ p.upper then
    if p.needed = 1 then ([Char.ofNat (p.bits * 64 + b % 64)], none)
    else ([], some ⟨p.needed - 1, 0x80, 0xBF, p.bits * 64 + b % 64⟩)
  -- the byte is read again as the start of a sequence
  else (replacement :: (openSequence b).1, (openSequence b).2)

def decodeByte : Option Pending → UInt8 → Text × Option Pending
  | none, b => openSequence b.toNat
  | some p, b => continueSequence p b.toNat

def decodeFrom : Option Pending → Bytes → Text
  | none, [] => []
  | some _, [] => [replacement]
  | p, b :: bs => (decodeByte p b).1 ++ decodeFrom (decodeByte p b).2 bs

def decodeUtf8 (bytes : Bytes) : Text := decodeFrom none bytes

theorem decodeFrom_cons (p : Option Pending) (b : UInt8) (bs : Bytes) :
    decodeFrom p (b :: bs) = (decodeByte p b).1 ++ decodeFrom (decodeByte p b).2 bs := by
  cases p <;> rfl

theorem decodeFrom_open {n : Nat} {out : Text} {next : Option Pending} (bs : Bytes)
    (byte : n < 256) (opened : openSequence n = (out, next)) :
    decodeFrom none (UInt8.ofNat n :: bs) = out ++ decodeFrom next bs := by
  have value : (UInt8.ofNat n).toNat = n := by simp [Nat.mod_eq_of_lt byte]
  rw [decodeFrom_cons, decodeByte, value, opened]

theorem decodeFrom_continue {n : Nat} {p : Pending} (bs : Bytes) (byte : n < 256)
    (inside : p.lower ≤ n ∧ n ≤ p.upper) (more : p.needed ≠ 1) :
    decodeFrom (some p) (UInt8.ofNat n :: bs) =
      decodeFrom (some ⟨p.needed - 1, 0x80, 0xBF, p.bits * 64 + n % 64⟩) bs := by
  have value : (UInt8.ofNat n).toNat = n := by simp [Nat.mod_eq_of_lt byte]
  rw [decodeFrom_cons, decodeByte, value, continueSequence, if_pos inside, if_neg more,
    List.nil_append]

theorem decodeFrom_finish {n : Nat} {p : Pending} (bs : Bytes) (byte : n < 256)
    (inside : p.lower ≤ n ∧ n ≤ p.upper) (last : p.needed = 1) :
    decodeFrom (some p) (UInt8.ofNat n :: bs) =
      Char.ofNat (p.bits * 64 + n % 64) :: decodeFrom none bs := by
  have value : (UInt8.ofNat n).toNat = n := by simp [Nat.mod_eq_of_lt byte]
  rw [decodeFrom_cons, decodeByte, value, continueSequence, if_pos inside, if_pos last,
    List.singleton_append]

theorem char_of_toNat {c : Char} {n : Nat} (value : n = c.val.toNat) : Char.ofNat n = c := by
  subst value
  exact Char.ofNat_toNat c

theorem decode_char (c : Char) (bs : Bytes) :
    decodeFrom none (String.utf8EncodeChar c ++ bs) = c :: decodeFrom none bs := by
  have valid : c.val.toNat < 0xD800 ∨ 0xDFFF < c.val.toNat ∧ c.val.toNat < 0x110000 := c.valid
  unfold String.utf8EncodeChar
  dsimp only
  generalize value : c.val.toNat = v at valid ⊢
  split_ifs with one two three
  · rw [List.singleton_append, decodeFrom_open bs (by omega) (if_pos (by omega)),
      char_of_toNat value.symm]
    rfl
  · have opened : openSequence (v / 64 % 32 + 0xC0) =
        ([], some ⟨1, 0x80, 0xBF, (v / 64 % 32 + 0xC0) % 32⟩) := by
      rw [openSequence, if_neg (by omega), if_pos (by omega)]
    simp only [List.cons_append, List.nil_append]
    rw [decodeFrom_open _ (by omega) opened, List.nil_append,
      decodeFrom_finish bs (by omega) (by dsimp only; omega) rfl]
    exact congrArg (· :: _) (char_of_toNat (by dsimp only; omega))
  · have opened : openSequence (v / 4096 % 16 + 0xE0) =
        ([], some ⟨2, if v / 4096 % 16 + 0xE0 = 0xE0 then 0xA0 else 0x80,
          if v / 4096 % 16 + 0xE0 = 0xED then 0x9F else 0xBF, (v / 4096 % 16 + 0xE0) % 16⟩) := by
      rw [openSequence, if_neg (by omega), if_neg (by omega), if_pos (by omega)]
    simp only [List.cons_append, List.nil_append]
    rw [decodeFrom_open _ (by omega) opened, List.nil_append,
      decodeFrom_continue _ (by omega) (by dsimp only; split_ifs <;> omega) (by dsimp only; omega),
      decodeFrom_finish bs (by omega) (by dsimp only; omega) rfl]
    exact congrArg (· :: _) (char_of_toNat (by dsimp only; omega))
  · have opened : openSequence (v / 262144 % 8 + 0xF0) =
        ([], some ⟨3, if v / 262144 % 8 + 0xF0 = 0xF0 then 0x90 else 0x80,
          if v / 262144 % 8 + 0xF0 = 0xF4 then 0x8F else 0xBF, (v / 262144 % 8 + 0xF0) % 8⟩) := by
      rw [openSequence, if_neg (by omega), if_neg (by omega), if_neg (by omega),
        if_pos (by omega)]
    simp only [List.cons_append, List.nil_append]
    rw [decodeFrom_open _ (by omega) opened, List.nil_append,
      decodeFrom_continue _ (by omega) (by dsimp only; split_ifs <;> omega) (by dsimp only; omega),
      decodeFrom_continue _ (by omega) (by dsimp only; omega) (by dsimp only; omega),
      decodeFrom_finish bs (by omega) (by dsimp only; omega) rfl]
    exact congrArg (· :: _) (char_of_toNat (by dsimp only; omega))

@[simp] theorem decodeUtf8_utf8 (text : Text) : decodeUtf8 (utf8 text) = text := by
  unfold decodeUtf8 utf8
  induction text with
  | nil => rfl
  | cons c text ih => rw [List.flatMap_cons, decode_char, ih]

/-- The scalar values of a string, with U+FFFD for lone surrogates. -/
def wellFormed : JsString → Text
  | [] => []
  | [u] => if isHigh u || isLow u then [replacement] else [Char.ofNat u.toNat]
  | u :: v :: rest =>
    if isHigh u && isLow v then pairChar u v :: wellFormed rest
    else (if isHigh u || isLow u then replacement else Char.ofNat u.toNat) :: wellFormed (v :: rest)

/-- `Buffer.from(string, "utf-8")` -/
def stringBytes (s : JsString) : Bytes := utf8 (wellFormed s)

theorem utf8_length (text : Text) : (utf8 text).length ≤ 4 * text.length := by
  induction text with
  | nil => exact Nat.le_refl 0
  | cons c text ih =>
    have size := c.utf8Size_le_four
    rw [utf8, List.flatMap_cons, ← utf8, List.length_append, String.length_utf8EncodeChar,
      List.length_cons]
    omega

theorem utf8_injective : Function.Injective utf8 :=
  Function.LeftInverse.injective decodeUtf8_utf8

theorem wellFormed_unit {u : CodeUnit} (high : isHigh u = false) (low : isLow u = false)
    (rest : JsString) : wellFormed (u :: rest) = Char.ofNat u.toNat :: wellFormed rest := by
  cases rest with
  | nil => simp [wellFormed, high, low]
  | cons v rest => simp [wellFormed, high, low]

theorem wellFormed_utf16 (c : Char) (rest : JsString) :
    wellFormed (utf16 c ++ rest) = c :: wellFormed rest := by
  have valid := char_not_surrogate c
  rw [utf16]
  split_ifs with small
  · have value : (UInt16.ofNat c.toNat).toNat = c.toNat := unit_ofNat small
    rw [List.singleton_append, wellFormed_unit, value, Char.ofNat_toNat]
    all_goals
      simp only [isHigh, isLow, value, Bool.and_eq_false_iff, decide_eq_false_iff_not]
      omega
  · have upper : (UInt16.ofNat (0xD800 + (c.toNat - 0x10000) / 0x400)).toNat =
        0xD800 + (c.toNat - 0x10000) / 0x400 := unit_ofNat (by omega)
    have lower : (UInt16.ofNat (0xDC00 + (c.toNat - 0x10000) % 0x400)).toNat =
        0xDC00 + (c.toNat - 0x10000) % 0x400 := unit_ofNat (by omega)
    simp only [List.cons_append, List.nil_append]
    rw [wellFormed, if_pos, pairChar, upper, lower]
    · have value : 0x10000 + (0xD800 + (c.toNat - 0x10000) / 0x400 - 0xD800) * 0x400 +
          (0xDC00 + (c.toNat - 0x10000) % 0x400 - 0xDC00) = c.toNat := by omega
      rw [value, Char.ofNat_toNat]
    · simp only [isHigh, isLow, upper, lower, Bool.and_eq_true, decide_eq_true_eq]
      omega

@[simp] theorem wellFormed_ofText (text : Text) : wellFormed (ofText text) = text := by
  induction text with
  | nil => rfl
  | cons c text ih => rw [ofText, List.flatMap_cons, ← ofText, wellFormed_utf16, ih]

theorem ofText_injective : Function.Injective ofText :=
  Function.LeftInverse.injective wellFormed_ofText

end NeuralMesh.Codec
