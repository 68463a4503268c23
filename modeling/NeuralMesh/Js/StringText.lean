import NeuralMesh.Js.Decimal
import Mathlib.Data.UInt

/-! ECMAScript strings as UTF-16 code units, and their JSON spelling. Text is a
list of Unicode scalar values; a string may hold lone surrogates, which the
quoting escapes, so every quoted string is well-formed text. -/
namespace NeuralMesh.Js

abbrev CodeUnit := UInt16

abbrev JsString := List CodeUnit

/-- Strings are equal where `==` says so, which a membership test asks. -/
instance : LawfulBEq JsString := inferInstance

/-! ### UTF-16 -/

def isHigh (u : CodeUnit) : Bool := 0xD800 ≤ u.toNat && u.toNat ≤ 0xDBFF

def isLow (u : CodeUnit) : Bool := 0xDC00 ≤ u.toNat && u.toNat ≤ 0xDFFF

def utf16 (c : Char) : JsString :=
  if c.toNat < 0x10000 then [UInt16.ofNat c.toNat]
  else [UInt16.ofNat (0xD800 + (c.toNat - 0x10000) / 0x400),
    UInt16.ofNat (0xDC00 + (c.toNat - 0x10000) % 0x400)]

def ofText (text : Text) : JsString := text.flatMap utf16

/-- The code units of a source literal. -/
def js (literal : String) : JsString := ofText literal.toList

/-- The scalar value of a surrogate pair. -/
def pairChar (high low : CodeUnit) : Char :=
  Char.ofNat (0x10000 + (high.toNat - 0xD800) * 0x400 + (low.toNat - 0xDC00))

theorem unit_bound (u : CodeUnit) : u.toNat < 65536 := u.toNat_lt

theorem unit_ofNat {n : Nat} (bound : n < 65536) : (UInt16.ofNat n).toNat = n := by
  simp [Nat.mod_eq_of_lt bound]

theorem char_ofNat {n : Nat} (valid : n.isValidChar) : (Char.ofNat n).toNat = n := by
  unfold Char.ofNat
  rw [dif_pos valid]
  rfl

theorem char_not_surrogate (c : Char) : c.toNat < 0xD800 ∨ 0xDFFF < c.toNat ∧ c.toNat < 0x110000 :=
  c.valid

theorem utf16_pairChar {high low : CodeUnit} (h : isHigh high = true) (l : isLow low = true) :
    utf16 (pairChar high low) = [high, low] := by
  simp only [isHigh, isLow, Bool.and_eq_true, decide_eq_true_eq] at h l
  have value : (pairChar high low).toNat =
      0x10000 + (high.toNat - 0xD800) * 0x400 + (low.toNat - 0xDC00) := by
    apply char_ofNat
    right
    omega
  have upper : 0xD800 + ((pairChar high low).toNat - 0x10000) / 0x400 = high.toNat := by omega
  have lower : 0xDC00 + ((pairChar high low).toNat - 0x10000) % 0x400 = low.toNat := by omega
  simp only [utf16, upper, lower, UInt16.ofNat_toNat]
  rw [if_neg (by omega)]

theorem utf16_unit {u : CodeUnit} (h : isHigh u = false) (l : isLow u = false) :
    (Char.ofNat u.toNat).toNat = u.toNat ∧ utf16 (Char.ofNat u.toNat) = [u] := by
  have bound := unit_bound u
  simp only [isHigh, isLow, Bool.and_eq_false_iff, decide_eq_false_iff_not] at h l
  have value : (Char.ofNat u.toNat).toNat = u.toNat := by
    apply char_ofNat
    by_cases below : u.toNat < 0xD800
    · exact .inl below
    · right
      omega
  refine ⟨value, ?_⟩
  simp only [utf16, value, UInt16.ofNat_toNat]
  rw [if_pos (by omega)]

/-! ### Quoting -/

def hexDigit (d : Nat) : Char := if d < 10 then Char.ofNat (d + 48) else Char.ofNat (d + 87)

def hexValue (c : Char) : Option Nat :=
  if 48 ≤ c.toNat ∧ c.toNat ≤ 57 then some (c.toNat - 48)
  else if 97 ≤ c.toNat ∧ c.toNat ≤ 102 then some (c.toNat - 87)
  else if 65 ≤ c.toNat ∧ c.toNat ≤ 70 then some (c.toNat - 55)
  else none

def hex4 (n : Nat) : Text :=
  [hexDigit (n / 4096 % 16), hexDigit (n / 256 % 16), hexDigit (n / 16 % 16), hexDigit (n % 16)]

def readHex4 (a b c d : Char) : Option CodeUnit :=
  match hexValue a, hexValue b, hexValue c, hexValue d with
  | some a, some b, some c, some d => some (UInt16.ofNat (((a * 16 + b) * 16 + c) * 16 + d))
  | _, _, _, _ => none

theorem hexValue_hexDigit : ∀ d < 16, hexValue (hexDigit d) = some d := by decide

theorem readHex4_hex4 (u : CodeUnit) : readHex4
    (hexDigit (u.toNat / 4096 % 16)) (hexDigit (u.toNat / 256 % 16))
    (hexDigit (u.toNat / 16 % 16)) (hexDigit (u.toNat % 16)) = some u := by
  have bound := unit_bound u
  have digit (n : Nat) := hexValue_hexDigit (n % 16) (Nat.mod_lt n (by decide))
  have value : ((u.toNat / 4096 % 16 * 16 + u.toNat / 256 % 16) * 16 + u.toNat / 16 % 16) * 16 +
      u.toNat % 16 = u.toNat := by omega
  simp only [readHex4, digit, value, UInt16.ofNat_toNat]

/-- The two-character escapes of `QuoteJSONString`. -/
def shortEscape (u : CodeUnit) : Option Char :=
  if u = 0x08 then some 'b'
  else if u = 0x09 then some 't'
  else if u = 0x0A then some 'n'
  else if u = 0x0C then some 'f'
  else if u = 0x0D then some 'r'
  else if u = 0x22 then some '"'
  else if u = 0x5C then some '\\'
  else none

/-- A code unit that is not part of a surrogate pair. -/
def quoteUnit (u : CodeUnit) : Text :=
  match shortEscape u with
  | some c => ['\\', c]
  | none =>
    if u.toNat < 0x20 || isHigh u || isLow u then '\\' :: 'u' :: hex4 u.toNat
    else [Char.ofNat u.toNat]

def quoteBody : JsString → Text
  | [] => []
  | [u] => quoteUnit u
  | u :: v :: rest =>
    if isHigh u && isLow v then pairChar u v :: quoteBody rest
    else quoteUnit u ++ quoteBody (v :: rest)

def quote (s : JsString) : Text := '"' :: (quoteBody s ++ ['"'])

/-! ### Reading -/

def readShortEscape (c : Char) : Option CodeUnit :=
  if c = 'b' then some 0x08
  else if c = 't' then some 0x09
  else if c = 'n' then some 0x0A
  else if c = 'f' then some 0x0C
  else if c = 'r' then some 0x0D
  else if c = '"' then some 0x22
  else if c = '\\' then some 0x5C
  else if c = '/' then some 0x2F
  else none

/-- Reads the rest of a JSON string after its opening quote. -/
def readString : Text → Option (JsString × Text)
  | [] => none
  | '"' :: cs => some ([], cs)
  | '\\' :: 'u' :: a :: b :: c :: d :: cs =>
    match readHex4 a b c d with
    | some u => (readString cs).map fun (s, rest) => (u :: s, rest)
    | none => none
  | '\\' :: c :: cs =>
    match readShortEscape c with
    | some u => (readString cs).map fun (s, rest) => (u :: s, rest)
    | none => none
  | '\\' :: [] => none
  | c :: cs =>
    if c.toNat < 0x20 then none
    else (readString cs).map fun (s, rest) => (utf16 c ++ s, rest)

theorem readString_plain {c : Char} (cs : Text) (quoted : c ≠ '"') (escape : c ≠ '\\')
    (control : 0x20 ≤ c.toNat) :
    readString (c :: cs) = (readString cs).map fun (s, rest) => (utf16 c ++ s, rest) := by
  rw [readString.eq_def]
  split <;> simp_all

theorem readShortEscape_shortEscape {u : CodeUnit} {c : Char} (short : shortEscape u = some c) :
    readShortEscape c = some u ∧ c ≠ 'u' := by
  unfold shortEscape at short
  split_ifs at short <;> simp_all <;> subst c <;> decide

theorem readString_escape {u : CodeUnit} {c : Char} (cs : Text) (short : shortEscape u = some c) :
    readString ('\\' :: c :: cs) = (readString cs).map fun (s, rest) => (u :: s, rest) := by
  obtain ⟨read, plain⟩ := readShortEscape_shortEscape short
  rw [readString.eq_def]
  split
  case h_6 c' cs' _ more _ same =>
    obtain ⟨rfl, rfl⟩ := List.cons.inj same
    exact absurd rfl (more c cs rfl)
  all_goals simp_all

theorem readString_quoteUnit (u : CodeUnit) (cs : Text) :
    readString (quoteUnit u ++ cs) = (readString cs).map fun (s, rest) => (u :: s, rest) := by
  unfold quoteUnit
  cases short : shortEscape u with
  | some c => exact readString_escape cs short
  | none =>
    dsimp only
    split_ifs with escaped
    · simp only [hex4, List.cons_append, List.nil_append, readString, readHex4_hex4]
    · simp only [Bool.or_eq_true, decide_eq_true_eq, not_or, Bool.not_eq_true, Nat.not_lt] at escaped
      obtain ⟨⟨control, high⟩, low⟩ := escaped
      obtain ⟨value, units⟩ := utf16_unit high low
      have unquoted : Char.ofNat u.toNat ≠ '"' := by
        intro same
        have : u = 0x22 := UInt16.toNat_inj.mp (by rw [← value, same]; rfl)
        simp [this, shortEscape] at short
      have unescaped : Char.ofNat u.toNat ≠ '\\' := by
        intro same
        have : u = 0x5C := UInt16.toNat_inj.mp (by rw [← value, same]; rfl)
        simp [this, shortEscape] at short
      rw [List.singleton_append, readString_plain cs unquoted unescaped (by omega), units]
      rfl

theorem readString_pair {high low : CodeUnit} (h : isHigh high = true) (l : isLow low = true)
    (cs : Text) : readString (pairChar high low :: cs) =
      (readString cs).map fun (s, rest) => (high :: low :: s, rest) := by
  have units := utf16_pairChar h l
  have large : 0x10000 ≤ (pairChar high low).toNat := by
    by_contra small
    simp [utf16, Nat.not_le.mp small] at units
  have apart (c : Char) (below : c.toNat < 0x10000) : pairChar high low ≠ c := by
    rintro rfl
    omega
  rw [readString_plain cs (apart _ (by decide)) (apart _ (by decide)) (by omega), units]
  rfl

/-- Reading a quoted body returns the code units and stops after the quote. -/
theorem readString_quoteBody (s : JsString) (rest : Text) :
    readString (quoteBody s ++ '"' :: rest) = some (s, rest) := by
  induction s using quoteBody.induct with
  | case1 => rfl
  | case2 u =>
    rw [quoteBody, readString_quoteUnit]
    rfl
  | case3 u v tail pair ih =>
    simp only [Bool.and_eq_true] at pair
    simp only [quoteBody, pair, Bool.and_self, if_true, List.cons_append,
      readString_pair pair.1 pair.2, ih, Option.map_some]
  | case4 u v tail pair ih =>
    rw [quoteBody, if_neg pair, List.append_assoc, readString_quoteUnit, ih, Option.map_some]

theorem quote_injective (s t : JsString) (u v : Text) (same : quote s ++ u = quote t ++ v) :
    s = t ∧ u = v := by
  simp only [quote, List.cons_append, List.append_assoc, List.nil_append, List.cons.injEq,
    true_and] at same
  have read := readString_quoteBody s u
  rw [same, readString_quoteBody t v] at read
  simpa [eq_comm] using read

/-! ### Sets -/

/-- `Set.prototype.add`; the elements are in the order of insertion. -/
def setAdd {α : Type} [DecidableEq α] (set : List α) (element : α) : List α :=
  if element ∈ set then set else set ++ [element]

theorem mem_setAdd {α : Type} [DecidableEq α] {set : List α} {added element : α} :
    element ∈ setAdd set added ↔ element ∈ set ∨ element = added := by
  rw [setAdd]
  split
  next known =>
    constructor
    · exact .inl
    · rintro (member | rfl)
      · exact member
      · exact known
  next => simp

theorem mem_foldl_setAdd {α : Type} [DecidableEq α] {elements set : List α} {element : α} :
    element ∈ elements.foldl setAdd set ↔ element ∈ set ∨ element ∈ elements := by
  induction elements generalizing set with
  | nil => simp
  | cons added elements ih => rw [List.foldl_cons, ih, mem_setAdd, List.mem_cons, or_assoc]

end NeuralMesh.Js
