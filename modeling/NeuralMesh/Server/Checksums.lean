import Mathlib.Data.ZMod.Basic
import NeuralMesh.Checksum
import NeuralMesh.Server.BoundaryPattern
import NeuralMesh.Server.CreditCards
import NeuralMesh.Server.Revocation

/-! The checksums of card numbers and bank accounts. Both are read unit by unit into a remainder,
and no digit or letter can be changed into another one without changing the remainder. -/
namespace NeuralMesh.Server

open Js

/-! ### Bank accounts -/

/-- The capital of a code point; `mapping` has those beyond ASCII, which may be several letters. -/
def upperPoint (mapping : JsString → JsString) (unit : CodeUnit) : JsString :=
  if unit < 128 then [upperUnit unit] else mapping [unit]

def toUpperCase (mapping : JsString → JsString) : JsString → JsString
  | [] => []
  | [unit] => upperPoint mapping unit
  | unit :: next :: rest =>
    if isHigh unit && isLow next then mapping [unit, next] ++ toUpperCase mapping rest
    else upperPoint mapping unit ++ toUpperCase mapping (next :: rest)

/-- `/^[A-Z]{2}[0-9]{2}[A-Z0-9]{1,30}$/.test(sanitized)` -/
def hasIbanShape : JsString → Bool
  | a :: b :: c :: d :: rest =>
    isUpperUnit a && isUpperUnit b && isDigitUnit c && isDigitUnit d &&
      rest.all (fun unit => isUpperUnit unit || isDigitUnit unit) &&
      1 ≤ rest.length && rest.length ≤ 30
  | _ => false

/-- The decimal digits of a unit: two for a letter. -/
def numericUnit (charCode : CodeUnit) : Option JsString :=
  if isUpperUnit charCode then some (ofText (natText (charCode.toNat - 55)))
  else if isDigitUnit charCode then some [charCode]
  else none

/-- The loop over the rearranged text; `none` where it returns `false`. -/
def numericString : JsString → Option JsString
  | [] => some []
  | charCode :: rest =>
    (numericUnit charCode).bind fun digits => (numericString rest).map (digits ++ ·)

def appendDigit (n : Nat) (digit : CodeUnit) : Nat := n * 10 + (digit.toNat - 48)

/-- `BigInt(digits)` -/
def bigInt (digits : JsString) : Nat := digits.foldl appendDigit 0

def sanitize (mapping : JsString → JsString) (iban : JsString) : JsString :=
  toUpperCase mapping (iban.filter fun unit => !isSpaceUnit unit)

def rearrange (sanitized : JsString) : JsString := sanitized.drop 4 ++ sanitized.take 4

def isIbanValid (mapping : JsString → JsString) (iban : JsString) : Bool :=
  let sanitized := sanitize mapping iban
  if !hasIbanShape sanitized then false
  else
    match numericString (rearrange sanitized) with
    | none => false
    | some digits => bigInt digits % 97 = 1

/-! ### Slips -/

/-- A digit and another one. -/
structure DigitSlip (unit other : CodeUnit) : Prop where
  digit : isDigitUnit unit = true
  digit' : isDigitUnit other = true
  differ : unit ≠ other

/-- An ASCII letter and another one, in either case. -/
structure LetterSlip (unit other : CodeUnit) : Prop where
  letter : isUpperUnit (upperUnit unit) = true
  letter' : isUpperUnit (upperUnit other) = true
  differ : upperUnit unit ≠ upperUnit other

section Slips

variable {unit other : CodeUnit}

theorem digit_toNat (digit : isDigitUnit unit = true) : 48 ≤ unit.toNat ∧ unit.toNat ≤ 57 := by
  simp only [isDigitUnit, Bool.and_eq_true, decide_eq_true_eq, UInt16.le_iff_toNat_le] at digit
  exact digit

theorem upper_toNat (upper : isUpperUnit unit = true) : 65 ≤ unit.toNat ∧ unit.toNat ≤ 90 := by
  simp only [isUpperUnit, Bool.and_eq_true, decide_eq_true_eq, UInt16.le_iff_toNat_le] at upper
  exact upper

/-! ### The Luhn sum -/

/-- What a digit adds to the sum. -/
def luhnValue (digit : Nat) (isEven : Bool) : Nat :=
  if isEven then (if 9 < digit * 2 then digit * 2 - 9 else digit * 2) else digit

/-- The step of the sum modulo 10. -/
def luhnStep (state : ZMod 10 × Bool) (unit : CodeUnit) : ZMod 10 × Bool :=
  (state.1 + luhnValue (unit.toNat - 48) state.2, !state.2)

def luhnResidue (state : Nat × Bool) : ZMod 10 × Bool := (state.1, state.2)

theorem luhnResidue_digit (unit : CodeUnit) (state : Nat × Bool) :
    luhnResidue (luhnDigit unit state) = luhnStep (luhnResidue state) unit := by
  obtain ⟨sum, isEven⟩ := state
  rw [luhnResidue, luhnDigit, luhnStep, luhnResidue]
  dsimp only
  rw [Nat.cast_add, luhnValue]

theorem luhnResidue_foldr (digits : JsString) :
    luhnResidue (digits.foldr luhnDigit (0, false)) =
      digits.foldr (fun unit state => luhnStep state unit) (0, false) := by
  induction digits with
  | nil => rfl
  | cons unit digits ih => rw [List.foldr_cons, List.foldr_cons, luhnResidue_digit, ih]

theorem luhnStep_reversible : Reversible luhnStep := by
  rintro unit ⟨sum, isEven⟩ ⟨sum', isEven'⟩ same
  obtain ⟨sums, evens⟩ := Prod.mk.inj same
  dsimp only at sums evens
  cases Bool.not_inj evens
  rw [add_right_cancel sums]

/-- Doubling, with 9 taken off what is over 9, is a permutation of the digits. -/
theorem luhnValue_injective : ∀ isEven : Bool, ∀ d < 10, ∀ e < 10,
    (luhnValue d isEven : ZMod 10) = luhnValue e isEven → d = e := by
  decide

theorem DigitSlip.luhn_apart (slip : DigitSlip unit other) : Apart luhnStep unit other := by
  intro state same
  have digit := digit_toNat slip.digit
  have digit' := digit_toNat slip.digit'
  have values := add_left_cancel (Prod.mk.inj same).1
  have equal := luhnValue_injective state.2 (unit.toNat - 48) (by omega) (other.toNat - 48)
    (by omega) values
  exact slip.differ (UInt16.toNat_inj.mp (by omega))

/-- Only the number of digits decides which of them are doubled. -/
theorem luhnStep_even (digits : JsString) (state : ZMod 10 × Bool) :
    (digits.foldr (fun unit state => luhnStep state unit) state).2 =
      Bool.not^[digits.length] state.2 := by
  induction digits with
  | nil => rfl
  | cons unit digits ih =>
    rw [List.foldr_cons, List.length_cons, Function.iterate_succ_apply', ← ih]
    rfl

theorem filter_slip {before after : JsString} {p : CodeUnit → Bool} (kept : p unit = true) :
    (before ++ unit :: after).filter p = before.filter p ++ unit :: after.filter p := by
  rw [List.filter_append, List.filter_cons_of_pos kept]

theorem isLuhnValid_sum {text : JsString} (valid : isLuhnValid text = true) :
    ((text.filter isDigitUnit).foldr (fun unit state => luhnStep state unit)
      ((0, false) : ZMod 10 × Bool)).1 = 0 := by
  have residue := luhnResidue_foldr (text.filter isDigitUnit)
  rw [isLuhnValid] at valid
  split_ifs at valid
  rw [← residue]
  exact (ZMod.natCast_eq_zero_iff _ 10).mpr (Nat.dvd_of_mod_eq_zero (of_decide_eq_true valid))

theorem DigitSlip.luhn {before after : JsString} (slip : DigitSlip unit other)
    (valid : isLuhnValid (before ++ unit :: after) = true) :
    isLuhnValid (before ++ other :: after) = false := by
  by_contra also
  have sum := isLuhnValid_sum valid
  have sum' := isLuhnValid_sum (Bool.not_eq_false _ ▸ also)
  rw [filter_slip slip.digit] at sum
  rw [filter_slip slip.digit'] at sum'
  refine foldr_ne luhnStep_reversible slip.luhn_apart (before.filter isDigitUnit)
    (after.filter isDigitUnit) (0, false) (Prod.ext (sum.trans sum'.symm) ?_)
  rw [luhnStep_even, luhnStep_even, List.length_append, List.length_append, List.length_cons,
    List.length_cons]

/-! ### The remainder by 97 -/

/-- Reading a digit or a letter of the rearranged text modulo 97. -/
def ibanStep (n : ZMod 97) (unit : CodeUnit) : ZMod 97 :=
  if isUpperUnit unit then n * (100 : Nat) + (unit.toNat - 55 : Nat)
  else n * (10 : Nat) + (unit.toNat - 48 : Nat)

theorem letter_digits : ∀ n < 36, 10 ≤ n →
    ofText (natText n) = [UInt16.ofNat (48 + n / 10), UInt16.ofNat (48 + n % 10)] := by
  decide

theorem numericUnit_residue {digits : JsString} (read : numericUnit unit = some digits) (n : Nat) :
    ((digits.foldl appendDigit n : Nat) : ZMod 97) = ibanStep n unit := by
  rw [numericUnit] at read
  rw [ibanStep]
  split_ifs at read with upper digit
  · have range := upper_toNat upper
    cases read
    rw [if_pos upper, letter_digits _ (by omega) (by omega), List.foldl_cons, List.foldl_cons,
      List.foldl_nil]
    have high : (UInt16.ofNat (48 + (unit.toNat - 55) / 10)).toNat - 48 =
        (unit.toNat - 55) / 10 := by
      rw [unit_ofNat (by omega), Nat.add_sub_cancel_left]
    have low : (UInt16.ofNat (48 + (unit.toNat - 55) % 10)).toNat - 48 =
        (unit.toNat - 55) % 10 := by
      rw [unit_ofNat (by omega), Nat.add_sub_cancel_left]
    rw [appendDigit, appendDigit, high, low]
    have value : (n * 10 + (unit.toNat - 55) / 10) * 10 + (unit.toNat - 55) % 10 =
        n * 100 + (unit.toNat - 55) := by omega
    rw [value]
    push_cast
    rfl
  · cases read
    rw [if_neg upper, List.foldl_cons, List.foldl_nil, appendDigit]
    push_cast
    rfl

theorem numericString_residue {text digits : JsString} (read : numericString text = some digits)
    (n : Nat) :
    ((digits.foldl appendDigit n : Nat) : ZMod 97) = text.foldl ibanStep (n : ZMod 97) := by
  induction text generalizing digits n with
  | nil =>
    cases read
    rfl
  | cons unit text ih =>
    rw [numericString, Option.bind_eq_some_iff] at read
    obtain ⟨first, head, read⟩ := read
    obtain ⟨rest, tail, rfl⟩ := Option.map_eq_some_iff.mp read
    rw [List.foldl_append, ih tail, List.foldl_cons, numericUnit_residue head]

theorem ibanStep_reversible : Reversible ibanStep := by
  intro unit n m same
  dsimp only [ibanStep] at same
  split_ifs at same
  · have scaled := congrArg (· * (65 : ZMod 97)) (add_right_cancel same)
    have inverse : (((100 : Nat) : ZMod 97) * 65) = 1 := by decide
    simpa only [mul_assoc, inverse, mul_one] using scaled
  · have scaled := congrArg (· * (68 : ZMod 97)) (add_right_cancel same)
    have inverse : (((10 : Nat) : ZMod 97) * 68) = 1 := by decide
    simpa only [mul_assoc, inverse, mul_one] using scaled

/-- Numbers below 97 are different remainders. -/
theorem cast_injective {d e : Nat} (small : d < 97) (small' : e < 97)
    (same : (d : ZMod 97) = e) : d = e := by
  have remainders := (ZMod.natCast_eq_natCast_iff' d e 97).mp same
  rwa [Nat.mod_eq_of_lt small, Nat.mod_eq_of_lt small'] at remainders

theorem digit_not_upper (digit : isDigitUnit unit = true) : isUpperUnit unit = false := by
  by_contra upper
  have range := upper_toNat (Bool.not_eq_false _ ▸ upper)
  have range' := digit_toNat digit
  omega

theorem DigitSlip.iban_apart (slip : DigitSlip unit other) : Apart ibanStep unit other := by
  intro n same
  have digit := digit_toNat slip.digit
  have digit' := digit_toNat slip.digit'
  simp only [ibanStep, digit_not_upper slip.digit, digit_not_upper slip.digit',
    Bool.false_eq_true, if_false] at same
  have equal := cast_injective (by omega) (by omega) (add_left_cancel same)
  exact slip.differ (UInt16.toNat_inj.mp (by omega))

/-- The capitals of different letters are apart. -/
theorem LetterSlip.iban_apart (slip : LetterSlip unit other) :
    Apart ibanStep (upperUnit unit) (upperUnit other) := by
  intro n same
  have letter := upper_toNat slip.letter
  have letter' := upper_toNat slip.letter'
  simp only [ibanStep, slip.letter, slip.letter', if_true] at same
  have equal := cast_injective (by omega) (by omega) (add_left_cancel same)
  exact slip.differ (UInt16.toNat_inj.mp (by omega))

/-! ### The change in a bank account -/

variable {mapping : JsString → JsString} {before after : JsString}

theorem not_half_of_ascii (ascii : unit < 128) : isHigh unit = false ∧ isLow unit = false := by
  have small : unit.toNat < 128 := UInt16.lt_iff_toNat_lt.mp ascii
  simp only [isHigh, isLow, Bool.and_eq_false_iff, decide_eq_false_iff_not]
  omega

theorem toUpperCase_cons (ascii : unit < 128) (rest : JsString) :
    toUpperCase mapping (unit :: rest) = upperUnit unit :: toUpperCase mapping rest := by
  have point : upperPoint mapping unit = [upperUnit unit] := if_pos ascii
  cases rest with
  | nil => exact point
  | cons next rest =>
    rw [toUpperCase, (not_half_of_ascii ascii).1, Bool.false_and, if_neg Bool.false_ne_true, point]
    rfl

/-- An ASCII unit is no half of a pair. -/
theorem toUpperCase_slip (ascii : unit < 128) (before after : JsString) :
    toUpperCase mapping (before ++ unit :: after) =
      toUpperCase mapping before ++ upperUnit unit :: toUpperCase mapping after := by
  induction before using toUpperCase.induct with
  | case1 => exact toUpperCase_cons ascii after
  | case2 first =>
    have single : toUpperCase mapping (first :: unit :: after) =
        upperPoint mapping first ++ toUpperCase mapping (unit :: after) := by
      rw [toUpperCase, (not_half_of_ascii ascii).2, Bool.and_false, if_neg Bool.false_ne_true]
    rw [List.singleton_append, single, toUpperCase_cons ascii]
    rfl
  | case3 high low rest pair ih =>
    rw [List.cons_append, List.cons_append, toUpperCase, if_pos pair, ih, toUpperCase,
      if_pos pair, List.append_assoc]
  | case4 first next rest pair ih =>
    rw [List.cons_append, List.cons_append, toUpperCase, if_neg pair, ← List.cons_append, ih,
      toUpperCase, if_neg pair, List.append_assoc]

theorem sanitize_slip (ascii : unit < 128) (visible : isSpaceUnit unit = false)
    (before after : JsString) :
    sanitize mapping (before ++ unit :: after) =
      sanitize mapping before ++ upperUnit unit :: sanitize mapping after := by
  rw [sanitize, filter_slip (by rw [visible]; rfl), toUpperCase_slip ascii]
  rfl

/-- The rotation moves a unit, and every unit in the same place to the same place. -/
theorem rearrange_slip (before after : JsString) :
    ∃ front back, ∀ unit, rearrange (before ++ unit :: after) = front ++ unit :: back := by
  by_cases long : 4 ≤ before.length
  · refine ⟨before.drop 4, after ++ before.take 4, fun unit => ?_⟩
    rw [rearrange, List.drop_append_of_le_length long, List.take_append_of_le_length long,
      List.append_assoc, List.cons_append]
  · obtain ⟨count, total⟩ : ∃ count, 4 = before.length + (count + 1) :=
      ⟨3 - before.length, by omega⟩
    refine ⟨after.drop count ++ before, after.take count, fun unit => ?_⟩
    rw [rearrange, total, List.drop_append, List.take_append, Nat.add_sub_cancel_left,
      List.drop_eq_nil_of_le (by omega), List.take_of_length_le (by omega), List.nil_append,
      List.drop_succ_cons, List.take_succ_cons, List.append_assoc]

theorem isIbanValid_remainder {iban : JsString} (valid : isIbanValid mapping iban = true) :
    (rearrange (sanitize mapping iban)).foldl ibanStep 0 = 1 := by
  rw [isIbanValid] at valid
  split_ifs at valid
  split at valid
  · cases valid
  · rename_i digits read
    have residue := numericString_residue read 0
    rw [Nat.cast_zero] at residue
    rw [← residue]
    exact_mod_cast (ZMod.natCast_eq_natCast_iff' (bigInt digits) 1 97).mpr (of_decide_eq_true valid)

/-- Where the capitals are apart, at most one of the texts is valid. -/
theorem iban_change (ascii : unit < 128) (ascii' : other < 128)
    (visible : isSpaceUnit unit = false) (visible' : isSpaceUnit other = false)
    (apart : Apart ibanStep (upperUnit unit) (upperUnit other))
    (valid : isIbanValid mapping (before ++ unit :: after) = true) :
    isIbanValid mapping (before ++ other :: after) = false := by
  by_contra also
  have remainder := isIbanValid_remainder valid
  have remainder' := isIbanValid_remainder (Bool.not_eq_false _ ▸ also)
  obtain ⟨front, back, moved⟩ := rearrange_slip (sanitize mapping before) (sanitize mapping after)
  rw [sanitize_slip ascii visible, moved] at remainder
  rw [sanitize_slip ascii' visible', moved] at remainder'
  exact foldl_ne ibanStep_reversible apart front back 0 (remainder.trans remainder'.symm)

theorem upperUnit_digit (digit : isDigitUnit unit = true) : upperUnit unit = unit := by
  grind [isDigitUnit, isLowerUnit, upperUnit]

theorem toNat_of_upper (upper : isUpperUnit (upperUnit unit) = true) :
    48 ≤ unit.toNat ∧ unit.toNat < 128 := by
  have range := upper_toNat upper
  by_cases lower : isLowerUnit unit = true
  · simp only [isLowerUnit, Bool.and_eq_true, decide_eq_true_eq, UInt16.le_iff_toNat_le] at lower
    change 97 ≤ unit.toNat ∧ unit.toNat ≤ 122 at lower
    omega
  · rw [upperUnit, if_neg lower] at range
    omega

/-- Digits and letters are visible ASCII units. -/
theorem visible_of_toNat (range : 48 ≤ unit.toNat ∧ unit.toNat < 128) :
    unit < 128 ∧ isSpaceUnit unit = false := by
  refine ⟨UInt16.lt_iff_toNat_lt.mpr range.2, ?_⟩
  have code : (Char.ofNat unit.toNat).toNat = unit.toNat := char_ofNat (Or.inl (by omega))
  rw [isSpaceUnit, isSpace, code]
  simp only [Bool.or_eq_false_iff, Bool.and_eq_false_iff, decide_eq_false_iff_not,
    beq_eq_false_iff_ne]
  omega

theorem DigitSlip.iban (slip : DigitSlip unit other)
    (valid : isIbanValid mapping (before ++ unit :: after) = true) :
    isIbanValid mapping (before ++ other :: after) = false := by
  have digit := digit_toNat slip.digit
  have digit' := digit_toNat slip.digit'
  obtain ⟨ascii, visible⟩ := @visible_of_toNat unit (by omega)
  obtain ⟨ascii', visible'⟩ := @visible_of_toNat other (by omega)
  refine iban_change ascii ascii' visible visible' ?_ valid
  rw [upperUnit_digit slip.digit, upperUnit_digit slip.digit']
  exact slip.iban_apart

theorem LetterSlip.iban (slip : LetterSlip unit other)
    (valid : isIbanValid mapping (before ++ unit :: after) = true) :
    isIbanValid mapping (before ++ other :: after) = false := by
  obtain ⟨ascii, visible⟩ := visible_of_toNat (toNat_of_upper slip.letter)
  obtain ⟨ascii', visible'⟩ := visible_of_toNat (toNat_of_upper slip.letter')
  exact iban_change ascii ascii' visible visible' slip.iban_apart valid

end Slips

/-- Neither checksum accepts a text that it accepts with one digit or letter changed. -/
theorem slips_rejected (mapping : JsString → JsString) (before after : JsString)
    (unit other : CodeUnit) :
    (DigitSlip unit other → isLuhnValid (before ++ unit :: after) = true →
      isLuhnValid (before ++ other :: after) = false) ∧
    (DigitSlip unit other ∨ LetterSlip unit other →
      isIbanValid mapping (before ++ unit :: after) = true →
        isIbanValid mapping (before ++ other :: after) = false) :=
  ⟨fun slip valid => slip.luhn valid,
    fun slip valid => slip.elim (fun digits => digits.iban valid) fun letters => letters.iban valid⟩

/-- A 2 for the last 1 of a card number; an n for the S of a bank account. -/
theorem typos_rejected : isLuhnValid (js "4111 1111 1111 111" ++ 0x32 :: []) = false ∧
    isIbanValid id (js "GB82 WE" ++ 0x6E :: js "T 1234 5698 7654 32") = false :=
  ⟨(slips_rejected id _ _ 0x31 0x32).1 ⟨by decide, by decide, by decide⟩ (by decide +kernel),
    (slips_rejected id _ _ 0x53 0x6E).2 (Or.inr ⟨by decide, by decide, by decide⟩)
      (by decide +kernel)⟩

end NeuralMesh.Server
