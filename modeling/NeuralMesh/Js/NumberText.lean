import NeuralMesh.Js.Decimal

/-! ECMAScript `Number::toString` on exact decimals and the JSON number reader.
Reading the text of a number back gives the number and leaves the rest. -/
namespace NeuralMesh.Js

def exponentText (n : Int) : Text :=
  'e' :: (if n < 0 then '-' else '+') :: natText n.natAbs

/-- The five spellings of `Number::toString`: `s` are the digits, `e` the
exponent of the last one, and the decimal point belongs after digit `n`. -/
def placePoint (s : Text) (e : Int) : Text :=
  let n : Int := s.length + e
  if 0 ≤ e ∧ n ≤ 21 then s ++ List.replicate e.toNat '0'
  else if 0 < n ∧ n ≤ 21 then s.take n.toNat ++ '.' :: s.drop n.toNat
  else if -6 < n ∧ n ≤ 0 then '0' :: '.' :: (List.replicate (-n).toNat '0' ++ s)
  else match s with
    | [] => []
    | [d] => d :: exponentText (n - 1)
    | d :: ds => d :: '.' :: (ds ++ exponentText (n - 1))

def magnitudeText (m : Nat) (e : Int) : Text := placePoint (natText m) e

def numberText (d : Decimal) : Text :=
  if d.coefficient < 0 then '-' :: magnitudeText d.coefficient.natAbs d.exponent
  else magnitudeText d.coefficient.natAbs d.exponent

/-! ### Reading -/

def readFraction : Text → Option (Text × Text)
  | '.' :: cs =>
    if cs.takeWhile isDigit = [] then none else some (cs.takeWhile isDigit, cs.dropWhile isDigit)
  | cs => some ([], cs)

def readExponentDigits (negative : Bool) (cs : Text) : Option (Int × Text) :=
  if cs.takeWhile isDigit = [] then none
  else
    let value : Int := ofDigits (cs.takeWhile isDigit)
    some (if negative then -value else value, cs.dropWhile isDigit)

def readExponentSign : Text → Option (Int × Text)
  | '-' :: cs => readExponentDigits true cs
  | '+' :: cs => readExponentDigits false cs
  | cs => readExponentDigits false cs

def readExponent : Text → Option (Int × Text)
  | 'e' :: cs => readExponentSign cs
  | 'E' :: cs => readExponentSign cs
  | cs => some (0, cs)

/-- The integer part of a JSON number is `0` or starts with a nonzero digit. -/
def validInteger (digits : Text) : Bool :=
  digits == ['0'] || (digits != [] && digits.head? != some '0')

def readMagnitude (cs : Text) : Option (Nat × Int × Text) :=
  let digits := cs.takeWhile isDigit
  if validInteger digits then
    (readFraction (cs.dropWhile isDigit)).bind fun (fraction, cs) =>
      (readExponent cs).map fun (exponent, cs) =>
        (ofDigits (digits ++ fraction), exponent - fraction.length, cs)
  else none

def readNumber : Text → Option (Decimal × Text)
  | '-' :: cs => (readMagnitude cs).map fun (m, e, rest) => (Decimal.normalize (-(m : Int)) e, rest)
  | cs => (readMagnitude cs).map fun (m, e, rest) => (Decimal.normalize m e, rest)

/-! ### Round trip -/

/-- What may follow a number without being read as part of it. -/
def EndsNumber (rest : Text) : Prop :=
  ∀ c, rest.head? = some c → isDigit c = false ∧ c ≠ '.' ∧ c ≠ 'e' ∧ c ≠ 'E'

theorem span_exact {p : α → Bool} {body rest : List α} (inside : ∀ c ∈ body, p c = true)
    (boundary : ∀ c, rest.head? = some c → p c = false) :
    (body ++ rest).takeWhile p = body ∧ (body ++ rest).dropWhile p = rest := by
  induction body with
  | nil => cases rest <;> simp_all
  | cons c body ih =>
    obtain ⟨taken, left⟩ := ih (fun d member => inside d (List.mem_cons_of_mem c member))
    simp [inside c List.mem_cons_self, taken, left]

theorem EndsNumber.digits (ends : EndsNumber rest) :
    ∀ c, rest.head? = some c → isDigit c = false :=
  fun c head => (ends c head).1

theorem EndsNumber.readExponent (ends : EndsNumber rest) : readExponent rest = some (0, rest) := by
  cases rest with
  | nil => rfl
  | cons c rest =>
    obtain ⟨_, _, lower, upper⟩ := ends c rfl
    unfold Js.readExponent
    split <;> simp_all

theorem EndsNumber.readFraction (ends : EndsNumber rest) : readFraction rest = some ([], rest) := by
  cases rest with
  | nil => rfl
  | cons c rest =>
    obtain ⟨_, point, _⟩ := ends c rfl
    unfold Js.readFraction
    split <;> simp_all

theorem readExponentDigits_natText (negative : Bool) (n : Nat) (ends : EndsNumber rest) :
    readExponentDigits negative (natText n ++ rest) =
      some (if negative then -(n : Int) else n, rest) := by
  obtain ⟨taken, left⟩ := span_exact (natText_digits n) ends.digits
  simp [readExponentDigits, taken, left, natText_nonempty]

theorem readExponent_exponentText (n : Int) (ends : EndsNumber rest) :
    readExponent (exponentText n ++ rest) = some (n, rest) := by
  by_cases negative : n < 0
  · simp only [exponentText, negative, if_true, List.cons_append, readExponent, readExponentSign,
      readExponentDigits_natText true n.natAbs ends]
    congr 2
    omega
  · simp only [exponentText, negative, if_false, List.cons_append, readExponent, readExponentSign,
      readExponentDigits_natText false n.natAbs ends]
    congr 2
    simp only [Bool.false_eq_true, if_false]
    omega

theorem exponentText_boundary (n : Int) (rest : Text) :
    ∀ c, (exponentText n ++ rest).head? = some c → isDigit c = false := by
  intro c head
  simp only [exponentText, List.cons_append, List.head?_cons, Option.some.injEq] at head
  subst c
  rfl

theorem readFraction_exponentText (n : Int) (rest : Text) :
    readFraction (exponentText n ++ rest) = some ([], exponentText n ++ rest) := rfl

theorem readFraction_digits {fraction tail : Text} (digits : ∀ c ∈ fraction, isDigit c = true)
    (nonempty : fraction ≠ []) (boundary : ∀ c, tail.head? = some c → isDigit c = false) :
    readFraction ('.' :: (fraction ++ tail)) = some (fraction, tail) := by
  obtain ⟨taken, left⟩ := span_exact digits boundary
  simp [readFraction, taken, left, nonempty]

/-- Reading an integer part, once the fraction and the exponent are read. -/
theorem readMagnitude_parts {digits fraction tail cs rest : Text} {exponent : Int}
    (all : ∀ c ∈ digits, isDigit c = true) (valid : validInteger digits = true)
    (boundary : ∀ c, tail.head? = some c → isDigit c = false)
    (fractional : readFraction tail = some (fraction, cs))
    (scientific : readExponent cs = some (exponent, rest)) :
    readMagnitude (digits ++ tail) =
      some (ofDigits (digits ++ fraction), exponent - fraction.length, rest) := by
  obtain ⟨taken, left⟩ := span_exact all boundary
  simp [readMagnitude, taken, left, valid, fractional, scientific]

theorem validInteger_of_head {digits : Text} (nonempty : digits ≠ [])
    (head : digits.head? ≠ some '0') : validInteger digits = true := by
  simp [validInteger, nonempty, head]

/-- A valid integer part is determined by its value. -/
theorem validInteger_unique {a b : Text} (left : ∀ c ∈ a, isDigit c = true)
    (right : ∀ c ∈ b, isDigit c = true) (leftValid : validInteger a = true)
    (rightValid : validInteger b = true) (same : ofDigits a = ofDigits b) : a = b := by
  simp only [validInteger, Bool.or_eq_true, beq_iff_eq, Bool.and_eq_true, bne_iff_ne]
    at leftValid rightValid
  rcases leftValid with rfl | ⟨nonempty, head⟩
  · rcases rightValid with rfl | ⟨nonempty, head⟩
    · rfl
    · have positive := ofDigits_pos right nonempty head
      rw [← same] at positive
      exact absurd positive (by decide)
  · rcases rightValid with rfl | ⟨_, otherHead⟩
    · have positive := ofDigits_pos left nonempty head
      rw [same] at positive
      exact absurd positive (by decide)
    · exact digits_unique left right head otherHead same

theorem point_boundary (tail : Text) : ∀ c, ('.' :: tail).head? = some c → isDigit c = false := by
  intro c head
  simp only [List.head?_cons, Option.some.injEq] at head
  subst c
  rfl

section Spellings

variable {s rest : Text} {e : Int}

theorem readMagnitude_whole (digits : ∀ c ∈ s, isDigit c = true) (zeros : Nat)
    (valid : validInteger (s ++ List.replicate zeros '0') = true) (ends : EndsNumber rest) :
    readMagnitude (s ++ List.replicate zeros '0' ++ rest) =
      some (ofDigits s * 10 ^ zeros, 0, rest) := by
  have all : ∀ c ∈ s ++ List.replicate zeros '0', isDigit c = true := by
    intro c member
    rcases List.mem_append.mp member with first | last
    · exact digits c first
    · rw [(List.mem_replicate.mp last).2]
      rfl
  rw [readMagnitude_parts all valid ends.digits ends.readFraction ends.readExponent]
  simp [ofDigits_append]

theorem readMagnitude_inner (digits : ∀ c ∈ s, isDigit c = true) (head : s.head? ≠ some '0')
    {n : Nat} (positive : 0 < n) (cut : n < s.length) (ends : EndsNumber rest) :
    readMagnitude (s.take n ++ '.' :: s.drop n ++ rest) =
      some (ofDigits s, (n : Int) - s.length, rest) := by
  have taken : s.take n ≠ [] := by
    rw [Ne, List.take_eq_nil_iff]
    rintro (zero | empty)
    · omega
    · simp [empty] at cut
  have left : s.drop n ≠ [] := by
    rw [Ne, List.drop_eq_nil_iff]
    omega
  have first : ∀ c ∈ s.take n, isDigit c = true := fun c member => digits c (List.mem_of_mem_take member)
  have second : ∀ c ∈ s.drop n, isDigit c = true := fun c member => digits c (List.mem_of_mem_drop member)
  have valid : validInteger (s.take n) = true := by
    apply validInteger_of_head taken
    rwa [List.head?_take, if_neg (by omega)]
  rw [List.append_assoc, List.cons_append, readMagnitude_parts first valid (point_boundary _)
    (readFraction_digits second left ends.digits) ends.readExponent]
  simp only [List.take_append_drop, List.length_drop, Option.some.injEq, Prod.mk.injEq, true_and,
    and_true]
  omega

theorem readMagnitude_small (digits : ∀ c ∈ s, isDigit c = true) (nonempty : s ≠ []) (zeros : Nat)
    (ends : EndsNumber rest) :
    readMagnitude ('0' :: '.' :: (List.replicate zeros '0' ++ s) ++ rest) =
      some (ofDigits s, -((zeros : Int) + s.length), rest) := by
  have all : ∀ c ∈ List.replicate zeros '0' ++ s, isDigit c = true := by
    intro c member
    rcases List.mem_append.mp member with first | last
    · rw [(List.mem_replicate.mp first).2]
      rfl
    · exact digits c last
  have leading : ∀ c ∈ ['0'], isDigit c = true := by
    rintro c (_ | ⟨_, ⟨⟩⟩)
    rfl
  have read := readMagnitude_parts leading rfl (point_boundary _)
    (readFraction_digits all (by simp [nonempty]) ends.digits) ends.readExponent
  have zero : ofDigits ['0'] = 0 := rfl
  simp only [List.cons_append, List.nil_append] at read ⊢
  rw [read, ← List.singleton_append, ofDigits_append, ofDigits_append, ofDigits_zeros, zero]
  simp

theorem readMagnitude_scientific {d : Char} {ds : Text} (digits : ∀ c ∈ d :: ds, isDigit c = true)
    (head : d ≠ '0') (n : Int) (ends : EndsNumber rest) :
    readMagnitude ((match ds with
      | [] => d :: exponentText n
      | ds => d :: '.' :: (ds ++ exponentText n)) ++ rest) =
      some (ofDigits (d :: ds), n - ds.length, rest) := by
  have first : ∀ c ∈ [d], isDigit c = true := fun c member => digits c (by simp_all)
  have valid : validInteger [d] = true := validInteger_of_head (by simp) (by simpa using head)
  cases ds with
  | nil =>
    have read := readMagnitude_parts first valid (exponentText_boundary n rest)
      (readFraction_exponentText n rest) (readExponent_exponentText n ends)
    simpa using read
  | cons d' ds =>
    have second : ∀ c ∈ d' :: ds, isDigit c = true :=
      fun c member => digits c (List.mem_cons_of_mem _ member)
    have read := readMagnitude_parts first valid (point_boundary _)
      (readFraction_digits second (by simp) (exponentText_boundary n rest))
      (readExponent_exponentText n ends)
    simpa using read

end Spellings

theorem natText_valid (m : Nat) (zeros : Nat) (positive : m = 0 → zeros = 0) :
    validInteger (natText m ++ List.replicate zeros '0') = true := by
  rcases Nat.eq_zero_or_pos m with rfl | nonzero
  · rw [positive rfl]
    rfl
  · apply validInteger_of_head (by simp [natText_nonempty])
    rw [List.head?_append_of_ne_nil _ (natText_nonempty m)]
    exact natText_head nonzero

/-- The magnitude read back has the printed digits, possibly followed by the
zeros the printer appended. -/
theorem readMagnitude_magnitudeText (m : Nat) (e : Int) (zero : m = 0 → e = 0)
    (ends : EndsNumber rest) : ∃ zeros : Nat,
      readMagnitude (magnitudeText m e ++ rest) = some (m * 10 ^ zeros, e - zeros, rest) := by
  have digits := natText_digits m
  have nonempty := natText_nonempty m
  have value := ofDigits_natText m
  have length : 0 < (natText m).length := List.length_pos_of_ne_nil nonempty
  unfold magnitudeText placePoint
  dsimp only
  split_ifs with whole inner small
  · refine ⟨e.toNat, ?_⟩
    have valid := natText_valid m e.toNat (fun h => by simp [zero h])
    rw [readMagnitude_whole digits e.toNat valid ends, value]
    simp only [Option.some.injEq, Prod.mk.injEq, true_and, and_true]
    omega
  all_goals
    have positive : 0 < m := by
      rcases Nat.eq_zero_or_pos m with rfl | positive
      · exact absurd whole (by simp [zero rfl, natText, digitsWith])
      · exact positive
    have head := natText_head positive
    refine ⟨0, ?_⟩
  · rw [readMagnitude_inner digits head (by omega) (by omega) ends, value]
    simp only [Nat.pow_zero, Nat.mul_one, Option.some.injEq, Prod.mk.injEq, true_and, and_true]
    omega
  · rw [readMagnitude_small digits nonempty _ ends, value]
    simp only [Nat.pow_zero, Nat.mul_one, Option.some.injEq, Prod.mk.injEq, true_and, and_true]
    omega
  · cases text : natText m with
    | nil => exact absurd text nonempty
    | cons d ds =>
      rw [text] at digits head value
      have read := readMagnitude_scientific digits (by simpa using head)
        ((d :: ds).length + e - 1) ends
      simp only [value] at read
      have exponent : ((d :: ds).length + e - 1 : Int) - ds.length = e - (0 : Nat) := by
        simp only [List.length_cons]
        omega
      rw [exponent] at read
      cases ds <;> simpa using read

theorem readNumber_of_digit {c : Char} (cs : Text) (digit : c ≠ '-') :
    readNumber (c :: cs) =
      (readMagnitude (c :: cs)).map fun (m, e, rest) => (Decimal.normalize m e, rest) := by
  unfold readNumber
  split
  · simp_all
  · rfl

theorem magnitudeText_head (m : Nat) (e : Int) (rest : Text) :
    ∃ c cs, magnitudeText m e ++ rest = c :: cs ∧ isDigit c = true := by
  have nonempty := natText_nonempty m
  have digits := natText_digits m
  unfold magnitudeText placePoint
  cases text : natText m with
  | nil => exact absurd text nonempty
  | cons d ds =>
    have digit : isDigit d = true := digits d (by simp [text])
    dsimp only
    split_ifs with whole inner small
    · exact ⟨d, _, rfl, digit⟩
    · obtain ⟨k, count⟩ : ∃ k, ((d :: ds).length + e : Int).toNat = k + 1 :=
        ⟨((d :: ds).length + e : Int).toNat - 1, by omega⟩
      exact ⟨d, _, by rw [count, List.take_succ_cons, List.cons_append, List.cons_append], digit⟩
    · exact ⟨'0', _, rfl, rfl⟩
    · cases ds with
      | nil => exact ⟨d, _, rfl, digit⟩
      | cons d' ds => exact ⟨d, _, rfl, digit⟩

theorem natAbs_shift (n : Int) (zeros : Nat) (negative : Bool) (sign : negative = true ↔ n < 0) :
    (if negative then -((n.natAbs * 10 ^ zeros : Nat) : Int) else (n.natAbs * 10 ^ zeros : Nat)) =
      n * 10 ^ zeros := by
  have magnitude : ((n.natAbs * 10 ^ zeros : Nat) : Int) = n.natAbs * 10 ^ zeros := by
    rw [Int.natCast_mul, Int.natCast_pow]
    rfl
  rw [magnitude]
  cases negative with
  | true =>
    have below : n < 0 := sign.mp rfl
    rw [if_pos rfl, ← Int.neg_mul, Int.ofNat_natAbs_of_nonpos (Int.le_of_lt below), Int.neg_neg]
  | false =>
    have above : 0 ≤ n := by
      by_contra below
      simpa using sign.mpr (by omega)
    rw [if_neg (by decide), Int.natAbs_of_nonneg above]

theorem readNumber_numberText (d : Decimal) (ends : EndsNumber rest) :
    readNumber (numberText d ++ rest) = some (d, rest) := by
  have zero : d.coefficient.natAbs = 0 → d.exponent = 0 := by
    intro h
    rcases d.canonical with ⟨_, e⟩ | nonzero
    · exact e
    · rw [Int.natAbs_eq_zero.mp h] at nonzero
      simp at nonzero
  obtain ⟨zeros, read⟩ := readMagnitude_magnitudeText d.coefficient.natAbs d.exponent zero ends
  have shift := Decimal.normalize_shift d zeros
  by_cases negative : d.coefficient < 0
  · have magnitude := natAbs_shift d.coefficient zeros true (by simp [negative])
    rw [if_pos rfl] at magnitude
    simp only [numberText, negative, if_true, List.cons_append, readNumber, read, Option.map_some,
      magnitude, shift]
  · have magnitude := natAbs_shift d.coefficient zeros false (by simp [negative])
    rw [if_neg (by decide)] at magnitude
    obtain ⟨c, cs, text, digit⟩ := magnitudeText_head d.coefficient.natAbs d.exponent rest
    have unsigned : c ≠ '-' := by
      rintro rfl
      simp [isDigit] at digit
    simp only [numberText, negative, if_false]
    rw [text, readNumber_of_digit cs unsigned, ← text, read]
    simp only [Option.map_some, magnitude, shift]

end NeuralMesh.Js
