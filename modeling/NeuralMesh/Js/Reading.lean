import NeuralMesh.Js.Document

/-! What the JSON reader takes off a text. A string is taken with its closing quote, a
scalar holds no quote, and a value that was read is read again when more text or more
fuel is there. -/
namespace NeuralMesh.Js

/-! ### String literals -/

/-- The text between the quotes of a string literal, and the string that it denotes. -/
inductive Literal : Text → JsString → Prop where
  | nil : Literal [] []
  | plain {c : Char} {t : Text} {s : JsString} (quoted : c ≠ '"') (escape : c ≠ '\\')
    (control : 0x20 ≤ c.toNat) (rest : Literal t s) : Literal (c :: t) (utf16 c ++ s)
  | short {c : Char} {u : CodeUnit} {t : Text} {s : JsString} (unit : readShortEscape c = some u)
    (rest : Literal t s) : Literal ('\\' :: c :: t) (u :: s)
  | unicode {a b c d : Char} {u : CodeUnit} {t : Text} {s : JsString}
    (unit : readHex4 a b c d = some u) (rest : Literal t s) :
    Literal ('\\' :: 'u' :: a :: b :: c :: d :: t) (u :: s)

theorem Literal.readString {lit : Text} {s : JsString} (literal : Literal lit s) (rest : Text) :
    readString (lit ++ '"' :: rest) = some (s, rest) := by
  induction literal with
  | nil => rfl
  | plain quoted escape control _ ih =>
    rw [List.cons_append, readString_plain _ quoted escape control, ih, Option.map_some]
  | @short c u t s unit _ ih =>
    have plain : c ≠ 'u' := by
      rintro rfl
      cases unit
    rw [List.cons_append, List.cons_append, Js.readString, unit]
    · simp only [ih, Option.map_some]
    · rintro a b c' d cs rfl
      exact absurd rfl plain
  | unicode unit _ ih =>
    simp only [List.cons_append, Js.readString, unit, ih, Option.map_some]

/-- A string is read up to the quote that closes its literal. -/
theorem readString_literal {cs rest : Text} {s : JsString} (read : readString cs = some (s, rest)) :
    ∃ lit, Literal lit s ∧ cs = lit ++ '"' :: rest := by
  induction cs using readString.induct generalizing s with
  | case1 => cases read
  | case2 cs =>
    cases read
    exact ⟨[], .nil, rfl⟩
  | case3 a b c d cs u hex ih =>
    rw [readString, hex] at read
    obtain ⟨⟨t, after⟩, inner, same⟩ := Option.map_eq_some_iff.mp read
    cases same
    obtain ⟨lit, literal, rfl⟩ := ih inner
    exact ⟨_, .unicode hex literal, rfl⟩
  | case4 a b c d cs hex =>
    rw [readString, hex] at read
    cases read
  | case5 c cs other u short ih =>
    rw [readString, short] at read
    · obtain ⟨⟨t, after⟩, inner, same⟩ := Option.map_eq_some_iff.mp read
      cases same
      obtain ⟨lit, literal, rfl⟩ := ih inner
      exact ⟨_, .short short literal, rfl⟩
    · exact other
  | case6 c cs other short =>
    rw [readString, short] at read
    · cases read
    · exact other
  | case7 => cases read
  | case8 c cs _ _ _ _ control =>
    rw [readString, if_pos control] at read <;> first | cases read | assumption
  | case9 c cs quoted _ single _ control ih =>
    rw [readString, if_neg control] at read <;> try assumption
    obtain ⟨⟨t, after⟩, inner, same⟩ := Option.map_eq_some_iff.mp read
    cases same
    obtain ⟨lit, literal, rfl⟩ := ih inner
    have escape : c ≠ '\\' := by
      intro same
      cases lit with
      | nil => exact single _ _ same rfl
      | cons => exact single _ _ same rfl
    exact ⟨_, .plain quoted escape (Nat.le_of_not_lt control) literal, rfl⟩

theorem literal_quoteBody (s : JsString) : Literal (quoteBody s) s := by
  obtain ⟨lit, literal, same⟩ := readString_literal (readString_quoteBody s [])
  rwa [List.append_cancel_right same]

/-- The characters that stand for themselves. -/
def IsPlainChar (c : Char) : Prop := c ≠ '"' ∧ c ≠ '\\' ∧ 0x20 ≤ c.toNat

instance (c : Char) : Decidable (IsPlainChar c) := inferInstanceAs (Decidable (_ ∧ _))

def units (t : Text) : Nat := (ofText t).length

theorem utf16_length (c : Char) : 1 ≤ (utf16 c).length := by
  rw [utf16]
  split_ifs <;> simp

theorem units_cons (c : Char) (t : Text) : units (c :: t) = (utf16 c).length + units t := by
  simp [units, ofText]

theorem units_append (a b : Text) : units (a ++ b) = units a + units b := by
  simp [units, ofText]

theorem plain_of_all {t : Text} (checked : t.all (fun c => decide (IsPlainChar c)) = true) :
    ∀ c ∈ t, IsPlainChar c := by
  intro c member
  exact of_decide_eq_true (List.all_eq_true.mp checked c member)

theorem literal_plain {t : Text} (plain : ∀ c ∈ t, IsPlainChar c) : Literal t (ofText t) := by
  induction t with
  | nil => exact .nil
  | cons c t ih =>
    obtain ⟨quoted, escape, control⟩ := plain c List.mem_cons_self
    exact .plain quoted escape control (ih fun d member => plain d (List.mem_cons_of_mem _ member))

/-- An escape takes more room than what it stands for. -/
theorem Literal.plain_or_shorter {lit : Text} {s : JsString} (literal : Literal lit s) :
    (s = ofText lit ∧ ∀ c ∈ lit, IsPlainChar c) ∨ s.length < units lit := by
  induction literal with
  | nil => exact .inl ⟨rfl, fun c member => absurd member List.not_mem_nil⟩
  | @plain c t s quoted escape control _ ih =>
    rcases ih with ⟨same, plain⟩ | shorter
    · refine .inl ⟨by rw [same]; rfl, ?_⟩
      exact List.forall_mem_cons.mpr ⟨⟨quoted, escape, control⟩, plain⟩
    · refine .inr ?_
      rw [List.length_append, units_cons]
      omega
  | @short c u t s unit _ ih =>
    have bound : s.length ≤ units t := by
      rcases ih with ⟨same, -⟩ | shorter
      · rw [same, units]
      · exact Nat.le_of_lt shorter
    have escape := utf16_length c
    have backslash := utf16_length '\\'
    refine .inr ?_
    rw [List.length_cons, units_cons, units_cons]
    omega
  | @unicode a b c d u t s unit _ ih =>
    have bound : s.length ≤ units t := by
      rcases ih with ⟨same, -⟩ | shorter
      · rw [same, units]
      · exact Nat.le_of_lt shorter
    have escape := utf16_length 'u'
    have backslash := utf16_length '\\'
    refine .inr ?_
    rw [List.length_cons, units_cons, units_cons, units_cons, units_cons, units_cons, units_cons]
    omega

theorem Literal.length_le {lit : Text} {s : JsString} (literal : Literal lit s) :
    s.length ≤ units lit := by
  rcases literal.plain_or_shorter with ⟨same, -⟩ | shorter
  · rw [same, units]
  · exact Nat.le_of_lt shorter

theorem Literal.head {t : Text} {s : JsString} : ¬ Literal ('"' :: t) s := by
  intro literal
  generalize whole : '"' :: t = lit at literal
  cases literal with
  | nil => cases whole
  | plain quoted => exact quoted (List.cons.inj whole).1.symm
  | short => cases whole
  | unicode => cases whole

theorem readHex4_ne {x a b c d : Char} {u : CodeUnit} (other : hexValue x = none)
    (unit : readHex4 a b c d = some u) : a ≠ x ∧ b ≠ x ∧ c ≠ x ∧ d ≠ x := by
  refine ⟨?_, ?_, ?_, ?_⟩ <;> rintro rfl <;> simp [readHex4, other] at unit

/-- A quote within a literal stands after a backslash. -/
theorem Literal.quote {before after : Text} {c : Char} {s : JsString}
    (literal : Literal (before ++ c :: '"' :: after) s) : c = '\\' := by
  generalize whole : before ++ c :: '"' :: after = lit at literal
  induction literal generalizing before with
  | nil => simp at whole
  | @plain d t s _ _ _ rest ih =>
    cases before with
    | nil =>
      obtain ⟨rfl, rfl⟩ := List.cons.inj whole
      exact absurd rest Literal.head
    | cons b before => exact ih (List.cons.inj whole).2
  | @short d u t s unit rest ih =>
    match before, whole with
    | [], whole => exact (List.cons.inj whole).1
    | [b], whole =>
      obtain ⟨-, whole⟩ := List.cons.inj whole
      obtain ⟨-, rfl⟩ := List.cons.inj whole
      exact absurd rest Literal.head
    | b :: b' :: before, whole => exact ih (List.cons.inj (List.cons.inj whole).2).2
  | @unicode w x y z u t s unit rest ih =>
    obtain ⟨first, second, third, fourth⟩ := @readHex4_ne '"' _ _ _ _ _ rfl unit
    -- the quote would be a hexadecimal digit, or open the rest of the literal
    match before, whole with
    | [], whole => exact (List.cons.inj whole).1
    | [_], whole => cases whole; exact absurd rfl first
    | [_, _], whole => cases whole; exact absurd rfl second
    | [_, _, _], whole => cases whole; exact absurd rfl third
    | [_, _, _, _], whole => cases whole; exact absurd rfl fourth
    | [_, _, _, _, _], whole => cases whole; exact absurd rest Literal.head
    | _ :: _ :: _ :: _ :: _ :: _ :: before, whole =>
      simp only [List.cons_append, List.cons.injEq] at whole
      exact ih whole.2.2.2.2.2.2

/-! ### More text -/

theorem takeWhile_append {p : Char → Bool} {cs : Text} (stops : cs.dropWhile p ≠ []) (extra : Text) :
    (cs ++ extra).takeWhile p = cs.takeWhile p ∧
      (cs ++ extra).dropWhile p = cs.dropWhile p ++ extra := by
  induction cs with
  | nil => exact absurd rfl stops
  | cons c cs ih =>
    by_cases inside : p c = true
    · rw [List.dropWhile_cons_of_pos inside] at stops
      obtain ⟨taken, left⟩ := ih stops
      simp [inside, taken, left]
    · simp [inside]

theorem readFraction_append {cs rest digits : Text} (read : readFraction cs = some (digits, rest))
    (stops : rest ≠ []) (extra : Text) :
    readFraction (cs ++ extra) = some (digits, rest ++ extra) := by
  unfold readFraction at read
  split at read
  · next after =>
    split_ifs at read with empty
    cases read
    obtain ⟨taken, left⟩ := takeWhile_append stops extra
    rw [List.cons_append, readFraction, taken, if_neg empty, left]
  · next other =>
    cases read
    cases cs with
    | nil => exact absurd rfl stops
    | cons c cs =>
      unfold readFraction
      split
      · next after same =>
        cases same
        exact absurd rfl (other cs)
      · rfl

theorem readExponentDigits_append {negative : Bool} {cs rest : Text} {n : Int}
    (read : readExponentDigits negative cs = some (n, rest)) (stops : rest ≠ []) (extra : Text) :
    readExponentDigits negative (cs ++ extra) = some (n, rest ++ extra) := by
  unfold readExponentDigits at read ⊢
  by_cases empty : cs.takeWhile isDigit = []
  · rw [if_pos empty] at read
    cases read
  · rw [if_neg empty] at read
    obtain ⟨rfl, rfl⟩ := Prod.mk.inj (Option.some.inj read)
    obtain ⟨taken, left⟩ := takeWhile_append stops extra
    rw [taken, if_neg empty, left]

theorem readExponentSign_append {cs rest : Text} {n : Int}
    (read : readExponentSign cs = some (n, rest)) (stops : rest ≠ []) (extra : Text) :
    readExponentSign (cs ++ extra) = some (n, rest ++ extra) := by
  unfold readExponentSign at read
  split at read
  · exact readExponentDigits_append read stops extra
  · exact readExponentDigits_append read stops extra
  · next minus plus =>
    have more := readExponentDigits_append read stops extra
    cases cs with
    | nil => cases read
    | cons c cs =>
      unfold readExponentSign
      split
      · next same =>
        cases same
        exact absurd rfl (minus cs)
      · next same =>
        cases same
        exact absurd rfl (plus cs)
      · exact more

theorem readExponent_append {cs rest : Text} {n : Int} (read : readExponent cs = some (n, rest))
    (stops : rest ≠ []) (extra : Text) : readExponent (cs ++ extra) = some (n, rest ++ extra) := by
  unfold readExponent at read
  split at read
  · exact readExponentSign_append read stops extra
  · exact readExponentSign_append read stops extra
  · next lower upper =>
    cases read
    cases cs with
    | nil => exact absurd rfl stops
    | cons c cs =>
      unfold readExponent
      split
      · next same =>
        cases same
        exact absurd rfl (lower cs)
      · next same =>
        cases same
        exact absurd rfl (upper cs)
      · rfl

theorem nonempty_of_length {rest cs : Text} (stops : rest ≠ []) (bound : rest.length ≤ cs.length) :
    cs ≠ [] := by
  rintro rfl
  exact stops (List.length_eq_zero_iff.mp (Nat.le_zero.mp bound))

theorem readMagnitude_append {cs rest : Text} {m : Nat} {e : Int}
    (read : readMagnitude cs = some (m, e, rest)) (stops : rest ≠ []) (extra : Text) :
    readMagnitude (cs ++ extra) = some (m, e, rest ++ extra) := by
  unfold readMagnitude at read ⊢
  dsimp only at read ⊢
  split_ifs at read with valid
  obtain ⟨⟨fraction, after⟩, first, read⟩ := Option.bind_eq_some_iff.mp read
  dsimp only at read
  obtain ⟨⟨exponent, last⟩, second, same⟩ := Option.map_eq_some_iff.mp read
  obtain ⟨rfl, rfl, rfl⟩ : _ ∧ _ ∧ last = rest := by simpa only [Prod.mk.injEq] using same
  have later := nonempty_of_length stops (readExponent_length second)
  obtain ⟨taken, left⟩ :=
    takeWhile_append (nonempty_of_length later (readFraction_length first)) extra
  rw [taken, if_pos valid, left, readFraction_append first later extra, Option.bind_some]
  dsimp only
  rw [readExponent_append second stops extra, Option.map_some]

theorem readNumber_append {cs rest : Text} {d : Decimal} (read : readNumber cs = some (d, rest))
    (stops : rest ≠ []) (extra : Text) : readNumber (cs ++ extra) = some (d, rest ++ extra) := by
  unfold readNumber at read
  split at read
  · obtain ⟨⟨m, e, after⟩, inner, same⟩ := Option.map_eq_some_iff.mp read
    cases same
    rw [List.cons_append, readNumber, readMagnitude_append inner stops extra, Option.map_some]
  · next minus =>
    obtain ⟨⟨m, e, after⟩, inner, same⟩ := Option.map_eq_some_iff.mp read
    cases same
    have more := readMagnitude_append inner stops extra
    cases cs with
    | nil => cases inner
    | cons c cs =>
      unfold readNumber
      split
      · next same =>
        cases same
        exact absurd rfl (minus cs)
      · rw [more, Option.map_some]

theorem readNumber_head {c : Char} {cs rest : Text} {d : Decimal}
    (read : readNumber (c :: cs) = some (d, rest)) : c = '-' ∨ isDigit c = true := by
  by_cases minus : c = '-'
  · exact .inl minus
  · refine .inr ?_
    by_contra other
    unfold readNumber at read
    split at read
    · next same => exact minus (List.cons.inj same).1
    · obtain ⟨_, inner, -⟩ := Option.map_eq_some_iff.mp read
      rw [readMagnitude, List.takeWhile_cons_of_neg other] at inner
      cases inner

theorem readScalar_of_number {c : Char} {cs : Text} (number : c = '-' ∨ isDigit c = true) :
    readScalar (c :: cs) = (readNumber (c :: cs)).map fun (d, rest) => (.num (.finite d), rest) := by
  have apart : c ≠ 'n' ∧ c ≠ 't' ∧ c ≠ 'f' := by
    refine ⟨?_, ?_, ?_⟩ <;> rintro rfl <;> simp [isDigit] at number
  rw [readScalar, nullText, boolText, boolText, readWord_ne _ _ apart.1.symm,
    readWord_ne _ _ apart.2.1.symm, readWord_ne _ _ apart.2.2.symm]

/-- A scalar is a word or a number. -/
theorem readScalar_cases {cs rest : Text} {v : JsValue} (read : readScalar cs = some (v, rest)) :
    (∃ word ∈ [(JsValue.null, nullText), (.bool true, boolText true), (.bool false, boolText false)],
      v = word.1 ∧ cs = word.2 ++ rest) ∨
    ∃ c tail d, cs = c :: tail ∧ (c = '-' ∨ isDigit c = true) ∧ v = .num (.finite d) ∧
      readNumber cs = some (d, rest) := by
  unfold readScalar at read
  cases null : readWord nullText cs with
  | some after =>
    rw [null] at read
    cases read
    exact .inl ⟨(.null, nullText), by simp, rfl, readWord_eq_some.mp null⟩
  | none =>
    cases yes : readWord (boolText true) cs with
    | some after =>
      rw [null, yes] at read
      cases read
      exact .inl ⟨(.bool true, boolText true), by simp, rfl, readWord_eq_some.mp yes⟩
    | none =>
      cases no : readWord (boolText false) cs with
      | some after =>
        rw [null, yes, no] at read
        cases read
        exact .inl ⟨(.bool false, boolText false), by simp, rfl, readWord_eq_some.mp no⟩
      | none =>
        rw [null, yes, no] at read
        dsimp only at read
        obtain ⟨⟨d, after⟩, inner, same⟩ := Option.map_eq_some_iff.mp read
        cases same
        refine .inr ?_
        cases cs with
        | nil => cases inner
        | cons c tail => exact ⟨c, tail, d, rfl, readNumber_head inner, rfl, inner⟩

theorem readScalar_append {cs rest : Text} {v : JsValue} (read : readScalar cs = some (v, rest))
    (stops : rest ≠ []) (extra : Text) : readScalar (cs ++ extra) = some (v, rest ++ extra) := by
  rcases readScalar_cases read with ⟨word, listed, rfl, rfl⟩ | ⟨c, tail, d, rfl, number, rfl, inner⟩
  · rw [List.append_assoc]
    simp only [List.mem_cons, List.not_mem_nil, or_false] at listed
    rcases listed with rfl | rfl | rfl <;> rfl
  · have more := readNumber_append inner stops extra
    rw [List.cons_append] at more ⊢
    rw [readScalar_of_number number, more, Option.map_some]

theorem readScalar_plain {cs rest : Text} {v : JsValue} (read : readScalar cs = some (v, rest)) :
    isContainer v = false := by
  rcases readScalar_cases read with ⟨word, listed, rfl, -⟩ | ⟨c, tail, d, -, -, rfl, -⟩
  · simp only [List.mem_cons, List.not_mem_nil, or_false] at listed
    rcases listed with rfl | rfl | rfl <;> rfl
  · rfl

theorem readScalar_not_string {cs rest : Text} {s : JsString} :
    readScalar cs ≠ some (.str s, rest) := by
  intro read
  rcases readScalar_cases read with ⟨word, listed, same, -⟩ | ⟨_, _, _, -, -, same, -⟩
  · simp only [List.mem_cons, List.not_mem_nil, or_false] at listed
    rcases listed with rfl | rfl | rfl <;> cases same
  · cases same

theorem skipSpace_append {cs : Text} (visible : skipSpace cs ≠ []) (extra : Text) :
    skipSpace (cs ++ extra) = skipSpace cs ++ extra :=
  (takeWhile_append visible extra).2

theorem readWord_visible {c : Char} {cs rest : Text}
    (read : readWord [c] (skipSpace cs) = some rest) : skipSpace cs ≠ [] := by
  rw [readWord_eq_some.mp read]
  exact List.cons_ne_nil _ _

theorem readWord_skip {c : Char} {cs rest : Text} (read : readWord [c] (skipSpace cs) = some rest)
    (extra : Text) : readWord [c] (skipSpace (cs ++ extra)) = some (rest ++ extra) := by
  rw [skipSpace_append (readWord_visible read), readWord_eq_some.mp read, List.append_assoc,
    readWord_append]

theorem readWord_skip_none {c : Char} {cs : Text} (visible : skipSpace cs ≠ [])
    (read : readWord [c] (skipSpace cs) = none) (extra : Text) :
    readWord [c] (skipSpace (cs ++ extra)) = none := by
  rw [skipSpace_append visible]
  cases text : skipSpace cs with
  | nil => exact absurd text visible
  | cons d ds =>
    rw [text] at read
    apply readWord_ne
    rintro rfl
    rw [readWord_cons] at read
    cases read

theorem readString_append {cs rest : Text} {s : JsString} (read : readString cs = some (s, rest))
    (extra : Text) : readString (cs ++ extra) = some (s, rest ++ extra) := by
  obtain ⟨lit, literal, rfl⟩ := readString_literal read
  rw [List.append_assoc, List.cons_append]
  exact literal.readString _

theorem readValue_visible {fuel : Nat} {cs rest : Text} {v : JsValue}
    (read : readValue fuel cs = some (v, rest)) : skipSpace cs ≠ [] := by
  intro blank
  cases fuel with
  | zero => cases read
  | succ fuel =>
    rw [readValue, blank] at read
    cases read

theorem readElements_visible {fuel : Nat} {cs rest : Text} {vs : List JsValue}
    (read : readElements fuel cs = some (vs, rest)) : skipSpace cs ≠ [] := by
  cases fuel with
  | zero => cases read
  | succ fuel =>
    cases readElements_iff.mp read with
    | more first | last first => exact readValue_visible first

theorem readMembers_visible {fuel : Nat} {cs rest : Text} {ms : List (JsString × JsValue)}
    (read : readMembers fuel cs = some (ms, rest)) : skipSpace cs ≠ [] := by
  cases fuel with
  | zero => cases read
  | succ fuel =>
    cases readMembers_iff.mp read with
    | more first | last first =>
      obtain ⟨quoted⟩ := first
      exact readWord_visible quoted

theorem nonempty_of_visible {cs : Text} (visible : skipSpace cs ≠ []) : cs ≠ [] := by
  rintro rfl
  exact visible rfl

/-- A value that opens with a brace is an object. -/
theorem readValue_object {fuel : Nat} {cs rest : Text} {v : JsValue}
    (read : readValue fuel ('\x7b' :: cs) = some (v, rest)) :
    ∃ ms, v = .obj ms ∧ (readWord ['\x7d'] (skipSpace cs) = some rest ∨
      ∃ fuel, readMembers fuel cs = some (ms, rest)) := by
  cases fuel with
  | zero => cases read
  | succ fuel =>
    have start : skipSpace ('\x7b' :: cs) = '\x7b' :: cs := skipSpace_of_head (by decide)
    cases readValue_iff.mp read with
    | string opened | emptyArray opened | array opened => cases start.symm.trans opened
    | emptyObject opened closed =>
      cases start.symm.trans opened
      exact ⟨[], rfl, .inl closed⟩
    | object opened _ inner =>
      cases start.symm.trans opened
      exact ⟨_, rfl, .inr ⟨fuel, inner⟩⟩
    | scalar opened plain =>
      cases start.symm.trans opened
      exact absurd rfl plain.2.2

/-- A value is read again with more text and more fuel, unless it is a scalar at the end
of the text. -/
theorem read_append (fuel more : Nat) (extra : Text) :
    (∀ {cs rest v}, readValue fuel cs = some (v, rest) → rest ≠ [] ∨ isContainer v = true →
      readValue (fuel + more) (cs ++ extra) = some (v, rest ++ extra)) ∧
    (∀ {cs rest vs}, readElements fuel cs = some (vs, rest) →
      readElements (fuel + more) (cs ++ extra) = some (vs, rest ++ extra)) ∧
    ∀ {cs rest ms}, readMembers fuel cs = some (ms, rest) →
      readMembers (fuel + more) (cs ++ extra) = some (ms, rest ++ extra) := by
  induction fuel with
  | zero => exact ⟨by simp [readValue], by simp [readElements], by simp [readMembers]⟩
  | succ fuel ih =>
    obtain ⟨value, elements, members⟩ := ih
    rw [Nat.succ_add]
    refine ⟨?_, ?_, ?_⟩
    · intro cs rest v read stops
      refine readValue_iff.mpr ?_
      have opens {c : Char} {tail : Text} (opened : skipSpace cs = c :: tail) :
          skipSpace (cs ++ extra) = c :: (tail ++ extra) := by
        rw [skipSpace_append (readValue_visible read), opened, List.cons_append]
      cases readValue_iff.mp read with
      | string opened inner => exact .string (opens opened) (readString_append inner extra)
      | emptyArray opened closed => exact .emptyArray (opens opened) (readWord_skip closed extra)
      | array opened filled inner =>
        exact .array (opens opened) (readWord_skip_none (readElements_visible inner) filled extra)
          (elements inner)
      | emptyObject opened closed => exact .emptyObject (opens opened) (readWord_skip closed extra)
      | object opened filled inner =>
        exact .object (opens opened) (readWord_skip_none (readMembers_visible inner) filled extra)
          (members inner)
      | scalar opened plain inner =>
        have continues := stops.resolve_right (by simp [readScalar_plain inner])
        exact .scalar (opens opened) plain (readScalar_append inner continues extra)
    · intro cs rest vs read
      refine readElements_iff.mpr ?_
      cases readElements_iff.mp read with
      | more first comma others =>
        have continues := nonempty_of_visible (readWord_visible comma)
        exact .more (value first (.inl continues)) (readWord_skip comma extra) (elements others)
      | last first noComma close =>
        have visible := readWord_visible close
        exact .last (value first (.inl (nonempty_of_visible visible)))
          (readWord_skip_none visible noComma extra) (readWord_skip close extra)
    · intro cs rest ms read
      refine readMembers_iff.mpr ?_
      have member {after : Text} {k : JsString} {v : JsValue}
          (first : MemberRead fuel cs after k v) (continues : after ≠ []) :
          MemberRead (fuel + more) (cs ++ extra) (after ++ extra) k v := by
        obtain ⟨quoted, key, separated, inner⟩ := first
        exact .intro (readWord_skip quoted extra) (readString_append key extra)
          (readWord_skip separated extra) (value inner (.inl continues))
      cases readMembers_iff.mp read with
      | more first comma others =>
        have continues := nonempty_of_visible (readWord_visible comma)
        exact .more (member first continues) (readWord_skip comma extra) (members others)
      | last first noComma close =>
        have visible := readWord_visible close
        exact .last (member first (nonempty_of_visible visible))
          (readWord_skip_none visible noComma extra) (readWord_skip close extra)

/-! ### The characters of scalars -/

def isScalarChar (c : Char) : Bool := isDigit c || c.isAlpha || c == '+' || c == '-' || c == '.'

/-- What was taken off the text is of words and numbers. -/
def TakesScalar (cs rest : Text) : Prop :=
  ∃ used, cs = used ++ rest ∧ ∀ c ∈ used, isScalarChar c = true

theorem TakesScalar.refl (cs : Text) : TakesScalar cs cs :=
  ⟨[], rfl, fun _ member => absurd member List.not_mem_nil⟩

theorem TakesScalar.trans {a b c : Text} (first : TakesScalar a b) (second : TakesScalar b c) :
    TakesScalar a c := by
  obtain ⟨used, rfl, left⟩ := first
  obtain ⟨used', rfl, right⟩ := second
  exact ⟨used ++ used', (List.append_assoc _ _ _).symm, List.forall_mem_append.mpr ⟨left, right⟩⟩

theorem TakesScalar.cons {c : Char} {cs rest : Text} (scalar : isScalarChar c = true)
    (later : TakesScalar cs rest) : TakesScalar (c :: cs) rest := by
  obtain ⟨used, rfl, each⟩ := later
  exact ⟨c :: used, rfl, List.forall_mem_cons.mpr ⟨scalar, each⟩⟩

theorem takesScalar_digits (cs : Text) : TakesScalar cs (cs.dropWhile isDigit) := by
  refine ⟨cs.takeWhile isDigit, List.takeWhile_append_dropWhile.symm, ?_⟩
  intro c member
  rw [isScalarChar, List.mem_takeWhile_imp member]
  rfl

theorem readFraction_takesScalar {cs rest digits : Text}
    (read : readFraction cs = some (digits, rest)) : TakesScalar cs rest := by
  unfold readFraction at read
  split at read
  · split_ifs at read
    cases read
    exact .cons rfl (takesScalar_digits _)
  · cases read
    exact .refl _

theorem readExponentDigits_takesScalar {negative : Bool} {cs rest : Text} {n : Int}
    (read : readExponentDigits negative cs = some (n, rest)) : TakesScalar cs rest := by
  unfold readExponentDigits at read
  split_ifs at read <;>
    (obtain ⟨rfl, rfl⟩ := Prod.mk.inj (Option.some.inj read)
     exact takesScalar_digits _)

theorem readExponent_takesScalar {cs rest : Text} {n : Int} (read : readExponent cs = some (n, rest)) :
    TakesScalar cs rest := by
  have signed {cs : Text} (read : readExponentSign cs = some (n, rest)) : TakesScalar cs rest := by
    unfold readExponentSign at read
    split at read
    · exact .cons rfl (readExponentDigits_takesScalar read)
    · exact .cons rfl (readExponentDigits_takesScalar read)
    · exact readExponentDigits_takesScalar read
  unfold readExponent at read
  split at read
  · exact .cons rfl (signed read)
  · exact .cons rfl (signed read)
  · cases read
    exact .refl _

theorem readMagnitude_takesScalar {cs rest : Text} {m : Nat} {e : Int}
    (read : readMagnitude cs = some (m, e, rest)) : TakesScalar cs rest := by
  unfold readMagnitude at read
  dsimp only at read
  split_ifs at read
  obtain ⟨⟨fraction, after⟩, first, read⟩ := Option.bind_eq_some_iff.mp read
  dsimp only at read
  obtain ⟨⟨exponent, last⟩, second, same⟩ := Option.map_eq_some_iff.mp read
  obtain ⟨-, -, rfl⟩ : _ ∧ _ ∧ last = rest := by simpa only [Prod.mk.injEq] using same
  exact (takesScalar_digits cs).trans
    ((readFraction_takesScalar first).trans (readExponent_takesScalar second))

theorem readNumber_takesScalar {cs rest : Text} {d : Decimal}
    (read : readNumber cs = some (d, rest)) : TakesScalar cs rest := by
  unfold readNumber at read
  split at read
  · obtain ⟨⟨m, e, after⟩, magnitude, same⟩ := Option.map_eq_some_iff.mp read
    cases same
    exact .cons rfl (readMagnitude_takesScalar magnitude)
  · obtain ⟨⟨m, e, after⟩, magnitude, same⟩ := Option.map_eq_some_iff.mp read
    cases same
    exact readMagnitude_takesScalar magnitude

theorem numberText_scalar (d : Decimal) : ∀ c ∈ numberText d, isScalarChar c = true := by
  have read := readNumber_numberText d endsNumber_nil
  obtain ⟨used, whole, scalar⟩ := readNumber_takesScalar read
  rw [List.append_nil, List.append_nil] at whole
  rwa [whole]

theorem readScalar_takesScalar {cs rest : Text} {v : JsValue}
    (read : readScalar cs = some (v, rest)) : TakesScalar cs rest := by
  rcases readScalar_cases read with ⟨word, listed, -, rfl⟩ | ⟨c, tail, d, rfl, -, -, inner⟩
  · refine ⟨word.2, rfl, ?_⟩
    simp only [List.mem_cons, List.not_mem_nil, or_false] at listed
    rcases listed with rfl | rfl | rfl <;> exact List.all_eq_true.mp (by decide)
  · exact readNumber_takesScalar inner

end NeuralMesh.Js
