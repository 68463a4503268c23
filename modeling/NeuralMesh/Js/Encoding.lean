import NeuralMesh.Js.Document

/-! JSON texts as strings: what `JSON.parse` of a trimmed string finds in the text that
`JSON.stringify` returned. -/
namespace NeuralMesh.Js

/-- `JSON.stringify` of a value that is not `undefined`. -/
def jsonString (v : JsValue) : JsString := ofText (jsonText v)

theorem utf16_plain {c : Char} (small : c.toNat < 0x10000) :
    ∃ u, utf16 c = [u] ∧ isHigh u = false ∧ isLow u = false ∧ Char.ofNat u.toNat = c := by
  have scalar := char_not_surrogate c
  have value := unit_ofNat small
  refine ⟨UInt16.ofNat c.toNat, if_pos small, ?_, ?_, ?_⟩
  · simp only [isHigh, value, Bool.and_eq_false_iff, decide_eq_false_iff_not]
    omega
  · simp only [isLow, value, Bool.and_eq_false_iff, decide_eq_false_iff_not]
    omega
  · rw [value, Char.ofNat_toNat]

theorem utf16_pair {c : Char} (large : ¬ c.toNat < 0x10000) :
    ∃ u v, utf16 c = [u, v] ∧ isHigh u = true ∧ isLow v = true ∧ pairChar u v = c := by
  have scalar := char_not_surrogate c
  have upper := unit_ofNat (by omega : 0xD800 + (c.toNat - 0x10000) / 0x400 < 65536)
  have lower := unit_ofNat (by omega : 0xDC00 + (c.toNat - 0x10000) % 0x400 < 65536)
  refine ⟨_, _, if_neg large, ?_, ?_, ?_⟩
  · simp only [isHigh, upper, Bool.and_eq_true, decide_eq_true_eq]
    omega
  · simp only [isLow, lower, Bool.and_eq_true, decide_eq_true_eq]
    omega
  · have joined : 0x10000 + (0xD800 + (c.toNat - 0x10000) / 0x400 - 0xD800) * 0x400 +
        (0xDC00 + (c.toNat - 0x10000) % 0x400 - 0xDC00) = c.toNat := by omega
    rw [pairChar, upper, lower, joined, Char.ofNat_toNat]

theorem spelledFrom_ofText (escaped : Bool) (text : Text) :
    spelledFrom escaped (ofText text) = text := by
  induction text generalizing escaped with
  | nil => rfl
  | cons c text ih =>
    rw [ofText, List.flatMap_cons, ← ofText]
    by_cases small : c.toNat < 0x10000
    · obtain ⟨u, units, high, low, char⟩ := utf16_plain small
      have unit : spellUnit escaped u = [c] := by
        rw [spellUnit, isSurrogate, high, low, char]
        rfl
      rw [units, List.singleton_append]
      cases rest : ofText text with
      | nil =>
        have empty := ih false
        rw [rest, spelledFrom] at empty
        rw [spelledFrom, unit, ← empty]
      | cons v rest' =>
        rw [spelledFrom, high, Bool.false_and, if_neg Bool.false_ne_true, unit, ← rest, ih]
        rfl
    · obtain ⟨u, v, units, high, low, char⟩ := utf16_pair small
      rw [units, List.cons_append, List.singleton_append, spelledFrom, high, low, Bool.and_self,
        if_pos rfl, char, ih]

@[simp] theorem spelled_ofText (text : Text) : spelled (ofText text) = text :=
  spelledFrom_ofText false text

/-- A text within visible ends is trimmed already. -/
theorem trim_ends {first last : Char} (body : Text) (opens : isSpace first = false)
    (closes : isSpace last = false) :
    trim (first :: (body ++ [last])) = first :: (body ++ [last]) := by
  apply trim_of_tight
  constructor
  · intro c head
    obtain rfl : first = c := Option.some.inj head
    exact opens
  · intro c final
    rw [← List.cons_append, List.getLast?_concat] at final
    obtain rfl : last = c := Option.some.inj final
    exact closes

/-- The text of an array or object is read as its document. -/
theorem jsonDocument_jsonString {v : JsValue} (plain : isPlain v = true)
    (ordered : isOrdered v = true) (container : isContainer v = true) :
    jsonDocument (jsonString v) = some (asDoubles v) := by
  have braced : trim (jsonText v) = jsonText v ∧ isBraced (jsonText v) = true := by
    cases v with
    | arr elements =>
      refine ⟨trim_ends _ (by decide) (by decide), ?_⟩
      rw [jsonText, isBraced, ← List.cons_append, List.getLast?_concat]
      rfl
    | obj members =>
      refine ⟨trim_ends _ (by decide) (by decide), ?_⟩
      rw [jsonText, isBraced, ← List.cons_append, List.getLast?_concat]
      rfl
    | _ => cases container
  rw [jsonDocument, jsonString, spelled_ofText, braced.1, if_pos braced.2, parseDoubles,
    parse_jsonText plain ordered, Option.map_some]

/-- The text of a string has quotes at its ends, and is read as no document. -/
theorem jsonDocument_quote (s : JsString) : jsonDocument (jsonString (.str s)) = none := by
  have quoted : trim (quote s) = quote s := trim_ends _ (by decide) (by decide)
  rw [jsonDocument, jsonString, spelled_ofText, jsonText, quoted]
  exact if_neg (by simp [isBraced, quote])

end NeuralMesh.Js
