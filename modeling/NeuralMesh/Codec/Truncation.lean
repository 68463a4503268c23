import NeuralMesh.Codec.Pieces
import NeuralMesh.Js.Reading

/-! Truncated JSON documents. What a reader leaves is an end of its text, and an object ends with
its brace; so no beginning of the bytes of an object, short of the whole, is a document. -/
namespace NeuralMesh.Codec

open Js

/-! ### Ends of a text -/

theorem skipSpace_suffix (cs : Text) : skipSpace cs <:+ cs := List.dropWhile_suffix _

theorem readWord_suffix {word cs rest : Text} (read : readWord word (skipSpace cs) = some rest) :
    word ++ rest <:+ cs := by
  rw [← readWord_eq_some.mp read]
  exact skipSpace_suffix cs

theorem readString_suffix {cs rest : Text} {s : JsString}
    (read : readString cs = some (s, rest)) : rest <:+ cs := by
  obtain ⟨lit, -, rfl⟩ := readString_literal read
  exact ⟨lit ++ ['"'], List.append_assoc _ _ _⟩

theorem readScalar_suffix {cs rest : Text} {v : JsValue} (read : readScalar cs = some (v, rest)) :
    rest <:+ cs := by
  obtain ⟨used, rfl, -⟩ := readScalar_takesScalar read
  exact List.suffix_append used rest

theorem suffix_of_cons {c : Char} {rest cs : Text} (brace : c :: rest <:+ cs) : rest <:+ cs :=
  (List.suffix_cons c rest).trans brace

/-- A reader leaves an end of its text; the members of an object are left at its brace. -/
theorem read_suffix (fuel : Nat) :
    (∀ {cs rest v}, readValue fuel cs = some (v, rest) → rest <:+ cs) ∧
    (∀ {cs rest vs}, readElements fuel cs = some (vs, rest) → rest <:+ cs) ∧
    ∀ {cs rest ms}, readMembers fuel cs = some (ms, rest) → '\x7d' :: rest <:+ cs := by
  induction fuel with
  | zero => exact ⟨by simp [readValue], by simp [readElements], by simp [readMembers]⟩
  | succ fuel ih =>
    obtain ⟨value, elements, members⟩ := ih
    refine ⟨?_, ?_, ?_⟩
    · intro cs rest v read
      have inside {c : Char} {tail : Text} (opened : skipSpace cs = c :: tail) : tail <:+ cs :=
        suffix_of_cons (opened ▸ skipSpace_suffix cs)
      cases readValue_iff.mp read with
      | string opened inner => exact (readString_suffix inner).trans (inside opened)
      | emptyArray opened closed | emptyObject opened closed =>
        exact (suffix_of_cons (readWord_suffix closed)).trans (inside opened)
      | array opened _ inner => exact (elements inner).trans (inside opened)
      | object opened _ inner => exact (suffix_of_cons (members inner)).trans (inside opened)
      | scalar opened _ inner =>
        exact (readScalar_suffix inner).trans (opened ▸ skipSpace_suffix cs)
    · intro cs rest vs read
      cases readElements_iff.mp read with
      | more first comma others =>
        have afterComma := suffix_of_cons (readWord_suffix comma)
        exact ((elements others).trans afterComma).trans (value first)
      | last first _ close => exact (suffix_of_cons (readWord_suffix close)).trans (value first)
    · intro cs rest ms read
      have member {after : Text} {k : JsString} {v : JsValue}
          (first : MemberRead fuel cs after k v) : after <:+ cs := by
        obtain ⟨quoted, key, separated, inner⟩ := first
        have afterKey := (readString_suffix key).trans (suffix_of_cons (readWord_suffix quoted))
        exact ((value inner).trans (suffix_of_cons (readWord_suffix separated))).trans afterKey
      cases readMembers_iff.mp read with
      | more first comma others =>
        have afterComma := suffix_of_cons (readWord_suffix comma)
        exact ((members others).trans afterComma).trans (member first)
      | last first _ close => exact (readWord_suffix close).trans (member first)

/-- A value that opens with a brace is an object and is left at its brace. -/
theorem readValue_brace {fuel : Nat} {cs rest : Text} {v : JsValue}
    (read : readValue fuel ('\x7b' :: cs) = some (v, rest)) :
    isContainer v = true ∧ '\x7d' :: rest <:+ cs := by
  obtain ⟨ms, rfl, closed | ⟨fuel, inner⟩⟩ := readValue_object read
  · exact ⟨rfl, readWord_suffix closed⟩
  · exact ⟨rfl, (read_suffix fuel).2.2 inner⟩

/-! ### Beginnings of an object -/

/-- Characters that are no white space and no closing brace do not end a document. -/
theorem parse_unclosed {cs : Text} {c : Char} (space : isJsonSpace c = false)
    (brace : c ≠ '\x7d') : parse ('\x7b' :: (cs ++ [c])) = none := by
  rw [parse]
  split
  · next v rest read =>
    obtain ⟨-, before, ends⟩ := readValue_brace read
    rw [if_neg]
    intro blank
    -- the character is the last one of what is left
    cases rest using List.reverseRecOn with
    | nil =>
      have last := congrArg List.getLast? ends
      rw [List.getLast?_concat, List.getLast?_concat] at last
      exact brace (Option.some.inj last).symm
    | append_singleton rest d =>
      have last := congrArg List.getLast? ends
      rw [← List.cons_append, ← List.append_assoc, List.getLast?_concat,
        List.getLast?_concat] at last
      obtain rfl := Option.some.inj last
      have inside : d ∈ rest ++ [d] := List.mem_append_right rest (List.mem_singleton_self d)
      have blankEnd := List.dropWhile_eq_nil_iff.mp blank d inside
      rw [space] at blankEnd
      cases blankEnd
  · rfl

/-- A proper beginning of the text of an object is no document. -/
theorem parse_beginning {ms : Members} (plain : isPlain (.obj ms) = true) {before after : Text}
    (split : jsonText (.obj ms) = before ++ after) (proper : after ≠ []) : parse before = none := by
  rw [parse]
  split
  · next v rest read =>
    rw [if_neg]
    intro _
    cases before with
    | nil => cases read
    | cons c before =>
      have opens : '\x7b' = c := (List.cons.inj split).1
      subst opens
      have whole := (read_append _ (jsonText (.obj ms)).length after).1 read
        (.inr (readValue_brace read).1)
      have full := readValue_jsonText _ plain
        (('\x7b' :: before).length + 1 + (jsonText (.obj ms)).length) [] (by omega) endsNumber_nil
      rw [List.append_nil] at full
      rw [← split, full] at whole
      have left : [] = rest ++ after := (Prod.mk.inj (Option.some.inj whole)).2
      exact proper (List.append_eq_nil_iff.mp left.symm).2
  · rfl

theorem openSequence_reads (b : Nat) : (openSequence b).1 ≠ [] ∨ (openSequence b).2 ≠ none := by
  unfold openSequence
  split_ifs <;> simp

theorem decodeByte_reads (p : Option Pending) (b : UInt8) :
    (decodeByte p b).1 ≠ [] ∨ (decodeByte p b).2 ≠ none := by
  cases p with
  | none => exact openSequence_reads b.toNat
  | some p =>
    show (continueSequence p b.toNat).1 ≠ [] ∨ (continueSequence p b.toNat).2 ≠ none
    unfold continueSequence
    split_ifs <;> simp

theorem decodeFrom_ne_nil {p : Option Pending} {bytes : Bytes} (more : p ≠ none ∨ bytes ≠ []) :
    decodeFrom p bytes ≠ [] := by
  induction bytes generalizing p with
  | nil =>
    cases p with
    | none => exact absurd rfl (more.resolve_right fun h => h rfl)
    | some p => exact List.cons_ne_nil _ _
  | cons b bytes ih =>
    rw [decodeFrom_cons]
    intro empty
    obtain ⟨out, later⟩ := List.append_eq_nil_iff.mp empty
    rcases decodeByte_reads p b with reads | pending
    · exact reads out
    · exact ih (.inl pending) later

/-- A proper beginning of the bytes of an object is no document, wherever it cuts a character. -/
theorem parse_truncated (ms : Members) {before after : Bytes}
    (split : utf8 (jsonText (.obj ms)) = before ++ after) (proper : after ≠ []) :
    parseDoubles (decodeUtf8 before) = none := by
  have whole : decided none before ++ decodeFrom (pendingAfter none before) after =
      jsonText (transmitted (.obj ms)) := by
    rw [← decodeFrom_append, ← split, jsonText_transmitted]
    exact decodeUtf8_utf8 _
  rw [parseDoubles, Option.map_eq_none_iff, decodeUtf8, decodeFrom_decided]
  cases pending : pendingAfter none before with
  | none =>
    rw [pending] at whole
    rw [unfinished, List.append_nil]
    exact parse_beginning (isPlain_transmitted (.obj ms)) whole.symm
      (decodeFrom_ne_nil (.inr proper))
  | some p =>
    rw [unfinished]
    cases text : decided none before with
    | nil => exact Option.isNone_iff_eq_none.mp (by decide +kernel)
    | cons c cs =>
      rw [text] at whole
      have opens : c = '\x7b' := (List.cons.inj whole).1
      rw [opens, List.cons_append]
      exact parse_unclosed (by decide) (by decide)

end NeuralMesh.Codec
