import NeuralMesh.Codec.Truncation
import NeuralMesh.Js.Indented

/-! Files of JSON text whose writing was cut short. What is left of the text of an array or an
object is no document. -/
namespace NeuralMesh.Codec

open Js

/-! ### Brackets -/

theorem readElements_bracket {fuel : Nat} {cs rest : Text} {vs : List JsValue}
    (read : readElements fuel cs = some (vs, rest)) : ']' :: rest <:+ cs := by
  induction fuel generalizing cs vs with
  | zero => cases read
  | succ fuel ih =>
    cases readElements_iff.mp read with
    | more first comma others =>
      have inner := (read_suffix fuel).1 first
      exact ((ih others).trans (suffix_of_cons (readWord_suffix comma))).trans inner
    | last first _ close => exact (readWord_suffix close).trans ((read_suffix fuel).1 first)

/-- A value that opens with a bracket is an array and is left at its bracket. -/
theorem readValue_bracket {fuel : Nat} {cs rest : Text} {v : JsValue}
    (read : readValue fuel ('[' :: cs) = some (v, rest)) :
    isContainer v = true ∧ ']' :: rest <:+ cs := by
  cases fuel with
  | zero => cases read
  | succ fuel =>
    have start : skipSpace ('[' :: cs) = '[' :: cs := skipSpace_of_head (by decide)
    cases readValue_iff.mp read with
    | string opened | emptyObject opened | object opened => cases start.symm.trans opened
    | emptyArray opened closed =>
      cases start.symm.trans opened
      exact ⟨rfl, readWord_suffix closed⟩
    | array opened _ inner =>
      cases start.symm.trans opened
      exact ⟨rfl, readElements_bracket inner⟩
    | scalar opened plain =>
      cases start.symm.trans opened
      exact absurd rfl plain.2.1

/-- The marks around an array or an object. -/
def Encloses (opening closing : Char) : Prop :=
  (opening = '[' ∧ closing = ']') ∨ (opening = '\x7b' ∧ closing = '\x7d')

theorem readValue_enclosed {opening closing : Char} (encloses : Encloses opening closing)
    {fuel : Nat} {cs rest : Text} {v : JsValue}
    (read : readValue fuel (opening :: cs) = some (v, rest)) :
    isContainer v = true ∧ closing :: rest <:+ cs := by
  obtain ⟨rfl, rfl⟩ | ⟨rfl, rfl⟩ := encloses
  · exact readValue_bracket read
  · exact readValue_brace read

/-! ### Beginnings -/

theorem container_text {v : JsValue} (container : isContainer v = true) :
    ∃ opening closing tail, Encloses opening closing ∧ indentedText [] v = opening :: tail := by
  cases v with
  | arr elements =>
    obtain ⟨tail, text⟩ := bracketed_head '[' ']' [] (indentedElements [' ', ' '] elements) []
    rw [List.append_nil] at text
    exact ⟨'[', ']', tail, .inl ⟨rfl, rfl⟩, text⟩
  | obj members =>
    obtain ⟨tail, text⟩ :=
      bracketed_head '\x7b' '\x7d' [] (indentedMembers [' ', ' '] members) []
    rw [List.append_nil] at text
    exact ⟨'\x7b', '\x7d', tail, .inr ⟨rfl, rfl⟩, text⟩
  | _ => cases container

/-- A document does not end with another character than white space or its closing mark. -/
theorem parse_unended {opening closing c : Char} (encloses : Encloses opening closing) {cs : Text}
    (space : isJsonSpace c = false) (differ : c ≠ closing) :
    parse (opening :: (cs ++ [c])) = none := by
  rw [parse]
  split
  · next v rest read =>
    obtain ⟨-, before, ends⟩ := readValue_enclosed encloses read
    rw [if_neg]
    intro blank
    -- the character is the last one of what is left
    cases rest using List.reverseRecOn with
    | nil =>
      have last := congrArg List.getLast? ends
      rw [List.getLast?_concat, List.getLast?_concat] at last
      exact differ (Option.some.inj last).symm
    | append_singleton rest d =>
      have last := congrArg List.getLast? ends
      rw [← List.cons_append, ← List.append_assoc, List.getLast?_concat,
        List.getLast?_concat] at last
      obtain rfl := Option.some.inj last
      have inside : d ∈ rest ++ [d] := List.mem_append_right rest (List.mem_singleton_self d)
      have blankEnd := List.dropWhile_eq_nil_iff.mp blank d inside
      rw [space] at blankEnd
      cases blankEnd
  · rfl

section Container

variable {v : JsValue} (plain : isPlain v = true) (container : isContainer v = true)
include plain container

theorem parse_partial {before after : Text} (split : indentedText [] v = before ++ after)
    (proper : after ≠ []) : parse before = none := by
  obtain ⟨opening, closing, tail, encloses, text⟩ := container_text container
  rw [parse]
  split
  · next w rest read =>
    rw [if_neg]
    intro _
    cases before with
    | nil => cases read
    | cons c before =>
      rw [text] at split
      have opens : opening = c := (List.cons.inj split).1
      subst opens
      have longer := (read_append _ (indentedText [] v).length after).1 read
        (.inr (readValue_enclosed encloses read).1)
      have empty : Spaces [] := fun c member => absurd member List.not_mem_nil
      have full := readsAs_indentedText v plain empty
        ((opening :: before).length + 1 + (indentedText [] v).length) [] (by omega) endsNumber_nil
      rw [List.append_nil, text, split] at full
      rw [text, split] at longer
      have left : [] = rest ++ after :=
        (Prod.mk.inj (Option.some.inj (full.symm.trans longer))).2
      exact proper (List.append_eq_nil_iff.mp left.symm).2
  · rfl

/-- The bytes of a file that end early are no document, wherever they cut a character. -/
theorem parse_torn {before after : Bytes} (split : utf8 (indentedText [] v) = before ++ after)
    (proper : after ≠ []) : parse (decodeUtf8 before) = none := by
  have whole : decided none before ++ decodeFrom (pendingAfter none before) after =
      indentedText [] v := by
    rw [← decodeFrom_append, ← split]
    exact decodeUtf8_utf8 _
  rw [decodeUtf8, decodeFrom_decided]
  cases pending : pendingAfter none before with
  | none =>
    rw [pending] at whole
    rw [unfinished, List.append_nil]
    exact parse_partial plain container whole.symm (decodeFrom_ne_nil (.inr proper))
  | some p =>
    rw [unfinished]
    obtain ⟨opening, closing, tail, encloses, opens⟩ := container_text container
    cases text : decided none before with
    | nil => exact Option.isNone_iff_eq_none.mp (by decide +kernel)
    | cons c cs =>
      rw [text, opens] at whole
      have same : c = opening := (List.cons.inj whole).1
      rw [same, List.cons_append]
      refine parse_unended encloses (by decide) ?_
      rintro rfl
      obtain ⟨-, closed⟩ | ⟨-, closed⟩ := encloses
      · exact absurd closed (by decide)
      · exact absurd closed (by decide)

end Container

end NeuralMesh.Codec
