import NeuralMesh.Codec.Utf8
import NeuralMesh.Js.Reading
import NeuralMesh.Js.Trim

/-! Files of JSON texts, one on a line. A JSON text has no line break, so what is appended to a
file whose last line is closed is read as one more line. -/
namespace NeuralMesh.Codec

open Js

/-! ### JSON texts -/

theorem readHex4_newline {a b c d : Char} {u : CodeUnit} (read : readHex4 a b c d = some u) :
    '\n' ∉ [a, b, c, d] := by
  have control : hexValue '\n' = none := by decide
  intro member
  simp only [List.mem_cons, List.not_mem_nil, or_false] at member
  rcases member with rfl | rfl | rfl | rfl <;> simp [readHex4, control] at read

theorem newline_not_mem_literal {lit : Text} {s : JsString} (literal : Literal lit s) :
    '\n' ∉ lit := by
  induction literal with
  | nil => exact List.not_mem_nil
  | plain quoted escape control _ ih =>
    rw [List.mem_cons, not_or]
    refine ⟨?_, ih⟩
    rintro rfl
    exact absurd control (by decide)
  | short unit _ ih =>
    rw [List.mem_cons, List.mem_cons, not_or, not_or]
    refine ⟨by decide, ?_, ih⟩
    rintro rfl
    cases unit
  | @unicode a b c d u t s unit _ ih =>
    have digits := readHex4_newline unit
    simp only [List.mem_cons, List.not_mem_nil, or_false, not_or] at digits ⊢
    obtain ⟨first, second, third, fourth⟩ := digits
    exact ⟨by decide, by decide, first, second, third, fourth, ih⟩

theorem newline_not_mem_quote (s : JsString) : '\n' ∉ quote s := by
  have body := newline_not_mem_literal (literal_quoteBody s)
  simp [quote, body]

theorem newline_not_mem_digits {t : Text} (digits : ∀ c ∈ t, isDigit c = true) : '\n' ∉ t := by
  intro member
  cases digits _ member

theorem newline_not_mem_exponentText (n : Int) : '\n' ∉ exponentText n := by
  have digits := newline_not_mem_digits (natText_digits n.natAbs)
  rw [exponentText]
  split_ifs <;> simp [digits]

theorem newline_not_mem_placePoint {s : Text} (digits : '\n' ∉ s) (e : Int) :
    '\n' ∉ placePoint s e := by
  have taken (n : Nat) : '\n' ∉ s.take n := fun member => digits (List.mem_of_mem_take member)
  have dropped (n : Nat) : '\n' ∉ s.drop n := fun member => digits (List.mem_of_mem_drop member)
  have exponent := newline_not_mem_exponentText (s.length + e - 1)
  simp only [placePoint]
  split_ifs with whole inside before
  · simp [digits]
  · simp [taken, dropped]
  · simp [digits]
  · cases s with
    | nil => exact List.not_mem_nil
    | cons d ds =>
      obtain ⟨first, rest⟩ := not_or.mp (List.mem_cons.not.mp digits)
      cases ds with
      | nil => simpa [first] using exponent
      | cons d' ds => 
        simp only [List.mem_cons, List.mem_append, not_or] at rest ⊢
        exact ⟨first, by decide, rest, exponent⟩

theorem newline_not_mem_number (n : JsNumber) : '\n' ∉ n.jsonText := by
  cases n with
  | finite d =>
    have magnitude := newline_not_mem_placePoint
      (newline_not_mem_digits (natText_digits d.coefficient.natAbs)) d.exponent
    rw [JsNumber.jsonText, numberText, magnitudeText]
    split_ifs <;> simp [magnitude]
  | nan => decide
  | infinite negative => exact (by decide : '\n' ∉ nullText)

theorem newline_not_mem_commaJoin {ts : List Text} (each : ∀ t ∈ ts, '\n' ∉ t) :
    '\n' ∉ commaJoin ts := by
  cases ts with
  | nil => exact List.not_mem_nil
  | cons t ts =>
    rw [commaJoin_cons, List.mem_append, not_or]
    refine ⟨each t List.mem_cons_self, ?_⟩
    rw [commaTail, List.mem_flatMap]
    rintro ⟨u, member, newline⟩
    rcases List.mem_cons.mp newline with comma | inside
    · cases comma
    · exact each u (List.mem_cons_of_mem t member) inside

theorem newline_not_mem_memberTexts {ms : List (JsString × JsValue)}
    (each : ∀ m ∈ ms, '\n' ∉ jsonText m.2) : ∀ t ∈ memberTexts ms, '\n' ∉ t := by
  induction ms with
  | nil => exact fun t member => absurd member List.not_mem_nil
  | cons m ms ih =>
    obtain ⟨k, v⟩ := m
    obtain ⟨value, later⟩ := List.forall_mem_cons.mp each
    by_cases absent : v = .undefined
    · subst absent
      exact ih later
    · rw [memberTexts_cons k ms absent, List.forall_mem_cons]
      refine ⟨?_, ih later⟩
      have key := newline_not_mem_quote k
      simp [key, value]

theorem newline_not_mem_jsonText (v : JsValue) : '\n' ∉ jsonText v := by
  induction v with
  | undefined | null => decide
  | bool b => cases b <;> decide
  | num n => exact newline_not_mem_number n
  | str s => exact newline_not_mem_quote s
  | arr elements ih =>
    have inner : '\n' ∉ commaJoin (elements.map jsonText) :=
      newline_not_mem_commaJoin (List.forall_mem_map.mpr ih)
    simp [jsonText, inner]
  | obj members ih =>
    have inner : '\n' ∉ commaJoin (memberTexts members) :=
      newline_not_mem_commaJoin (newline_not_mem_memberTexts ih)
    simp [jsonText, inner]

/-! ### Files -/

def newlineByte : UInt8 := 10

/-- Every line of the file is closed. -/
def Terminated (bytes : Bytes) : Prop := bytes = [] ∨ ∃ before, bytes = before ++ [newlineByte]

/-- A pending sequence asks for a byte that is no ASCII character. -/
def Pending.Open (p : Pending) : Prop := 0x80 ≤ p.lower

theorem openSequence_open {b : Nat} {out : Text} {p : Pending}
    (opened : openSequence b = (out, some p)) : p.Open := by
  rw [openSequence] at opened
  split_ifs at opened <;> cases opened <;> exact Nat.le_of_ble_eq_true rfl

theorem decodeByte_open {state : Option Pending} {b : UInt8} {out : Text} {p : Pending}
    (decoded : decodeByte state b = (out, some p)) : p.Open := by
  cases state with
  | none => exact openSequence_open decoded
  | some q =>
    rw [decodeByte, continueSequence] at decoded
    split_ifs at decoded
    · cases decoded
    · cases decoded
      exact Nat.le_refl 0x80
    · obtain ⟨-, pending⟩ := Prod.mk.inj decoded
      exact @openSequence_open b.toNat _ p (Prod.ext rfl pending)

/-- After a line break the decoder starts afresh. -/
theorem decodeFrom_newline (bs : Bytes) {state : Option Pending}
    (opened : ∀ p, state = some p → p.Open) :
    ∃ text : Text, ∀ rest,
      decodeFrom state (bs ++ newlineByte :: rest) = text ++ '\n' :: decodeFrom none rest := by
  induction bs generalizing state with
  | nil =>
    cases state with
    | none =>
      refine ⟨[], fun rest => ?_⟩
      rw [List.nil_append, decodeFrom_cons]
      rfl
    | some p =>
      have low := opened p rfl
      refine ⟨[replacement], fun rest => ?_⟩
      rw [List.nil_append, decodeFrom_cons, decodeByte, continueSequence, if_neg]
      · rfl
      · intro inside
        exact absurd (Nat.le_trans low inside.1) (by decide)
  | cons b bs ih =>
    obtain ⟨text, split⟩ := @ih (decodeByte state b).2 fun p same =>
      decodeByte_open (Prod.ext rfl same)
    refine ⟨(decodeByte state b).1 ++ text, fun rest => ?_⟩
    rw [List.cons_append, decodeFrom_cons, split, List.append_assoc]

/-- The lines that are not blank. -/
def lines (content : Text) : List Text :=
  (content.splitOn '\n').filter fun l => 0 < (trim l).length

theorem lines_single {line : Text} (unbroken : '\n' ∉ line) (visible : trim line ≠ []) :
    lines line = [line] := by
  have whole : line.splitOn '\n' = [line] := by
    apply List.splitOnP_eq_singleton
    intro c member
    rw [beq_eq_false_iff_ne]
    rintro rfl
    exact unbroken member
  have kept : 0 < (trim line).length := List.length_pos_iff.mpr visible
  simp [lines, whole, kept]

/-- What stands after a line break is no part of the lines before it. -/
theorem lines_break (before after : Text) :
    lines (before ++ '\n' :: after) = lines before ++ lines after := by
  have split := List.splitOnP_append_cons (p := fun c => c == '\n') before after
    (beq_self_eq_true '\n')
  rw [lines, List.splitOn, split, List.filter_append]
  rfl

theorem lines_append {bytes : Bytes} (terminated : Terminated bytes) {line : Text}
    (unbroken : '\n' ∉ line) (visible : trim line ≠ []) :
    lines (decodeUtf8 (bytes ++ utf8 (line ++ ['\n']))) = lines (decodeUtf8 bytes) ++ [line] := by
  have blank : lines [] = [] := rfl
  rcases terminated with rfl | ⟨before, rfl⟩
  · rw [List.nil_append, decodeUtf8_utf8, lines_break, lines_single unbroken visible]
    rfl
  · obtain ⟨text, split⟩ := @decodeFrom_newline before none fun p absent => by cases absent
    have closed : decodeUtf8 (before ++ [newlineByte]) = text ++ ['\n'] := split []
    have longer : decodeUtf8 (before ++ [newlineByte] ++ utf8 (line ++ ['\n'])) =
        text ++ '\n' :: (line ++ ['\n']) := by
      rw [List.append_assoc, List.singleton_append, decodeUtf8, split, ← decodeUtf8,
        decodeUtf8_utf8]
    rw [closed, longer, lines_break, lines_break, lines_break,
      lines_single unbroken visible, blank, List.append_nil, List.append_nil]

theorem terminated_append (bytes : Bytes) (line : Text) :
    Terminated (bytes ++ utf8 (line ++ ['\n'])) := by
  refine .inr ⟨bytes ++ utf8 line, ?_⟩
  rw [utf8, List.flatMap_append, ← utf8, List.append_assoc]
  rfl

end NeuralMesh.Codec
