import NeuralMesh.Js.RegExpSource
import NeuralMesh.Server.PiiKeys

/-! The boundary pattern of a forbidden token of less than four letters: the source that the
constructor of the scanner writes, and which keys it is found in. -/
namespace NeuralMesh.Server

open Js

def isLowerUnit (unit : CodeUnit) : Bool := 97 ≤ unit && unit ≤ 122

def isUpperUnit (unit : CodeUnit) : Bool := 65 ≤ unit && unit ≤ 90

def upperUnit (unit : CodeUnit) : CodeUnit := if isLowerUnit unit then unit - 32 else unit

def lowerUnit (unit : CodeUnit) : CodeUnit := if isUpperUnit unit then unit + 32 else unit

def isAscii (text : JsString) : Bool := text.all (· < 128)

/-- The functions on ASCII texts and on the sources that `parsePattern` reads, and any functions
on others. -/
def TextFunctions.known (other : TextFunctions) : TextFunctions where
  toLowerCase s := if isAscii s then s.map lowerUnit else other.toLowerCase s
  toUpperCase s := if isAscii s then s.map upperUnit else other.toUpperCase s
  test source text :=
    match parsePattern source with
    | some pattern => (pattern.toRegExp source false false).test text
    | none => other.test source text

@[ext]
structure Word where
  units : JsString
  nonempty : units ≠ []
  lower : ∀ unit ∈ units, isLowerUnit unit = true

def Word.ofLetters (units : JsString) (nonempty : units ≠ [])
    (letters : units.all isLowerUnit = true) : Word :=
  ⟨units, nonempty, List.all_eq_true.mp letters⟩

def capitalize : JsString → JsString
  | [] => []
  | unit :: units => upperUnit unit :: units

/-! ### Letters -/

section Letters

variable {unit : CodeUnit}

theorem isUpper_upperUnit (lower : isLowerUnit unit = true) :
    isUpperUnit (upperUnit unit) = true := by
  grind [isLowerUnit, isUpperUnit, upperUnit]

theorem lowerUnit_upperUnit (lower : isLowerUnit unit = true) :
    lowerUnit (upperUnit unit) = unit := by
  grind [isLowerUnit, isUpperUnit, upperUnit, lowerUnit]

theorem not_upper_of_lower (lower : isLowerUnit unit = true) : isUpperUnit unit = false := by
  grind [isLowerUnit, isUpperUnit]

theorem lowerUnit_lower (lower : isLowerUnit unit = true) : lowerUnit unit = unit := by
  rw [lowerUnit, not_upper_of_lower lower, if_neg Bool.false_ne_true]

/-- The two spellings of a letter. -/
theorem lowerUnit_eq_iff {letter : CodeUnit} (lower : isLowerUnit letter = true) :
    lowerUnit unit = letter ↔ unit = letter ∨ unit = upperUnit letter := by
  grind [isLowerUnit, isUpperUnit, upperUnit, lowerUnit]

theorem isWordUnit_of_lower (lower : isLowerUnit unit = true) : isWordUnit unit = true := by
  grind [isLowerUnit, isWordUnit]

theorem isWordUnit_of_upper (upper : isUpperUnit unit = true) : isWordUnit unit = true := by
  grind [isUpperUnit, isWordUnit]

theorem isAscii_letter (lower : isLowerUnit unit = true) : isAscii [unit] = true := by
  grind [isLowerUnit, isAscii]

end Letters

/-! ### The pattern of a token -/

/-- `[cC]` -/
def bothCases (unit : CodeUnit) : CodeUnit → Bool :=
  orUnit (orUnit (fun _ => false) unit) (upperUnit unit)

/-- `[_-]` -/
def isJoint : CodeUnit → Bool := orUnit (orUnit (fun _ => false) 0x5F) 0x2D

/-- `[A-Z_-]` -/
def isHump : CodeUnit → Bool :=
  orUnit (orUnit (orRange (orUnit (fun _ => false) 0x41) 0x41 0x5A) 0x5F) 0x2D

def orEdge (edge : Regex) (p : CodeUnit → Bool) : Regex :=
  .alt (.seq .empty edge) (.seq .empty (.char p))

def anyCase (token : Word) : List (CodeUnit → Bool) := token.units.map bothCases

/-- `[a-z]` and the token with its first letter as a capital. -/
def humped (token : Word) : List (CodeUnit → Bool) :=
  orRange (orUnit (fun _ => false) 0x61) 0x61 0x7A ::
    (capitalize token.units).map fun unit u => decide (u = unit)

def boundaryRegex (token : Word) : Regex :=
  .alt
    (.alt
      (.seq (followedBy (.seq .empty (orEdge .start isJoint)) (anyCase token))
        (orEdge .stop isJoint))
      (.seq (followedBy .empty (humped token)) (orEdge .stop isHump)))
    (.seq (followedBy (.seq .empty .start) (anyCase token)) .stop)

theorem readUnits_ciPattern (other : TextFunctions) {units : JsString}
    (lower : ∀ unit ∈ units, isLowerUnit unit = true) (groups : List Frame)
    (before : Option Regex) (pattern : Regex) :
    (other.known.ciPattern units).foldlM readUnit ⟨.term, groups, ⟨before, pattern⟩⟩ =
      some ⟨.term, groups, ⟨before, followedBy pattern (units.map bothCases)⟩⟩ := by
  induction units generalizing pattern with
  | nil => rfl
  | cons unit units ih =>
    obtain ⟨letter, lower⟩ := List.forall_mem_cons.mp lower
    have small : other.known.toLowerCase [unit] = [unit] :=
      (if_pos (isAscii_letter letter)).trans (congrArg (· :: []) (lowerUnit_lower letter))
    have large : other.known.toUpperCase [unit] = [upperUnit unit] :=
      if_pos (isAscii_letter letter)
    have piece : js "[" ++ other.known.toLowerCase [unit] ++ other.known.toUpperCase [unit] ++
        js "]" = [0x5B, unit, upperUnit unit, 0x5D] := by
      rw [small, large]
      rfl
    rw [TextFunctions.ciPattern, List.flatMap_cons, piece, List.foldlM_append,
      readUnits_pair _ _ _ (isWordUnit_of_lower letter)
        (isWordUnit_of_upper (isUpper_upperUnit letter))]
    exact ih lower _

theorem camelPattern_eq (other : TextFunctions) (token : Word) :
    other.known.camelPattern token.units = js "[a-z]" ++ capitalize token.units := by
  obtain ⟨_ | ⟨unit, units⟩, nonempty, lower⟩ := token
  · exact absurd rfl nonempty
  · have large : other.known.toUpperCase [unit] = [upperUnit unit] :=
      if_pos (isAscii_letter (lower unit List.mem_cons_self))
    have first : (unit :: units).take 1 = [unit] := rfl
    rw [TextFunctions.camelPattern, first, large, List.append_assoc]
    rfl

theorem capitalize_words (token : Word) :
    ∀ unit ∈ capitalize token.units, isWordUnit unit = true := by
  obtain ⟨_ | ⟨unit, units⟩, nonempty, lower⟩ := token
  · exact absurd rfl nonempty
  · obtain ⟨letter, others⟩ := List.forall_mem_cons.mp lower
    exact List.forall_mem_cons.mpr ⟨isWordUnit_of_upper (isUpper_upperUnit letter),
      fun u member => isWordUnit_of_lower (others u member)⟩

section Pieces

variable (before : Option Regex) (pattern : Regex)

theorem readUnits_front : (js "(?:^|[_-])").foldlM readUnit ⟨.term, [], ⟨before, pattern⟩⟩ =
    some ⟨.term, [], ⟨before, .seq pattern (orEdge .start isJoint)⟩⟩ := rfl

theorem readUnits_joint : (js "(?:$|[_-])|").foldlM readUnit ⟨.term, [], ⟨none, pattern⟩⟩ =
    some ⟨.term, [], ⟨some (.seq pattern (orEdge .stop isJoint)), .empty⟩⟩ := rfl

theorem readUnits_small : (js "[a-z]").foldlM readUnit ⟨.term, [], ⟨before, .empty⟩⟩ =
    some ⟨.term, [],
      ⟨before, followedBy .empty [orRange (orUnit (fun _ => false) 0x61) 0x61 0x7A]⟩⟩ := rfl

theorem readUnits_hump (joints : Regex) :
    (js "(?:$|[A-Z_-])|").foldlM readUnit ⟨.term, [], ⟨some joints, pattern⟩⟩ =
      some ⟨.term, [], ⟨some (.alt joints (.seq pattern (orEdge .stop isHump))), .empty⟩⟩ := rfl

theorem readUnits_start : (js "^").foldlM readUnit ⟨.term, [], ⟨before, pattern⟩⟩ =
    some ⟨.term, [], ⟨before, .seq pattern .start⟩⟩ := rfl

theorem readUnits_stop : (js "$").foldlM readUnit ⟨.term, [], ⟨before, pattern⟩⟩ =
    some ⟨.term, [], ⟨before, .seq pattern .stop⟩⟩ := rfl

end Pieces

/-- The source of the pattern, read. -/
theorem parsePattern_boundary (other : TextFunctions) (token : Word) :
    parsePattern (other.known.boundaryPattern token.units) = some (boundaryRegex token) := by
  have letters := readUnits_ciPattern other token.lower []
  have capitals := fun before pattern =>
    readUnits_word [] before pattern (capitalize_words token)
  rw [parsePattern, TextFunctions.boundaryPattern, camelPattern_eq, Frame.empty]
  simp only [List.foldlM_append, readUnits_front, readUnits_joint, readUnits_small,
    readUnits_hump, readUnits_start, readUnits_stop, letters, capitals, Option.bind_eq_bind,
    Option.bind_some]
  rfl

theorem forall₂_bothCases {letters units : JsString}
    (lower : ∀ unit ∈ letters, isLowerUnit unit = true) :
    List.Forall₂ (fun p unit => p unit = true) (letters.map bothCases) units ↔
      units.map lowerUnit = letters := by
  induction letters generalizing units with
  | nil => rw [List.map_nil, List.forall₂_nil_left_iff, List.map_eq_nil_iff]
  | cons letter letters ih =>
    obtain ⟨first, others⟩ := List.forall_mem_cons.mp lower
    cases units with
    | nil => exact iff_of_false nofun nofun
    | cons unit units =>
      have spelled : bothCases letter unit = true ↔ lowerUnit unit = letter := by
        rw [lowerUnit_eq_iff first]
        simp [bothCases, orUnit]
      rw [List.map_cons, List.forall₂_cons, List.map_cons, List.cons.injEq, ih others, spelled]

theorem forall₂_same {letters units : JsString} :
    List.Forall₂ (fun p unit => p unit = true) (letters.map fun unit u => decide (u = unit)) units ↔
      units = letters := by
  induction letters generalizing units with
  | nil => rw [List.map_nil, List.forall₂_nil_left_iff]
  | cons letter letters ih =>
    cases units with
    | nil => exact iff_of_false nofun nofun
    | cons unit units =>
      rw [List.map_cons, List.forall₂_cons, List.cons.injEq, ih, decide_eq_true_eq]

/-- Nothing is before, or a unit of the class. -/
def StartsAfter (p : CodeUnit → Bool) (before : JsString) : Prop :=
  before = [] ∨ ∃ front unit, before = front ++ [unit] ∧ p unit = true

/-- Nothing comes after, or a unit of the class. -/
def EndsBefore (p : CodeUnit → Bool) (after : JsString) : Prop :=
  after = [] ∨ ∃ unit others, after = unit :: others ∧ p unit = true

/-- The token, in any case, between joints and the ends of the key. -/
def Delimited (token : Word) (key : JsString) : Prop :=
  ∃ before units after, key = before ++ (units ++ after) ∧ units.map lowerUnit = token.units ∧
    StartsAfter isJoint before ∧ EndsBefore isJoint after

/-- The token with a capital, after a small letter and before another hump or the end. -/
def Humped (token : Word) (key : JsString) : Prop :=
  ∃ before unit after, key = before ++ unit :: (capitalize token.units ++ after) ∧
    isLowerUnit unit = true ∧ EndsBefore isHump after

theorem orEdge_matches {edge : Regex} {p : CodeUnit → Bool} {x y : Input} :
    (orEdge edge p).Matches x y ↔ edge.Matches x y ∨ ∃ unit rest, x.rest = unit :: rest ∧
      p unit = true ∧ y = ⟨unit :: x.before, rest⟩ := by
  simp only [orEdge, Regex.Matches, exists_eq_left']

theorem range_lower {unit : CodeUnit} :
    orRange (orUnit (fun _ => false) 0x61) 0x61 0x7A unit = true ↔ isLowerUnit unit = true := by
  simp only [orRange, orUnit, isLowerUnit]
  grind

section Matches

variable {token : Word} {before rest : JsString}

theorem delimited_of_joints {y : Input} (matched : Regex.Matches
    (.seq (followedBy (.seq .empty (orEdge .start isJoint)) (anyCase token)) (orEdge .stop isJoint))
    ⟨before.reverse, rest⟩ y) : Delimited token (before ++ rest) := by
  obtain ⟨_, front, back⟩ := matched
  obtain ⟨z, units, after, ⟨_, rfl, edge⟩, split, each, rfl⟩ := followedBy_matches.mp front
  have spelled := (forall₂_bothCases token.lower).mp each
  have behind : EndsBefore isJoint after := by
    obtain ⟨ended, -⟩ | ⟨joint, others, next, joins, -⟩ := orEdge_matches.mp back
    · exact .inl ended
    · exact .inr ⟨joint, others, next, joins⟩
  obtain ⟨empty, rfl⟩ | ⟨joint, others, next, joins, rfl⟩ := orEdge_matches.mp edge
  · obtain rfl := List.reverse_eq_nil_iff.mp empty
    exact ⟨[], units, after, split, spelled, .inl rfl, behind⟩
  · refine ⟨before ++ [joint], units, after, ?_, spelled, .inr ⟨before, joint, rfl, joins⟩, behind⟩
    have split : others = units ++ after := split
    have next : rest = joint :: others := next
    rw [next, split, List.append_assoc, List.singleton_append]

theorem delimited_of_whole {y : Input} (matched : Regex.Matches
    (.seq (followedBy (.seq .empty .start) (anyCase token)) .stop) ⟨before.reverse, rest⟩ y) :
    Delimited token (before ++ rest) := by
  obtain ⟨_, front, ended, -⟩ := matched
  obtain ⟨_, units, after, ⟨_, rfl, empty, rfl⟩, split, each, rfl⟩ := followedBy_matches.mp front
  obtain rfl := List.reverse_eq_nil_iff.mp empty
  exact ⟨[], units, after, split, (forall₂_bothCases token.lower).mp each, .inl rfl, .inl ended⟩

theorem humped_of_matches {y : Input} (matched : Regex.Matches
    (.seq (followedBy .empty (humped token)) (orEdge .stop isHump)) ⟨before.reverse, rest⟩ y) :
    Humped token (before ++ rest) := by
  obtain ⟨_, front, back⟩ := matched
  obtain ⟨_, units, after, rfl, split, each, rfl⟩ := followedBy_matches.mp front
  obtain _ | ⟨lower, each⟩ := each
  rename_i unit units
  obtain rfl := forall₂_same.mp each
  refine ⟨before, unit, after, congrArg _ split, range_lower.mp lower, ?_⟩
  obtain ⟨ended, -⟩ | ⟨next, others, follows, hump, -⟩ := orEdge_matches.mp back
  · exact .inl ended
  · exact .inr ⟨next, others, follows, hump⟩

theorem edge_matches {p : CodeUnit → Bool} (ends : EndsBefore p rest) :
    ∃ y, (orEdge .stop p).Matches ⟨before, rest⟩ y := by
  obtain ended | ⟨next, others, follows, inside⟩ := ends
  · exact ⟨_, orEdge_matches.mpr (.inl ⟨ended, rfl⟩)⟩
  · exact ⟨_, orEdge_matches.mpr (.inr ⟨next, others, follows, inside, rfl⟩)⟩

end Matches

theorem known_test (other : TextFunctions) {source : JsString} {pattern : Regex}
    (read : parsePattern source = some pattern) (key : JsString) :
    other.known.test source key = (pattern.toRegExp source false false).test key := by
  have tested : other.known.test source key = match parsePattern source with
    | some pattern => (pattern.toRegExp source false false).test key
    | none => other.test source key := rfl
  rw [tested, read]

/-- `new RegExp(source).test(key)` -/
theorem test_boundary (other : TextFunctions) (token : Word) (key : JsString) :
    other.known.test (other.known.boundaryPattern token.units) key = true ↔
      Delimited token key ∨ Humped token key := by
  rw [known_test other (parsePattern_boundary other token), Regex.test_iff]
  constructor
  · rintro ⟨before, rest, y, rfl, (joints | hump) | whole⟩
    · exact .inl (delimited_of_joints joints)
    · exact .inr (humped_of_matches hump)
    · exact .inl (delimited_of_whole whole)
  · rintro (⟨before, units, after, rfl, spelled, front, back⟩ |
      ⟨before, unit, after, rfl, lower, back⟩)
    · have each := (forall₂_bothCases token.lower).mpr spelled
      obtain rfl | ⟨front, joint, rfl, joins⟩ := front
      · obtain ⟨y, ends⟩ := edge_matches back
        have edge : (orEdge .start isJoint).Matches ⟨[], units ++ after⟩ ⟨[], units ++ after⟩ :=
          orEdge_matches.mpr (.inl ⟨rfl, rfl⟩)
        exact ⟨[], units ++ after, y, rfl, .inl (.inl ⟨_, followedBy_matches.mpr
          ⟨_, units, after, ⟨_, rfl, edge⟩, rfl, each, rfl⟩, ends⟩)⟩
      · obtain ⟨y, ends⟩ := edge_matches back
        have edge : (orEdge .start isJoint).Matches ⟨front.reverse, joint :: (units ++ after)⟩
            ⟨joint :: front.reverse, units ++ after⟩ :=
          orEdge_matches.mpr (.inr ⟨joint, units ++ after, rfl, joins, rfl⟩)
        exact ⟨front, joint :: (units ++ after), y, by simp, .inl (.inl ⟨_, followedBy_matches.mpr
          ⟨_, units, after, ⟨_, rfl, edge⟩, rfl, each, rfl⟩, ends⟩)⟩
    · obtain ⟨y, ends⟩ := edge_matches back
      have each : List.Forall₂ (fun p unit => p unit = true) (humped token)
          (unit :: capitalize token.units) := .cons (range_lower.mpr lower) (forall₂_same.mpr rfl)
      exact ⟨before, unit :: (capitalize token.units ++ after), y, rfl, .inl (.inr ⟨_,
        followedBy_matches.mpr ⟨_, _, after, rfl, rfl, each, rfl⟩, ends⟩)⟩

end NeuralMesh.Server
