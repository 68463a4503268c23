import NeuralMesh.Server.BoundaryPattern

/-! Forbidden tokens of less than four letters in keys of several words. In snake and kebab case
the boundary pattern sees the token anywhere. In camel case it wants a small letter before the
token and small letters in it after the first. -/
namespace NeuralMesh.Server

open Js

inductive NamingConvention where
  | camelCase
  /-- Pascal case with the token in capitals. -/
  | acronym
  | snakeCase
  | kebabCase

/-- A word of a key in Pascal case. -/
def acronymForm (token word : Word) : JsString :=
  if word.units = token.units then word.units.map upperUnit else capitalize word.units

def camelPieces : List Word → List JsString
  | [] => []
  | word :: words => word.units :: words.map fun word => capitalize word.units

def wordsKey (token : Word) (words : List Word) : NamingConvention → JsString
  | .camelCase => (camelPieces words).flatten
  | .acronym => (words.map (acronymForm token)).flatten
  | .snakeCase => [0x5F].intercalate (words.map Word.units)
  | .kebabCase => [0x2D].intercalate (words.map Word.units)

/-! ### Keys of several words -/

/-- In a piece of a key no capital follows a small letter. -/
def RiseFree (piece : JsString) : Prop :=
  ∀ front unit next rest, piece = front ++ unit :: next :: rest → isLowerUnit unit = true →
    isUpperUnit next = false

/-- Where a capital follows a small letter, a new piece begins. -/
theorem rise_between {pieces : List JsString} (free : ∀ piece ∈ pieces, RiseFree piece)
    (full : ∀ piece ∈ pieces, piece ≠ []) {before rest : JsString} {unit next : CodeUnit}
    (split : pieces.flatten = before ++ unit :: next :: rest) (lower : isLowerUnit unit = true)
    (upper : isUpperUnit next = true) :
    ∃ front piece second back, pieces = front ++ piece :: second :: back ∧
      piece.getLast? = some unit ∧ next :: rest = (second :: back).flatten := by
  induction pieces generalizing before with
  | nil => simp at split
  | cons piece pieces ih =>
    obtain ⟨free, others⟩ := List.forall_mem_cons.mp free
    obtain ⟨-, full⟩ := List.forall_mem_cons.mp full
    have here (ends : piece = before ++ [unit]) (remains : next :: rest = pieces.flatten) :
        ∃ front piece' second back, piece :: pieces = front ++ piece' :: second :: back ∧
          piece'.getLast? = some unit ∧ next :: rest = (second :: back).flatten := by
      cases pieces with
      | nil => cases remains
      | cons second back => exact ⟨[], piece, second, back, rfl, by simp [ends], remains⟩
    rw [List.flatten_cons, List.append_cons] at split
    obtain ⟨middle, ends, remains⟩ | ⟨middle, ends, remains⟩ := List.append_eq_append_iff.mp split
    · obtain rfl | ⟨middle, last, rfl⟩ := List.eq_nil_or_concat' middle
      · rw [List.append_nil] at ends
        exact here ends.symm remains.symm
      · rw [← List.append_assoc] at ends
        obtain ⟨rfl, same⟩ := List.append_inj' ends rfl
        obtain rfl : unit = last := by simpa using same
        rw [List.append_assoc] at remains
        obtain ⟨front, piece', second, back, rfl, found⟩ := ih others full remains
        exact ⟨piece :: front, piece', second, back, rfl, found⟩
    · cases middle with
      | nil =>
        rw [List.append_nil] at ends
        exact here ends remains
      | cons first middle =>
        obtain ⟨rfl, -⟩ := List.cons.inj remains
        rw [List.append_assoc] at ends
        cases upper.symm.trans (free before unit next middle ends lower)

theorem riseFree_of_tail {piece : JsString}
    (small : ∀ unit ∈ piece.tail, isLowerUnit unit = true) : RiseFree piece := by
  rintro front unit next rest rfl -
  refine not_upper_of_lower (small next ?_)
  cases front <;> simp

theorem riseFree_of_capitals {piece : JsString}
    (capitals : ∀ unit ∈ piece, isUpperUnit unit = true) : RiseFree piece := by
  rintro front unit next rest rfl lower
  have upper := capitals unit (by simp)
  cases (not_upper_of_lower lower).symm.trans upper

/-- A text that does not go on with a small letter. -/
def Stops (rest : JsString) : Prop :=
  ∀ unit others, rest = unit :: others → isLowerUnit unit = false

theorem stops_of_hump {rest : JsString} (ends : EndsBefore isHump rest) : Stops rest := by
  rintro unit others rfl
  obtain empty | ⟨next, others', same, hump⟩ := ends
  · cases empty
  · cases same
    simp only [isHump, orUnit, orRange] at hump
    grind [isLowerUnit]

theorem takeWhile_lower {letters rest : JsString}
    (lower : ∀ unit ∈ letters, isLowerUnit unit = true) (stops : Stops rest) :
    (letters ++ rest).takeWhile isLowerUnit = letters := by
  rw [List.takeWhile_append_of_pos lower]
  cases rest with
  | nil => rw [List.takeWhile_nil, List.append_nil]
  | cons unit others =>
    rw [List.takeWhile_cons_of_neg (by rw [stops unit others rfl]; exact Bool.false_ne_true),
      List.append_nil]

theorem upperUnit_inj {a b : CodeUnit} (lowerA : isLowerUnit a = true)
    (lowerB : isLowerUnit b = true) (same : upperUnit a = upperUnit b) : a = b := by
  rw [← lowerUnit_upperUnit lowerA, same, lowerUnit_upperUnit lowerB]

namespace Word

/-- The first letter and the others. -/
theorem cases_units (word : Word) : ∃ unit others, word.units = unit :: others ∧
    isLowerUnit unit = true ∧ (∀ unit ∈ others, isLowerUnit unit = true) ∧
    capitalize word.units = upperUnit unit :: others := by
  obtain ⟨_ | ⟨unit, others⟩, nonempty, lower⟩ := word
  · exact absurd rfl nonempty
  · obtain ⟨letter, lower⟩ := List.forall_mem_cons.mp lower
    exact ⟨unit, others, rfl, letter, lower, rfl⟩

/-- A capitalized word ends where small letters end. -/
theorem eq_of_capitalize {word token : Word} {rest rest' : JsString} (stops : Stops rest)
    (stops' : Stops rest')
    (same : capitalize word.units ++ rest = capitalize token.units ++ rest') : word = token := by
  obtain ⟨first, others, spelled, letter, lower, capital⟩ := word.cases_units
  obtain ⟨first', others', spelled', letter', lower', capital'⟩ := token.cases_units
  rw [capital, capital', List.cons_append, List.cons_append, List.cons.injEq] at same
  have tails := congrArg (List.takeWhile isLowerUnit) same.2
  rw [takeWhile_lower lower stops, takeWhile_lower lower' stops'] at tails
  refine Word.ext ?_
  rw [spelled, spelled', tails, upperUnit_inj letter letter' same.1]

theorem riseFree (word : Word) : RiseFree word.units :=
  riseFree_of_tail fun unit member => word.lower unit (List.mem_of_mem_tail member)

theorem capitalize_riseFree (word : Word) : RiseFree (capitalize word.units) := by
  obtain ⟨unit, others, -, -, lower, capital⟩ := word.cases_units
  rw [capital]
  exact riseFree_of_tail lower

/-- A word that ends with a small letter as a piece has a letter after the first. -/
theorem two_le_of_last {word : Word} {unit : CodeUnit}
    (last : (capitalize word.units).getLast? = some unit) (lower : isLowerUnit unit = true) :
    2 ≤ word.units.length := by
  obtain ⟨first, others, spelled, letter, -, capital⟩ := word.cases_units
  rw [capital] at last
  cases others with
  | nil =>
    obtain rfl : upperUnit first = unit := by simpa using last
    cases (not_upper_of_lower lower).symm.trans (isUpper_upperUnit letter)
  | cons second others =>
    rw [spelled, List.length_cons, List.length_cons]
    omega

theorem last_of_two_le {word : Word} (long : 2 ≤ word.units.length) :
    ∃ front unit, capitalize word.units = front ++ [unit] ∧ isLowerUnit unit = true := by
  obtain ⟨first, others, spelled, -, lower, capital⟩ := word.cases_units
  obtain rfl | ⟨middle, last, rfl⟩ := List.eq_nil_or_concat' others
  · rw [spelled] at long
    simp at long
  · exact ⟨upperUnit first :: middle, last, by rw [capital, List.cons_append],
      lower last (by simp)⟩

end Word

def BeginsCapital (piece : JsString) : Prop :=
  ∃ unit others, piece = unit :: others ∧ isUpperUnit unit = true

theorem BeginsCapital.ne_nil {piece : JsString} (capital : BeginsCapital piece) : piece ≠ [] := by
  obtain ⟨unit, others, rfl, -⟩ := capital
  exact List.cons_ne_nil unit others

theorem hump_flatten {pieces : List JsString} (capitals : ∀ piece ∈ pieces, BeginsCapital piece) :
    EndsBefore isHump pieces.flatten := by
  cases pieces with
  | nil => exact .inl rfl
  | cons piece pieces =>
    obtain ⟨unit, others, rfl, upper⟩ := capitals piece List.mem_cons_self
    refine .inr ⟨unit, others ++ pieces.flatten, rfl, ?_⟩
    simp only [isHump, orUnit, orRange]
    grind [isUpperUnit]

theorem capitalize_capital (word : Word) : BeginsCapital (capitalize word.units) := by
  obtain ⟨unit, others, -, letter, -, capital⟩ := word.cases_units
  exact ⟨upperUnit unit, others, capital, isUpper_upperUnit letter⟩

theorem acronymForm_capital (token word : Word) : BeginsCapital (acronymForm token word) := by
  rw [acronymForm]
  split_ifs
  · obtain ⟨unit, others, spelled, letter, -⟩ := word.cases_units
    rw [spelled]
    exact ⟨upperUnit unit, others.map upperUnit, rfl, isUpper_upperUnit letter⟩
  · exact capitalize_capital word

theorem map_upperUnit_capitals (word : Word) :
    ∀ unit ∈ word.units.map upperUnit, isUpperUnit unit = true := by
  intro unit member
  obtain ⟨letter, inside, rfl⟩ := List.mem_map.mp member
  exact isUpper_upperUnit (word.lower letter inside)

/-- The token stands behind a word that ends with a small letter in camel case. -/
def CamelShown (token : Word) (words : List Word) : Prop :=
  ∃ before previous after, words = before ++ previous :: token :: after ∧
    (before = [] ∨ 2 ≤ previous.units.length)

/-- The token is one letter, behind a word of at least two letters. -/
def AcronymShown (token : Word) (words : List Word) : Prop :=
  token.units.length = 1 ∧
    ∃ before previous after, words = before ++ previous :: token :: after ∧
      2 ≤ previous.units.length

section Shown

variable {token : Word} {words : List Word}

/-- What a capitalized token in a key is between. -/
theorem humped_split {pieces : List JsString} (free : ∀ piece ∈ pieces, RiseFree piece)
    (full : ∀ piece ∈ pieces, piece ≠ []) (hump : Humped token pieces.flatten) :
    ∃ front piece second back after unit, pieces = front ++ piece :: second :: back ∧
      piece.getLast? = some unit ∧ isLowerUnit unit = true ∧ Stops after ∧
      capitalize token.units ++ after = second ++ back.flatten := by
  obtain ⟨before, unit, after, split, lower, ends⟩ := hump
  obtain ⟨next, others, capital, upper⟩ := capitalize_capital token
  rw [capital, List.cons_append] at split
  obtain ⟨front, piece, second, back, pieces_eq, last, remains⟩ :=
    rise_between free full split lower upper
  refine ⟨front, piece, second, back, after, unit, pieces_eq, last, lower, stops_of_hump ends, ?_⟩
  rw [capital, List.cons_append, remains, List.flatten_cons]

theorem humped_join (token : Word) (front : JsString) {unit : CodeUnit}
    (lower : isLowerUnit unit = true) {back : List JsString}
    (capitals : ∀ piece ∈ back, BeginsCapital piece) :
    Humped token ((front ++ [unit]) ++ (capitalize token.units ++ back.flatten)) :=
  ⟨front, unit, back.flatten, by simp, lower, hump_flatten capitals⟩

theorem capitalized_capitals (words : List Word) :
    ∀ piece ∈ words.map fun word => capitalize word.units, BeginsCapital piece := by
  intro piece member
  obtain ⟨word, -, rfl⟩ := List.mem_map.mp member
  exact capitalize_capital word

theorem acronymForm_capitals (token : Word) (words : List Word) :
    ∀ piece ∈ words.map (acronymForm token), BeginsCapital piece := by
  intro piece member
  obtain ⟨word, -, rfl⟩ := List.mem_map.mp member
  exact acronymForm_capital token word

theorem camel_humped_iff : Humped token (camelPieces words).flatten ↔ CamelShown token words := by
  constructor
  · intro hump
    have free : ∀ piece ∈ camelPieces words, RiseFree piece := by
      cases words with
      | nil => nofun
      | cons word words =>
        refine List.forall_mem_cons.mpr ⟨word.riseFree, fun piece member => ?_⟩
        obtain ⟨other, -, rfl⟩ := List.mem_map.mp member
        exact other.capitalize_riseFree
    have full : ∀ piece ∈ camelPieces words, piece ≠ [] := by
      cases words with
      | nil => nofun
      | cons word words =>
        exact List.forall_mem_cons.mpr ⟨word.nonempty, fun piece member =>
          (capitalized_capitals words piece member).ne_nil⟩
    obtain ⟨front, piece, second, back, after, unit, split, last, lower, stops, same⟩ :=
      humped_split free full hump
    have found {word : Word} {others : List Word} (is : second = capitalize word.units)
        (are : back = others.map fun word => capitalize word.units) : word = token := by
      subst is are
      exact Word.eq_of_capitalize (stops_of_hump (hump_flatten (capitalized_capitals others)))
        stops same.symm
    cases words with
    | nil => simp [camelPieces] at split
    | cons first words =>
      cases front with
      | nil =>
        obtain ⟨-, rest⟩ := List.cons.inj split
        obtain ⟨word, others, rfl, is, are⟩ := List.map_eq_cons_iff.mp rest
        obtain rfl := found is.symm are.symm
        exact ⟨[], first, others, rfl, .inl rfl⟩
      | cons _ front =>
        obtain ⟨-, rest⟩ := List.cons.inj split
        obtain ⟨others, words, rfl, -, pair⟩ := List.map_eq_append_iff.mp rest
        obtain ⟨previous, words, rfl, rfl, tail⟩ := List.map_eq_cons_iff.mp pair
        obtain ⟨word, later, rfl, is, are⟩ := List.map_eq_cons_iff.mp tail
        obtain rfl := found is.symm are.symm
        exact ⟨first :: others, previous, later, rfl, .inr (Word.two_le_of_last last lower)⟩
  · rintro ⟨_ | ⟨first, before⟩, previous, after, rfl, long⟩
    · obtain ⟨front, unit, spelled⟩ : ∃ front unit, previous.units = front ++ [unit] :=
        (List.eq_nil_or_concat' previous.units).resolve_left previous.nonempty
      have lower := previous.lower unit (by simp [spelled])
      have joined := humped_join token front lower (capitalized_capitals after)
      simpa [camelPieces, spelled] using joined
    · obtain ⟨front, unit, spelled, lower⟩ :=
        Word.last_of_two_le (long.resolve_left (List.cons_ne_nil first before))
      have joined := humped_join token (first.units ++
        ((before.map fun word => capitalize word.units).flatten ++ front)) lower
        (capitalized_capitals after)
      simpa [camelPieces, spelled] using joined

theorem acronym_humped_iff :
    Humped token (words.map (acronymForm token)).flatten ↔ AcronymShown token words := by
  constructor
  · intro hump
    have free : ∀ piece ∈ words.map (acronymForm token), RiseFree piece := by
      intro piece member
      obtain ⟨word, -, rfl⟩ := List.mem_map.mp member
      rw [acronymForm]
      split_ifs
      · exact riseFree_of_capitals (map_upperUnit_capitals word)
      · exact word.capitalize_riseFree
    have full : ∀ piece ∈ words.map (acronymForm token), piece ≠ [] := fun piece member =>
      (acronymForm_capitals token words piece member).ne_nil
    obtain ⟨front, piece, second, back, after, unit, split, last, lower, stops, same⟩ :=
      humped_split free full hump
    obtain ⟨before, pair, rfl, -, rest⟩ := List.map_eq_append_iff.mp split
    obtain ⟨previous, tail, rfl, is, rest⟩ := List.map_eq_cons_iff.mp rest
    obtain ⟨word, later, rfl, rfl, rfl⟩ := List.map_eq_cons_iff.mp rest
    have long : 2 ≤ previous.units.length := by
      rw [← is, acronymForm] at last
      split_ifs at last
      · have upper := map_upperUnit_capitals previous unit (List.mem_of_getLast? last)
        cases (not_upper_of_lower lower).symm.trans upper
      · exact Word.two_le_of_last last lower
    have stops' : Stops (later.map (acronymForm token)).flatten :=
      stops_of_hump (hump_flatten (acronymForm_capitals token later))
    rw [acronymForm] at same
    split_ifs at same with equal
    · obtain rfl := Word.ext equal
      refine ⟨?_, before, previous, later, rfl, long⟩
      obtain ⟨first, others, spelled, -, small, capital⟩ := word.cases_units
      rw [capital, spelled] at same
      cases others with
      | nil => rw [spelled, List.length_singleton]
      | cons letter others =>
        -- The second letter would be small and a capital.
        obtain ⟨-, letters⟩ := List.cons.inj same
        obtain ⟨letter_eq, -⟩ := List.cons.inj letters
        have letterSmall := small letter List.mem_cons_self
        have upper := isUpper_upperUnit letterSmall
        rw [← letter_eq, not_upper_of_lower letterSmall] at upper
        cases upper
    · exact absurd (congrArg Word.units (Word.eq_of_capitalize stops' stops same.symm)) equal
  · rintro ⟨single, before, previous, after, rfl, long⟩
    obtain ⟨front, unit, spelled, lower⟩ := Word.last_of_two_le long
    have other : previous.units ≠ token.units := by
      intro same
      rw [same, single] at long
      omega
    have capital : token.units.map upperUnit = capitalize token.units := by
      obtain ⟨first, others, letters, -, -, capital⟩ := token.cases_units
      obtain rfl : others = [] := by simpa [letters] using single
      rw [capital, letters, List.map_singleton]
    have joined := humped_join token ((before.map (acronymForm token)).flatten ++ front) lower
      (acronymForm_capitals token after)
    simpa [acronymForm, other, spelled, capital] using joined

end Shown

/-! ### Keys of letters -/

def LetterText (key : JsString) : Prop :=
  ∀ unit ∈ key, isLowerUnit unit = true ∨ isUpperUnit unit = true

theorem not_joint_of_letter {unit : CodeUnit}
    (letter : isLowerUnit unit = true ∨ isUpperUnit unit = true) : isJoint unit = false := by
  simp only [isJoint, orUnit]
  grind [isLowerUnit, isUpperUnit]

/-- A key of letters has no joints. -/
theorem delimited_letters {token : Word} {key : JsString} (letters : LetterText key) :
    Delimited token key ↔ key.map lowerUnit = token.units := by
  constructor
  · rintro ⟨before, units, after, rfl, spelled, front, back⟩
    obtain rfl : before = [] := by
      refine front.resolve_right ?_
      rintro ⟨front, joint, rfl, joins⟩
      cases joins.symm.trans (not_joint_of_letter (letters joint (by simp)))
    obtain rfl : after = [] := by
      refine back.resolve_right ?_
      rintro ⟨joint, rest, rfl, joins⟩
      cases joins.symm.trans (not_joint_of_letter (letters joint (by simp)))
    rw [List.nil_append, List.append_nil, spelled]
  · intro spelled
    exact ⟨[], key, [], by simp, spelled, .inl rfl, .inl rfl⟩

theorem known_toLowerCase (other : TextFunctions) {key : JsString} (letters : LetterText key) :
    other.known.toLowerCase key = key.map lowerUnit := by
  refine if_pos (List.all_eq_true.mpr fun unit member => ?_)
  have letter := letters unit member
  grind [isLowerUnit, isUpperUnit]

theorem word_letters (word : Word) : LetterText word.units :=
  fun unit member => .inl (word.lower unit member)

theorem capitalize_letters (word : Word) : LetterText (capitalize word.units) := by
  obtain ⟨unit, others, -, letter, lower, capital⟩ := word.cases_units
  rw [capital]
  exact List.forall_mem_cons.mpr ⟨.inr (isUpper_upperUnit letter), fun u member =>
    .inl (lower u member)⟩

theorem flatten_letters {pieces : List JsString} (letters : ∀ piece ∈ pieces, LetterText piece) :
    LetterText pieces.flatten := by
  intro unit member
  obtain ⟨piece, inside, here⟩ := List.mem_flatten.mp member
  exact letters piece inside unit here

theorem camelCase_letters (token : Word) (words : List Word) :
    LetterText (wordsKey token words .camelCase) := by
  refine flatten_letters ?_
  cases words with
  | nil => nofun
  | cons word words =>
    refine List.forall_mem_cons.mpr ⟨word_letters word, fun piece member => ?_⟩
    obtain ⟨other, -, rfl⟩ := List.mem_map.mp member
    exact capitalize_letters other

theorem acronym_letters (token : Word) (words : List Word) :
    LetterText (wordsKey token words .acronym) := by
  refine flatten_letters fun piece member => ?_
  obtain ⟨word, -, rfl⟩ := List.mem_map.mp member
  rw [acronymForm]
  split_ifs
  · exact fun unit inside => .inr (map_upperUnit_capitals word unit inside)
  · exact capitalize_letters word

/-! ### Snake and kebab case -/

theorem joined_delimited {joint : CodeUnit} (joins : isJoint joint = true) {token : Word}
    {words : List Word} (member : token ∈ words) :
    Delimited token ([joint].intercalate (words.map Word.units)) := by
  have spelled : token.units.map lowerUnit = token.units :=
    (List.map_congr_left fun unit inside => lowerUnit_lower (token.lower unit inside)).trans
      (List.map_id _)
  have cut : ∃ before after,
      [joint].intercalate (words.map Word.units) = before ++ (token.units ++ after) ∧
      StartsAfter isJoint before ∧ EndsBefore isJoint after := by
    induction words with
    | nil => cases member
    | cons word words ih =>
      cases words with
      | nil =>
        obtain rfl := List.mem_singleton.mp member
        exact ⟨[], [], by simp [List.intercalate], .inl rfl, .inl rfl⟩
      | cons second words =>
        have step : [joint].intercalate ((word :: second :: words).map Word.units) =
            word.units ++ joint :: [joint].intercalate ((second :: words).map Word.units) := by
          simp [List.intercalate]
        rw [step]
        obtain rfl | later := List.mem_cons.mp member
        · exact ⟨[], _, rfl, .inl rfl, .inr ⟨joint, _, rfl, joins⟩⟩
        · obtain ⟨before, after, split, front, back⟩ := ih later
          refine ⟨word.units ++ joint :: before, after, ?_, .inr ?_, back⟩
          · rw [split, List.append_assoc, List.cons_append]
          obtain rfl | ⟨front, last, rfl, ends⟩ := front
          · exact ⟨word.units, joint, rfl, joins⟩
          · exact ⟨word.units ++ joint :: front, last, by simp, ends⟩
  obtain ⟨before, after, split, front, back⟩ := cut
  exact ⟨before, token.units, after, split, spelled, front, back⟩

/-! ### The four conventions -/

section Conventions

variable (other : TextFunctions) (forbiddenKeys : List JsString)

/-- The key is blocked, or is on the safelist. -/
def Caught (key : JsString) : Prop :=
  other.known.checkKey forbiddenKeys key ≠ none ∨ other.known.toLowerCase key ∈ KEY_SAFELIST

/-- The fuzzy check of one token. -/
def Catches (token key : JsString) : Prop :=
  token.length < 4 ∧ other.known.test (other.known.boundaryPattern token) key = true ∨
    4 ≤ token.length ∧ token <:+: other.known.toLowerCase key

/-- The key is caught without the boundary pattern of the token. -/
def CaughtElsewhere (token : Word) (key : JsString) : Prop :=
  other.known.toLowerCase key ∈ KEY_SAFELIST ∨
    other.known.toLowerCase key ∈ other.known.forbiddenKeysSet forbiddenKeys ∨
    ∃ entry ∈ other.known.forbiddenKeysSet forbiddenKeys, entry ≠ token.units ∧
      Catches other entry key

variable {other forbiddenKeys}

theorem checkKey_iff {key : JsString} : other.known.checkKey forbiddenKeys key ≠ none ↔
    other.known.toLowerCase key ∈ other.known.forbiddenKeysSet forbiddenKeys ∨
    other.known.toLowerCase key ∉ KEY_SAFELIST ∧
      ∃ entry ∈ other.known.forbiddenKeysSet forbiddenKeys, Catches other entry key := by
  have fuzzy : other.known.checkKeyFuzzy forbiddenKeys key ≠ none ↔
      other.known.toLowerCase key ∉ KEY_SAFELIST ∧
        ∃ entry ∈ other.known.forbiddenKeysSet forbiddenKeys, Catches other entry key := by
    rw [TextFunctions.checkKeyFuzzy]
    split_ifs with safe
    · exact iff_of_false (fun found => found rfl) fun found => found.1 safe
    rw [and_iff_right safe]
    split
    · next token found =>
      obtain ⟨member, short⟩ := List.mem_filter.mp (List.mem_of_find?_eq_some found)
      have tested := List.find?_some found
      exact iff_of_true (Option.some_ne_none _)
        ⟨token, member, .inl ⟨of_decide_eq_true short, tested⟩⟩
    · next noShort =>
      split
      · next token found =>
        obtain ⟨member, long⟩ := List.mem_filter.mp (List.mem_of_find?_eq_some found)
        have inside := List.find?_some found
        exact iff_of_true (Option.some_ne_none _)
          ⟨token, member, .inr ⟨of_decide_eq_true long, of_decide_eq_true inside⟩⟩
      · next noLong =>
        refine iff_of_false (fun found => found rfl) ?_
        rintro ⟨token, member, ⟨short, tested⟩ | ⟨long, inside⟩⟩
        · exact List.find?_eq_none.mp noShort token
            (List.mem_filter.mpr ⟨member, decide_eq_true short⟩) tested
        · exact List.find?_eq_none.mp noLong token
            (List.mem_filter.mpr ⟨member, decide_eq_true long⟩) (decide_eq_true inside)
  rw [TextFunctions.checkKey]
  split_ifs with exact_
  · exact iff_of_true (Option.some_ne_none _) (.inl exact_)
  · rw [fuzzy, or_iff_right exact_]

/-- The safelist only keeps keys from the fuzzy check. -/
theorem blocked_iff {safe named elsewhere shown : Prop} :
    (named ∨ ¬ safe ∧ (elsewhere ∨ shown)) ∨ safe ↔ (safe ∨ named ∨ elsewhere) ∨ shown := by
  tauto

theorem caught_iff {token : Word} {key : JsString}
    (forbidden : token.units ∈ other.known.forbiddenKeysSet forbiddenKeys)
    (short : token.units.length < 4) : Caught other forbiddenKeys key ↔
      CaughtElsewhere other forbiddenKeys token key ∨ Delimited token key ∨ Humped token key := by
  have itself : Catches other token.units key ↔ Delimited token key ∨ Humped token key := by
    rw [Catches, test_boundary, and_iff_right short, or_iff_left fun long => by omega]
  have entries : (∃ entry ∈ other.known.forbiddenKeysSet forbiddenKeys, Catches other entry key) ↔
      (∃ entry ∈ other.known.forbiddenKeysSet forbiddenKeys, entry ≠ token.units ∧
        Catches other entry key) ∨ Delimited token key ∨ Humped token key := by
    rw [← itself]
    constructor
    · rintro ⟨entry, member, catches⟩
      by_cases same : entry = token.units
      · exact .inr (same ▸ catches)
      · exact .inl ⟨entry, member, same, catches⟩
    · rintro (⟨entry, member, -, catches⟩ | catches)
      · exact ⟨entry, member, catches⟩
      · exact ⟨token.units, forbidden, catches⟩
  rw [Caught, checkKey_iff, entries, CaughtElsewhere]
  exact blocked_iff

/-- Snake and kebab case are always caught, camel case where the token is shown. -/
theorem conventions_iff {token : Word} {words : List Word}
    (forbidden : token.units ∈ other.known.forbiddenKeysSet forbiddenKeys)
    (short : token.units.length < 4) (member : token ∈ words) :
    (∀ convention, Caught other forbiddenKeys (wordsKey token words convention)) ↔
      (CamelShown token words ∨
        CaughtElsewhere other forbiddenKeys token (wordsKey token words .camelCase)) ∧
      (AcronymShown token words ∨
        CaughtElsewhere other forbiddenKeys token (wordsKey token words .acronym)) := by
  have joints {key : JsString} (delimited : Delimited token key) :
      Caught other forbiddenKeys key := (caught_iff forbidden short).mpr (.inr (.inl delimited))
  -- In a key of letters the whole key is the token only where the exact check finds it.
  have letters {key : JsString} (text : LetterText key) : Caught other forbiddenKeys key ↔
      Humped token key ∨ CaughtElsewhere other forbiddenKeys token key := by
    rw [caught_iff forbidden short, delimited_letters text, ← known_toLowerCase other text]
    constructor
    · rintro (elsewhere | same | hump)
      · exact .inr elsewhere
      · exact .inr (.inr (.inl (same ▸ forbidden)))
      · exact .inl hump
    · rintro (hump | elsewhere)
      · exact .inr (.inr hump)
      · exact .inl elsewhere
  have camel := letters (camelCase_letters token words)
  have acronym := letters (acronym_letters token words)
  rw [wordsKey, camel_humped_iff] at camel
  rw [wordsKey, acronym_humped_iff] at acronym
  rw [wordsKey, wordsKey, ← camel, ← acronym]
  constructor
  · exact fun all => ⟨all .camelCase, all .acronym⟩
  · rintro ⟨inCamel, inAcronym⟩ (_ | _ | _ | _)
    · exact inCamel
    · exact inAcronym
    · exact joints (joined_delimited rfl member)
    · exact joints (joined_delimited rfl member)

end Conventions

def wordAxis : Word := .ofLetters (js "axis") (by decide) (by decide)

def wordX : Word := .ofLetters (js "x") (by decide) (by decide)

def wordId : Word := .ofLetters (js "id") (by decide) (by decide)

def wordNumber : Word := .ofLetters (js "number") (by decide) (by decide)

theorem axisX_caught :
    Caught asciiText [js "x"] (wordsKey wordX [wordAxis, wordX] .camelCase) ∧
    Caught asciiText [js "x"] (wordsKey wordX [wordAxis, wordX] .acronym) := by
  have shown : AcronymShown wordX [wordAxis, wordX] :=
    ⟨rfl, [], wordAxis, [], rfl, by decide⟩
  have forbidden : wordX.units ∈ asciiText.known.forbiddenKeysSet [js "x"] := by decide
  have member : wordX ∈ [wordAxis, wordX] := .tail _ (.head _)
  have all := (conventions_iff forbidden (by decide) member).mpr
    ⟨.inl ⟨[], wordAxis, [], rfl, .inl rfl⟩, .inl shown⟩
  exact ⟨all .camelCase, all .acronym⟩

/-- `idNumber` and `NumberID` are not caught. -/
theorem conventions_differ :
    ¬ (∀ convention, Caught asciiText [js "id"]
      (wordsKey wordId [wordId, wordNumber] convention)) ∧
    ¬ (∀ convention, Caught asciiText [js "id"]
      (wordsKey wordId [wordNumber, wordId] convention)) := by
  have camel : ¬ Caught asciiText [js "id"]
      (wordsKey wordId [wordId, wordNumber] .camelCase) := by
    unfold Caught
    decide
  have acronym : ¬ Caught asciiText [js "id"]
      (wordsKey wordId [wordNumber, wordId] .acronym) := by
    unfold Caught
    decide
  exact ⟨fun all => camel (all .camelCase), fun all => acronym (all .acronym)⟩

end NeuralMesh.Server
