import Mathlib.Order.Nat
import NeuralMesh.Server.PatternRules

/-! The credit card rule. The loop cuts the text from the left: the first place where digits in
the shape of a card number start, then the shortest such digits there; and goes on behind
them. Only what it cuts is checked. -/
namespace NeuralMesh.Server

open Js

def isDigitUnit (unit : CodeUnit) : Bool := 48 ≤ unit && unit ≤ 57

/-- A space or a dash. -/
def isSeparator (unit : CodeUnit) : Bool := unit = 0x20 || unit = 0x2D

/-- One digit of the sum, from the right. -/
def luhnDigit (unit : CodeUnit) : Nat × Bool → Nat × Bool
  | (sum, isEven) =>
    let digit := unit.toNat - 48
    let digit := if isEven then (if 9 < digit * 2 then digit * 2 - 9 else digit * 2) else digit
    (sum + digit, !isEven)

def isLuhnValid (cardNumber : JsString) : Bool :=
  let digits := cardNumber.filter isDigitUnit
  if digits.length < 13 || 19 < digits.length then false
  else (digits.foldr luhnDigit (0, false)).1 % 10 = 0

/-- `\d[ -]*?` -/
def cardDigit : Regex := .seq (.char isDigitUnit) (.many false isSeparator)

/-- `\b(?:\d[ -]*?){13,16}\b` -/
def cardPattern : Regex := .seq .boundary (.seq (.repeated 13 16 cardDigit) .boundary)

def CREDIT_CARD : PiiRuleDefinition where
  name := js "CREDIT_CARD"
  pattern := .regex 0
  validator := some isLuhnValid

def cardRegExp : RegExp :=
  cardPattern.toRegExp (js "\\b(?:\\d[ -]*?)\x7b13,16\x7d\\b") true false

def cardScanner (toLowerCase : JsString → JsString) : PatternScanner where
  toLowerCase := toLowerCase
  regexes _ := cardRegExp
  patterns := [.definition CREDIT_CARD]

/-! ### Card numbers -/

/-- So many digits, after any spaces and dashes each. -/
def spaced : Nat → JsString → Bool
  | 0, units => units.isEmpty
  | _ + 1, [] => false
  | count + 1, unit :: units =>
    if isDigitUnit unit then spaced count units
    else isSeparator unit && spaced (count + 1) units

theorem spaced_zero {units : JsString} : spaced 0 units = true ↔ units = [] := by
  cases units <;> simp [spaced]

/-- 13 to 16 digits with spaces and dashes between them, delimited by word boundaries. -/
def CardShaped (text : JsString) (start stop : Nat) : Prop :=
  ∃ before units rest count, text = before ++ (units ++ rest) ∧ before.length = start ∧
    stop = start + units.length ∧ 13 ≤ count ∧ count ≤ 16 ∧ spaced count units = true ∧
    units.head?.any isDigitUnit = true ∧ (Input.mk before.reverse (units ++ rest)).isBoundary ∧
    (Input.mk (units.reverse ++ before.reverse) rest).isBoundary

/-! ### One match -/

/-- `\b` at the end of the pattern. -/
def finish : Input → Option Nat := Regex.boundary.run fun y => some y.index

/-- The ends of `min` to `max` more digits. -/
def cardEnds (max min : Nat) (x : Input) : Set Nat :=
  {stop | ∃ count units rest, min ≤ count ∧ count ≤ max ∧ x.rest = units ++ rest ∧
    spaced count units = true ∧ (Input.mk (units.reverse ++ x.before) rest).isBoundary = true ∧
    stop = x.index + units.length}

theorem isWordUnit_of_digit {unit : CodeUnit} (digit : isDigitUnit unit = true) :
    isWordUnit unit = true := by
  simp only [isDigitUnit, Bool.and_eq_true] at digit
  simp only [isWordUnit, digit, Bool.and_self, Bool.true_or]

theorem not_word_of_separator {unit : CodeUnit} (separator : isSeparator unit = true) :
    isWordUnit unit = false := by
  simp only [isSeparator, Bool.or_eq_true, decide_eq_true_eq] at separator
  obtain rfl | rfl := separator <;> decide

theorem not_separator_of_word {unit : CodeUnit} (word : isWordUnit unit = true) :
    isSeparator unit = false := by
  cases separator : isSeparator unit with
  | false => rfl
  | true => cases word.symm.trans (not_word_of_separator separator)

theorem not_digit_of_not_word {unit : CodeUnit} (other : isWordUnit unit = false) :
    isDigitUnit unit = false := by
  cases digit : isDigitUnit unit with
  | false => rfl
  | true => cases other.symm.trans (isWordUnit_of_digit digit)

section Ends

variable {max min : Nat} {before rest : JsString} {unit : CodeUnit}

/-- A unit that is a digit (`read` is 1) or goes before one (`read` is 0). -/
theorem cardEnds_cons {read : Nat} (reads : ∀ count units,
    spaced (count + 1) (unit :: units) = spaced (count + 1 - read) units) (small : read ≤ 1) :
    cardEnds (max + read) (min + 1) ⟨before, unit :: rest⟩ =
      cardEnds max (min + 1 - read) ⟨unit :: before, rest⟩ := by
  ext stop
  constructor
  · rintro ⟨_ | count, units, after, least, most, split, digits, boundary, rfl⟩
    · omega
    cases units with
    | nil => cases digits
    | cons first units =>
      obtain ⟨rfl, rfl⟩ := List.cons.inj split
      rw [reads] at digits
      refine ⟨_, units, after, by omega, by omega, rfl, digits, ?_, ?_⟩
      · simpa using boundary
      · simp only [Input.index, List.length_cons]
        omega
  · rintro ⟨count, units, after, least, most, split, digits, boundary, rfl⟩
    obtain ⟨more, total⟩ : ∃ more, count + read = more + 1 :=
      Nat.exists_eq_succ_of_ne_zero (by omega)
    refine ⟨more + 1, unit :: units, after, by omega, by omega, congrArg _ split, ?_, ?_, ?_⟩
    · rw [reads, ← total, Nat.add_sub_cancel, digits]
    · simpa using boundary
    · simp only [Input.index, List.length_cons]
      omega

theorem cardEnds_digit (digit : isDigitUnit unit = true) :
    cardEnds (max + 1) (min + 1) ⟨before, unit :: rest⟩ =
      cardEnds max min ⟨unit :: before, rest⟩ :=
  cardEnds_cons (fun count units => by rw [spaced, if_pos digit]; rfl) le_rfl

theorem cardEnds_separator (separator : isSeparator unit = true) :
    cardEnds max (min + 1) ⟨before, unit :: rest⟩ =
      cardEnds max (min + 1) ⟨unit :: before, rest⟩ := by
  refine cardEnds_cons (fun count units => ?_) (Nat.zero_le 1)
  simp [spaced, not_digit_of_not_word (not_word_of_separator separator), separator]

theorem cardEnds_other (digit : isDigitUnit unit = false) (separator : isSeparator unit = false) :
    cardEnds max (min + 1) ⟨before, unit :: rest⟩ = ∅ := by
  ext stop
  refine iff_of_false ?_ (Set.notMem_empty stop)
  rintro ⟨_ | count, _ | ⟨first, units⟩, after, least, most, split, digits, -, -⟩
  · omega
  · omega
  · cases digits
  · obtain ⟨rfl, rfl⟩ := List.cons.inj split
    simp [spaced, digit, separator] at digits

theorem cardEnds_nil : cardEnds max (min + 1) ⟨before, []⟩ = ∅ := by
  ext stop
  refine iff_of_false ?_ (Set.notMem_empty stop)
  rintro ⟨_ | count, _ | ⟨first, units⟩, after, least, most, split, digits, -, -⟩
  · omega
  · omega
  · cases digits
  · cases split

theorem cardEnds_few (few : max < min) (x : Input) : cardEnds max min x = ∅ := by
  ext stop
  refine iff_of_false ?_ (Set.notMem_empty stop)
  rintro ⟨count, _, _, least, most, -⟩
  omega

/-- No more digits are needed: the place itself comes first, if it is a boundary. -/
theorem cardEnds_here (boundary : (Input.mk before rest).isBoundary = true) :
    IsLeast (cardEnds max 0 ⟨before, rest⟩) before.length := by
  refine ⟨⟨0, [], rest, le_rfl, Nat.zero_le max, rfl, rfl, boundary, rfl⟩, ?_⟩
  rintro stop ⟨count, units, after, -, -, -, -, -, rfl⟩
  exact Nat.le_add_right _ _

/-- Where the place is no boundary, there has to be a digit more. -/
theorem cardEnds_inside (inside : (Input.mk before rest).isBoundary = false) :
    cardEnds max 0 ⟨before, rest⟩ = cardEnds max 1 ⟨before, rest⟩ := by
  ext stop
  constructor
  · rintro ⟨_ | count, units, after, least, most, split, digits, boundary, rfl⟩
    · obtain rfl := spaced_zero.mp digits
      obtain rfl : rest = after := split
      cases inside.symm.trans boundary
    · exact ⟨count + 1, units, after, by omega, most, split, digits, boundary, rfl⟩
  · rintro ⟨count, units, after, least, others⟩
    exact ⟨count, units, after, Nat.zero_le count, others⟩

end Ends

/-! The rounds of the pattern. -/

section Rounds

variable {max min : Nat} {before rest : JsString} {unit : CodeUnit}

def rounds (max min : Nat) : Input → Option Nat := repeatRun cardDigit.run max min finish

theorem rounds_zero (x : Input) : rounds 0 0 x = finish x := rfl

theorem cardDigit_run (k : Input → Option Nat) (digit : isDigitUnit unit = true) :
    cardDigit.run k ⟨before, unit :: rest⟩ = manyRun false isSeparator k (unit :: before) rest := by
  rw [cardDigit, Regex.run, Regex.run, if_pos digit]
  rfl

theorem cardDigit_stuck (k : Input → Option Nat)
    (stuck : rest.head?.any isDigitUnit = false) : cardDigit.run k ⟨before, rest⟩ = none := by
  cases rest with
  | nil => rfl
  | cons unit rest =>
    have digit : isDigitUnit unit = false := stuck
    rw [cardDigit, Regex.run, Regex.run, digit]
    rfl

theorem rounds_digit (digit : isDigitUnit unit = true) :
    rounds (max + 1) (min + 1) ⟨before, unit :: rest⟩ =
      manyRun false isSeparator (rounds max min) (unit :: before) rest :=
  cardDigit_run _ digit

theorem rounds_optional (digit : isDigitUnit unit = true) :
    rounds (max + 1) 0 ⟨before, unit :: rest⟩ =
      (manyRun false isSeparator (rounds max 0) (unit :: before) rest).or
        (finish ⟨before, unit :: rest⟩) := by
  rw [rounds, repeatRun, cardDigit_run _ digit]
  congr 1
  refine manyRun_congr fun y reads => if_neg ?_
  have further : before.length + 1 ≤ y.index := reads.index_le
  exact Nat.ne_of_gt further

theorem rounds_stuck (stuck : rest.head?.any isDigitUnit = false) (order : min ≤ max) :
    rounds max min ⟨before, rest⟩ = if min = 0 then finish ⟨before, rest⟩ else none := by
  match max, min with
  | 0, 0 => rfl
  | max + 1, 0 => rw [rounds, repeatRun, cardDigit_stuck _ stuck, Option.none_or, if_pos rfl]
  | max + 1, min + 1 => exact cardDigit_stuck _ stuck

theorem rounds_other (digit : isDigitUnit unit = false) (order : min ≤ max) :
    rounds max min ⟨before, unit :: rest⟩ =
      if min = 0 then finish ⟨before, unit :: rest⟩ else none := rounds_stuck digit order

theorem boundary_behind (digit : before.head?.any isDigitUnit = true) :
    (Input.mk before rest).isBoundary = !(rest.head?.any isWordUnit) := by
  cases before with
  | nil => cases digit
  | cons first before =>
    have word : isWordUnit first = true := isWordUnit_of_digit digit
    simp only [Input.isBoundary, List.head?_cons, Option.any_some, word, Bool.true_bne]

theorem some_iff_isLeast {S : Set Nat} {least : Nat} (isLeast : IsLeast S least) {stop : Nat} :
    some least = some stop ↔ IsLeast S stop := by
  rw [Option.some.injEq]
  exact ⟨fun same => same ▸ isLeast, isLeast.unique⟩

theorem none_iff_isLeast {stop : Nat} : none = some stop ↔ IsLeast (∅ : Set Nat) stop :=
  iff_of_false nofun fun least => least.1

theorem finish_eq (x : Input) : finish x = if x.isBoundary then some x.index else none := rfl

/-- Behind a digit, or where more digits are required, the rounds end at the first end. -/
theorem rounds_iff (order : min ≤ max)
    (behind : min = 0 → before.head?.any isDigitUnit = true) {stop : Nat} :
    manyRun false isSeparator (rounds max min) before rest = some stop ↔
      IsLeast (cardEnds max min ⟨before, rest⟩) stop := by
  induction rest generalizing before max min with
  | nil =>
    rw [manyRun, rounds_stuck rfl order]
    cases min with
    | zero =>
      have boundary : (Input.mk before []).isBoundary = true := boundary_behind (behind rfl)
      rw [if_pos rfl, finish_eq, if_pos boundary]
      exact some_iff_isLeast (cardEnds_here boundary)
    | succ min =>
      rw [if_neg (Nat.succ_ne_zero min), cardEnds_nil]
      exact none_iff_isLeast
  | cons unit rest ih =>
    cases min with
    | zero =>
      have place : (Input.mk before (unit :: rest)).isBoundary = !isWordUnit unit :=
        boundary_behind (behind rfl)
      cases word : isWordUnit unit with
      | true =>
        have inside : (Input.mk before (unit :: rest)).isBoundary = false := by
          rw [place, word, Bool.not_true]
        have single := not_separator_of_word word
        have missed : finish ⟨before, unit :: rest⟩ = none := by
          rw [finish_eq, inside]
          rfl
        rw [manyRun, single, if_neg Bool.false_ne_true, cardEnds_inside inside]
        cases digit : isDigitUnit unit with
        | true =>
          cases max with
          | zero =>
            rw [rounds_zero, missed, cardEnds_few Nat.zero_lt_one]
            exact none_iff_isLeast
          | succ max =>
            rw [rounds_optional digit, missed, Option.or_none, cardEnds_digit digit]
            exact ih (Nat.zero_le max) fun _ => digit
        | false =>
          rw [rounds_other digit order, if_pos rfl, missed, cardEnds_other digit single]
          exact none_iff_isLeast
      | false =>
        have boundary : (Input.mk before (unit :: rest)).isBoundary = true := by
          rw [place, word, Bool.not_false]
        have found : rounds max 0 ⟨before, unit :: rest⟩ = some before.length := by
          rw [rounds_other (not_digit_of_not_word word) order, if_pos rfl, finish_eq,
            if_pos boundary]
          rfl
        rw [manyRun, found]
        simp only [Bool.false_eq_true, if_false, Option.some_or, ite_self]
        exact some_iff_isLeast (cardEnds_here boundary)
    | succ min =>
      obtain ⟨max, rfl⟩ := Nat.exists_eq_succ_of_ne_zero (Nat.ne_zero_of_lt order)
      have less : min ≤ max := Nat.le_of_succ_le_succ order
      cases digit : isDigitUnit unit with
      | true =>
        have single := not_separator_of_word (isWordUnit_of_digit digit)
        rw [manyRun, single, if_neg Bool.false_ne_true, Nat.succ_eq_add_one, rounds_digit digit,
          cardEnds_digit digit]
        exact ih less fun _ => digit
      | false =>
        have stuck : rounds (max + 1) (min + 1) ⟨before, unit :: rest⟩ = none := by
          rw [rounds_other digit order, if_neg (Nat.succ_ne_zero min)]
        rw [manyRun, Nat.succ_eq_add_one, stuck]
        cases separator : isSeparator unit with
        | true =>
          rw [if_pos rfl, if_neg Bool.false_ne_true, Option.none_or, cardEnds_separator separator]
          exact ih order fun none => absurd none (Nat.succ_ne_zero min)
        | false =>
          rw [if_neg Bool.false_ne_true, cardEnds_other digit separator]
          exact none_iff_isLeast

end Rounds

/-! The match at one start. -/

theorem cardShaped_iff {text : JsString} {start stop : Nat} (within : start ≤ text.length) :
    CardShaped text start stop ↔ (Input.at_ text start).isBoundary = true ∧
      (text.drop start).head?.any isDigitUnit = true ∧
      stop ∈ cardEnds 16 13 (Input.at_ text start) := by
  constructor
  · rintro ⟨before, units, rest, count, rfl, rfl, rfl, least, most, digits, first, boundary, after⟩
    have left : (before ++ (units ++ rest)).take before.length = before := List.take_left
    have right : (before ++ (units ++ rest)).drop before.length = units ++ rest := List.drop_left
    have here : Input.at_ (before ++ (units ++ rest)) before.length =
        ⟨before.reverse, units ++ rest⟩ := by rw [Input.at_, left, right]
    rw [here, right]
    refine ⟨boundary, ?_, count, units, rest, least, most, rfl, digits, after, ?_⟩
    · cases units with
      | nil => cases first
      | cons unit units => exact first
    · rw [Input.index, List.length_reverse]
  · rintro ⟨boundary, first, count, units, rest, least, most, split, digits, after, rfl⟩
    have split : text.drop start = units ++ rest := split
    refine ⟨text.take start, units, rest, count, ?_, ?_, ?_, least, most, digits, ?_, ?_, after⟩
    · rw [← split, List.take_append_drop]
    · rw [List.length_take, Nat.min_eq_left within]
    · rw [Input.index_at within]
    · rw [split] at first
      cases units with
      | nil =>
        cases count with
        | zero => omega
        | succ count => cases digits
      | cons unit units => exact first
    · rwa [Input.at_, split] at boundary

theorem missed_iff {text : JsString} {start stop : Nat}
    (missed : cardRegExp.matchAt text start = none) (empty : ∀ stop, ¬ CardShaped text start stop) :
    cardRegExp.matchAt text start = some stop ↔
      IsLeast {stop | CardShaped text start stop} stop := by
  rw [missed, Set.eq_empty_of_forall_notMem (s := {stop | CardShaped text start stop}) empty]
  exact none_iff_isLeast

/-- The match at a start is the shortest one. -/
theorem cardRegExp_matchAt {text : JsString} {start stop : Nat} :
    cardRegExp.matchAt text start = some stop ↔
      IsLeast {stop | CardShaped text start stop} stop := by
  by_cases within : start ≤ text.length
  swap
  · refine missed_iff (RegExp.matchAt_outside (Nat.lt_of_not_le within)) ?_
    rintro stop ⟨before, units, rest, count, rfl, rfl, -⟩
    rw [List.length_append] at within
    omega
  have run : cardRegExp.matchAt text start =
      if (Input.at_ text start).isBoundary then rounds 16 13 (Input.at_ text start) else none :=
    if_pos within
  cases boundary : (Input.at_ text start).isBoundary with
  | false =>
    refine missed_iff (by rw [run, boundary]; rfl) fun stop shaped => ?_
    cases boundary.symm.trans ((cardShaped_iff within).mp shaped).1
  | true =>
    rw [boundary, if_pos rfl] at run
    cases first : (text.drop start).head?.any isDigitUnit with
    | false =>
      refine missed_iff (run.trans (rounds_stuck first (by decide))) fun stop shaped => ?_
      cases first.symm.trans ((cardShaped_iff within).mp shaped).2.1
    | true =>
      have ends : {stop | CardShaped text start stop} = cardEnds 16 13 (Input.at_ text start) :=
        Set.ext fun stop => (cardShaped_iff within).trans
          ⟨fun shaped => shaped.2.2, fun ended => ⟨boundary, first, ended⟩⟩
      rw [run, ends, Input.at_]
      cases rest : text.drop start with
      | nil =>
        rw [rest] at first
        cases first
      | cons unit rest' =>
        rw [rest] at first
        have digit : isDigitUnit unit = true := first
        rw [rounds_digit digit, cardEnds_digit digit]
        exact rounds_iff (by decide) fun none => absurd none (by decide)

/-! ### The matches of a text -/

/-- The next digits that are cut: the first start, and the shortest card number there. -/
structure Cut (text : JsString) (lastIndex start stop : Nat) : Prop where
  first : IsLeast {start | lastIndex ≤ start ∧ ∃ stop, CardShaped text start stop} start
  shortest : IsLeast {stop | CardShaped text start stop} stop

/-- What is cut from the left, from an index on. -/
inductive Cuts (text : JsString) : (lastIndex start stop : Nat) → Prop where
  | here {lastIndex start stop : Nat} : Cut text lastIndex start stop →
      Cuts text lastIndex start stop
  | later {lastIndex first last start stop : Nat} : Cut text lastIndex first last →
      Cuts text last start stop → Cuts text lastIndex start stop

theorem cardRegExp_matches {text : JsString} {start : Nat} :
    cardRegExp.matchAt text start ≠ none ↔ ∃ stop, CardShaped text start stop := by
  rw [Option.ne_none_iff_exists']
  constructor
  · rintro ⟨stop, matched⟩
    exact ⟨stop, (cardRegExp_matchAt.mp matched).1⟩
  · intro shaped
    classical
    exact ⟨_, cardRegExp_matchAt.mpr (Nat.isLeast_find shaped)⟩

theorem cardRegExp_exec {text : JsString} {lastIndex start stop next : Nat} :
    cardRegExp.exec text lastIndex = (some (start, stop), next) ↔
      Cut text lastIndex start stop ∧ next = stop := by
  have found : cardRegExp.findMatch text (text.length + 1) lastIndex = some (start, stop) ↔
      Cut text lastIndex start stop := by
    rw [RegExp.findMatch_iff rfl rfl (by omega)]
    simp only [cardRegExp_matches, cardRegExp_matchAt]
    exact ⟨fun cut => ⟨cut.1, cut.2⟩, fun cut => ⟨cut.1, cut.2⟩⟩
  constructor
  · intro searched
    have same := (RegExp.exec_bounds rfl searched).2.2.2
    have kept : cardRegExp.keepsIndex = true := rfl
    simp only [RegExp.exec, kept, if_true, Prod.mk.injEq] at searched
    exact ⟨found.mp searched.1, same⟩
  · rintro ⟨cut, rfl⟩
    have kept : cardRegExp.keepsIndex = true := rfl
    simp only [RegExp.exec, kept, if_true, found.mpr cut, Option.map_some, Option.getD_some]

theorem comesTo_iff {text : JsString} {lastIndex start stop : Nat} :
    ComesTo cardRegExp text lastIndex start stop ↔ Cuts text lastIndex start stop := by
  constructor
  · intro comes
    induction comes with
    | here searched => exact .here (cardRegExp_exec.mp searched).1
    | later searched _ ih =>
      obtain ⟨cut, rfl⟩ := cardRegExp_exec.mp searched
      exact .later cut ih
  · intro cuts
    induction cuts with
    | here cut => exact .here (cardRegExp_exec.mpr ⟨cut, rfl⟩)
    | later cut _ ih => exact .later (cardRegExp_exec.mpr ⟨cut, rfl⟩) ih

theorem cardRegExp_nonempty (text : JsString) (index : Nat) :
    cardRegExp.matchAt text index ≠ some index := by
  intro matched
  obtain ⟨before, units, rest, count, -, -, same, -, -, -, first, -⟩ :=
    (cardRegExp_matchAt.mp matched).1
  cases units with
  | nil => cases first
  | cons unit units =>
    rw [List.length_cons] at same
    omega

/-! ### The rule -/

section Rule

variable {toLowerCase : JsString → JsString} {state : LastIndex} {text : JsString}

/-- A call with the rule reports a violation. -/
def ReportsCard (toLowerCase : JsString → JsString) (state : LastIndex) (text : JsString) : Prop :=
  ∃ violation next, (cardScanner toLowerCase).Returns state text (some violation) next

def HasCard (text : JsString) : Prop :=
  ∃ start stop, CardShaped text start stop ∧ isLuhnValid (matchedText text start stop) = true

/-- What is cut from the text holds a valid number. -/
def CutsCard (text : JsString) : Prop :=
  ∃ start stop, Cuts text 0 start stop ∧ isLuhnValid (matchedText text start stop) = true

theorem cardScanner_checkString (steps : Nat) :
    (cardScanner toLowerCase).checkString steps text state =
      (matchLoop cardRegExp CREDIT_CARD text steps 0).map fun (violation, next) =>
        (violation, Function.update state 0 next) :=
  PatternScanner.checkRules_single steps text _ state

theorem reportsCard_iff : ReportsCard toLowerCase state text ↔ CutsCard text := by
  have moves : ¬ MeetsEmpty cardRegExp CREDIT_CARD text 0 :=
    PatternScanner.nonempty_moves cardRegExp_nonempty _ _ _
  obtain ⟨⟨violation, next⟩, looped⟩ := matchLoop_ends rfl moves
  have reports := matchLoop_reports rfl (looped (text.length + 1) (by omega))
  simp only [comesTo_iff] at reports
  refine Iff.trans ?_ reports
  have result (steps : Nat) (enough : text.length < steps) :
      (cardScanner toLowerCase).checkString steps text state =
        some (violation, Function.update state 0 next) := by
    rw [cardScanner_checkString, looped steps (by omega), Option.map_some]
  constructor
  · rintro ⟨name, after, bound, returned⟩
    have same := returned (max bound (text.length + 1)) (Nat.le_max_left _ _)
    rw [result _ (Nat.le_max_right _ _)] at same
    cases same
    exact Option.some_ne_none name
  · intro violated
    obtain ⟨name, rfl⟩ := Option.ne_none_iff_exists'.mp violated
    exact ⟨name, _, text.length + 1, result⟩

/-- A valid number is reported exactly when some valid number is cut. -/
theorem creditCard_found_iff : (HasCard text → ReportsCard toLowerCase state text) ↔
    (HasCard text → CutsCard text) := by
  rw [reportsCard_iff]

/-- The only digits of that shape are cut. -/
theorem cutsCard_of_single {start stop : Nat} (shaped : CardShaped text start stop)
    (single : ∀ other last, CardShaped text other last → other = start ∧ last = stop)
    (valid : isLuhnValid (matchedText text start stop) = true) : CutsCard text := by
  refine ⟨start, stop, .here ⟨⟨⟨Nat.zero_le start, stop, shaped⟩, ?_⟩, shaped, ?_⟩, valid⟩
  · rintro other ⟨-, last, also⟩
    exact (single other last also).1.ge
  · exact fun last also => (single start last also).2.ge

end Rule

/-- A number after another group of digits, which is cut with it. -/
def groupBefore : JsString := js "1234 4111 1111 1111 1111"

theorem groupBefore_card : HasCard groupBefore :=
  ⟨5, 24, ⟨js "1234 ", js "4111 1111 1111 1111", [], 16, by decide⟩, by decide⟩

theorem groupBefore_missed :
    ¬ (HasCard groupBefore →
      ReportsCard PatternScanner.capitals.toLowerCase (fun _ => 0) groupBefore) := by
  intro found
  obtain ⟨name, next, bound, returned⟩ := found groupBefore_card
  have first : cardRegExp.exec groupBefore 0 = (some (0, 19), 19) := by decide
  have second : cardRegExp.exec groupBefore 19 = (none, 0) := by decide
  have invalid : CREDIT_CARD.accepts (matchedText groupBefore 0 19) = false := by decide
  have result := returned (bound + 2) (Nat.le_add_right bound 2)
  have isGlobal : cardRegExp.global = true := rfl
  simp only [cardScanner_checkString, matchLoop, first, second, invalid, isGlobal, if_true,
    Bool.false_eq_true, if_false, Option.map_some] at result
  cases result

end NeuralMesh.Server
