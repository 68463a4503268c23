import NeuralMesh.Js.RegExpExec

/-! The pattern rules of the PII scanner. A `RegExp` object is shared by every text that is
scanned, and its `lastIndex` with it: the loop over the matches advances by `lastIndex` alone,
and only a pattern with `g` is set back to the start. -/
namespace NeuralMesh.Server

open Js

/-- `string | RegExp`, a `RegExp` by its place among the objects. -/
inductive RulePattern where
  | text (pattern : JsString)
  | regex (id : Nat)

structure PiiRuleDefinition where
  name : JsString
  pattern : RulePattern
  validator : Option (JsString → Bool)

inductive PiiRule where
  | text (rule : JsString)
  | regex (id : Nat)
  | definition (rule : PiiRuleDefinition)

/-- The `RegExp` objects and the rules over them. -/
structure PatternScanner where
  toLowerCase : JsString → JsString
  regexes : Nat → RegExp
  patterns : List PiiRule

/-- Where each `RegExp` object starts its next search. -/
abbrev LastIndex := Nat → Nat

def PiiRuleDefinition.accepts (rule : PiiRuleDefinition) (matched : JsString) : Bool :=
  match rule.validator with
  | none => true
  | some validator => validator matched

def matchedText (text : JsString) (start stop : Nat) : JsString := (text.take stop).drop start

/-- A search with `g` starts at the front: `if (pattern.global) pattern.lastIndex = 0`. -/
def resetIndex (regex : RegExp) (lastIndex : Nat) : Nat := if regex.global then 0 else lastIndex

/-- The loop over the matches: the name that is reported and the `lastIndex` that is left, or
`none` where the steps do not suffice. -/
def matchLoop (regex : RegExp) (rule : PiiRuleDefinition) (text : JsString) :
    (steps lastIndex : Nat) → Option (Option JsString × Nat)
  | 0, _ => none
  | steps + 1, lastIndex =>
    match regex.exec text lastIndex with
    | (none, next) => some (none, next)
    | (some (start, stop), next) =>
      if rule.accepts (matchedText text start stop) then some (some rule.name, next)
      else if regex.global then matchLoop regex rule text steps next
      else some (none, next)

namespace PatternScanner

variable (scanner : PatternScanner)

/-- `text.toLowerCase().includes(pattern.toLowerCase())` -/
def includes (text pattern : JsString) : Bool :=
  decide (scanner.toLowerCase pattern <:+: scanner.toLowerCase text)

def checkRule (steps : Nat) (text : JsString) (rule : PiiRule) (state : LastIndex) :
    Option (Option JsString × LastIndex) :=
  match rule with
  | .text rule => some (if scanner.includes text rule then some rule else none, state)
  | .regex id =>
    let regex := scanner.regexes id
    let (found, next) := regex.exec text (resetIndex regex (state id))
    some (found.map fun _ => regex.source, Function.update state id next)
  | .definition rule =>
    match rule.pattern with
    | .text pattern => some
        (if scanner.includes text pattern && rule.accepts pattern then some rule.name else none,
          state)
    | .regex id =>
      let regex := scanner.regexes id
      (matchLoop regex rule text steps (resetIndex regex (state id))).map fun (violation, next) =>
        (violation, Function.update state id next)

/-- The rules in order, up to the first violation. -/
def checkRules (steps : Nat) (text : JsString) :
    List PiiRule → LastIndex → Option (Option JsString × LastIndex)
  | [], state => some (none, state)
  | rule :: rules, state =>
    match scanner.checkRule steps text rule state with
    | some (none, next) => checkRules steps text rules next
    | result => result

def checkString (steps : Nat) (text : JsString) (state : LastIndex) :
    Option (Option JsString × LastIndex) :=
  scanner.checkRules steps text scanner.patterns state

/-- The call ends with this result: it does for any number of steps that suffices. -/
def Returns (state : LastIndex) (text : JsString) (violation : Option JsString)
    (next : LastIndex) : Prop :=
  ∃ bound, ∀ steps, bound ≤ steps → scanner.checkString steps text state = some (violation, next)

/-- Calls one after another. -/
inductive Scans : LastIndex → List JsString → List (Option JsString) → Prop where
  | nil {state : LastIndex} : Scans state [] []
  | cons {state next : LastIndex} {text : JsString} {texts : List JsString}
      {violation : Option JsString} {violations : List (Option JsString)} :
      scanner.Returns state text violation next → Scans next texts violations →
      Scans state (text :: texts) (violation :: violations)

/-- The calls end, each with the result of a scanner that has seen no text before. -/
def Memoryless (initial : LastIndex) (texts : List JsString) : Prop :=
  ∃ violations, scanner.Scans initial texts violations ∧
    List.Forall₂ (fun text violation => ∃ next, scanner.Returns initial text violation next)
      texts violations

end PatternScanner

/-! ### The loop over the matches -/

/-- From a `lastIndex` the search comes, over matches that the validator rejects, to an empty
one that it rejects. -/
inductive MeetsEmpty (regex : RegExp) (rule : PiiRuleDefinition) (text : JsString) :
    Nat → Prop where
  | empty {lastIndex index next : Nat} :
      regex.exec text lastIndex = (some (index, index), next) → rule.accepts [] = false →
      MeetsEmpty regex rule text lastIndex
  | later {lastIndex start stop next : Nat} :
      regex.exec text lastIndex = (some (start, stop), next) →
      rule.accepts (matchedText text start stop) = false → MeetsEmpty regex rule text stop →
      MeetsEmpty regex rule text lastIndex

/-- The matches that the loop comes to while it reports none. -/
inductive ComesTo (regex : RegExp) (text : JsString) : (lastIndex start stop : Nat) → Prop where
  | here {lastIndex start stop next : Nat} :
      regex.exec text lastIndex = (some (start, stop), next) →
      ComesTo regex text lastIndex start stop
  | later {lastIndex first last next start stop : Nat} :
      regex.exec text lastIndex = (some (first, last), next) →
      ComesTo regex text next start stop → ComesTo regex text lastIndex start stop

theorem matchedText_self (text : JsString) (index : Nat) : matchedText text index index = [] := by
  rw [matchedText, List.drop_eq_nil_iff, List.length_take]
  exact Nat.min_le_left index text.length

section MatchLoop

variable {regex : RegExp} {rule : PiiRuleDefinition} {text : JsString}

theorem keepsIndex_of_global (isGlobal : regex.global = true) : regex.keepsIndex = true := by
  simp only [RegExp.keepsIndex, isGlobal, Bool.true_or]

/-- Every match before an empty one moves `lastIndex` forward. -/
theorem matchLoop_ends (isGlobal : regex.global = true) {lastIndex : Nat}
    (moves : ¬ MeetsEmpty regex rule text lastIndex) :
    ∃ result, ∀ steps, text.length - lastIndex < steps →
      matchLoop regex rule text steps lastIndex = some result := by
  generalize left : text.length - lastIndex = room
  induction room using Nat.strong_induction_on generalizing lastIndex with
  | _ room ih =>
    rcases searched : regex.exec text lastIndex with ⟨_ | ⟨start, stop⟩, next⟩
    · refine ⟨(none, next), fun steps enough => ?_⟩
      obtain ⟨steps, rfl⟩ := Nat.exists_eq_succ_of_ne_zero (Nat.ne_zero_of_lt enough)
      simp only [matchLoop, searched]
    cases accepted : rule.accepts (matchedText text start stop) with
    | true =>
      refine ⟨(some rule.name, next), fun steps enough => ?_⟩
      obtain ⟨steps, rfl⟩ := Nat.exists_eq_succ_of_ne_zero (Nat.ne_zero_of_lt enough)
      simp only [matchLoop, searched, accepted, if_true]
    | false =>
      have keeps := keepsIndex_of_global isGlobal
      obtain ⟨later, order, within, rfl⟩ := RegExp.exec_bounds keeps searched
      have nonempty : start ≠ next := by
        rintro rfl
        rw [matchedText_self] at accepted
        exact moves (.empty searched accepted)
      have further : text.length - next < room := by omega
      have onward : ¬ MeetsEmpty regex rule text next :=
        fun meets => moves (.later searched accepted meets)
      obtain ⟨result, ends⟩ := ih _ further onward rfl
      refine ⟨result, fun steps enough => ?_⟩
      obtain ⟨steps, rfl⟩ := Nat.exists_eq_succ_of_ne_zero (Nat.ne_zero_of_lt enough)
      have rest := ends steps (by omega)
      simpa [matchLoop, searched, accepted, isGlobal] using rest

/-- A rejected empty match is found again and again. -/
theorem matchLoop_stays (isGlobal : regex.global = true) {lastIndex : Nat}
    (meets : MeetsEmpty regex rule text lastIndex) (steps : Nat) :
    matchLoop regex rule text steps lastIndex = none := by
  have keeps := keepsIndex_of_global isGlobal
  induction meets generalizing steps with
  | @empty lastIndex index next found rejected =>
    have stays (steps : Nat) : matchLoop regex rule text steps next = none := by
      induction steps with
      | zero => rfl
      | succ steps ih =>
        simp [matchLoop, RegExp.exec_again keeps found, matchedText_self, rejected, isGlobal, ih]
    cases steps with
    | zero => rfl
    | succ steps => simp [matchLoop, found, matchedText_self, rejected, isGlobal, stays steps]
  | @later lastIndex start stop next found rejected _ ih =>
    obtain ⟨_, _, _, rfl⟩ := RegExp.exec_bounds keeps found
    cases steps with
    | zero => rfl
    | succ steps => simp [matchLoop, found, rejected, isGlobal, ih steps]

/-- The loop reports one of the matches that it comes to, if it accepts any. -/
theorem matchLoop_reports (isGlobal : regex.global = true) {steps lastIndex next : Nat}
    {violation : Option JsString}
    (looped : matchLoop regex rule text steps lastIndex = some (violation, next)) :
    violation ≠ none ↔ ∃ start stop, ComesTo regex text lastIndex start stop ∧
      rule.accepts (matchedText text start stop) = true := by
  induction steps generalizing lastIndex with
  | zero => cases looped
  | succ steps ih =>
    rw [matchLoop] at looped
    rcases searched : regex.exec text lastIndex with ⟨_ | ⟨start, stop⟩, after⟩
    · rw [searched] at looped
      cases looped
      refine iff_of_false (fun reports => reports rfl) ?_
      rintro ⟨start, stop, comes, -⟩
      cases comes <;> cases searched.symm.trans ‹_›
    simp only [searched, isGlobal, if_true] at looped
    split at looped
    · next accepted =>
      cases looped
      exact iff_of_true (Option.some_ne_none _) ⟨start, stop, .here searched, accepted⟩
    · next rejected =>
      rw [ih looped]
      constructor
      · rintro ⟨first, last, comes, accepted⟩
        exact ⟨first, last, .later searched comes, accepted⟩
      · rintro ⟨first, last, comes, accepted⟩
        cases comes with
        | here found =>
          cases searched.symm.trans found
          exact absurd accepted rejected
        | later found comes =>
          cases searched.symm.trans found
          exact ⟨first, last, comes, accepted⟩

end MatchLoop

/-! ### Calls one after another -/

/-- With `y` and without `g`, `lastIndex` moves and is not set back. -/
def remembers (regex : RegExp) : Bool := regex.sticky && !regex.global

def PiiRule.regexId : PiiRule → Option Nat
  | .text _ => none
  | .regex id => some id
  | .definition rule =>
    match rule.pattern with
    | .text _ => none
    | .regex id => some id

theorem exec_index {regex : RegExp} {i j : Nat} (same : remembers regex = true → i = j)
    (text : JsString) : (regex.exec text (resetIndex regex i)).1 =
      (regex.exec text (resetIndex regex j)).1 := by
  cases isGlobal : regex.global with
  | true => simp only [resetIndex, isGlobal, if_true]
  | false =>
    cases isSticky : regex.sticky with
    | true =>
      have kept : remembers regex = true := by simp [remembers, isSticky, isGlobal]
      rw [same kept]
    | false => simp [RegExp.exec, RegExp.keepsIndex, isGlobal, isSticky]

section

variable {regex : RegExp} {rule : PiiRuleDefinition} {text : JsString}

/-- What one match reports. -/
def PiiRuleDefinition.report (rule : PiiRuleDefinition) (text : JsString)
    (found : Option (Nat × Nat)) : Option JsString :=
  (found.filter fun found => rule.accepts (matchedText text found.1 found.2)).map fun _ => rule.name

/-- Without `g` the loop ends at the first match. -/
theorem matchLoop_single (single : regex.global = false) {steps : Nat}
    (enough : text.length < steps) (lastIndex : Nat) : matchLoop regex rule text steps lastIndex =
      some (rule.report text (regex.exec text lastIndex).1, (regex.exec text lastIndex).2) := by
  obtain ⟨steps, rfl⟩ := Nat.exists_eq_succ_of_ne_zero (Nat.ne_zero_of_lt enough)
  rcases searched : regex.exec text lastIndex with ⟨_ | ⟨start, stop⟩, next⟩
  · simp only [matchLoop, searched, PiiRuleDefinition.report, Option.filter_none, Option.map_none]
  · cases accepted : rule.accepts (matchedText text start stop) <;>
      simp [matchLoop, searched, accepted, single, PiiRuleDefinition.report, Option.filter]

/-- The same name is reported from both. -/
theorem matchLoop_index {i j : Nat} (same : remembers regex = true → i = j)
    (moves : regex.global = true → ¬ MeetsEmpty regex rule text 0) :
    ∃ violation next next', ∀ steps, text.length < steps →
      matchLoop regex rule text steps (resetIndex regex i) = some (violation, next) ∧
      matchLoop regex rule text steps (resetIndex regex j) = some (violation, next') := by
  cases isGlobal : regex.global with
  | true =>
    obtain ⟨⟨violation, next⟩, found⟩ := matchLoop_ends isGlobal (moves isGlobal)
    refine ⟨violation, next, next, fun steps enough => ?_⟩
    simp only [resetIndex, isGlobal, if_true]
    exact ⟨found steps enough, found steps enough⟩
  | false =>
    refine ⟨rule.report text (regex.exec text (resetIndex regex i)).1,
      (regex.exec text (resetIndex regex i)).2, (regex.exec text (resetIndex regex j)).2,
      fun steps enough => ⟨matchLoop_single isGlobal enough _, ?_⟩⟩
    rw [exec_index same text]
    exact matchLoop_single isGlobal enough _

end

namespace PatternScanner

variable {scanner : PatternScanner}

variable (scanner) in
/-- The pattern of the rule is global and meets a rejected empty match. -/
def Loops (text : JsString) (rule : PiiRule) : Prop :=
  ∃ checked id, rule = .definition checked ∧ checked.pattern = .regex id ∧
    (scanner.regexes id).global = true ∧ MeetsEmpty (scanner.regexes id) checked text 0

variable (scanner) in
/-- The pattern of the rule starts where it did before the first text. -/
def StandsFirst (rule : PiiRule) (initial state : LastIndex) : Prop :=
  ∀ id, rule.regexId = some id → remembers (scanner.regexes id) = true → initial id = state id

variable (scanner) in
/-- The rule reports nothing. -/
def Passes (text : JsString) (rule : PiiRule) (state next : LastIndex) : Prop :=
  ∃ bound, ∀ steps, bound ≤ steps → scanner.checkRule steps text rule state = some (none, next)

variable (scanner) in
/-- No rule that the call comes to loops, or has a pattern that was left elsewhere. -/
def Undisturbed (text : JsString) : List PiiRule → (initial state : LastIndex) → Prop
  | [], _, _ => True
  | rule :: rules, initial, state =>
    scanner.StandsFirst rule initial state ∧ ¬ scanner.Loops text rule ∧
      ∀ initial' state', scanner.Passes text rule initial initial' →
        scanner.Passes text rule state state' → Undisturbed text rules initial' state'

variable (scanner) in
def AllUndisturbed (initial : LastIndex) : LastIndex → List JsString → Prop
  | _, [] => True
  | state, text :: texts =>
    scanner.Undisturbed text scanner.patterns initial state ∧
      ∀ violation next, scanner.Returns state text violation next →
        AllUndisturbed initial next texts

theorem checkRule_ends {text : JsString} {rule : PiiRule} {initial state : LastIndex}
    (stands : scanner.StandsFirst rule initial state) (ends : ¬ scanner.Loops text rule) :
    ∃ violation initial' state', ∀ steps, text.length < steps →
      scanner.checkRule steps text rule initial = some (violation, initial') ∧
      scanner.checkRule steps text rule state = some (violation, state') := by
  match rule with
  | .text rule => exact ⟨_, _, _, fun steps _ => ⟨rfl, rfl⟩⟩
  | .regex id =>
    let regex := scanner.regexes id
    let next (state : LastIndex) : LastIndex :=
      Function.update state id (regex.exec text (resetIndex regex (state id))).2
    refine ⟨(regex.exec text (resetIndex regex (state id))).1.map fun _ => regex.source,
      next initial, next state, fun steps _ => ⟨?_, rfl⟩⟩
    simp only [checkRule, exec_index (stands id rfl)]
    rfl
  | .definition ⟨name, .text pattern, validator⟩ => exact ⟨_, _, _, fun steps _ => ⟨rfl, rfl⟩⟩
  | .definition ⟨name, .regex id, validator⟩ =>
    have moves : (scanner.regexes id).global = true →
        ¬ MeetsEmpty (scanner.regexes id) ⟨name, .regex id, validator⟩ text 0 :=
      fun isGlobal meets => ends ⟨_, id, rfl, rfl, isGlobal, meets⟩
    obtain ⟨violation, next, next', looped⟩ := matchLoop_index (stands id rfl) moves
    refine ⟨violation, Function.update initial id next, Function.update state id next',
      fun steps enough => ?_⟩
    obtain ⟨first, second⟩ := looped steps enough
    simp only [checkRule, first, second, Option.map_some, and_self]

theorem checkRules_single (steps : Nat) (text : JsString) (rule : PiiRule) (state : LastIndex) :
    scanner.checkRules steps text [rule] state = scanner.checkRule steps text rule state := by
  rw [checkRules]
  rcases scanner.checkRule steps text rule state with _ | ⟨_ | name, next⟩ <;> rfl

/-- A rule that loops gives no result after any number of steps. -/
theorem checkRule_loops {text : JsString} {rule : PiiRule} (loops : scanner.Loops text rule)
    (steps : Nat) (state : LastIndex) : scanner.checkRule steps text rule state = none := by
  obtain ⟨⟨name, pattern, validator⟩, id, rfl, rfl, isGlobal, meets⟩ := loops
  simp only [checkRule, resetIndex, isGlobal, if_true, matchLoop_stays isGlobal meets steps,
    Option.map_none]

theorem checkRules_loops {text : JsString} {rule : PiiRule} (loops : scanner.Loops text rule)
    (rules : List PiiRule) (steps : Nat) (state : LastIndex) :
    scanner.checkRules steps text (rule :: rules) state = none := by
  rw [checkRules, checkRule_loops loops]

theorem checkRules_ends {text : JsString} {rules : List PiiRule} {initial state : LastIndex}
    (undisturbed : scanner.Undisturbed text rules initial state) :
    ∃ violation initial' state', ∀ steps, text.length < steps →
      scanner.checkRules steps text rules initial = some (violation, initial') ∧
      scanner.checkRules steps text rules state = some (violation, state') := by
  induction rules generalizing initial state with
  | nil => exact ⟨none, initial, state, fun steps _ => ⟨rfl, rfl⟩⟩
  | cons rule rules ih =>
    obtain ⟨stands, ends, others⟩ := undisturbed
    obtain ⟨violation, initial', state', checked⟩ := checkRule_ends stands ends
    cases violation with
    | some name =>
      refine ⟨some name, initial', state', fun steps enough => ?_⟩
      simp only [checkRules, (checked steps enough).1, (checked steps enough).2, and_self]
    | none =>
      have passed := others initial' state' ⟨_, fun steps enough => (checked steps enough).1⟩
        ⟨_, fun steps enough => (checked steps enough).2⟩
      obtain ⟨violation, first, second, rest⟩ := ih passed
      refine ⟨violation, first, second, fun steps enough => ?_⟩
      simp only [checkRules, (checked steps enough).1, (checked steps enough).2]
      exact rest steps enough

/-- One call: it ends, with the result of the first text. -/
theorem checkString_ends {text : JsString} {initial state : LastIndex}
    (undisturbed : scanner.Undisturbed text scanner.patterns initial state) :
    ∃ violation initial' state', scanner.Returns initial text violation initial' ∧
      scanner.Returns state text violation state' := by
  obtain ⟨violation, initial', state', checked⟩ := checkRules_ends undisturbed
  exact ⟨violation, initial', state', ⟨_, fun steps enough => (checked steps enough).1⟩,
    ⟨_, fun steps enough => (checked steps enough).2⟩⟩

theorem scans_undisturbed {initial state : LastIndex} {texts : List JsString}
    (undisturbed : scanner.AllUndisturbed initial state texts) :
    ∃ violations, scanner.Scans state texts violations ∧
      List.Forall₂ (fun text violation => ∃ next, scanner.Returns initial text violation next)
        texts violations := by
  induction texts generalizing state with
  | nil => exact ⟨[], .nil, .nil⟩
  | cons text texts ih =>
    obtain ⟨now, later⟩ := undisturbed
    obtain ⟨violation, initial', next, fresh, returned⟩ := checkString_ends now
    obtain ⟨violations, scanned, same⟩ := ih (later violation next returned)
    exact ⟨violation :: violations, .cons returned scanned, .cons ⟨initial', fresh⟩ same⟩

/-- In a run without a disturbed call. -/
theorem memoryless_of_undisturbed {initial : LastIndex} {texts : List JsString}
    (undisturbed : scanner.AllUndisturbed initial initial texts) :
    scanner.Memoryless initial texts := scans_undisturbed undisturbed

theorem nonempty_moves {regex : RegExp}
    (nonempty : ∀ text index, regex.matchAt text index ≠ some index) (rule : PiiRuleDefinition)
    (text : JsString) (lastIndex : Nat) : ¬ MeetsEmpty regex rule text lastIndex := by
  intro meets
  induction meets with
  | empty found _ => exact nonempty _ _ (RegExp.exec_matched found)
  | later _ _ _ ih => exact ih

/-- Patterns that match no empty text, none of them sticky without `g`. -/
theorem allUndisturbed_of_nonempty (forgets : ∀ id, remembers (scanner.regexes id) = false)
    (nonempty : ∀ id text index, (scanner.regexes id).matchAt text index ≠ some index)
    (initial state : LastIndex) (texts : List JsString) :
    scanner.AllUndisturbed initial state texts := by
  have call (text : JsString) (rules : List PiiRule) (initial state : LastIndex) :
      scanner.Undisturbed text rules initial state := by
    induction rules generalizing initial state with
    | nil => trivial
    | cons rule rules ih =>
      refine ⟨fun id _ sticky => ?_, ?_, fun initial' state' _ _ => ih initial' state'⟩
      · rw [forgets id] at sticky
        cases sticky
      · rintro ⟨checked, id, -, -, -, meets⟩
        exact nonempty_moves (nonempty id) checked text 0 meets
  induction texts generalizing state with
  | nil => trivial
  | cons text texts ih => exact ⟨call text _ initial state, fun _ next _ => ih next⟩

/-- One capital: `/[A-Z]/g`, unless it is the word for oneself. -/
def capitals : PatternScanner where
  toLowerCase := List.map fun u => if 0x41 ≤ u ∧ u ≤ 0x5A then u + 0x20 else u
  regexes _ := (Regex.char fun u => 0x41 ≤ u && u ≤ 0x5A).toRegExp (js "[A-Z]") true false
  patterns := [.definition ⟨js "CAPITAL", .regex 0, some fun matched => matched ≠ js "I"⟩]

theorem capitals_memoryless :
    capitals.Memoryless (fun _ => 0) [js "I am", js "Am I", js "I am"] := by
  refine memoryless_of_undisturbed (allUndisturbed_of_nonempty (fun _ => rfl) ?_ _ _ _)
  intro id text index matched
  dsimp only [capitals, Regex.toRegExp] at matched
  split_ifs at matched with within
  have here : (text.take index).reverse.length = index := Input.index_at within
  rw [Input.at_] at matched
  cases rest : text.drop index with
  | nil =>
    rw [rest] at matched
    cases matched
  | cons unit rest =>
    rw [rest, Regex.run] at matched
    split_ifs at matched
    rw [Option.some.injEq, Input.index, List.length_cons, here] at matched
    exact Nat.succ_ne_self index matched

/-- `/a*/g`, which also matches nothing. -/
def anyA : PatternScanner where
  toLowerCase := capitals.toLowerCase
  regexes _ := (Regex.many true (· = 0x61)).toRegExp (js "a*") true false
  patterns := [.definition ⟨js "A", .regex 0, some (· ≠ [])⟩]

/-- `/a/y` -/
def stickyA : PatternScanner where
  toLowerCase := capitals.toLowerCase
  regexes _ := (Regex.char (· = 0x61)).toRegExp (js "a") false true
  patterns := [.regex 0]

theorem anyA_loops : anyA.Loops (js "b") (.definition ⟨js "A", .regex 0, some (· ≠ [])⟩) := by
  have found : (anyA.regexes 0).exec (js "b") 0 = (some (0, 0), 0) := by decide
  exact ⟨_, 0, rfl, rfl, rfl, .empty found rfl⟩

theorem stickyA_first (steps : Nat) : stickyA.checkString steps (js "a") (fun _ => 0) =
    some (some (js "a"), Function.update (fun _ => 0) 0 1) := rfl

theorem stickyA_second (steps : Nat) :
    stickyA.checkString steps (js "a") (Function.update (fun _ => 0) 0 1) =
      some (none, Function.update (Function.update (fun _ => 0) 0 1) 0 0) := rfl

/-- One call does not end; or the second call misses what the first one found. -/
theorem checkString_disturbed : ¬ anyA.Memoryless (fun _ => 0) [js "b"] ∧
    ¬ stickyA.Memoryless (fun _ => 0) [js "a", js "a"] := by
  constructor
  · rintro ⟨_, _ | ⟨⟨bound, returned⟩, _⟩, _⟩
    have result := returned bound (Nat.le_refl bound)
    rw [checkString] at result
    cases (checkRules_loops anyA_loops [] bound _).symm.trans result
  · rintro ⟨_, _ | ⟨⟨bound, returned⟩, _ | ⟨⟨bound', returned'⟩, _⟩⟩, same⟩
    obtain _ | ⟨_, _ | ⟨⟨_, bound'', fresh⟩, _⟩⟩ := same
    have first := returned bound (Nat.le_refl bound)
    rw [stickyA_first] at first
    cases first
    have second := returned' bound' (Nat.le_refl bound')
    rw [stickyA_second] at second
    cases second
    have again := fresh bound'' (Nat.le_refl bound'')
    rw [stickyA_first] at again
    cases again

end PatternScanner

end NeuralMesh.Server
