import Mathlib.Order.Nat
import NeuralMesh.Js.RegExpExec

/-! What a pattern matches, whatever the order of the search, and `new RegExp(source)` for
sources of word characters, classes, alternatives, `(?:`, `^` and `$`. -/
namespace NeuralMesh.Js

/-! ### Matches -/

/-- Rounds of a repetition. -/
def Repeats (R : Input → Input → Prop) : (max min : Nat) → Input → Input → Prop
  | 0, _, x, y => x = y
  | max + 1, 0, x, y => (∃ z, R x z ∧ z.index ≠ x.index ∧ Repeats R max 0 z y) ∨ x = y
  | max + 1, min + 1, x, y => ∃ z, R x z ∧ Repeats R max min z y

def Regex.Matches : Regex → Input → Input → Prop
  | .empty, x, y => x = y
  | .char p, x, y => ∃ unit rest, x.rest = unit :: rest ∧ p unit = true ∧
      y = ⟨unit :: x.before, rest⟩
  | .boundary, x, y => x.isBoundary = true ∧ x = y
  | .start, x, y => x.before = [] ∧ x = y
  | .stop, x, y => x.rest = [] ∧ x = y
  | .seq a b, x, y => ∃ z, a.Matches x z ∧ b.Matches z y
  | .alt a b, x, y => a.Matches x y ∨ b.Matches x y
  | .many _ p, x, y => ∃ units rest, x.rest = units ++ rest ∧ (∀ unit ∈ units, p unit = true) ∧
      y = ⟨units.reverse ++ x.before, rest⟩
  | .repeated min max a, x, y => Repeats a.Matches max min x y

variable {γ : Type}

theorem or_ne_none_iff {a b : Option γ} : a.or b ≠ none ↔ a ≠ none ∨ b ≠ none := by
  rw [ne_eq, Option.or_eq_none_iff, not_and_or]

theorem manyRun_iff {greedy : Bool} {p : CodeUnit → Bool} {k : Input → Option γ}
    {before rest : JsString} : manyRun greedy p k before rest ≠ none ↔
      ∃ units left, rest = units ++ left ∧ (∀ unit ∈ units, p unit = true) ∧
        k ⟨units.reverse ++ before, left⟩ ≠ none := by
  induction rest generalizing before with
  | nil =>
    constructor
    · exact fun found => ⟨[], [], rfl, nofun, found⟩
    · rintro ⟨units, left, split, -, found⟩
      obtain ⟨rfl, rfl⟩ := List.append_eq_nil_iff.mp split.symm
      exact found
  | cons unit rest ih =>
    have step : manyRun greedy p k before (unit :: rest) ≠ none ↔
        k ⟨before, unit :: rest⟩ ≠ none ∨
          p unit = true ∧ manyRun greedy p k (unit :: before) rest ≠ none := by
      rw [manyRun]
      split_ifs with inside
      · rw [or_ne_none_iff, or_comm, and_iff_right inside]
      · rw [or_ne_none_iff, and_iff_right inside]
      · rw [or_iff_left fun found => inside found.1]
    rw [step, ih]
    constructor
    · rintro (found | ⟨inside, units, left, rfl, all, found⟩)
      · exact ⟨[], unit :: rest, rfl, nofun, found⟩
      · refine ⟨unit :: units, left, rfl, List.forall_mem_cons.mpr ⟨inside, all⟩, ?_⟩
        simpa using found
    · rintro ⟨_ | ⟨first, units⟩, left, split, all, found⟩
      · obtain rfl : unit :: rest = left := split
        exact .inl found
      · obtain ⟨rfl, rfl⟩ := List.cons.inj split
        obtain ⟨inside, all⟩ := List.forall_mem_cons.mp all
        refine .inr ⟨inside, units, left, rfl, all, ?_⟩
        simpa using found

theorem repeatRun_iff {body : (Input → Option γ) → Input → Option γ} {R : Input → Input → Prop}
    (runs : ∀ k x, body k x ≠ none ↔ ∃ y, R x y ∧ k y ≠ none) {max min : Nat}
    {k : Input → Option γ} {x : Input} :
    repeatRun body max min k x ≠ none ↔ ∃ y, Repeats R max min x y ∧ k y ≠ none := by
  induction max generalizing min x with
  | zero => simp only [repeatRun, Repeats, exists_eq_left']
  | succ max ih =>
    cases min with
    | zero =>
      rw [repeatRun, or_ne_none_iff, runs]
      have more (z : Input) :
          (if z.index = x.index then none else repeatRun body max 0 k z) ≠ none ↔
            z.index ≠ x.index ∧ ∃ y, Repeats R max 0 z y ∧ k y ≠ none := by
        split_ifs with stays
        · exact iff_of_false (fun found => found rfl) fun moves => moves.1 stays
        · rw [ih, and_iff_right stays]
      simp only [more, Repeats]
      constructor
      · rintro (⟨z, first, moves, y, others, found⟩ | found)
        · exact ⟨y, .inl ⟨z, first, moves, others⟩, found⟩
        · exact ⟨x, .inr rfl, found⟩
      · rintro ⟨y, ⟨z, first, moves, others⟩ | rfl, found⟩
        · exact .inl ⟨z, first, moves, y, others, found⟩
        · exact .inr found
    | succ min =>
      rw [repeatRun, runs]
      simp only [ih, Repeats]
      constructor
      · rintro ⟨z, first, y, others, found⟩
        exact ⟨y, ⟨z, first, others⟩, found⟩
      · rintro ⟨y, ⟨z, first, others⟩, found⟩
        exact ⟨z, first, y, others, found⟩

/-- A run succeeds exactly when the continuation does behind some match. -/
theorem Regex.run_iff (a : Regex) {k : Input → Option γ} {x : Input} :
    a.run k x ≠ none ↔ ∃ y, a.Matches x y ∧ k y ≠ none := by
  induction a generalizing k x with
  | empty => simp only [run, Matches, exists_eq_left']
  | char p =>
    obtain ⟨before, _ | ⟨unit, rest⟩⟩ := x
    · refine iff_of_false (fun found => found rfl) ?_
      rintro ⟨y, ⟨unit, rest, split, -⟩, -⟩
      cases split
    · rw [run]
      split_ifs with inside
      · constructor
        · exact fun found => ⟨_, ⟨unit, rest, rfl, inside, rfl⟩, found⟩
        · rintro ⟨y, ⟨_, _, split, -, rfl⟩, found⟩
          cases split
          exact found
      · refine iff_of_false (fun found => found rfl) ?_
        rintro ⟨y, ⟨_, _, split, also, -⟩, -⟩
        cases split
        exact inside also
  | boundary | start | stop =>
    rw [run]
    split_ifs <;> simp_all [Matches]
  | seq a b first second =>
    rw [run, first]
    simp only [second, Matches]
    constructor
    · rintro ⟨z, left, y, right, found⟩
      exact ⟨y, ⟨z, left, right⟩, found⟩
    · rintro ⟨y, ⟨z, left, right⟩, found⟩
      exact ⟨z, left, y, right, found⟩
  | alt a b first second =>
    rw [run, or_ne_none_iff, first, second]
    simp only [Matches, or_and_right, exists_or]
  | many greedy p =>
    rw [run, manyRun_iff]
    constructor
    · rintro ⟨units, left, split, all, found⟩
      exact ⟨_, ⟨units, left, split, all, rfl⟩, found⟩
    · rintro ⟨y, ⟨units, left, split, all, rfl⟩, found⟩
      exact ⟨units, left, split, all, found⟩
  | repeated min max a ih =>
    have rounds (k : Input → Option γ) (x : Input) :
        a.run k x ≠ none ↔ ∃ y, a.Matches x y ∧ k y ≠ none := ih
    exact repeatRun_iff rounds

def RegExp.test (regex : RegExp) (text : JsString) : Bool := (regex.exec text 0).1.isSome

/-- Without flags a pattern is found where it matches from any place on. -/
theorem Regex.test_iff (pattern : Regex) (source text : JsString) :
    (pattern.toRegExp source false false).test text = true ↔
      ∃ before rest y, text = before ++ rest ∧ pattern.Matches ⟨before.reverse, rest⟩ y := by
  have searched : (pattern.toRegExp source false false).test text = true ↔
      ∃ start, (pattern.toRegExp source false false).matchAt text start ≠ none := by
    rw [RegExp.test, Option.isSome_iff_exists]
    constructor
    · rintro ⟨⟨start, stop⟩, found⟩
      have matched := (RegExp.findMatch_some found).2
      exact ⟨start, by rw [matched]; exact Option.some_ne_none stop⟩
    · intro matches_
      classical
      have least := Nat.isLeast_find matches_
      obtain ⟨stop, matched⟩ := Option.ne_none_iff_exists'.mp least.1
      refine ⟨(_, stop), (RegExp.findMatch_iff rfl rfl (by omega)).mpr ⟨?_, matched⟩⟩
      exact ⟨⟨Nat.zero_le _, least.1⟩, fun start member => least.2 member.2⟩
  rw [searched]
  constructor
  · rintro ⟨start, matched⟩
    rw [toRegExp_matchAt] at matched
    split_ifs at matched with within
    · obtain ⟨y, matches_, -⟩ := pattern.run_iff.mp matched
      exact ⟨text.take start, text.drop start, y, (List.take_append_drop start text).symm, matches_⟩
    · exact absurd rfl matched
  · rintro ⟨before, rest, y, rfl, matches_⟩
    refine ⟨before.length, ?_⟩
    have within : before.length ≤ (before ++ rest).length := by simp
    rw [toRegExp_matchAt, if_pos within, Input.at_, List.take_left, List.drop_left]
    exact pattern.run_iff.mpr ⟨y, matches_, Option.some_ne_none _⟩

/-! ### Sources -/

/-- The alternatives that are read, and the one after them. -/
structure Frame where
  before : Option Regex
  current : Regex

namespace Frame

def empty : Frame := ⟨none, .empty⟩

def close (frame : Frame) : Regex :=
  match frame.before with
  | none => frame.current
  | some before => .alt before frame.current

def add (frame : Frame) (term : Regex) : Frame := ⟨frame.before, .seq frame.current term⟩

def bar (frame : Frame) : Frame := ⟨some frame.close, .empty⟩

end Frame

def orUnit (p : CodeUnit → Bool) (unit : CodeUnit) : CodeUnit → Bool := fun u => p u || u = unit

def orRange (p : CodeUnit → Bool) (first last : CodeUnit) : CodeUnit → Bool :=
  fun u => p u || first ≤ u && u ≤ last

/-- What the next unit belongs to. -/
inductive SourceMode where
  | term
  /-- After `(`, and after `(?` -/
  | opened | marked
  /-- In a class: its units so far, and the last one, where a range can start. -/
  | units (p : CodeUnit → Bool) (last : Option CodeUnit)
  /-- In a class after a dash. -/
  | dash (p : CodeUnit → Bool) (last : Option CodeUnit)

/-- The groups that are open, and what is read in the innermost one. -/
structure SourceState where
  mode : SourceMode
  groups : List Frame
  frame : Frame

/-- One unit of a source; other syntax gives `none`. -/
def readUnit : SourceState → CodeUnit → Option SourceState
  | ⟨.term, groups, frame⟩, unit =>
    if unit = 0x5E then some ⟨.term, groups, frame.add .start⟩
    else if unit = 0x24 then some ⟨.term, groups, frame.add .stop⟩
    else if unit = 0x7C then some ⟨.term, groups, frame.bar⟩
    else if unit = 0x5B then some ⟨.units (fun _ => false) none, groups, frame⟩
    else if unit = 0x28 then some ⟨.opened, groups, frame⟩
    else if unit = 0x29 then
      match groups with
      | outer :: groups => some ⟨.term, groups, outer.add frame.close⟩
      | [] => none
    else if isWordUnit unit then some ⟨.term, groups, frame.add (.char (· = unit))⟩
    else none
  | ⟨.opened, groups, frame⟩, unit => if unit = 0x3F then some ⟨.marked, groups, frame⟩ else none
  | ⟨.marked, groups, frame⟩, unit =>
    if unit = 0x3A then some ⟨.term, frame :: groups, .empty⟩ else none
  | ⟨.units p last, groups, frame⟩, unit =>
    if unit = 0x5D then some ⟨.term, groups, frame.add (.char p)⟩
    else if unit = 0x2D then some ⟨.dash p last, groups, frame⟩
    else if isWordUnit unit then some ⟨.units (orUnit p unit) (some unit), groups, frame⟩
    else none
  | ⟨.dash p last, groups, frame⟩, unit =>
    -- At the end of a class the dash stands for itself.
    if unit = 0x5D then some ⟨.term, groups, frame.add (.char (orUnit p 0x2D))⟩
    else
      match last with
      | some first =>
        if isWordUnit unit && first ≤ unit then
          some ⟨.units (orRange p first unit) none, groups, frame⟩
        else none
      | none => none

/-- `new RegExp(source)` -/
def parsePattern (source : JsString) : Option Regex :=
  match source.foldlM readUnit ⟨.term, [], .empty⟩ with
  | some ⟨.term, [], frame⟩ => some frame.close
  | _ => none

/-! ### Reading a source -/

/-- A pattern and then single units. -/
def followedBy (pattern : Regex) (classes : List (CodeUnit → Bool)) : Regex :=
  classes.foldl (fun pattern p => .seq pattern (.char p)) pattern

theorem word_ne {unit sign : CodeUnit} (word : isWordUnit unit = true)
    (other : isWordUnit sign = false) : unit ≠ sign := by
  rintro rfl
  cases word.symm.trans other

section Read

variable (groups : List Frame) (before : Option Regex) (pattern : Regex)

theorem readUnit_word {unit : CodeUnit} (word : isWordUnit unit = true) :
    readUnit ⟨.term, groups, ⟨before, pattern⟩⟩ unit =
      some ⟨.term, groups, ⟨before, .seq pattern (.char (· = unit))⟩⟩ := by
  have ne (sign : CodeUnit) (other : isWordUnit sign = false) : unit ≠ sign := word_ne word other
  simp only [readUnit, ne 0x5E rfl, ne 0x24 rfl, ne 0x7C rfl, ne 0x5B rfl, ne 0x28 rfl, ne 0x29 rfl,
    word, if_false, if_true]
  rfl

theorem readUnits_word {units : JsString} (words : ∀ unit ∈ units, isWordUnit unit = true) :
    units.foldlM readUnit ⟨.term, groups, ⟨before, pattern⟩⟩ = some ⟨.term, groups,
      ⟨before, followedBy pattern (units.map fun unit u => decide (u = unit))⟩⟩ := by
  induction units generalizing pattern with
  | nil => rfl
  | cons unit units ih =>
    obtain ⟨word, words⟩ := List.forall_mem_cons.mp words
    rw [List.foldlM_cons, readUnit_word groups before pattern word]
    exact ih _ words

theorem readUnit_class {unit : CodeUnit} (word : isWordUnit unit = true) (p : CodeUnit → Bool)
    (last : Option CodeUnit) (frame : Frame) : readUnit ⟨.units p last, groups, frame⟩ unit =
      some ⟨.units (orUnit p unit) (some unit), groups, frame⟩ := by
  have close : unit ≠ 0x5D := word_ne word rfl
  have dash : unit ≠ 0x2D := word_ne word rfl
  rw [readUnit, if_neg close, if_neg dash, if_pos word]

/-- `[ab]` -/
theorem readUnits_pair {a b : CodeUnit} (first : isWordUnit a = true)
    (second : isWordUnit b = true) :
    [0x5B, a, b, 0x5D].foldlM readUnit ⟨.term, groups, ⟨before, pattern⟩⟩ = some ⟨.term, groups,
      ⟨before, .seq pattern (.char (orUnit (orUnit (fun _ => false) a) b))⟩⟩ := by
  have opens : readUnit ⟨.term, groups, ⟨before, pattern⟩⟩ 0x5B =
      some ⟨.units (fun _ => false) none, groups, ⟨before, pattern⟩⟩ := rfl
  simp only [List.foldlM_cons, opens, readUnit_class groups first, readUnit_class groups second,
    Option.bind_eq_bind, Option.bind_some]
  rfl

end Read

theorem followedBy_matches {pattern : Regex} {classes : List (CodeUnit → Bool)} {x y : Input} :
    (followedBy pattern classes).Matches x y ↔ ∃ z units rest, pattern.Matches x z ∧
      z.rest = units ++ rest ∧ List.Forall₂ (fun p unit => p unit = true) classes units ∧
      y = ⟨units.reverse ++ z.before, rest⟩ := by
  induction classes generalizing pattern with
  | nil =>
    constructor
    · exact fun matched => ⟨y, [], y.rest, matched, rfl, .nil, rfl⟩
    · rintro ⟨z, units, rest, matched, split, ⟨⟩, rfl⟩
      obtain rfl : z.rest = rest := split
      exact matched
  | cons p classes ih =>
    rw [followedBy, List.foldl_cons, ← followedBy, ih]
    constructor
    · rintro ⟨_, units, rest, ⟨z, matched, unit, after, next, inside, rfl⟩, split, each, rfl⟩
      refine ⟨z, unit :: units, rest, matched, ?_, .cons inside each, ?_⟩
      · rw [next, List.cons_append]
        exact congrArg _ split
      · simp
    · rintro ⟨z, _, rest, matched, split, _ | ⟨inside, each⟩, rfl⟩
      refine ⟨_, _, rest, ⟨z, matched, _, _, split, inside, rfl⟩, rfl, each, ?_⟩
      simp

end NeuralMesh.Js
