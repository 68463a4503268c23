import Mathlib.Order.Bounds.Basic
import NeuralMesh.Js.StringText

/-! Regular expressions with anchors and counted repetition, run with a continuation as ECMAScript
defines it, and `exec`, which starts at `lastIndex` under the flags `g` and `y`. -/
namespace NeuralMesh.Js

/-! ### Patterns -/

/-- A place in a text: what is before it, the last unit first, and the rest. -/
structure Input where
  before : JsString
  rest : JsString

namespace Input

def index (x : Input) : Nat := x.before.length

def at_ (text : JsString) (index : Nat) : Input := ⟨(text.take index).reverse, text.drop index⟩

/-- The second place is the first one or later in the same text. -/
def Reads (x y : Input) : Prop :=
  ∃ read, x.rest = read ++ y.rest ∧ y.before = read.reverse ++ x.before

theorem Reads.refl (x : Input) : Reads x x := ⟨[], rfl, rfl⟩

theorem Reads.trans {x y z : Input} (first : Reads x y) (second : Reads y z) : Reads x z := by
  obtain ⟨read, rest, before⟩ := first
  obtain ⟨read', rest', before'⟩ := second
  refine ⟨read ++ read', ?_, ?_⟩
  · rw [rest, rest', List.append_assoc]
  · rw [before', before, List.reverse_append, List.append_assoc]

theorem reads_cons (unit : CodeUnit) (before rest : JsString) :
    Reads ⟨before, unit :: rest⟩ ⟨unit :: before, rest⟩ := ⟨[unit], rfl, rfl⟩

theorem Reads.index_le {x y : Input} (reads : Reads x y) : x.index ≤ y.index := by
  obtain ⟨read, _, before⟩ := reads
  rw [index, index, before, List.length_append]
  omega

theorem Reads.length {x y : Input} (reads : Reads x y) :
    y.index + y.rest.length = x.index + x.rest.length := by
  obtain ⟨read, rest, before⟩ := reads
  rw [index, index, before, rest, List.length_append, List.length_append, List.length_reverse]
  omega

theorem index_at {text : JsString} {index : Nat} (within : index ≤ text.length) :
    (at_ text index).index = index := by
  rw [at_, Input.index, List.length_reverse, List.length_take, Nat.min_eq_left within]

end Input

inductive Regex where
  | empty
  | char (p : CodeUnit → Bool)
  /-- `\b` -/
  | boundary
  /-- `^` -/
  | start
  /-- `$` -/
  | stop
  | seq (a b : Regex)
  | alt (a b : Regex)
  /-- Any number of units of a class, as many as possible if greedy. -/
  | many (greedy : Bool) (p : CodeUnit → Bool)
  /-- `a{min,max}`, greedy -/
  | repeated (min max : Nat) (a : Regex)

/-- `\w` without the `u` flag -/
def isWordUnit (unit : CodeUnit) : Bool :=
  48 ≤ unit && unit ≤ 57 || 65 ≤ unit && unit ≤ 90 || unit = 95 || 97 ≤ unit && unit ≤ 122

def Input.isBoundary (x : Input) : Bool :=
  (x.before.head?.any isWordUnit) != (x.rest.head?.any isWordUnit)

variable {γ : Type}

def manyRun (greedy : Bool) (p : CodeUnit → Bool) (k : Input → Option γ) :
    (before rest : JsString) → Option γ
  | before, [] => k ⟨before, []⟩
  | before, unit :: rest =>
    if p unit then
      if greedy then (manyRun greedy p k (unit :: before) rest).or (k ⟨before, unit :: rest⟩)
      else (k ⟨before, unit :: rest⟩).or (manyRun greedy p k (unit :: before) rest)
    else k ⟨before, unit :: rest⟩

/-- After the required rounds, a round that reads nothing fails. -/
def repeatRun (body : (Input → Option γ) → Input → Option γ) :
    (max min : Nat) → (Input → Option γ) → Input → Option γ
  | 0, _, k, x => k x
  | max + 1, 0, k, x =>
    (body (fun y => if y.index = x.index then none else repeatRun body max 0 k y) x).or (k x)
  | max + 1, min + 1, k, x => body (repeatRun body max min k) x

def Regex.run : Regex → (Input → Option γ) → Input → Option γ
  | .empty, k, x => k x
  | .char _, _, ⟨_, []⟩ => none
  | .char p, k, ⟨before, unit :: rest⟩ => if p unit then k ⟨unit :: before, rest⟩ else none
  | .boundary, k, x => if x.isBoundary then k x else none
  | .start, k, x => if x.before = [] then k x else none
  | .stop, k, x => if x.rest = [] then k x else none
  | .seq a b, k, x => a.run (b.run k) x
  | .alt a b, k, x => (a.run k x).or (b.run k x)
  | .many greedy p, k, x => manyRun greedy p k x.before x.rest
  | .repeated min max a, k, x => repeatRun a.run max min k x

theorem manyRun_sound {greedy : Bool} {p : CodeUnit → Bool} {k : Input → Option γ}
    {before rest : JsString} {r : γ} (found : manyRun greedy p k before rest = some r) :
    ∃ y, Input.Reads ⟨before, rest⟩ y ∧ k y = some r := by
  induction rest generalizing before with
  | nil => exact ⟨_, .refl _, found⟩
  | cons unit rest ih =>
    have later (found : manyRun greedy p k (unit :: before) rest = some r) :
        ∃ y, Input.Reads ⟨before, unit :: rest⟩ y ∧ k y = some r := by
      obtain ⟨y, reads, result⟩ := ih found
      exact ⟨y, (Input.reads_cons unit before rest).trans reads, result⟩
    rw [manyRun] at found
    split_ifs at found
    · rcases Option.or_eq_some_iff.mp found with found | ⟨_, found⟩
      · exact later found
      · exact ⟨_, .refl _, found⟩
    · rcases Option.or_eq_some_iff.mp found with found | ⟨_, found⟩
      · exact ⟨_, .refl _, found⟩
      · exact later found
    · exact ⟨_, .refl _, found⟩

/-- Only what the continuation does from here on matters. -/
theorem manyRun_congr {greedy : Bool} {p : CodeUnit → Bool} {k k' : Input → Option γ}
    {before rest : JsString} (same : ∀ y, Input.Reads ⟨before, rest⟩ y → k y = k' y) :
    manyRun greedy p k before rest = manyRun greedy p k' before rest := by
  induction rest generalizing before with
  | nil => exact same _ (.refl _)
  | cons unit rest ih =>
    have later := ih fun y reads => same y ((Input.reads_cons unit before rest).trans reads)
    rw [manyRun, manyRun, later, same _ (.refl _)]

theorem repeatRun_sound {body : (Input → Option γ) → Input → Option γ}
    (sound : ∀ (k : Input → Option γ) (x : Input) (r : γ), body k x = some r →
      ∃ y, x.Reads y ∧ k y = some r) (max min : Nat) {k : Input → Option γ} {x : Input} {r : γ}
    (found : repeatRun body max min k x = some r) : ∃ y, x.Reads y ∧ k y = some r := by
  induction max generalizing min x with
  | zero => exact ⟨x, .refl x, found⟩
  | succ max ih =>
    cases min with
    | zero =>
      rw [repeatRun] at found
      rcases Option.or_eq_some_iff.mp found with found | ⟨_, found⟩
      · obtain ⟨y, reads, found⟩ := sound _ x r found
        split_ifs at found
        obtain ⟨z, more, result⟩ := ih 0 found
        exact ⟨z, reads.trans more, result⟩
      · exact ⟨x, .refl x, found⟩
    | succ min =>
      obtain ⟨y, reads, found⟩ := sound _ x r found
      obtain ⟨z, more, result⟩ := ih min found
      exact ⟨z, reads.trans more, result⟩

/-- A result is that of the continuation, here or later in the text. -/
theorem Regex.run_sound (a : Regex) {k : Input → Option γ} {x : Input} {r : γ}
    (found : a.run k x = some r) : ∃ y, x.Reads y ∧ k y = some r := by
  induction a generalizing k x r with
  | empty => exact ⟨x, .refl x, found⟩
  | char p =>
    obtain ⟨before, rest⟩ := x
    cases rest with
    | nil => cases found
    | cons unit rest =>
      rw [run] at found
      split_ifs at found
      exact ⟨_, Input.reads_cons unit before rest, found⟩
  | boundary | start | stop =>
    rw [run] at found
    split_ifs at found
    exact ⟨x, .refl x, found⟩
  | seq a b first second =>
    obtain ⟨y, reads, found⟩ := first found
    obtain ⟨z, more, result⟩ := second found
    exact ⟨z, reads.trans more, result⟩
  | alt a b first second =>
    rcases Option.or_eq_some_iff.mp found with found | ⟨_, found⟩
    · exact first found
    · exact second found
  | many greedy p => exact manyRun_sound found
  | repeated min max a ih => exact repeatRun_sound (fun _ _ _ found => ih found) max min found

/-! ### `exec` -/

/-- A regular expression object without its `lastIndex`; a match is a start and an end. -/
structure RegExp where
  source : JsString
  global : Bool
  sticky : Bool
  unicode : Bool
  /-- The end of a match that starts at the index. -/
  matchAt : JsString → Nat → Option Nat
  bounds : ∀ text index stop, matchAt text index = some stop → index ≤ stop ∧ stop ≤ text.length

/-- Under the `u` flag a surrogate pair is one step. -/
def advanceStringIndex (text : JsString) (index : Nat) (unicode : Bool) : Nat :=
  if unicode && (text[index]?.any isHigh && text[index + 1]?.any isLow) then index + 2
  else index + 1

theorem index_lt_advance (text : JsString) (index : Nat) (unicode : Bool) :
    index < advanceStringIndex text index unicode := by
  rw [advanceStringIndex]
  split_ifs <;> omega

namespace RegExp

variable (regex : RegExp)

/-- The first match from an index on, in so many steps; a sticky one looks at the index only. -/
def findMatch (text : JsString) : Nat → Nat → Option (Nat × Nat)
  | 0, _ => none
  | steps + 1, index =>
    if text.length < index then none
    else
      match regex.matchAt text index with
      | some stop => some (index, stop)
      | none =>
        if regex.sticky then none
        else findMatch text steps (advanceStringIndex text index regex.unicode)

def keepsIndex : Bool := regex.global || regex.sticky

/-- The match and the new `lastIndex`. There are no more starts than indices. -/
def exec (text : JsString) (lastIndex : Nat) : Option (Nat × Nat) × Nat :=
  let found := regex.findMatch text (text.length + 1) (if regex.keepsIndex then lastIndex else 0)
  (found, if regex.keepsIndex then (found.map Prod.snd).getD 0 else lastIndex)

variable {regex}

theorem findMatch_some {text : JsString} {steps index start stop : Nat}
    (found : regex.findMatch text steps index = some (start, stop)) :
    index ≤ start ∧ regex.matchAt text start = some stop := by
  induction steps generalizing index with
  | zero => cases found
  | succ steps ih =>
    rw [findMatch] at found
    split at found
    · cases found
    split at found
    · next matched =>
      cases found
      exact ⟨le_rfl, matched⟩
    · split at found
      · cases found
      have later := ih found
      exact ⟨(index_lt_advance text index regex.unicode).le.trans later.1, later.2⟩

theorem matchAt_outside {text : JsString} {start : Nat} (outside : text.length < start) :
    regex.matchAt text start = none := by
  cases matched : regex.matchAt text start with
  | none => rfl
  | some stop =>
    have within := regex.bounds text start stop matched
    omega

/-- A search that moves unit by unit finds the leftmost match. -/
theorem findMatch_iff (walks : regex.sticky = false) (units : regex.unicode = false)
    {text : JsString} {steps index : Nat} (enough : text.length < index + steps)
    {start stop : Nat} : regex.findMatch text steps index = some (start, stop) ↔
      IsLeast {s | index ≤ s ∧ regex.matchAt text s ≠ none} start ∧
        regex.matchAt text start = some stop := by
  induction steps generalizing index with
  | zero =>
    rw [findMatch]
    refine iff_of_false nofun ?_
    rintro ⟨⟨⟨later, _⟩, _⟩, matched⟩
    cases (matchAt_outside (by omega)).symm.trans matched
  | succ steps ih =>
    rw [findMatch]
    split
    · next outside =>
      refine iff_of_false nofun ?_
      rintro ⟨⟨⟨later, _⟩, _⟩, matched⟩
      cases (matchAt_outside (by omega)).symm.trans matched
    cases here : regex.matchAt text index with
    | some found =>
      simp only [Option.some.injEq, Prod.mk.injEq]
      constructor
      · rintro ⟨rfl, rfl⟩
        refine ⟨⟨⟨le_rfl, ?_⟩, fun s member => member.1⟩, here⟩
        rw [here]
        exact Option.some_ne_none found
      · rintro ⟨⟨⟨later, _⟩, least⟩, matched⟩
        have first : start ≤ index := least ⟨le_rfl, by rw [here]; exact Option.some_ne_none found⟩
        obtain rfl := Nat.le_antisymm later first
        rw [here, Option.some.injEq] at matched
        exact ⟨rfl, matched⟩
    | none =>
      have moved : advanceStringIndex text index regex.unicode = index + 1 := by
        simp only [advanceStringIndex, units, Bool.false_and, Bool.false_eq_true, if_false]
      have starts : {s | index ≤ s ∧ regex.matchAt text s ≠ none} =
          {s | index + 1 ≤ s ∧ regex.matchAt text s ≠ none} := by
        ext s
        refine and_congr_left fun matched => ⟨fun later => ?_, Nat.le_of_succ_le⟩
        refine Nat.lt_of_le_of_ne later ?_
        rintro rfl
        exact matched here
      simp only [walks, Bool.false_eq_true, if_false, moved, starts]
      exact ih (by omega)

theorem exec_matched {text : JsString} {lastIndex start stop next : Nat}
    (found : regex.exec text lastIndex = (some (start, stop), next)) :
    regex.matchAt text start = some stop := by
  simp only [exec, Prod.mk.injEq] at found
  exact (findMatch_some found.1).2

theorem exec_bounds {text : JsString} {lastIndex start stop next : Nat}
    (keeps : regex.keepsIndex = true)
    (found : regex.exec text lastIndex = (some (start, stop), next)) :
    lastIndex ≤ start ∧ start ≤ stop ∧ stop ≤ text.length ∧ next = stop := by
  simp only [exec, keeps, if_true, Prod.mk.injEq] at found
  obtain ⟨later, matched⟩ := findMatch_some found.1
  obtain ⟨order, within⟩ := regex.bounds text start stop matched
  rw [found.1] at found
  exact ⟨later, order, within, found.2.symm⟩

theorem exec_at {text : JsString} {index stop : Nat} (keeps : regex.keepsIndex = true)
    (within : index ≤ text.length) (matched : regex.matchAt text index = some stop) :
    regex.exec text index = (some (index, stop), stop) := by
  have first : regex.findMatch text (text.length + 1) index = some (index, stop) := by
    rw [findMatch, if_neg (Nat.not_lt.mpr within), matched]
  simp only [exec, keeps, if_true, first, Option.map_some, Option.getD_some]

/-- After an empty match the search stays where it is. -/
theorem exec_again {text : JsString} {lastIndex index next : Nat} (keeps : regex.keepsIndex = true)
    (found : regex.exec text lastIndex = (some (index, index), next)) :
    regex.exec text next = (some (index, index), next) := by
  obtain ⟨_, _, within, rfl⟩ := exec_bounds keeps found
  exact exec_at keeps within (exec_matched found)

end RegExp

/-- The object of a pattern. -/
def Regex.toRegExp (pattern : Regex) (source : JsString) (global sticky : Bool) : RegExp where
  source := source
  global := global
  sticky := sticky
  unicode := false
  matchAt text index :=
    if index ≤ text.length then pattern.run (fun y => some y.index) (Input.at_ text index) else none
  bounds text index stop matched := by
    split_ifs at matched with within
    obtain ⟨y, reads, same⟩ := pattern.run_sound matched
    cases same
    have total := reads.length
    have left : (Input.at_ text index).rest.length = text.length - index := List.length_drop
    rw [Input.index_at within] at total
    exact ⟨(Input.index_at within).symm.le.trans reads.index_le, by omega⟩

theorem Regex.toRegExp_matchAt (pattern : Regex) (source : JsString) (global sticky : Bool)
    (text : JsString) (index : Nat) : (pattern.toRegExp source global sticky).matchAt text index =
      if index ≤ text.length then pattern.run (fun y => some y.index) (Input.at_ text index)
      else none := rfl

end NeuralMesh.Js
