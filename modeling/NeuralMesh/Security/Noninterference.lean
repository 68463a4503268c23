import NeuralMesh.Security.ChargedFields
import NeuralMesh.Security.TaintMonotone

/-! Runs of an accepted program on two datasets that differ in forbidden fields. The results are
the same where the analyzer follows every flow: no test, index or thrown value is tainted, nothing
is read through an alias, and the tainted names are closed. -/
namespace NeuralMesh.Security

open Js

variable {D : Type}

/-- The tree that `analyze` looks at. -/
def analysisTree (body : List (Statement D)) : Node :=
  programTree (js "liop_analysis_wrapper") body

/-! ### Closed sets of names -/

variable {piiFields : JsString → Bool} {bound : Names}

/-- A set that a walk leaves as it is has the names that each node taints. -/
theorem newlyTainted_of_fixed {nodes : List Node} {taintedVars : Names}
    (fixed : taintPass piiFields bound nodes taintedVars = taintedVars) {node : Node}
    (member : node ∈ nodes) {name : JsString}
    (new : name ∈ newlyTainted piiFields bound taintedVars node) : name ∈ taintedVars := by
  have kept := Saturation.step_fixed newlyTainted_extends fixed node member
  rw [← kept, mem_foldl_setAdd]
  exact .inr new

/-! ### The core statements and their guards -/

/-- No calls. -/
def Expression.isCore : Expression D → Bool
  | .string _ | .literal _ | .identifier _ => true
  | .member object _ => object.isCore
  | .index object property => object.isCore && property.isCore
  | .binary _ left right | .logical _ left right => left.isCore && right.isCore
  | .unary _ argument => argument.isCore
  | .conditional test consequent alternate =>
    test.isCore && consequent.isCore && alternate.isCore
  | .call _ _ _ _ | .reduce _ _ _ _ | .reduceFrom _ _ _ _ _ => false

def Target.isCore : Target → Bool
  | .identifier _ => true
  | .object _ _ => false

mutual

/-- No calls and no patterns. -/
def Statement.isCore : Statement D → Bool
  | .declare _ target init => target.isCore && init.all Expression.isCore
  | .assign _ value | .update _ _ value => value.isCore
  | .evaluate expression => expression.isCore
  | .ifThen test consequent => test.isCore && consequent.isCore
  | .ifElse test consequent alternate => test.isCore && consequent.isCore && alternate.isCore
  | .forOf _ target right body => target.isCore && right.isCore && body.isCore
  | .throwing argument => argument.isCore
  | .returning argument => argument.all Expression.isCore
  | .block body => allCore body

def allCore : List (Statement D) → Bool
  | [] => true
  | statement :: statements => statement.isCore && allCore statements

end

/-- The operations that never throw on the data at hand. -/
structure QuietOperations where
  binary : BinaryOperator → Bool
  unary : UnaryOperator → Bool
  reads : Bool

structure QuietOperations.Sound (quiet : QuietOperations) (language : Language D) : Prop where
  binary : ∀ operator, quiet.binary operator = true → ∀ v w, ∃ d,
    language.binary operator v w = .ok d
  minus : quiet.unary .minus = true → ∀ v, ∃ d, language.minus v = .ok d
  plus : quiet.unary .plus = true → ∀ v, ∃ d, language.plus v = .ok d
  reads : quiet.reads = true → ∀ d key, ∃ e, language.property d key = .ok e

def Expression.isLiteral : Expression D → Bool
  | .string _ | .literal _ => true
  | _ => false

section Guards

variable (quiet : QuietOperations) (piiFields : JsString → Bool) (bound taintedVars : Names)

def tainted (e : Expression D) : Bool := isExpressionTainted piiFields e.node bound taintedVars

/-- No test and no index is tainted, and what is tainted goes through quiet operations only. -/
def guarded : Expression D → Bool
  | .member object _ =>
    guarded object && (quiet.reads || !tainted piiFields bound taintedVars object)
  | .index object property =>
    guarded object && guarded property && !tainted piiFields bound taintedVars property &&
      (quiet.reads || !tainted piiFields bound taintedVars object)
  | .binary operator left right =>
    guarded left && guarded right && (operator.isStrict || quiet.binary operator ||
      !tainted piiFields bound taintedVars left && !tainted piiFields bound taintedVars right)
  | .logical _ left right =>
    guarded left && guarded right && !tainted piiFields bound taintedVars left
  | .unary operator argument =>
    guarded argument && (operator = .not || quiet.unary operator ||
      !tainted piiFields bound taintedVars argument)
  | .conditional test consequent alternate =>
    guarded test && guarded consequent && guarded alternate &&
      (consequent.isLiteral && alternate.isLiteral || !tainted piiFields bound taintedVars test)
  | _ => true

mutual

def guardedStatement : Statement D → Bool
  | .declare _ _ init => init.all (guarded quiet piiFields bound taintedVars)
  | .assign _ value => guarded quiet piiFields bound taintedVars value
  | .update name operator value =>
    guarded quiet piiFields bound taintedVars value && (operator.isStrict || quiet.binary operator ||
      name ∉ taintedVars && !tainted piiFields bound taintedVars value)
  | .evaluate expression => guarded quiet piiFields bound taintedVars expression
  | .ifThen test consequent =>
    guarded quiet piiFields bound taintedVars test && !tainted piiFields bound taintedVars test &&
      guardedStatement consequent
  | .ifElse test consequent alternate =>
    guarded quiet piiFields bound taintedVars test && !tainted piiFields bound taintedVars test &&
      guardedStatement consequent && guardedStatement alternate
  | .forOf _ _ right body =>
    guarded quiet piiFields bound taintedVars right &&
      !tainted piiFields bound taintedVars right && guardedStatement body
  | .throwing argument =>
    guarded quiet piiFields bound taintedVars argument &&
      !tainted piiFields bound taintedVars argument
  | .returning argument => argument.all (guarded quiet piiFields bound taintedVars)
  | .block body => allGuarded body

def allGuarded : List (Statement D) → Bool
  | [] => true
  | statement :: statements => guardedStatement statement && allGuarded statements

end

end Guards

/-! ### Two datasets -/

/-- The same number of records, which differ in forbidden fields only. -/
def LowEqual (piiFields : JsString → Bool) : List (JsString → D) → List (JsString → D) → Prop :=
  List.Forall₂ fun record record' => ∀ key, piiFields key = false → record key = record' key

namespace Context

open Traced

/-- The same language and inputs with another dataset. -/
abbrev withRecords (c : Context D) (records : List (JsString → D)) : Context D :=
  { c with records := records }

variable {c : Context D} {records : List (JsString → D)}

theorem allRecords_withRecords (same : LowEqual piiFields c.records records) :
    (c.withRecords records).allRecords = c.allRecords := by
  rw [allRecords, allRecords, same.length_eq]

theorem readField_withRecords (same : LowEqual piiFields c.records records) (place : Nat)
    {key : JsString} (isPublic : piiFields key = false) :
    c.readField place key = (c.withRecords records).readField place key := by
  have fields {rs rs' : List (JsString → D)} (same : LowEqual piiFields rs rs') (place : Nat) :
      (rs[place]?).elim c.undefined (fun record => record key) =
        (rs'[place]?).elim c.undefined fun record => record key := by
    induction same generalizing place with
    | nil => rfl
    | cons first _ ih =>
      cases place with
      | zero => exact first key isPublic
      | succ place => exact ih place
  exact fields same place

/-- A recognised read of a forbidden field is seen. -/
theorem recognised_public {object property : Node} {computed : Bool} {key : JsString}
    (seen : recognised bound object = true) (name : getPropertyName property computed = some key)
    (nonempty : key ≠ [])
    (low : readsForbidden piiFields object property computed bound = false) :
    piiFields key = false := by
  have present : propertyName property computed = some key := by
    rw [propertyName, name, Option.filter_some, if_pos (by simpa using nonempty)]
  cases object with
  | identifier variable' =>
    rw [recognised] at seen
    rw [readsForbidden, seen, Bool.true_and, present, Option.any_some, Bool.or_eq_false_iff] at low
    exact low.1
  | memberExpression inner index computed =>
    cases computed with
    | false => cases seen
    | true =>
      rw [recognised] at seen
      rw [readsForbidden, seen, Bool.and_true, present, Option.any_some] at low
      exact low
  | _ => cases seen

/-- A read of one member in both runs: the values are the same where the field is public. -/
theorem readProperty_agrees (same : LowEqual piiFields c.records records) {v : Value D}
    {s t : Shape} {isRecognised : Bool} {name : Option JsString} {key : JsString}
    (has : HasShape v s) (shape : memberShape isRecognised s name = some t)
    (named : ∀ k ∈ name, k = key) {low : Prop}
    (isPublic : low → isRecognised = true → name = some key → key ≠ [] → piiFields key = false) :
    Agrees (fun a b => low → a = b) (c.readProperty v key)
      ((c.withRecords records).readProperty v key) := by
  cases v with
  | data d => exact Agrees.refl (fun _ _ => rfl) _
  | array elements =>
    rw [readProperty, readProperty]
    cases arrayIndex key with
    | none => exact Agrees.pure fun _ => rfl
    | some i => exact Agrees.pure fun _ => rfl
  | env =>
    rw [readProperty, readProperty, allRecords_withRecords same]
    exact Agrees.pure fun _ => rfl
  | record place =>
    rw [readProperty, readProperty]
    refine .ok _ _ rfl rfl fun isLow => ?_
    have isRecord : s = .record := by
      cases s with
      | record => rfl
      | data => cases has
      | records =>
        rcases has with data | ⟨_, impossible, _⟩
        · cases data
        · cases impossible
      | env =>
        rcases has with data | impossible
        · cases data
        · cases impossible
    subst isRecord
    cases name with
    | none => cases shape
    | some k =>
      obtain rfl := named k rfl
      rw [memberShape] at shape
      split_ifs at shape with seen
      rw [readField_withRecords same place (isPublic isLow seen.1 rfl seen.2.1)]

theorem readProperty_ok (reads : ∀ d key, ∃ e, c.property d key = .ok e) (v : Value D)
    (key : JsString) : ∃ w, (c.readProperty v key).result = .ok w := by
  cases v with
  | data d =>
    obtain ⟨e, read⟩ := reads d key
    rw [readProperty, ofData, read]
    exact ⟨_, rfl⟩
  | env => exact ⟨_, rfl⟩
  | record place => exact ⟨_, rfl⟩
  | array elements =>
    rw [readProperty]
    cases arrayIndex key with
    | none => exact ⟨_, rfl⟩
    | some i => exact ⟨_, rfl⟩

/-! ### Expressions -/

variable {shapes : JsString → Shape} {quiet : QuietOperations} {taintedVars : Names}
  {scopes scopes' : Scopes (Value D)}

theorem eval_shape {e : Expression D} {s : Shape} {v : Value D} (typed : Typed shapes scopes)
    (shape : shapeOf shapes bound e = some s) (ran : (c.eval e scopes).result = .ok v) :
    HasShape v s := by
  have meets : Meets (fun _ => True) IsData (HasShape · s) (c.eval e scopes) :=
    eval_meets typed shape fun _ _ _ _ => trivial
  exact meets.result v ran

theorem lookup_agrees (agree : Scopes.Agree (· ∉ taintedVars) scopes scopes') (name : JsString) :
    Agrees (fun v w => name ∉ taintedVars → v = w) (c.lookup scopes name)
      ((c.withRecords records).lookup scopes' name) := by
  rw [lookup, lookup]
  rcases agree.lookup name with ⟨left, right⟩ | ⟨a, b, left, right, named, both⟩
  · rw [left, right]
    exact .error _ rfl rfl
  · rw [left, right]
    have declared := both.declared
    cases first : a.value with
    | none =>
      rw [first, Option.isSome_none, eq_comm, Option.isSome_eq_false_iff, Option.isNone_iff_eq_none]
        at declared
      simp only [first, declared]
      exact .error _ rfl rfl
    | some v =>
      rw [first, Option.isSome_some, eq_comm, Option.isSome_iff_exists] at declared
      obtain ⟨w, second⟩ := declared
      simp only [first, second]
      refine Agrees.pure fun low => ?_
      have equal := both.value (named ▸ low)
      rw [first, second, Option.some.injEq] at equal
      exact equal

theorem applyBinary_ok (sound : quiet.Sound c.toLanguage) {operator : BinaryOperator}
    (silent : operator.isStrict = true ∨ quiet.binary operator = true) (v w : Value D) :
    ∃ d, (c.applyBinary operator v w).result = .ok d := by
  have total (operator : BinaryOperator) (silent : quiet.binary operator = true) :
      ∃ d, (ofData (c.binary operator v w) : Evaluation D (Value D)).result = .ok d := by
    obtain ⟨d, applied⟩ := sound.binary operator silent v w
    rw [ofData, applied]
    exact ⟨_, rfl⟩
  cases operator with
  | strictEqual | strictNotEqual => exact ⟨_, rfl⟩
  | _ => exact total _ (silent.resolve_left (by decide))

theorem applyUnary_ok (sound : quiet.Sound c.toLanguage) {operator : UnaryOperator}
    (silent : operator = .not ∨ quiet.unary operator = true) (v : Value D) :
    ∃ d, (c.applyUnary operator v).result = .ok d := by
  cases operator with
  | not => exact ⟨_, rfl⟩
  | minus =>
    obtain ⟨d, applied⟩ := sound.minus (silent.resolve_left (by decide)) v
    rw [applyUnary, ofData, applied]
    exact ⟨_, rfl⟩
  | plus =>
    obtain ⟨d, applied⟩ := sound.plus (silent.resolve_left (by decide)) v
    rw [applyUnary, ofData, applied]
    exact ⟨_, rfl⟩

theorem literal_ok {e : Expression D} (literal : e.isLiteral = true) :
    ∃ v, (c.eval e scopes).result = .ok v := by
  cases e with
  | string value | literal value => exact ⟨_, rfl⟩
  | _ => cases literal

/-- Both runs evaluate an expression alike, and to the same value if it is not tainted. -/
theorem eval_agrees (same : LowEqual piiFields c.records records)
    (sound : quiet.Sound c.toLanguage)
    (agree : Scopes.Agree (· ∉ taintedVars) scopes scopes') (typed : Typed shapes scopes)
    {e : Expression D} {s : Shape} (shape : shapeOf shapes bound e = some s)
    (core : e.isCore = true) (guards : guarded quiet piiFields bound taintedVars e = true) :
    Agrees (fun v w => tainted piiFields bound taintedVars e = false → v = w)
      (c.eval e scopes) ((c.withRecords records).eval e scopes') := by
  induction e generalizing s with
  | string value => exact Agrees.pure fun _ => rfl
  | literal value => exact Agrees.pure fun _ => rfl
  | identifier name =>
    refine (lookup_agrees agree name).imp fun v w equal low => equal ?_
    exact of_decide_eq_false low
  | member object name ih =>
    simp only [shapeOf, Option.bind_eq_bind, Option.bind_eq_some_iff] at shape
    obtain ⟨t, objectShape, shape⟩ := shape
    rw [guarded, Bool.and_eq_true, Bool.or_eq_true, Bool.not_eq_true'] at guards
    have flows : tainted piiFields bound taintedVars (.member object name) =
        (readsForbidden piiFields object.node (.identifier name) false bound ||
          tainted piiFields bound taintedVars object) := by
      rw [tainted, Expression.node, isExpressionTainted, tainted]
    refine (ih objectShape core guards.1).bind fun v w ranLeft ranRight equal => ?_
    rw [flows]
    by_cases low : tainted piiFields bound taintedVars object = false
    · obtain rfl := equal low
      refine readProperty_agrees same (eval_shape typed objectShape ranLeft) shape
        (by rintro _ ⟨⟩; rfl) fun isLow seen _ nonempty => ?_
      exact recognised_public seen rfl nonempty (Bool.or_eq_false_iff.mp isLow).1
    · have reads := sound.reads (guards.2.resolve_right low)
      obtain ⟨a, left⟩ := readProperty_ok reads v name
      obtain ⟨b, right⟩ := readProperty_ok (c := c.withRecords records) reads w name
      exact .ok a b left right fun isLow => absurd (Bool.or_eq_false_iff.mp isLow).2 low
  | index object property ihObject ihProperty =>
    simp only [shapeOf, Option.bind_eq_bind, Option.bind_eq_some_iff, guard_some] at shape
    obtain ⟨_, propertyShape, t, objectShape, shape⟩ := shape
    rw [Expression.isCore, Bool.and_eq_true] at core
    rw [guarded, Bool.and_eq_true, Bool.and_eq_true, Bool.and_eq_true, Bool.or_eq_true,
      Bool.not_eq_true', Bool.not_eq_true'] at guards
    have flows : tainted piiFields bound taintedVars (.index object property) =
        (readsForbidden piiFields object.node property.node true bound ||
          tainted piiFields bound taintedVars object) := by
      rw [tainted, Expression.node, isExpressionTainted, tainted]
    refine (ihObject objectShape core.1 guards.1.1.1).bind fun v w ranLeft ranRight equal => ?_
    refine (ihProperty propertyShape core.2 guards.1.1.2).bind fun x y ranProperty _ equalKey => ?_
    obtain rfl := equalKey guards.1.2
    have keys : Agrees Eq (c.toKey x) ((c.withRecords records).toKey x) :=
      Agrees.refl (fun _ => rfl) (c.toKey x)
    refine keys.bind fun key key' converted _ sameKey => ?_
    obtain rfl := sameKey
    have spelled : ∀ k ∈ property.string?, k = key := by
      intro k text
      cases property with
      | string value =>
        cases text
        have meets : Meets (fun _ => True) IsData _ (c.toKey x) := toKey_meets x
        exact (meets.result key converted _ (Except.ok.inj ranProperty).symm).symm
      | _ => cases text
    rw [flows]
    by_cases low : tainted piiFields bound taintedVars object = false
    · obtain rfl := equal low
      refine readProperty_agrees same (eval_shape typed objectShape ranLeft) shape spelled
        fun isLow seen name nonempty => ?_
      refine recognised_public seen ?_ nonempty (Bool.or_eq_false_iff.mp isLow).1
      cases property with
      | string value =>
        cases name
        rfl
      | _ => cases name
    · have reads := sound.reads (guards.2.resolve_right low)
      obtain ⟨a, left⟩ := readProperty_ok reads v key
      obtain ⟨b, right⟩ := readProperty_ok (c := c.withRecords records) reads w key
      exact .ok a b left right fun isLow => absurd (Bool.or_eq_false_iff.mp isLow).2 low
  | binary operator left right ihLeft ihRight =>
    simp only [shapeOf, Option.bind_eq_bind, Option.bind_eq_some_iff, guard_some] at shape
    obtain ⟨t, leftShape, u, rightShape, _⟩ := shape
    rw [Expression.isCore, Bool.and_eq_true] at core
    simp only [guarded, Bool.and_eq_true, Bool.or_eq_true, Bool.not_eq_true'] at guards
    have flows : tainted piiFields bound taintedVars (.binary operator left right) =
        (tainted piiFields bound taintedVars left || tainted piiFields bound taintedVars right) := by
      rw [tainted, Expression.node, isExpressionTainted, tainted, tainted]
    refine (ihLeft leftShape core.1 guards.1.1).bind fun v w _ _ equalLeft => ?_
    refine (ihRight rightShape core.2 guards.1.2).bind fun v' w' _ _ equalRight => ?_
    rw [flows, Bool.or_eq_false_iff]
    by_cases low : tainted piiFields bound taintedVars left = false ∧
        tainted piiFields bound taintedVars right = false
    · obtain rfl := equalLeft low.1
      obtain rfl := equalRight low.2
      exact Agrees.refl (fun _ _ => rfl) (c.applyBinary operator v v')
    · have silent := guards.2.resolve_right low
      obtain ⟨a, first⟩ := applyBinary_ok sound silent v v'
      obtain ⟨b, second⟩ := applyBinary_ok (c := c.withRecords records) sound silent w w'
      exact .ok a b first second fun isLow => absurd isLow low
  | logical operator left right ihLeft ihRight =>
    simp only [shapeOf, Option.bind_eq_bind, Option.bind_eq_some_iff] at shape
    obtain ⟨t, leftShape, u, rightShape, _⟩ := shape
    rw [Expression.isCore, Bool.and_eq_true] at core
    rw [guarded, Bool.and_eq_true, Bool.and_eq_true, Bool.not_eq_true'] at guards
    have flows : tainted piiFields bound taintedVars (.logical operator left right) =
        (tainted piiFields bound taintedVars left || tainted piiFields bound taintedVars right) := by
      rw [tainted, Expression.node, isExpressionTainted, tainted, tainted]
    refine (ihLeft leftShape core.1 guards.1.1).bind fun v w _ _ equal => ?_
    obtain rfl := equal guards.2
    by_cases decided : c.decides operator v = true
    · rw [if_pos decided, if_pos (show (c.withRecords records).decides operator v = true from decided)]
      exact Agrees.pure fun _ => rfl
    · rw [if_neg decided, if_neg (show ¬ (c.withRecords records).decides operator v = true from decided),
        flows]
      exact (ihRight rightShape core.2 guards.1.2).imp fun _ _ equal isLow =>
        equal (Bool.or_eq_false_iff.mp isLow).2
  | unary operator argument ih =>
    simp only [shapeOf, Option.bind_eq_bind, Option.bind_eq_some_iff, guard_some] at shape
    obtain ⟨t, argumentShape, _⟩ := shape
    simp only [guarded, Bool.and_eq_true, Bool.or_eq_true, Bool.not_eq_true',
      decide_eq_true_eq] at guards
    have flows : tainted piiFields bound taintedVars (.unary operator argument) =
        tainted piiFields bound taintedVars argument := by
      rw [tainted, Expression.node, isExpressionTainted, tainted]
    refine (ih argumentShape core guards.1).bind fun v w _ _ equal => ?_
    rw [flows]
    by_cases low : tainted piiFields bound taintedVars argument = false
    · obtain rfl := equal low
      exact Agrees.refl (fun _ _ => rfl) (c.applyUnary operator v)
    · have silent := guards.2.resolve_right low
      obtain ⟨a, first⟩ := applyUnary_ok sound silent v
      obtain ⟨b, second⟩ := applyUnary_ok (c := c.withRecords records) sound silent w
      exact .ok a b first second fun isLow => absurd isLow low
  | conditional test consequent alternate ihTest ihConsequent ihAlternate =>
    simp only [shapeOf, Option.bind_eq_bind, Option.bind_eq_some_iff] at shape
    obtain ⟨_, testShape, t, consequentShape, u, alternateShape, _⟩ := shape
    simp only [Expression.isCore, Bool.and_eq_true] at core
    simp only [guarded, Bool.and_eq_true, Bool.or_eq_true, Bool.not_eq_true'] at guards
    have flows : tainted piiFields bound taintedVars (.conditional test consequent alternate) =
        (tainted piiFields bound taintedVars test || tainted piiFields bound taintedVars consequent ||
          tainted piiFields bound taintedVars alternate) := by
      rw [tainted, Expression.node, isExpressionTainted, tainted, tainted, tainted]
    refine (ihTest testShape core.1.1 guards.1.1.1).bind fun v w _ _ equal => ?_
    rw [flows]
    by_cases low : tainted piiFields bound taintedVars test = false
    · obtain rfl := equal low
      by_cases truth : c.truthyValue v = true
      · rw [if_pos truth, if_pos (show (c.withRecords records).truthyValue v = true from truth)]
        exact (ihConsequent consequentShape core.1.2 guards.1.1.2).imp fun _ _ equal isLow =>
          equal (Bool.or_eq_false_iff.mp (Bool.or_eq_false_iff.mp isLow).1).2
      · rw [if_neg truth, if_neg (show ¬ (c.withRecords records).truthyValue v = true from truth)]
        exact (ihAlternate alternateShape core.2 guards.1.2).imp fun _ _ equal isLow =>
          equal (Bool.or_eq_false_iff.mp isLow).2
    · obtain ⟨first, second⟩ := guards.2.resolve_right low
      have chosen (c : Context D) (scopes : Scopes (Value D)) (v : Value D) : ∃ a,
          (if c.truthyValue v = true then c.eval consequent scopes
            else c.eval alternate scopes).result = .ok a := by
        split_ifs
        · exact literal_ok first
        · exact literal_ok second
      obtain ⟨a, left⟩ := chosen c scopes v
      obtain ⟨b, right⟩ := chosen (c.withRecords records) scopes' w
      exact .ok a b left right fun isLow =>
        absurd (Bool.or_eq_false_iff.mp (Bool.or_eq_false_iff.mp isLow).1).1 low
  | call object method params body => cases core
  | reduce object method params body => cases core
  | reduceFrom object method params body initial => cases core

/-! ### Statements -/

/-- Both runs go on, or return the same value, with the same values of the names that are not
tainted. -/
structure Alike (taintedVars : Names) (a b : Completion D) : Prop where
  scopes : Scopes.Agree (· ∉ taintedVars) a.1 b.1
  returned : a.2 = b.2

/-- What a statement may rely on: the tainted names are closed at its nodes, and no returned value
is tainted. -/
structure Covered (piiFields : JsString → Bool) (bound taintedVars : Names) (nodes : List Node) :
    Prop where
  closed : ∀ node ∈ nodes, ∀ name ∈ newlyTainted piiFields bound taintedVars node,
    name ∈ taintedVars
  accepted : ∀ node ∈ nodes, returnViolation piiFields bound taintedVars node = none

theorem Covered.of_append {nodes nodes' : List Node}
    (covered : Covered piiFields bound taintedVars (nodes ++ nodes')) :
    Covered piiFields bound taintedVars nodes ∧ Covered piiFields bound taintedVars nodes' := by
  obtain ⟨closed, accepted⟩ := covered
  rw [List.forall_mem_append] at closed accepted
  exact ⟨⟨closed.1, accepted.1⟩, closed.2, accepted.2⟩

theorem assignTo_agrees (agree : Scopes.Agree (· ∉ taintedVars) scopes scopes') {name : JsString}
    {v w : Value D} (equal : name ∉ taintedVars → v = w) :
    Agrees (Alike taintedVars) (c.assignTo scopes name v)
      ((c.withRecords records).assignTo scopes' name w) := by
  rw [assignTo, assignTo]
  rcases agree.lookup name with ⟨left, right⟩ | ⟨a, b, left, right, _, both⟩
  · rw [left, right]
    exact .error _ rfl rfl
  · have uninitialised : a.value.isNone = b.value.isNone := by
      rw [← Option.not_isSome, ← Option.not_isSome, both.declared]
    rw [left, right]
    simp only [uninitialised, both.constant]
    split_ifs
    · exact .error _ rfl rfl
    · exact .error _ rfl rfl
    · exact Agrees.pure ⟨agree.store equal, rfl⟩

theorem loop_agrees {s : Shape}
    {body body' : Value D → Scopes (Value D) → Evaluation D (Completion D)}
    (one : ∀ v scopes scopes', HasShape v s → Typed shapes scopes →
      Scopes.Agree (· ∉ taintedVars) scopes scopes' →
      Agrees (Alike taintedVars) (body v scopes) (body' v scopes'))
    (meets : ∀ v scopes, HasShape v s → Typed shapes scopes →
      Meets (fun _ => True) IsData (Finishes shapes) (body v scopes))
    {elements : List (Value D)} (each : ∀ v ∈ elements, HasShape v s)
    (typed : Typed shapes scopes) (agree : Scopes.Agree (· ∉ taintedVars) scopes scopes') :
    Agrees (Alike taintedVars) (loop body elements scopes) (loop body' elements scopes') := by
  induction elements generalizing scopes scopes' with
  | nil => exact Agrees.pure ⟨agree, rfl⟩
  | cons v vs ih =>
    obtain ⟨first, others⟩ := List.forall_mem_cons.mp each
    refine (one v scopes scopes' first typed agree).bind fun a b ran _ alike => ?_
    have finishes := (meets v scopes first typed).result a ran
    obtain ⟨after, returned⟩ := a
    obtain ⟨after', returned'⟩ := b
    obtain rfl : returned = returned' := alike.returned
    cases returned with
    | none => exact ih others finishes.typed alike.scopes
    | some result => exact Agrees.pure alike

/-- What is stored under a name that is not tainted is not tainted. -/
theorem Covered.declarator {nodes : List Node} (covered : Covered piiFields bound taintedVars nodes)
    {name : JsString} {init : Expression D}
    (member : .variableDeclarator (.identifier name) (some init.node) ∈ nodes)
    (low : name ∉ taintedVars) : tainted piiFields bound taintedVars init = false := by
  have untouched := mt (covered.closed _ member name) low
  rw [newlyTainted] at untouched
  split_ifs at untouched with flows
  · exact absurd (List.mem_singleton.mpr rfl) untouched
  · exact Bool.not_eq_true _ ▸ flows

theorem Covered.assignment {nodes : List Node} (covered : Covered piiFields bound taintedVars nodes)
    {name : JsString} {value : Expression D}
    (member : .assignmentExpression (.identifier name) value.node ∈ nodes)
    (low : name ∉ taintedVars) : tainted piiFields bound taintedVars value = false := by
  have untouched := mt (covered.closed _ member name) low
  rw [newlyTainted] at untouched
  split_ifs at untouched with flows
  · exact absurd (List.mem_singleton.mpr rfl) untouched
  · exact Bool.not_eq_true _ ▸ flows

theorem Covered.returning {nodes : List Node} (covered : Covered piiFields bound taintedVars nodes)
    {argument : Expression D} (member : .returnStatement (some argument.node) ∈ nodes) :
    tainted piiFields bound taintedVars argument = false := by
  have accepted := covered.accepted _ member
  rw [returnViolation] at accepted
  split_ifs at accepted with flows
  exact Bool.not_eq_true _ ▸ flows

theorem exec_finishes {statement : Statement D} (typed : Typed shapes scopes)
    (keeps : keepsShapes shapes bound statement = true) :
    Meets (fun _ => True) IsData (Finishes shapes) (c.exec statement scopes) :=
  exec_meets statement typed keeps fun _ _ _ _ => trivial

mutual

/-- Both runs execute a statement alike. -/
theorem exec_agrees (same : LowEqual piiFields c.records records)
    (sound : quiet.Sound c.toLanguage) (statement : Statement D)
    {scopes scopes' : Scopes (Value D)} (agree : Scopes.Agree (· ∉ taintedVars) scopes scopes')
    (typed : Typed shapes scopes) (keeps : keepsShapes shapes bound statement = true)
    (core : statement.isCore = true)
    (guards : guardedStatement quiet piiFields bound taintedVars statement = true)
    (covered : Covered piiFields bound taintedVars (visited statement.node)) :
    Agrees (Alike taintedVars) (c.exec statement scopes)
      ((c.withRecords records).exec statement scopes') := by
  cases statement with
  | declare kind target init =>
    rw [Statement.isCore, Bool.and_eq_true] at core
    cases target with
    | object first rest => cases core.1
    | identifier name =>
      cases init with
      | none =>
        rw [exec, exec]
        refine Agrees.pure ⟨?_, rfl⟩
        by_cases isVar : kind = .var
        · rw [if_pos isVar, if_pos isVar]
          exact agree
        · rw [if_neg isVar, if_neg isVar]
          exact agree.store fun _ => rfl
      | some init =>
        obtain ⟨s, shape, _⟩ := (Option.any_eq_true _ _).mp keeps
        simp only [Statement.node, Option.map_some, visited, visitedAll] at covered
        rw [exec, exec]
        refine (eval_agrees same sound agree typed shape core.2 guards).bind fun v w _ _ equal => ?_
        refine Agrees.pure ⟨agree.store fun low => equal ?_, rfl⟩
        exact covered.declarator (by simp [Target.node]) low
  | assign name value =>
    obtain ⟨s, shape, _⟩ := (Option.any_eq_true _ _).mp keeps
    simp only [Statement.node, visited, visitedAll] at covered
    rw [exec, exec]
    refine (eval_agrees same sound agree typed shape core guards).bind fun v w _ _ equal => ?_
    exact assignTo_agrees agree fun low => equal (covered.assignment (by simp) low)
  | update name operator value =>
    obtain ⟨s, shape, _⟩ := (Option.any_eq_true _ _).mp keeps
    simp only [guardedStatement, Bool.and_eq_true, Bool.or_eq_true, Bool.not_eq_true',
      decide_eq_true_eq] at guards
    simp only [Statement.node, visited, visitedAll] at covered
    have flows (low : name ∉ taintedVars) : tainted piiFields bound taintedVars value = false :=
      covered.assignment (by simp) low
    rw [exec, exec]
    refine (lookup_agrees agree name).bind fun v w _ _ equalOld => ?_
    refine (eval_agrees same sound agree typed shape core guards.1).bind fun v' w' _ _ equal => ?_
    have applied : Agrees (fun a b => name ∉ taintedVars → a = b) (c.applyBinary operator v v')
        ((c.withRecords records).applyBinary operator w w') := by
      by_cases low : name ∉ taintedVars
      · obtain rfl := equalOld low
        obtain rfl := equal (flows low)
        exact Agrees.refl (fun _ _ => rfl) (c.applyBinary operator v v')
      · have silent := guards.2.resolve_right fun quietly => low quietly.1
        obtain ⟨a, first⟩ := applyBinary_ok sound silent v v'
        obtain ⟨b, second⟩ := applyBinary_ok (c := c.withRecords records) sound silent w w'
        exact .ok a b first second fun isLow => absurd isLow low
    exact applied.bind fun a b _ _ equal => assignTo_agrees agree equal
  | evaluate expression =>
    obtain ⟨s, shape⟩ := Option.isSome_iff_exists.mp keeps
    rw [exec, exec]
    exact (eval_agrees same sound agree typed shape core guards).bind fun _ _ _ _ _ =>
      Agrees.pure ⟨agree, rfl⟩
  | ifThen test consequent =>
    simp only [keepsShapes, Bool.and_eq_true, Option.isSome_iff_exists] at keeps
    obtain ⟨⟨s, shape⟩, keeps⟩ := keeps
    rw [Statement.isCore, Bool.and_eq_true] at core
    rw [guardedStatement, Bool.and_eq_true, Bool.and_eq_true, Bool.not_eq_true'] at guards
    simp only [Statement.node, visited, visitedAll, List.append_nil] at covered
    rw [exec, exec]
    refine (eval_agrees same sound agree typed shape core.1 guards.1.1).bind fun v w _ _ equal => ?_
    obtain rfl := equal guards.1.2
    by_cases truth : c.truthyValue v = true
    · rw [if_pos truth, if_pos (show (c.withRecords records).truthyValue v = true from truth)]
      exact exec_agrees same sound consequent agree typed keeps core.2 guards.2
        covered.of_append.1.of_append.2
    · rw [if_neg truth, if_neg (show ¬ (c.withRecords records).truthyValue v = true from truth)]
      exact Agrees.pure ⟨agree, rfl⟩
  | ifElse test consequent alternate =>
    simp only [keepsShapes, Bool.and_eq_true, Option.isSome_iff_exists] at keeps
    obtain ⟨⟨⟨s, shape⟩, keepsConsequent⟩, keepsAlternate⟩ := keeps
    simp only [Statement.isCore, Bool.and_eq_true] at core
    simp only [guardedStatement, Bool.and_eq_true, Bool.not_eq_true'] at guards
    simp only [Statement.node, visited, visitedAll, List.append_nil] at covered
    have parts := covered.of_append.1.of_append.2.of_append
    rw [exec, exec]
    refine (eval_agrees same sound agree typed shape core.1.1 guards.1.1.1).bind
      fun v w _ _ equal => ?_
    obtain rfl := equal guards.1.1.2
    by_cases truth : c.truthyValue v = true
    · rw [if_pos truth, if_pos (show (c.withRecords records).truthyValue v = true from truth)]
      exact exec_agrees same sound consequent agree typed keepsConsequent core.1.2 guards.1.2 parts.1
    · rw [if_neg truth, if_neg (show ¬ (c.withRecords records).truthyValue v = true from truth)]
      exact exec_agrees same sound alternate agree typed keepsAlternate core.2 guards.2 parts.2
  | forOf kind target right body =>
    simp only [keepsShapes, Bool.and_eq_true, Option.any_eq_true, Option.bind_eq_some_iff] at keeps
    obtain ⟨⟨element, ⟨s, shape, sized⟩, fits⟩, keeps⟩ := keeps
    simp only [Statement.isCore, Bool.and_eq_true] at core
    simp only [guardedStatement, Bool.and_eq_true, Bool.not_eq_true'] at guards
    simp only [Statement.node, visited, visitedAll] at covered
    have inner {scopes : Scopes (Value D)} (typed : Typed shapes scopes) :
        Typed shapes (declaredSlots kind target ++ scopes) :=
      typed_slots (declaredSlots_empty kind target) typed
    have alike {scopes scopes' : Scopes (Value D)}
        (agree : Scopes.Agree (· ∉ taintedVars) scopes scopes') :
        Scopes.Agree (· ∉ taintedVars) (declaredSlots kind target ++ scopes)
          (declaredSlots kind target ++ scopes') := (Scopes.agree_refl _).append agree
    rw [exec, exec]
    refine (eval_agrees same sound (alike agree) (inner typed) shape core.1.2 guards.1.1).bind
      fun v w ran _ equal => ?_
    obtain rfl := equal guards.1.2
    have has := eval_shape (inner typed) shape ran
    have elements : Agrees Eq (c.iterate v) ((c.withRecords records).iterate v) :=
      Agrees.refl (fun _ => rfl) (c.iterate v)
    refine elements.bind fun vs vs' iterated _ equal => ?_
    obtain rfl := equal
    have meets : Meets (fun _ => True) IsData _ (c.iterate v) := iterate_meets has sized
    have each := meets.result vs iterated
    cases target with
    | object first rest => cases core.1.1
    | identifier name =>
      refine loop_agrees (fun v scopes scopes' has typed agree => ?_)
        (fun v scopes has typed => ?_) each typed agree
      · refine (exec_agrees same sound body ((alike agree).store fun _ => rfl)
          ((inner typed).store (has.fits fits)) keeps core.2 guards.2 covered.of_append.1.of_append.2).bind
          fun a b _ _ alike => ?_
        exact Agrees.pure ⟨alike.scopes.drop _, alike.returned⟩
      · refine (exec_finishes ((inner typed).store (has.fits fits)) keeps).bind fun a finishes => ?_
        exact Meets.pure ⟨finishes.typed.drop _, finishes.returned⟩
  | throwing argument =>
    have shape : shapeOf shapes bound argument = some .data := of_decide_eq_true keeps
    rw [guardedStatement, Bool.and_eq_true, Bool.not_eq_true'] at guards
    rw [exec, exec]
    refine (eval_agrees same sound agree typed shape core guards.1).bind fun v w _ _ equal => ?_
    obtain rfl := equal guards.2
    exact .error _ rfl rfl
  | returning argument =>
    rw [exec, exec]
    cases argument with
    | none => exact Agrees.pure ⟨agree, rfl⟩
    | some argument =>
      have shape : shapeOf shapes bound argument = some .data := of_decide_eq_true keeps
      simp only [Statement.node, Option.map_some, visited] at covered
      refine (eval_agrees same sound agree typed shape core guards).bind fun v w _ _ equal => ?_
      refine Agrees.pure ⟨agree, congrArg some (equal ?_)⟩
      exact covered.returning (by simp)
  | block body =>
    simp only [Statement.node, visited] at covered
    rw [exec, exec]
    refine (execAll_agrees same sound body ((Scopes.agree_refl _).append agree)
      (typed_slots (lexicalSlots_empty body) typed) keeps core guards
      covered.of_append.1).bind fun a b _ _ alike => ?_
    exact Agrees.pure ⟨alike.scopes.drop _, alike.returned⟩

theorem execAll_agrees (same : LowEqual piiFields c.records records)
    (sound : quiet.Sound c.toLanguage) (statements : List (Statement D))
    {scopes scopes' : Scopes (Value D)} (agree : Scopes.Agree (· ∉ taintedVars) scopes scopes')
    (typed : Typed shapes scopes) (keeps : allKeepShapes shapes bound statements = true)
    (core : allCore statements = true)
    (guards : allGuarded quiet piiFields bound taintedVars statements = true)
    (covered : Covered piiFields bound taintedVars (visitedAll (statementNodes statements))) :
    Agrees (Alike taintedVars) (c.execAll statements scopes)
      ((c.withRecords records).execAll statements scopes') := by
  cases statements with
  | nil => exact Agrees.pure ⟨agree, rfl⟩
  | cons statement statements =>
    rw [allKeepShapes, Bool.and_eq_true] at keeps
    rw [allCore, Bool.and_eq_true] at core
    rw [allGuarded, Bool.and_eq_true] at guards
    rw [statementNodes, visitedAll] at covered
    rw [execAll, execAll]
    refine (exec_agrees same sound statement agree typed keeps.1 core.1 guards.1
      covered.of_append.1).bind fun a b ran _ alike => ?_
    have finishes := (exec_finishes typed keeps.1).result a ran
    obtain ⟨after, returned⟩ := a
    obtain ⟨after', returned'⟩ := b
    obtain rfl : returned = returned' := alike.returned
    cases returned with
    | none =>
      exact execAll_agrees same sound statements alike.scopes finishes.typed keeps.2 core.2 guards.2
        covered.of_append.2
    | some result => exact Agrees.pure alike

end

/-- Both runs of a program end alike. -/
theorem run_agrees (same : LowEqual piiFields c.records records)
    (sound : quiet.Sound c.toLanguage) {body : List (Statement D)}
    (keeps : KeepsShapes shapes bound body) (core : allCore body = true)
    (guards : allGuarded quiet piiFields bound taintedVars body = true)
    (covered : Covered piiFields bound taintedVars (visitedAll (statementNodes body))) :
    Agrees Eq (c.run body) ((c.withRecords records).run body) := by
  have starts : (c.withRecords records).initialScopes body = c.initialScopes body := by
    rw [initialScopes, initialScopes, allRecords_withRecords same]
  rw [run, run, starts, exec, exec]
  have slots : Typed shapes (body.flatMap lexicalSlots ++ c.initialScopes body) :=
    typed_slots (lexicalSlots_empty body) (initialScopes_typed keeps)
  have block := execAll_agrees same sound body (Scopes.agree_refl _) slots keeps.2.2 core guards
    covered
  refine (block.bind fun a b _ _ alike => ?_ : Agrees (Alike taintedVars) _ _).bind
    fun a b _ _ alike => ?_
  · exact Agrees.pure ⟨alike.scopes.drop _, alike.returned⟩
  · exact Agrees.pure (by rw [alike.returned])

end Context

/-! ### What is seen of a run -/

/-- A value with the records that it refers to. -/
inductive Observed (D : Type) where
  | data (d : D)
  | env (input : JsString → D) (records : List (JsString → D))
  | record (field : JsString → D)
  | array (elements : List (Observed D))

namespace Context

variable (c : Context D)

mutual

def observe : Value D → Observed D
  | .data d => .data d
  | .env => .env c.input c.records
  | .record place => .record (c.readField place)
  | .array elements => .array (observeAll elements)

def observeAll : List (Value D) → List (Observed D)
  | [] => []
  | v :: vs => observe v :: observeAll vs

end

/-- What a program returns or throws. -/
def outcome (body : List (Statement D)) : Except (Observed D) (Observed D) :=
  ((c.run body).result.map c.observe).mapError c.observe

theorem observeAll_eq (vs : List (Value D)) : c.observeAll vs = vs.map c.observe := by
  induction vs with
  | nil => rfl
  | cons v vs ih => rw [observeAll, ih, List.map_cons]

/-- Data looks the same whatever the records. -/
theorem observe_data {v : Value D} (data : IsData v) (records : List (JsString → D)) :
    (c.withRecords records).observe v = c.observe v := by
  induction data with
  | data d => rfl
  | @array elements _ ih =>
    rw [observe, observe, observeAll_eq, observeAll_eq]
    exact congrArg Observed.array (List.map_congr_left ih)

end Context

/-! ### Accepted programs -/

/-- The program keeps to shapes, no test, index or thrown value is tainted, what is tainted goes
through quiet operations only, and another walk finds no more tainted names. -/
structure Guarded (quiet : QuietOperations) (piiFields : JsString → Bool)
    (shapes : JsString → Shape) (body : List (Statement D)) : Prop where
  keeps : KeepsShapes shapes (identifyRecordBoundVars (analysisTree body)) body
  guards : allGuarded quiet piiFields (identifyRecordBoundVars (analysisTree body))
    (propagateTaint piiFields (analysisTree body) (identifyRecordBoundVars (analysisTree body)))
    body = true
  closed : taintPass piiFields (identifyRecordBoundVars (analysisTree body))
      (visited (analysisTree body))
      (propagateTaint piiFields (analysisTree body) (identifyRecordBoundVars (analysisTree body))) =
    propagateTaint piiFields (analysisTree body) (identifyRecordBoundVars (analysisTree body))

theorem accepted_returns {ast : Node} {recordCount : Nat} {threshold : JsNumber}
    (accepted : analyzeTree piiFields ast recordCount threshold = none) :
    checkReturnStatements piiFields ast (identifyRecordBoundVars ast)
      (propagateTaint piiFields ast (identifyRecordBoundVars ast)) = none := by
  rw [analyzeTree] at accepted
  cases checked : checkReturnStatements piiFields ast (identifyRecordBoundVars ast)
      (propagateTaint piiFields ast (identifyRecordBoundVars ast)) with
  | none => rfl
  | some reason =>
    simp only [checked] at accepted
    cases accepted

def person (name age : String) : JsValue :=
  .obj [(js "name", .str (js name)), (js "age", .str (js age))]

def isName (key : JsString) : Bool := key = js "name"

theorem persons_lowEqual (name name' age : String) :
    LowEqual isName (jsonContext [person name age]).records
      (jsonContext [person name' age]).records := by
  refine .cons (fun key isPublic => ?_) .nil
  have other : js "name" ≠ key := fun same => (of_decide_eq_false isPublic) same.symm
  exact (if_neg other).trans (if_neg other).symm

/-- `let last = ""; for (const r of env.records) { last = r.age; } return last;` -/
def lastAge : List (Statement JsValue) :=
  [.declare .lexical (.identifier (js "last")) (some (.string [])),
    .forOf .constant (.identifier (js "r")) (.member (.identifier (js "env")) (js "records"))
      (.block [.assign (js "last") (.member (.identifier (js "r")) (js "age"))]),
    .returning (some (.identifier (js "last")))]

def loudOperations : QuietOperations := ⟨fun _ => false, fun _ => false, false⟩

theorem loudOperations_sound (language : Language D) : loudOperations.Sound language :=
  ⟨by rintro _ ⟨⟩, by rintro ⟨⟩, by rintro ⟨⟩, by rintro ⟨⟩⟩

/-- `for (const r of env.records) { if (r.name === "Ann") return "1"; } return "0";` -/
def testedName : List (Statement JsValue) :=
  [.forOf .constant (.identifier (js "r")) (.member (.identifier (js "env")) (js "records"))
      (.block [.ifThen (.binary .strictEqual (.member (.identifier (js "r")) (js "name"))
        (.string (js "Ann"))) (.returning (some (.string (js "1"))))]),
    .returning (some (.string (js "0")))]

end NeuralMesh.Security
