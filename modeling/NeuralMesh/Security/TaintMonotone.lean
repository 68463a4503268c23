import NeuralMesh.Security.TaintAnalysis
import NeuralMesh.Saturation

/-! More forbidden fields and more tainted names taint no less, through each form of expression,
each walk and the returned values. Who forbids more rejects no less. -/
namespace NeuralMesh.Security

open Js

/-! ### Expressions -/

section Expressions

variable {piiFields piiFields' : JsString → Bool} {taintedVars taintedVars' : Names}

theorem any_mono (more : ∀ name, piiFields name → piiFields' name) {name : Option JsString}
    (forbidden : name.any piiFields = true) : name.any piiFields' = true := by
  cases name with
  | none => cases forbidden
  | some name => exact more name forbidden

theorem readsForbidden_mono (more : ∀ name, piiFields name → piiFields' name)
    {object property : Node} {computed : Bool} {recordBoundVars : Names}
    (reads : readsForbidden piiFields object property computed recordBoundVars = true) :
    readsForbidden piiFields' object property computed recordBoundVars = true := by
  unfold readsForbidden at reads ⊢
  split at reads
  · simp only [Bool.and_eq_true, Bool.or_eq_true] at reads ⊢
    exact reads.imp_right (Or.imp (any_mono more) (And.imp_right (any_mono more)))
  · simp only [Bool.and_eq_true] at reads ⊢
    exact reads.imp_left (any_mono more)
  · cases reads

mutual

/-- What is tainted stays tainted. -/
theorem isExpressionTainted_mono (more : ∀ name, piiFields name → piiFields' name)
    (grown : taintedVars ⊆ taintedVars') (node : Node) (recordBoundVars : Names)
    (tainted : isExpressionTainted piiFields node recordBoundVars taintedVars = true) :
    isExpressionTainted piiFields' node recordBoundVars taintedVars' = true := by
  cases node with
  | identifier name =>
    simp only [isExpressionTainted, decide_eq_true_eq] at tainted ⊢
    exact grown tainted
  | memberExpression object property computed =>
    simp only [isExpressionTainted, Bool.or_eq_true] at tainted ⊢
    exact tainted.imp (readsForbidden_mono more)
      (isExpressionTainted_mono more grown object recordBoundVars)
  | callExpression callee arguments =>
    cases callee with
    | memberExpression object property computed =>
      have receiver := isExpressionTainted_mono more grown object recordBoundVars
      have given := anyTainted_mono more grown arguments recordBoundVars
      have produced := firstProducesTaint_mono more grown arguments
        (getPropertyName property computed) recordBoundVars
      simp only [isExpressionTainted] at tainted ⊢
      split_ifs at tainted with propagates callback
      · rw [Bool.and_eq_true] at propagates
        rw [if_pos (by rw [propagates.1, receiver propagates.2, Bool.and_self])]
      · split_ifs
        · rfl
        · exact produced tainted
      · split_ifs
        · rfl
        · rw [Bool.or_eq_true] at tainted ⊢
          exact tainted.imp receiver given
    | identifier fnName =>
      simp only [isExpressionTainted, Bool.or_eq_true, Bool.and_eq_true, decide_eq_true_eq]
        at tainted ⊢
      exact tainted.imp (@grown fnName)
        (And.imp_right (anyTainted_mono more grown arguments recordBoundVars))
    | _ => cases tainted
  | yieldExpression argument =>
    simp only [isExpressionTainted] at tainted ⊢
    exact isOptionTainted_mono more grown argument recordBoundVars tainted
  | function kind id params body =>
    have expression := isExpressionTainted_mono more grown body
      (scopedRecordVars params none recordBoundVars)
    have returned := returnsTaint_mono more grown body (scopedRecordVars params none recordBoundVars)
    cases kind with
    | declaration => cases tainted
    | expression => exact returned tainted
    | arrow =>
      simp only [isExpressionTainted] at tainted ⊢
      split_ifs at tainted ⊢
      · exact expression tainted
      · exact returned tainted
  | binaryExpression left right =>
    simp only [isExpressionTainted, Bool.or_eq_true] at tainted ⊢
    exact tainted.imp (isExpressionTainted_mono more grown left recordBoundVars)
      (isExpressionTainted_mono more grown right recordBoundVars)
  | unaryExpression argument | spreadElement argument =>
    simp only [isExpressionTainted] at tainted ⊢
    exact isExpressionTainted_mono more grown argument recordBoundVars tainted
  | conditionalExpression test consequent alternate =>
    simp only [isExpressionTainted, Bool.or_eq_true] at tainted ⊢
    exact tainted.imp (Or.imp (isExpressionTainted_mono more grown test recordBoundVars)
        (isExpressionTainted_mono more grown consequent recordBoundVars))
      (isExpressionTainted_mono more grown alternate recordBoundVars)
  | objectExpression properties =>
    simp only [isExpressionTainted] at tainted ⊢
    exact anyPropertyTainted_mono more grown properties recordBoundVars tainted
  | arrayExpression nodes | templateLiteral nodes =>
    simp only [isExpressionTainted] at tainted ⊢
    exact anyTainted_mono more grown nodes recordBoundVars tainted
  | literal | property | assignmentExpression | variableDeclaration | variableDeclarator
  | forOfStatement | blockStatement | returnStatement | other => cases tainted

theorem anyTainted_mono (more : ∀ name, piiFields name → piiFields' name)
    (grown : taintedVars ⊆ taintedVars') (nodes : List Node) (recordBoundVars : Names)
    (tainted : anyTainted piiFields nodes recordBoundVars taintedVars = true) :
    anyTainted piiFields' nodes recordBoundVars taintedVars' = true := by
  cases nodes with
  | nil => cases tainted
  | cons node nodes =>
    simp only [anyTainted, Bool.or_eq_true] at tainted ⊢
    exact tainted.imp (isExpressionTainted_mono more grown node recordBoundVars)
      (anyTainted_mono more grown nodes recordBoundVars)

theorem isOptionTainted_mono (more : ∀ name, piiFields name → piiFields' name)
    (grown : taintedVars ⊆ taintedVars') (node : Option Node) (recordBoundVars : Names)
    (tainted : isOptionTainted piiFields node recordBoundVars taintedVars = true) :
    isOptionTainted piiFields' node recordBoundVars taintedVars' = true := by
  cases node with
  | none => cases tainted
  | some node =>
    simp only [isOptionTainted] at tainted ⊢
    exact isExpressionTainted_mono more grown node recordBoundVars tainted

theorem anyPropertyTainted_mono (more : ∀ name, piiFields name → piiFields' name)
    (grown : taintedVars ⊆ taintedVars') (nodes : List Node) (recordBoundVars : Names)
    (tainted : anyPropertyTainted piiFields nodes recordBoundVars taintedVars = true) :
    anyPropertyTainted piiFields' nodes recordBoundVars taintedVars' = true := by
  cases nodes with
  | nil => cases tainted
  | cons node nodes =>
    have later := anyPropertyTainted_mono more grown nodes recordBoundVars
    cases node with
    | property key value computed =>
      simp only [anyPropertyTainted, Bool.or_eq_true] at tainted ⊢
      exact tainted.imp (isExpressionTainted_mono more grown value recordBoundVars) later
    | _ =>
      simp only [anyPropertyTainted] at tainted ⊢
      exact later tainted

theorem firstProducesTaint_mono (more : ∀ name, piiFields name → piiFields' name)
    (grown : taintedVars ⊆ taintedVars') (nodes : List Node) (methodName : Option JsString)
    (recordBoundVars : Names)
    (tainted : firstProducesTaint piiFields nodes methodName recordBoundVars taintedVars = true) :
    firstProducesTaint piiFields' nodes methodName recordBoundVars taintedVars' = true := by
  cases nodes with
  | nil => cases tainted
  | cons node nodes =>
    cases node with
    | function kind id params body =>
      have expression := isExpressionTainted_mono more grown body
        (scopedRecordVars params methodName recordBoundVars)
      have returned := returnsTaint_mono more grown body
        (scopedRecordVars params methodName recordBoundVars)
      simp only [firstProducesTaint] at tainted ⊢
      split_ifs at tainted ⊢
      · exact expression tainted
      · exact returned tainted
    | _ => cases tainted

theorem returnsTaint_mono (more : ∀ name, piiFields name → piiFields' name)
    (grown : taintedVars ⊆ taintedVars') (node : Node) (recordBoundVars : Names)
    (tainted : returnsTaint piiFields node recordBoundVars taintedVars = true) :
    returnsTaint piiFields' node recordBoundVars taintedVars' = true := by
  cases node with
  | identifier | literal => cases tainted
  | memberExpression object property computed =>
    simp only [returnsTaint, Bool.or_eq_true, Bool.and_eq_true] at tainted ⊢
    exact tainted.imp (returnsTaint_mono more grown object recordBoundVars)
      (And.imp_right (returnsTaint_mono more grown property recordBoundVars))
  | callExpression callee arguments =>
    simp only [returnsTaint, Bool.or_eq_true] at tainted ⊢
    exact tainted.imp (returnsTaint_mono more grown callee recordBoundVars)
      (anyReturnsTaint_mono more grown arguments recordBoundVars)
  | function kind id params body =>
    simp only [returnsTaint, Bool.or_eq_true] at tainted ⊢
    exact tainted.imp (anyReturnsTaint_mono more grown params recordBoundVars)
      (returnsTaint_mono more grown body recordBoundVars)
  | yieldExpression argument | returnStatement argument =>
    simp only [returnsTaint, Bool.or_eq_true] at tainted ⊢
    exact tainted.imp (optionReturnsTaint_mono more grown argument recordBoundVars)
      (isOptionTainted_mono more grown argument recordBoundVars)
  | binaryExpression left right | assignmentExpression left right =>
    simp only [returnsTaint, Bool.or_eq_true] at tainted ⊢
    exact tainted.imp (returnsTaint_mono more grown left recordBoundVars)
      (returnsTaint_mono more grown right recordBoundVars)
  | unaryExpression argument | spreadElement argument =>
    simp only [returnsTaint] at tainted ⊢
    exact returnsTaint_mono more grown argument recordBoundVars tainted
  | conditionalExpression first second third | forOfStatement first second third =>
    simp only [returnsTaint, Bool.or_eq_true] at tainted ⊢
    exact tainted.imp (Or.imp (returnsTaint_mono more grown first recordBoundVars)
        (returnsTaint_mono more grown second recordBoundVars))
      (returnsTaint_mono more grown third recordBoundVars)
  | property key value computed =>
    simp only [returnsTaint, Bool.or_eq_true, Bool.and_eq_true] at tainted ⊢
    exact tainted.imp (And.imp_right (returnsTaint_mono more grown key recordBoundVars))
      (returnsTaint_mono more grown value recordBoundVars)
  | variableDeclarator id init =>
    simp only [returnsTaint, Bool.or_eq_true] at tainted ⊢
    exact tainted.imp (returnsTaint_mono more grown id recordBoundVars)
      (optionReturnsTaint_mono more grown init recordBoundVars)
  | objectExpression nodes | arrayExpression nodes | templateLiteral nodes
  | variableDeclaration nodes | blockStatement nodes | other nodes =>
    simp only [returnsTaint] at tainted ⊢
    exact anyReturnsTaint_mono more grown nodes recordBoundVars tainted

theorem anyReturnsTaint_mono (more : ∀ name, piiFields name → piiFields' name)
    (grown : taintedVars ⊆ taintedVars') (nodes : List Node) (recordBoundVars : Names)
    (tainted : anyReturnsTaint piiFields nodes recordBoundVars taintedVars = true) :
    anyReturnsTaint piiFields' nodes recordBoundVars taintedVars' = true := by
  cases nodes with
  | nil => cases tainted
  | cons node nodes =>
    simp only [anyReturnsTaint, Bool.or_eq_true] at tainted ⊢
    exact tainted.imp (returnsTaint_mono more grown node recordBoundVars)
      (anyReturnsTaint_mono more grown nodes recordBoundVars)

theorem optionReturnsTaint_mono (more : ∀ name, piiFields name → piiFields' name)
    (grown : taintedVars ⊆ taintedVars') (node : Option Node) (recordBoundVars : Names)
    (tainted : optionReturnsTaint piiFields node recordBoundVars taintedVars = true) :
    optionReturnsTaint piiFields' node recordBoundVars taintedVars' = true := by
  cases node with
  | none => cases tainted
  | some node =>
    simp only [optionReturnsTaint] at tainted ⊢
    exact returnsTaint_mono more grown node recordBoundVars tainted

end

end Expressions

/-! ### Walks -/

section Walks

variable {piiFields piiFields' : JsString → Bool} {recordBoundVars : Names}

theorem mem_one {tainted : Bool} {name added : JsString} :
    name ∈ (if tainted = true then [added] else []) ↔ tainted = true ∧ name = added := by
  cases tainted <;> simp

/-- What taints a name, and the name. -/
theorem newlyTainted_mono (more : ∀ name, piiFields name → piiFields' name)
    {taintedVars taintedVars' : Names} (grown : taintedVars ⊆ taintedVars') (node : Node)
    (name : JsString) (new : name ∈ newlyTainted piiFields recordBoundVars taintedVars node) :
    name ∈ newlyTainted piiFields' recordBoundVars taintedVars' node := by
  unfold newlyTainted at new ⊢
  split at new
  · exact mem_one.mpr ((mem_one.mp new).imp_left (isExpressionTainted_mono more grown _ _))
  · exact mem_one.mpr ((mem_one.mp new).imp_left (isExpressionTainted_mono more grown _ _))
  · exact mem_one.mpr ((mem_one.mp new).imp_left (firstProducesTaint_mono more grown _ _ _))
  · rename_i added property computed arguments
    by_cases push : getPropertyName property computed = some (js "push")
    · simp only [push, true_and] at new ⊢
      exact mem_one.mpr ((mem_one.mp new).imp_left (anyTainted_mono more grown _ _))
    · simp only [push, false_and, if_false] at new
      cases new
  · cases new

theorem setAdd_extends (set : Names) (name : JsString) : set <+: setAdd set name := by
  rw [setAdd]
  split_ifs
  · exact List.prefix_rfl
  · exact List.prefix_append set [name]

theorem newlyTainted_extends (taintedVars : Names) (node : Node) :
    taintedVars <+: (newlyTainted piiFields recordBoundVars taintedVars node).foldl setAdd
      taintedVars :=
  Saturation.pass_extends setAdd_extends _ taintedVars

theorem taintPass_mono (more : ∀ name, piiFields name → piiFields' name) (nodes : List Node)
    {taintedVars taintedVars' : Names} (grown : taintedVars ⊆ taintedVars') :
    taintPass piiFields recordBoundVars nodes taintedVars ⊆
      taintPass piiFields' recordBoundVars nodes taintedVars' := by
  induction nodes generalizing taintedVars taintedVars' with
  | nil => exact grown
  | cons node nodes ih =>
    refine ih fun name member => ?_
    rw [mem_foldl_setAdd] at member ⊢
    exact member.imp (@grown name) (newlyTainted_mono more grown node name)

/-- The early stop changes nothing: a walk that finds nothing new finds nothing later. -/
theorem taintPasses_eq_iterate (nodes : List Node) (iterations : Nat) (taintedVars : Names) :
    taintPasses piiFields recordBoundVars nodes iterations taintedVars =
      (taintPass piiFields recordBoundVars nodes)^[iterations] taintedVars := by
  induction iterations generalizing taintedVars with
  | zero => rfl
  | succ iterations ih =>
    rw [taintPasses, Function.iterate_succ_apply]
    split_ifs with stopped
    · have fixed : taintedVars = taintPass piiFields recordBoundVars nodes taintedVars :=
        (Saturation.pass_extends newlyTainted_extends nodes taintedVars).eq_of_length stopped.symm
      rw [← fixed]
      exact (Function.iterate_fixed fixed.symm iterations).symm
    · exact ih _

theorem propagateTaint_mono (more : ∀ name, piiFields name → piiFields' name) (ast : Node) :
    propagateTaint piiFields ast recordBoundVars ⊆ propagateTaint piiFields' ast recordBoundVars := by
  have walks (iterations : Nat) : (taintPass piiFields recordBoundVars (visited ast))^[iterations] [] ⊆
      (taintPass piiFields' recordBoundVars (visited ast))^[iterations] [] := by
    induction iterations with
    | zero => exact List.Subset.refl []
    | succ iterations ih =>
      rw [Function.iterate_succ_apply', Function.iterate_succ_apply']
      exact taintPass_mono more (visited ast) ih
  rw [propagateTaint, propagateTaint, taintPasses_eq_iterate, taintPasses_eq_iterate]
  exact walks 3

/-- A returned value that is rejected stays rejected. -/
theorem checkReturnStatements_mono (more : ∀ name, piiFields name → piiFields' name) (ast : Node)
    {taintedVars taintedVars' : Names} (grown : taintedVars ⊆ taintedVars')
    (accepted : checkReturnStatements piiFields' ast recordBoundVars taintedVars' = none) :
    checkReturnStatements piiFields ast recordBoundVars taintedVars = none := by
  rw [checkReturnStatements, List.findSome?_eq_none_iff] at accepted ⊢
  intro node member
  have clean := accepted node member
  unfold returnViolation
  split
  · rename_i argument
    refine if_neg fun tainted => ?_
    rw [returnViolation, if_pos (isExpressionTainted_mono more grown argument _ tainted)] at clean
    cases clean
  · rfl

theorem analyzeTree_mono (more : ∀ name, piiFields name → piiFields' name) (ast : Node)
    (recordCount : Nat) (minMaxBlockThreshold : JsNumber)
    (accepted : analyzeTree piiFields' ast recordCount minMaxBlockThreshold = none) :
    analyzeTree piiFields ast recordCount minMaxBlockThreshold = none := by
  rw [analyzeTree] at accepted ⊢
  cases checked : checkReturnStatements piiFields' ast (identifyRecordBoundVars ast)
      (propagateTaint piiFields' ast (identifyRecordBoundVars ast)) with
  | some reason =>
    simp only [checked] at accepted
    cases accepted
  | none =>
    simp only [checked] at accepted
    simp only [checkReturnStatements_mono more ast (propagateTaint_mono more ast) checked]
    exact accepted

end Walks

/-! ### The analyzer -/

/-- `toLowerCase` and acorn's parser, which fails on a syntax error. -/
structure AnalyzerFunctions where
  toLowerCase : JsString → JsString
  parse : Text → Option Node

namespace AnalyzerFunctions

variable (functions : AnalyzerFunctions)

/-- The `Set` of the constructor. -/
def forbids (piiFields : List JsString) (propName : JsString) : Bool :=
  functions.toLowerCase propName ∈ piiFields.map functions.toLowerCase

def wrapped (sourceCode : Text) : Text :=
  "function liop_analysis_wrapper(env) \x7b\n".toList ++ sourceCode ++ "\n\x7d".toList

/-- A record count that is not given counts as 0. -/
def analyze (piiFields : List JsString) (sourceCode : Text) (recordCount : Option Nat)
    (minMaxBlockThreshold : JsNumber) : Option JsString :=
  (functions.parse (wrapped sourceCode)).bind fun ast =>
    analyzeTree (functions.forbids piiFields) ast (recordCount.getD 0) minMaxBlockThreshold

theorem forbids_mono {piiFields piiFields' : List JsString}
    (contained : ∀ key ∈ piiFields, functions.toLowerCase key ∈ piiFields'.map functions.toLowerCase)
    (name : JsString) (forbidden : functions.forbids piiFields name = true) :
    functions.forbids piiFields' name = true := by
  rw [forbids, decide_eq_true_eq] at forbidden ⊢
  obtain ⟨key, member, same⟩ := List.mem_map.mp forbidden
  rw [← same]
  exact contained key member

/-- Who forbids more rejects no less. -/
theorem analyze_mono {piiFields piiFields' : List JsString}
    (contained : ∀ key ∈ piiFields, functions.toLowerCase key ∈ piiFields'.map functions.toLowerCase)
    {sourceCode : Text} {recordCount : Option Nat} {minMaxBlockThreshold : JsNumber}
    (rejected : functions.analyze piiFields sourceCode recordCount minMaxBlockThreshold ≠ none) :
    functions.analyze piiFields' sourceCode recordCount minMaxBlockThreshold ≠ none := by
  intro accepted
  apply rejected
  rw [analyze] at accepted ⊢
  cases parsed : functions.parse (wrapped sourceCode) with
  | none => rfl
  | some ast =>
    rw [parsed, Option.bind_some] at accepted
    rw [Option.bind_some]
    exact analyzeTree_mono (functions.forbids_mono contained) ast _ _ accepted

end AnalyzerFunctions

/-! ### A program -/

def firstName : Text := "return env.records[0].name;".toList

/-- The tree of the program in the function that the analyzer wraps around it. -/
def firstNameTree : Node :=
  .other [.function .declaration (some (js "liop_analysis_wrapper")) [.identifier (js "env")]
    (.blockStatement [.returnStatement (some (.memberExpression (.memberExpression
      (.memberExpression (.identifier (js "env")) (.identifier (js "records")) false)
      (.literal none) true) (.identifier (js "name")) false))])]

def asciiLower (text : JsString) : JsString :=
  text.map fun unit => if 65 ≤ unit ∧ unit ≤ 90 then unit + 32 else unit

def sampleFunctions : AnalyzerFunctions where
  toLowerCase := asciiLower
  parse text := if text = AnalyzerFunctions.wrapped firstName then some firstNameTree else none

theorem firstName_stays_rejected :
    sampleFunctions.analyze [js "name", js "age"] firstName (some 100)
      (.finite (Decimal.normalize 50 0)) ≠ none := by
  have contained : ∀ key ∈ [js "Name"],
      asciiLower key ∈ [js "name", js "age"].map asciiLower := by decide
  have parsed : sampleFunctions.parse (AnalyzerFunctions.wrapped firstName) = some firstNameTree := by
    simp [sampleFunctions]
  refine sampleFunctions.analyze_mono contained ?_
  rw [AnalyzerFunctions.analyze, parsed, Option.bind_some]
  exact fun accepted => by cases accepted

end NeuralMesh.Security
