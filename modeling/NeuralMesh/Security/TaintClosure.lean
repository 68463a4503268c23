import NeuralMesh.Security.LogicProgram
import NeuralMesh.Security.TaintMonotone

/-! The names that `propagateTaint` leaves. They are closed under its rules exactly if no name needs
a fourth walk, and a chain of assignments against the order of the text needs one walk for each. -/
namespace NeuralMesh.Security

open Js Saturation

variable (piiFields : JsString → Bool) (recordBoundVars : Names)

/-- What the visitors of the walk add. -/
structure TaintClosed (ast : Node) (taintedVars : Names) : Prop where
  variableDeclarator : ∀ name init,
    .variableDeclarator (.identifier name) (some init) ∈ visited ast →
    isExpressionTainted piiFields init recordBoundVars taintedVars = true → name ∈ taintedVars
  assignmentExpression : ∀ name right,
    .assignmentExpression (.identifier name) right ∈ visited ast →
    isExpressionTainted piiFields right recordBoundVars taintedVars = true → name ∈ taintedVars
  functionDeclaration : ∀ name params body,
    .function .declaration (some name) params body ∈ visited ast →
    firstProducesTaint piiFields [.function .declaration (some name) params body] none
      recordBoundVars taintedVars = true → name ∈ taintedVars
  push : ∀ name property computed arguments,
    .callExpression (.memberExpression (.identifier name) property computed) arguments ∈
      visited ast →
    getPropertyName property computed = some (js "push") →
    (∃ argument ∈ arguments,
      isExpressionTainted piiFields argument recordBoundVars taintedVars = true) →
    name ∈ taintedVars

/-- The name is derived at the node, in that walk, from names derived at earlier nodes of the walk
or in earlier walks. -/
abbrev TaintDerived (ast : Node) : (walk place : Nat) → JsString → Prop :=
  Derived (fun known node name => name ∈ newlyTainted piiFields recordBoundVars known node)
    (visited ast)

/-- No name needs a later walk. -/
def WithinWalks (ast : Node) (walks : Nat) : Prop :=
  ∀ walk place name, TaintDerived piiFields recordBoundVars ast walk place name →
    ∃ w < walks, ∃ p, TaintDerived piiFields recordBoundVars ast w p name

variable {piiFields recordBoundVars}

theorem anyTainted_iff {nodes : List Node} {taintedVars : Names} :
    anyTainted piiFields nodes recordBoundVars taintedVars = true ↔
      ∃ node ∈ nodes, isExpressionTainted piiFields node recordBoundVars taintedVars = true := by
  induction nodes with
  | nil => simp [anyTainted]
  | cons node nodes ih => rw [anyTainted, Bool.or_eq_true, ih, List.exists_mem_cons_iff]

theorem taintClosed_iff {ast : Node} {taintedVars : Names} :
    TaintClosed piiFields recordBoundVars ast taintedVars ↔
      Closed (fun known node name => name ∈ newlyTainted piiFields recordBoundVars known node)
        (visited ast) taintedVars := by
  constructor
  · intro closed node member name new
    unfold newlyTainted at new
    split at new
    · obtain ⟨tainted, rfl⟩ := mem_one.mp new
      exact closed.variableDeclarator _ _ member tainted
    · obtain ⟨tainted, rfl⟩ := mem_one.mp new
      exact closed.assignmentExpression _ _ member tainted
    · obtain ⟨tainted, rfl⟩ := mem_one.mp new
      exact closed.functionDeclaration _ _ _ member tainted
    · split_ifs at new with push
      · obtain rfl := List.mem_singleton.mp new
        exact closed.push _ _ _ _ member push.1 (anyTainted_iff.mp push.2)
      · cases new
    · cases new
  · intro closed
    refine ⟨fun name init member tainted => ?_, fun name right member tainted => ?_,
      fun name params body member tainted => ?_,
      fun name property computed arguments member push tainted => ?_⟩
    · exact closed _ member name (mem_one.mpr ⟨tainted, rfl⟩)
    · exact closed _ member name (mem_one.mpr ⟨tainted, rfl⟩)
    · exact closed _ member name (mem_one.mpr ⟨tainted, rfl⟩)
    · refine closed _ member name ?_
      simp only [newlyTainted]
      rw [if_pos ⟨push, anyTainted_iff.mpr tainted⟩]
      exact List.mem_singleton_self name

theorem newlyTainted_adds :
    Adds (fun known node name => name ∈ newlyTainted piiFields recordBoundVars known node)
      (fun known node => (newlyTainted piiFields recordBoundVars known node).foldl setAdd known) where
  extend := newlyTainted_extends
  mem_iff _ _ _ := mem_foldl_setAdd

/-- The names are closed exactly if none needs a fourth walk. -/
theorem propagateTaint_closed_iff (piiFields : JsString → Bool) (recordBoundVars : Names)
    (ast : Node) :
    TaintClosed piiFields recordBoundVars ast (propagateTaint piiFields ast recordBoundVars) ↔
      WithinWalks piiFields recordBoundVars ast 3 := by
  have monotone : Monotone
      fun known node name => name ∈ newlyTainted piiFields recordBoundVars known node :=
    fun _ _ grown node name => newlyTainted_mono (fun _ forbidden => forbidden) grown node name
  rw [taintClosed_iff, propagateTaint, taintPasses_eq_iterate]
  exact closed_walks_iff newlyTainted_adds monotone (visited ast) 3

/-! ### A chain against the order of the text -/

def isSsn (key : JsString) : Bool := key = js "ssn"

/-- `let a, b, c, d; for (const r of env.records) { d = c; c = b; b = a; a = r.ssn; } return d;` -/
def shiftedNames : List (Statement JsValue) :=
  [.declare .lexical (.identifier (js "a")) none, .declare .lexical (.identifier (js "b")) none,
    .declare .lexical (.identifier (js "c")) none, .declare .lexical (.identifier (js "d")) none,
    .forOf .constant (.identifier (js "r")) (.member (.identifier (js "env")) (js "records"))
      (.block [.assign (js "d") (.identifier (js "c")), .assign (js "c") (.identifier (js "b")),
        .assign (js "b") (.identifier (js "a")),
        .assign (js "a") (.member (.identifier (js "r")) (js "ssn"))]),
    .returning (some (.identifier (js "d")))]

def shiftedTree : Node := programTree (js "liop_analysis_wrapper") shiftedNames

/-- Three walks taint `a`, `b` and `c`, and the right side of `d = c`, but not `d`. -/
theorem shiftedNames_open : ¬ ∀ (piiFields : JsString → Bool) (ast : Node),
    TaintClosed piiFields (identifyRecordBoundVars ast) ast
      (propagateTaint piiFields ast (identifyRecordBoundVars ast)) := by
  intro closed
  have tainted : propagateTaint isSsn shiftedTree (identifyRecordBoundVars shiftedTree) =
      [js "a", js "b", js "c"] := rfl
  have assigned := (closed isSsn shiftedTree).assignmentExpression (js "d") (.identifier (js "c"))
  rw [tainted] at assigned
  have member := assigned (by simp [shiftedTree, programTree, shiftedNames, statementNodes,
    Statement.node, Expression.node, Target.node, visited, visitedAll]) rfl
  revert member
  decide

end NeuralMesh.Security
