import NeuralMesh.Traced
import NeuralMesh.Js.Object
import NeuralMesh.Js.Scopes
import NeuralMesh.Security.TaintAnalysis

/-! Programs over `env.records`: variables, reads of members, operators, branches, loops, and array
methods with a callback. Records and arrays are told apart by their place; the values of the fields
and what the operators make of them are parameters. -/
namespace NeuralMesh.Security

open Js

/-! ### Syntax -/

inductive BinaryOperator where
  | strictEqual | strictNotEqual | equal | notEqual | less | lessOrEqual | greater | greaterOrEqual
  | add | subtract | multiply | divide | remainder
  deriving DecidableEq

inductive LogicalOperator where
  | and | or | coalesce
  deriving DecidableEq

inductive UnaryOperator where
  | not | minus | plus
  deriving DecidableEq

/-- `var`, `let` and `const` -/
inductive DeclarationKind where
  | var | lexical | constant
  deriving DecidableEq

/-- The methods that call their callback with an element, its index and the array. -/
inductive ArrayMethod where
  | map | forEach | filter | find | some | every | flatMap | findIndex
  deriving DecidableEq

def ArrayMethod.name : ArrayMethod → JsString
  | .map => js "map"
  | .forEach => js "forEach"
  | .filter => js "filter"
  | .find => js "find"
  | .some => js "some"
  | .every => js "every"
  | .flatMap => js "flatMap"
  | .findIndex => js "findIndex"

inductive ReduceMethod where
  | reduce | reduceRight
  deriving DecidableEq

def ReduceMethod.name : ReduceMethod → JsString
  | .reduce => js "reduce"
  | .reduceRight => js "reduceRight"

/-- A name, or a pattern of keys with the names that they are bound to. -/
inductive Target where
  | identifier (name : JsString)
  | object (first : JsString × JsString) (rest : List (JsString × JsString))

def Target.names : Target → List JsString
  | .identifier name => [name]
  | .object first rest => (first :: rest).map Prod.snd

/-- Callbacks are arrow functions with an expression for a body. -/
inductive Expression (D : Type) where
  | string (value : JsString)
  /-- Another literal. -/
  | literal (value : D)
  | identifier (name : JsString)
  | member (object : Expression D) (name : JsString)
  | index (object property : Expression D)
  | binary (operator : BinaryOperator) (left right : Expression D)
  | logical (operator : LogicalOperator) (left right : Expression D)
  | unary (operator : UnaryOperator) (argument : Expression D)
  | conditional (test consequent alternate : Expression D)
  | call (object : Expression D) (method : ArrayMethod) (params : List Target)
      (body : Expression D)
  | reduce (object : Expression D) (method : ReduceMethod) (params : List Target)
      (body : Expression D)
  | reduceFrom (object : Expression D) (method : ReduceMethod) (params : List Target)
      (body initial : Expression D)

inductive Statement (D : Type) where
  | declare (kind : DeclarationKind) (target : Target) (init : Option (Expression D))
  | assign (name : JsString) (value : Expression D)
  /-- `name operator= value` -/
  | update (name : JsString) (operator : BinaryOperator) (value : Expression D)
  | evaluate (expression : Expression D)
  | ifThen (test : Expression D) (consequent : Statement D)
  | ifElse (test : Expression D) (consequent alternate : Statement D)
  | forOf (kind : DeclarationKind) (target : Target) (right : Expression D) (body : Statement D)
  | throwing (argument : Expression D)
  | returning (argument : Option (Expression D))
  | block (body : List (Statement D))

variable {D : Type}

/-! ### Syntax trees -/

def Target.node : Target → Node
  | .identifier name => .identifier name
  | .object first rest => .other ((first :: rest).map fun entry => .identifier entry.2)

def arrow (params : List Target) (body : Node) : Node :=
  .function .arrow none (params.map Target.node) body

def Expression.node : Expression D → Node
  | .string value => .literal (some value)
  | .literal _ => .literal none
  | .identifier name => .identifier name
  | .member object name => .memberExpression object.node (.identifier name) false
  | .index object property => .memberExpression object.node property.node true
  | .binary _ left right | .logical _ left right => .binaryExpression left.node right.node
  | .unary _ argument => .unaryExpression argument.node
  | .conditional test consequent alternate =>
    .conditionalExpression test.node consequent.node alternate.node
  | .call object method params body =>
    .callExpression (.memberExpression object.node (.identifier method.name) false)
      [arrow params body.node]
  | .reduce object method params body =>
    .callExpression (.memberExpression object.node (.identifier method.name) false)
      [arrow params body.node]
  | .reduceFrom object method params body initial =>
    .callExpression (.memberExpression object.node (.identifier method.name) false)
      [arrow params body.node, initial.node]

mutual

def Statement.node : Statement D → Node
  | .declare _ target init =>
    .variableDeclaration [.variableDeclarator target.node (init.map Expression.node)]
  | .assign name value | .update name _ value =>
    .other [.assignmentExpression (.identifier name) value.node]
  | .evaluate expression => .other [expression.node]
  | .ifThen test consequent => .other [test.node, consequent.node]
  | .ifElse test consequent alternate => .other [test.node, consequent.node, alternate.node]
  | .forOf _ target right body =>
    .forOfStatement (.variableDeclaration [.variableDeclarator target.node none]) right.node body.node
  | .throwing argument => .other [argument.node]
  | .returning argument => .returnStatement (argument.map Expression.node)
  | .block body => .blockStatement (statementNodes body)

def statementNodes : List (Statement D) → List Node
  | [] => []
  | statement :: statements => statement.node :: statementNodes statements

end

/-- The tree of a program in the function that the analyzer wraps around it. -/
def programTree (functionName : JsString) (body : List (Statement D)) : Node :=
  .other [.function .declaration (some functionName) [.identifier (js "env")]
    (.blockStatement (statementNodes body))]

/-! ### Values -/

/-- Data, `env`, a record by its place among the records, or an array of the program. -/
inductive Value (D : Type) where
  | data (d : D)
  | env
  | record (place : Nat)
  | array (elements : List (Value D))

inductive Failure where
  | notDefined (name : JsString)
  | notInitialized (name : JsString)
  | constantAssigned (name : JsString)
  | notIterable
  | notFunction (method : JsString)
  | noInitialValue

/-- What the language does with data; the operators may look at the places of records, not at
their fields. -/
structure Language (D : Type) where
  undefined : D
  string : JsString → D
  number : Nat → D
  bool : Bool → D
  error : Failure → D
  truthy : D → Bool
  nullish : D → Bool
  key : Value D → Except D JsString
  key_string (s : JsString) : key (.data (string s)) = .ok s
  property : D → JsString → Except D D
  /-- What arrays inherit. -/
  arrayProperty : JsString → D
  iterated : D → Option (List D)
  arrayElements : D → Option (List D)
  strictlyEqual : Value D → Value D → Bool
  binary : BinaryOperator → Value D → Value D → Except D D
  minus : Value D → Except D D
  plus : Value D → Except D D

/-- A dataset, the other members of `env`, and the other globals. A record is what a read of each
field gives. -/
structure Context (D : Type) extends Language D where
  records : List (JsString → D)
  input : JsString → D
  globals : List (JsString × D)

/-- Thrown values are those of `throw` and the errors of the language; the trace has the fields of
records that are read. -/
abbrev Evaluation (D A : Type) := Traced (Value D) JsString A

namespace Context

variable (c : Context D)

def truthyValue : Value D → Bool
  | .data d => c.truthy d
  | _ => true

def nullishValue : Value D → Bool
  | .data d => c.nullish d
  | _ => false

def raise {A : Type} (failure : Failure) : Evaluation D A := Traced.fail (.data (c.error failure))

/-- The result of an operation on data. -/
def ofData (result : Except D D) : Evaluation D (Value D) :=
  Traced.ofExcept ((result.map Value.data).mapError Value.data)

def allRecords : Value D := .array ((List.range c.records.length).map Value.record)

def readField (place : Nat) (key : JsString) : D :=
  (c.records[place]?).elim c.undefined fun record => record key

def readProperty : Value D → JsString → Evaluation D (Value D)
  | .data d, key => ofData (c.property d key)
  | .env, key => pure (if key = js "records" then c.allRecords else .data (c.input key))
  | .record place, key => do
    Traced.tell key
    pure (.data (c.readField place key))
  | .array elements, key =>
    match arrayIndex key with
    | some i => pure (elements[i]?.getD (.data c.undefined))
    | none =>
      pure (.data (if key = js "length" then c.number elements.length else c.arrayProperty key))

def toKey (v : Value D) : Evaluation D JsString := Traced.ofExcept ((c.key v).mapError Value.data)

def lookup (scopes : Scopes (Value D)) (name : JsString) : Evaluation D (Value D) :=
  match scopes.lookup name with
  | none => c.raise (.notDefined name)
  | some slot => slot.value.elim (c.raise (.notInitialized name)) pure

def applyBinary : BinaryOperator → Value D → Value D → Evaluation D (Value D)
  | .strictEqual, v, w => pure (.data (c.bool (c.strictlyEqual v w)))
  | .strictNotEqual, v, w => pure (.data (c.bool (!c.strictlyEqual v w)))
  | operator, v, w => ofData (c.binary operator v w)

def applyUnary : UnaryOperator → Value D → Evaluation D (Value D)
  | .not, v => pure (.data (c.bool (!c.truthyValue v)))
  | .minus, v => ofData (c.minus v)
  | .plus, v => ofData (c.plus v)

/-- Whether the left operand is the result. -/
def decides : LogicalOperator → Value D → Bool
  | .and, v => !c.truthyValue v
  | .or, v => c.truthyValue v
  | .coalesce, v => !c.nullishValue v

/-! ### Binding of names -/

/-- The values of the names of a target. -/
def bindTarget : Target → Value D → Evaluation D (List (JsString × Value D))
  | .identifier name, v => pure [(name, v)]
  | .object first rest, v => Traced.each (fun (key, name) => do
      let field ← c.readProperty v key
      pure (name, field)) (first :: rest)

/-- A parameter without an argument is `undefined`. -/
def bindParams : List Target → List (Value D) → Evaluation D (List (JsString × Value D))
  | [], _ => pure []
  | param :: params, arguments => do
    let bound ← c.bindTarget param (arguments.headD (.data c.undefined))
    let others ← bindParams params arguments.tail
    pure (bound ++ others)

/-! ### Array methods -/

/-- The elements of the array whose method is called. -/
def receive (receiver : Value D) (method : JsString) : Evaluation D (List (Value D)) := do
  let _ ← c.readProperty receiver method
  match receiver with
  | .array elements => pure elements
  | .data d =>
    match c.arrayElements d with
    | some ds => pure (ds.map Value.data)
    | none => c.raise (.notFunction method)
  | _ => c.raise (.notFunction method)

/-- The first element from `place` on for which the callback gives a value of this truth. -/
def search (callback : Value D → Nat → Evaluation D (Value D)) (wanted : Bool) :
    List (Value D) → Nat → Evaluation D (Option (Value D × Nat))
  | [], _ => pure none
  | v :: vs, place => do
    let result ← callback v place
    if c.truthyValue result = wanted then pure (some (v, place))
    else search callback wanted vs (place + 1)

/-- Arrays are taken apart, other values are kept. -/
def flattened : Value D → List (Value D)
  | .array elements => elements
  | .data d => ((c.arrayElements d).map (·.map Value.data)).getD [.data d]
  | v => [v]

def callMethod (callback : Value D → Nat → Evaluation D (Value D)) (elements : List (Value D)) :
    ArrayMethod → Evaluation D (Value D)
  | .map => do
    let results ← Traced.each (fun (v, place) => callback v place) elements.zipIdx
    pure (.array results)
  | .forEach => do
    let _ ← Traced.each (fun (v, place) => callback v place) elements.zipIdx
    pure (.data c.undefined)
  | .filter => do
    let results ← Traced.each (fun (v, place) => do
      let result ← callback v place
      pure (if c.truthyValue result then [v] else [])) elements.zipIdx
    pure (.array results.flatten)
  | .find => do
    let found ← c.search callback true elements 0
    pure (found.elim (.data c.undefined) Prod.fst)
  | .some => do
    let found ← c.search callback true elements 0
    pure (.data (c.bool found.isSome))
  | .every => do
    let found ← c.search callback false elements 0
    pure (.data (c.bool found.isNone))
  | .flatMap => do
    let results ← Traced.each (fun (v, place) => callback v place) elements.zipIdx
    pure (.array (results.flatMap c.flattened))
  | .findIndex => do
    let found ← c.search callback true elements 0
    -- the index of none is not a natural number
    found.elim (ofData (c.minus (.data (c.number 1)))) fun entry =>
      pure (.data (c.number entry.2))

def fold (callback : Value D → Value D → Nat → Evaluation D (Value D)) :
    List (Value D × Nat) → Value D → Evaluation D (Value D)
  | [], accumulator => pure accumulator
  | (v, place) :: rest, accumulator => do
    let next ← callback accumulator v place
    fold callback rest next

/-- The elements in the order of the method. -/
def inOrder (elements : List (Value D)) : ReduceMethod → List (Value D × Nat)
  | .reduce => elements.zipIdx
  | .reduceRight => elements.zipIdx.reverse

/-! ### Expressions -/

def eval : Expression D → Scopes (Value D) → Evaluation D (Value D)
  | .string value, _ => pure (.data (c.string value))
  | .literal value, _ => pure (.data value)
  | .identifier name, scopes => c.lookup scopes name
  | .member object name, scopes => do
    let v ← eval object scopes
    c.readProperty v name
  | .index object property, scopes => do
    let v ← eval object scopes
    let w ← eval property scopes
    let key ← c.toKey w
    c.readProperty v key
  | .binary operator left right, scopes => do
    let v ← eval left scopes
    let w ← eval right scopes
    c.applyBinary operator v w
  | .logical operator left right, scopes => do
    let v ← eval left scopes
    if c.decides operator v then pure v else eval right scopes
  | .unary operator argument, scopes => do
    let v ← eval argument scopes
    c.applyUnary operator v
  | .conditional test consequent alternate, scopes => do
    let v ← eval test scopes
    if c.truthyValue v then eval consequent scopes else eval alternate scopes
  | .call object method params body, scopes => do
    let receiver ← eval object scopes
    let elements ← c.receive receiver method.name
    c.callMethod (fun v place => do
      let bound ← c.bindParams params [v, .data (c.number place), receiver]
      eval body (Scopes.bind bound ++ scopes)) elements method
  | .reduce object method params body, scopes => do
    let receiver ← eval object scopes
    let elements ← c.receive receiver method.name
    match inOrder elements method with
    | [] => c.raise .noInitialValue
    | (first, _) :: rest =>
      fold (fun accumulator v place => do
        let bound ← c.bindParams params [accumulator, v, .data (c.number place), receiver]
        eval body (Scopes.bind bound ++ scopes)) rest first
  | .reduceFrom object method params body initial, scopes => do
    let receiver ← eval object scopes
    let start ← eval initial scopes
    let elements ← c.receive receiver method.name
    fold (fun accumulator v place => do
      let bound ← c.bindParams params [accumulator, v, .data (c.number place), receiver]
      eval body (Scopes.bind bound ++ scopes)) (inOrder elements method) start

/-! ### Statements -/

/-- Slots for the names of a `let` or `const`. -/
def declaredSlots (kind : DeclarationKind) (target : Target) : Scopes (Value D) :=
  if kind = .var then [] else target.names.map fun name => ⟨name, kind = .constant, none⟩

/-- The names that a statement declares in its own block. -/
def lexicalSlots : Statement D → Scopes (Value D)
  | .declare kind target _ => declaredSlots kind target
  | _ => []

mutual

/-- The names that `var` declares in a statement. -/
def varNames : Statement D → List JsString
  | .declare .var target _ => target.names
  | .ifThen _ consequent => varNames consequent
  | .ifElse _ consequent alternate => varNames consequent ++ varNames alternate
  | .forOf .var target _ body => target.names ++ varNames body
  | .forOf _ _ _ body => varNames body
  | .block body => allVarNames body
  | _ => []

def allVarNames : List (Statement D) → List JsString
  | [] => []
  | statement :: statements => varNames statement ++ allVarNames statements

end

/-- `none` goes on, `some v` returns `v`. -/
abbrev Completion (D : Type) := Scopes (Value D) × Option (Value D)

def assignTo (scopes : Scopes (Value D)) (name : JsString) (v : Value D) :
    Evaluation D (Completion D) :=
  match scopes.lookup name with
  | none => c.raise (.notDefined name)
  | some slot =>
    if slot.value.isNone then c.raise (.notInitialized name)
    else if slot.constant then c.raise (.constantAssigned name)
    else pure (scopes.store name v, none)

/-- The values that `for … of` goes through. -/
def iterate : Value D → Evaluation D (List (Value D))
  | .array elements => pure elements
  | .data d => (c.iterated d).elim (c.raise .notIterable) fun ds => pure (ds.map Value.data)
  | _ => c.raise .notIterable

def loop (body : Value D → Scopes (Value D) → Evaluation D (Completion D)) :
    List (Value D) → Scopes (Value D) → Evaluation D (Completion D)
  | [], scopes => pure (scopes, none)
  | v :: vs, scopes => do
    let (after, returned) ← body v scopes
    match returned with
    | some result => pure (after, some result)
    | none => loop body vs after

mutual

def exec : Statement D → Scopes (Value D) → Evaluation D (Completion D)
  | .declare kind target none, scopes =>
    pure (if kind = .var then scopes
      else scopes.storeAll (target.names.map fun name => (name, .data c.undefined)), none)
  | .declare _ target (some init), scopes => do
    let v ← c.eval init scopes
    let bound ← c.bindTarget target v
    pure (scopes.storeAll bound, none)
  | .assign name value, scopes => do
    let v ← c.eval value scopes
    c.assignTo scopes name v
  | .update name operator value, scopes => do
    let v ← c.lookup scopes name
    let w ← c.eval value scopes
    let result ← c.applyBinary operator v w
    c.assignTo scopes name result
  | .evaluate expression, scopes => do
    let _ ← c.eval expression scopes
    pure (scopes, none)
  | .ifThen test consequent, scopes => do
    let v ← c.eval test scopes
    if c.truthyValue v then exec consequent scopes else pure (scopes, none)
  | .ifElse test consequent alternate, scopes => do
    let v ← c.eval test scopes
    if c.truthyValue v then exec consequent scopes else exec alternate scopes
  | .forOf kind target right body, scopes => do
    let slots := declaredSlots kind target
    let v ← c.eval right (slots ++ scopes)
    let elements ← c.iterate v
    loop (fun element scopes => do
      let bound ← c.bindTarget target element
      let (after, returned) ← exec body (Scopes.storeAll bound (slots ++ scopes))
      pure (after.drop slots.length, returned)) elements scopes
  | .throwing argument, scopes => do
    let v ← c.eval argument scopes
    Traced.fail v
  | .returning argument, scopes => do
    let v ← argument.elim (pure (.data c.undefined)) fun e => c.eval e scopes
    pure (scopes, some v)
  | .block body, scopes => do
    let slots := body.flatMap lexicalSlots
    let (after, returned) ← execAll body (slots ++ scopes)
    pure (after.drop slots.length, returned)

def execAll : List (Statement D) → Scopes (Value D) → Evaluation D (Completion D)
  | [], scopes => pure (scopes, none)
  | statement :: statements, scopes => do
    let (after, returned) ← exec statement scopes
    match returned with
    | some result => pure (after, some result)
    | none => execAll statements after

end

/-- The variables that a program starts with: its own, `env`, and the globals. -/
def initialScopes (body : List (Statement D)) : Scopes (Value D) :=
  Scopes.bind (((allVarNames body).filter (· ≠ js "env")).map fun name =>
      (name, .data c.undefined)) ++
    Scopes.bind ((js "env", .env) :: (js "records", c.allRecords) ::
      c.globals.map fun (name, d) => (name, .data d))

/-- The returned value, or the thrown one. -/
def run (body : List (Statement D)) : Evaluation D (Value D) := do
  let (_, returned) ← c.exec (.block body) (c.initialScopes body)
  pure (returned.getD (.data c.undefined))

end Context

/-! ### Texts and JSON values -/

/-- Comparison of texts and reads of members; operators on numbers fail. -/
def textLanguage : Language JsValue where
  undefined := .undefined
  string := .str
  number n := .num (.finite (Decimal.normalize n 0))
  bool := .bool
  error
    | .notDefined name => .str (name ++ js " is not defined")
    | .notInitialized name => .str (js "Cannot access '" ++ name ++ js "' before initialization")
    | .constantAssigned _ => .str (js "Assignment to constant variable.")
    | .notIterable => .str (js "value is not iterable")
    | .notFunction method => .str (method ++ js " is not a function")
    | .noInitialValue => .str (js "Reduce of empty array with no initial value")
  truthy := truthy
  nullish
    | .undefined | .null => true
    | _ => false
  key
    | .data (.str s) => .ok s
    | .data (.num (.finite d)) => .ok (ofText (numberText d))
    | _ => .error (.str (js "no key"))
  key_string _ := rfl
  property
    | .obj members, key => .ok (property key members)
    | .undefined, _ | .null, _ => .error (.str (js "Cannot read properties"))
    | _, _ => .ok .undefined
  arrayProperty _ := .undefined
  iterated
    | .arr elements => some elements
    | _ => none
  arrayElements
    | .arr elements => some elements
    | _ => none
  strictlyEqual
    | .data (.str s), .data (.str t) => s = t
    | .record i, .record j => i = j
    | _, _ => false
  binary _ _ _ := .error (.str (js "no operator"))
  minus _ := .error (.str (js "no operator"))
  plus _ := .error (.str (js "no operator"))

def jsonContext (records : List JsValue) : Context JsValue where
  toLanguage := textLanguage
  records := records.map fun record key => member key record
  input _ := .undefined
  globals := [(js "undefined", .undefined)]

end NeuralMesh.Security
