import NeuralMesh.Security.EsTree
import NeuralMesh.Js.Double

/-! The taint analysis of a program: the variables that hold records, the variables that hold what
is derived from forbidden fields, and the returned expressions. -/
namespace NeuralMesh.Security

open Js

/-- A `Set` of names. -/
abbrev Names := List JsString

/-! ### Names of methods -/

def TAINT_PROPAGATING_METHODS : Names :=
  ["charCodeAt", "codePointAt", "charAt", "at", "indexOf", "lastIndexOf", "search",
    "localeCompare", "startsWith", "endsWith", "includes", "substring", "slice", "substr", "split",
    "match", "matchAll", "replace", "replaceAll", "normalize", "toLowerCase", "toUpperCase",
    "trim", "trimStart", "trimEnd", "padStart", "padEnd", "repeat"].map js

def ARRAY_CALLBACK_METHODS : Names :=
  ["map", "forEach", "filter", "find", "some", "every", "flatMap", "findIndex"].map js

def REDUCE_METHODS : Names := ["reduce", "reduceRight"].map js

def SAFE_GLOBALS : Names :=
  ["Math", "Number", "parseInt", "parseFloat", "isNaN", "isFinite"].map js

/-! ### Property names and `env.records` -/

/-- The name after the dot, or the text in the brackets. -/
def getPropertyName : (property : Node) → (computed : Bool) → Option JsString
  | .identifier name, false => some name
  | .literal value, true => value
  | _, _ => none

/-- An empty name counts as none. -/
def propertyName (property : Node) (computed : Bool) : Option JsString :=
  (getPropertyName property computed).filter (· ≠ [])

def isEnvRecordsAccess : Node → Bool
  | .memberExpression (.identifier name) property computed =>
    getPropertyName property computed = some (js "records") ∧ name = js "env"
  | .identifier name => name = js "records"
  | _ => false

def Node.identifier? : Node → Option JsString
  | .identifier name => some name
  | _ => none

/-! ### Pass 1 -/

/-- The record parameter of a callback of `env.records`. -/
def callbackParam (methodName : JsString) (params : List Node) : Names :=
  (if methodName ∈ ARRAY_CALLBACK_METHODS then params[0]?.bind Node.identifier? else none).toList ++
  (if methodName ∈ REDUCE_METHODS then params[1]?.bind Node.identifier? else none).toList

def declaredNames (declarations : List Node) : Names :=
  declarations.filterMap fun
    | .variableDeclarator id _ => id.identifier?
    | _ => none

/-- The names that a visited node binds to records. -/
def boundNames : Node → Names
  | .callExpression (.memberExpression object property computed) (.function kind _ params _ :: _) =>
    match propertyName property computed with
    | some methodName =>
      if isEnvRecordsAccess object ∧ kind ≠ .declaration then callbackParam methodName params else []
    | none => []
  | .forOfStatement (.variableDeclaration declarations) right _ =>
    if isEnvRecordsAccess right then declaredNames declarations else []
  | .variableDeclarator (.identifier name) (some (.memberExpression object _ true)) =>
    if isEnvRecordsAccess object then [name] else []
  | _ => []

def identifyRecordBoundVars (ast : Node) : Names :=
  (visited ast).flatMap boundNames

/-! ### Tainted expressions -/

section Taint

variable (piiFields : JsString → Bool)

/-- `recordBoundVars` with the record parameter of the callback. -/
def scopedRecordVars (params : List Node) (methodName : Option JsString)
    (recordBoundVars : Names) : Names :=
  let recordParamIndex := if methodName.any (· ∈ REDUCE_METHODS) then 1 else 0
  (params[recordParamIndex]?.bind Node.identifier?).toList ++ recordBoundVars

/-- The cases of a member expression that do not look into the value of its object. -/
def readsForbidden (object property : Node) (computed : Bool) (recordBoundVars : Names) : Bool :=
  match object with
  | .identifier name =>
    name ∈ recordBoundVars && ((propertyName property computed).any piiFields ||
      computed && (getPropertyName property computed).any piiFields)
  | .memberExpression records _ true =>
    (propertyName property computed).any piiFields && isEnvRecordsAccess records
  | _ => false

def Node.isBlock : Node → Bool
  | .blockStatement _ => true
  | _ => false

def isCallback : List Node → Bool
  | .function kind _ _ _ :: _ => kind ≠ .declaration
  | _ => false

mutual

def isExpressionTainted : Node → (recordBoundVars taintedVars : Names) → Bool
  | .identifier name, _, taintedVars => name ∈ taintedVars
  | .memberExpression object property computed, recordBoundVars, taintedVars =>
    readsForbidden piiFields object property computed recordBoundVars ||
      isExpressionTainted object recordBoundVars taintedVars
  | .callExpression (.memberExpression object property computed) arguments, recordBoundVars,
      taintedVars =>
    let methodName := getPropertyName property computed
    if (propertyName property computed).any (· ∈ TAINT_PROPAGATING_METHODS) &&
        isExpressionTainted object recordBoundVars taintedVars then true
    else if isEnvRecordsAccess object && isCallback arguments then
      firstProducesTaint arguments methodName recordBoundVars taintedVars
    else isExpressionTainted object recordBoundVars taintedVars ||
      anyTainted arguments recordBoundVars taintedVars
  | .callExpression (.identifier fnName) arguments, recordBoundVars, taintedVars =>
    fnName ∈ taintedVars ||
      fnName ∉ SAFE_GLOBALS && anyTainted arguments recordBoundVars taintedVars
  | .yieldExpression argument, recordBoundVars, taintedVars =>
    isOptionTainted argument recordBoundVars taintedVars
  | .function .declaration _ _ _, _, _ => false
  | .function kind _ params body, recordBoundVars, taintedVars =>
    let inner := scopedRecordVars params none recordBoundVars
    if kind = .arrow && !body.isBlock then isExpressionTainted body inner taintedVars
    else returnsTaint body inner taintedVars
  | .binaryExpression left right, recordBoundVars, taintedVars =>
    isExpressionTainted left recordBoundVars taintedVars ||
      isExpressionTainted right recordBoundVars taintedVars
  | .unaryExpression argument, recordBoundVars, taintedVars =>
    isExpressionTainted argument recordBoundVars taintedVars
  | .conditionalExpression test consequent alternate, recordBoundVars, taintedVars =>
    isExpressionTainted test recordBoundVars taintedVars ||
      isExpressionTainted consequent recordBoundVars taintedVars ||
      isExpressionTainted alternate recordBoundVars taintedVars
  | .objectExpression properties, recordBoundVars, taintedVars =>
    anyPropertyTainted properties recordBoundVars taintedVars
  | .arrayExpression elements, recordBoundVars, taintedVars =>
    anyTainted elements recordBoundVars taintedVars
  | .templateLiteral expressions, recordBoundVars, taintedVars =>
    anyTainted expressions recordBoundVars taintedVars
  | .spreadElement argument, recordBoundVars, taintedVars =>
    isExpressionTainted argument recordBoundVars taintedVars
  | _, _, _ => false

def anyTainted : List Node → (recordBoundVars taintedVars : Names) → Bool
  | [], _, _ => false
  | node :: nodes, recordBoundVars, taintedVars =>
    isExpressionTainted node recordBoundVars taintedVars ||
      anyTainted nodes recordBoundVars taintedVars

def isOptionTainted : Option Node → (recordBoundVars taintedVars : Names) → Bool
  | none, _, _ => false
  | some node, recordBoundVars, taintedVars => isExpressionTainted node recordBoundVars taintedVars

def anyPropertyTainted : List Node → (recordBoundVars taintedVars : Names) → Bool
  | [], _, _ => false
  | .property _ value _ :: nodes, recordBoundVars, taintedVars =>
    isExpressionTainted value recordBoundVars taintedVars ||
      anyPropertyTainted nodes recordBoundVars taintedVars
  | _ :: nodes, recordBoundVars, taintedVars => anyPropertyTainted nodes recordBoundVars taintedVars

/-- `doesCallbackProduceTaint` of the first argument. -/
def firstProducesTaint : List Node → (methodName : Option JsString) →
    (recordBoundVars taintedVars : Names) → Bool
  | .function kind _ params body :: _, methodName, recordBoundVars, taintedVars =>
    let inner := scopedRecordVars params methodName recordBoundVars
    if kind = .arrow && !body.isBlock then isExpressionTainted body inner taintedVars
    else returnsTaint body inner taintedVars
  | _, _, _, _ => false

/-- Whether a `return` or a `yield` that the walk visits has a tainted argument. -/
def returnsTaint : Node → (recordBoundVars taintedVars : Names) → Bool
  | .identifier _, _, _ | .literal _, _, _ => false
  | .memberExpression object property computed, recordBoundVars, taintedVars =>
    returnsTaint object recordBoundVars taintedVars ||
      computed && returnsTaint property recordBoundVars taintedVars
  | .callExpression callee arguments, recordBoundVars, taintedVars =>
    returnsTaint callee recordBoundVars taintedVars ||
      anyReturnsTaint arguments recordBoundVars taintedVars
  | .function _ _ params body, recordBoundVars, taintedVars =>
    anyReturnsTaint params recordBoundVars taintedVars ||
      returnsTaint body recordBoundVars taintedVars
  | .yieldExpression argument, recordBoundVars, taintedVars
  | .returnStatement argument, recordBoundVars, taintedVars =>
    optionReturnsTaint argument recordBoundVars taintedVars ||
      isOptionTainted argument recordBoundVars taintedVars
  | .binaryExpression left right, recordBoundVars, taintedVars
  | .assignmentExpression left right, recordBoundVars, taintedVars =>
    returnsTaint left recordBoundVars taintedVars ||
      returnsTaint right recordBoundVars taintedVars
  | .unaryExpression argument, recordBoundVars, taintedVars
  | .spreadElement argument, recordBoundVars, taintedVars =>
    returnsTaint argument recordBoundVars taintedVars
  | .conditionalExpression first second third, recordBoundVars, taintedVars
  | .forOfStatement first second third, recordBoundVars, taintedVars =>
    returnsTaint first recordBoundVars taintedVars ||
      returnsTaint second recordBoundVars taintedVars ||
      returnsTaint third recordBoundVars taintedVars
  | .property key value computed, recordBoundVars, taintedVars =>
    computed && returnsTaint key recordBoundVars taintedVars ||
      returnsTaint value recordBoundVars taintedVars
  | .variableDeclarator id init, recordBoundVars, taintedVars =>
    returnsTaint id recordBoundVars taintedVars ||
      optionReturnsTaint init recordBoundVars taintedVars
  | .objectExpression nodes, recordBoundVars, taintedVars
  | .arrayExpression nodes, recordBoundVars, taintedVars
  | .templateLiteral nodes, recordBoundVars, taintedVars
  | .variableDeclaration nodes, recordBoundVars, taintedVars
  | .blockStatement nodes, recordBoundVars, taintedVars
  | .other nodes, recordBoundVars, taintedVars =>
    anyReturnsTaint nodes recordBoundVars taintedVars

def anyReturnsTaint : List Node → (recordBoundVars taintedVars : Names) → Bool
  | [], _, _ => false
  | node :: nodes, recordBoundVars, taintedVars =>
    returnsTaint node recordBoundVars taintedVars ||
      anyReturnsTaint nodes recordBoundVars taintedVars

def optionReturnsTaint : Option Node → (recordBoundVars taintedVars : Names) → Bool
  | none, _, _ => false
  | some node, recordBoundVars, taintedVars => returnsTaint node recordBoundVars taintedVars

end

/-! ### Pass 2 -/

/-- The names that a visited node taints. -/
def newlyTainted (recordBoundVars taintedVars : Names) : Node → Names
  | .variableDeclarator (.identifier name) (some init) =>
    if isExpressionTainted piiFields init recordBoundVars taintedVars then [name] else []
  | .assignmentExpression (.identifier name) right =>
    if isExpressionTainted piiFields right recordBoundVars taintedVars then [name] else []
  | .function .declaration (some name) params body =>
    if firstProducesTaint piiFields [.function .declaration (some name) params body] none
      recordBoundVars taintedVars then [name] else []
  | .callExpression (.memberExpression (.identifier name) property computed) arguments =>
    if getPropertyName property computed = some (js "push") ∧
      anyTainted piiFields arguments recordBoundVars taintedVars then [name] else []
  | _ => []

/-- One walk over the program. -/
def taintPass (recordBoundVars : Names) (nodes : List Node) (taintedVars : Names) : Names :=
  nodes.foldl (fun vars node => (newlyTainted piiFields recordBoundVars vars node).foldl setAdd vars)
    taintedVars

/-- At most so many walks; one that finds nothing new is the last. -/
def taintPasses (recordBoundVars : Names) (nodes : List Node) : Nat → Names → Names
  | 0, taintedVars => taintedVars
  | iterations + 1, taintedVars =>
    let after := taintPass piiFields recordBoundVars nodes taintedVars
    if after.length = taintedVars.length then after
    else taintPasses recordBoundVars nodes iterations after

def propagateTaint (ast : Node) (recordBoundVars : Names) : Names :=
  taintPasses piiFields recordBoundVars (visited ast) 3 []

/-! ### Pass 3 -/

def taintedKey (recordBoundVars taintedVars : Names) : Node → Option JsString
  | .property key value _ =>
    if isExpressionTainted piiFields value recordBoundVars taintedVars then
      some (key.identifier?.getD (js "unknown"))
    else none
  | _ => none

def describeTaintSource (node : Node) (recordBoundVars taintedVars : Names) : Option JsString :=
  match node with
  | .identifier name =>
    if name ∈ taintedVars then some (js "variable '" ++ name ++ js "' is PII-derived") else none
  | .objectExpression properties =>
    (properties.findSome? (taintedKey piiFields recordBoundVars taintedVars)).map fun keyName =>
      js "property '" ++ keyName ++ js "' contains PII-derived value"
  | .callExpression (.memberExpression _ property computed) _ =>
    (propertyName property computed).map fun methodName =>
      js "result of ." ++ methodName ++ js "() on PII data"
  | _ => none

def sideChannelReason (operation : Option JsString) : JsString :=
  js "PII side-channel detected: output contains values derived from restricted fields. " ++
    (operation.elim [] fun text => js "Operation: " ++ text ++ js ". ") ++
    js "Use only non-PII fields (e.g., numeric/date columns) for aggregations."

def returnViolation (recordBoundVars taintedVars : Names) : Node → Option JsString
  | .returnStatement (some argument) =>
    if isExpressionTainted piiFields argument recordBoundVars taintedVars then
      some (sideChannelReason (describeTaintSource piiFields argument recordBoundVars taintedVars))
    else none
  | _ => none

/-- The reason of the first violation. -/
def checkReturnStatements (ast : Node) (recordBoundVars taintedVars : Names) : Option JsString :=
  (visited ast).findSome? (returnViolation piiFields recordBoundVars taintedVars)

end Taint

/-! ### Pass 4 -/

def isEnvRecordsChain : Node → Bool
  | .callExpression (.memberExpression object property computed) _ =>
    (propertyName property computed).any (· ∈ ["slice", "filter", "toSorted"].map js) &&
      isEnvRecordsChain object
  | node => isEnvRecordsAccess node

/-- The field that a visited node reads of the named variable. -/
def fieldRead (paramName : JsString) : Node → Option JsString
  | .memberExpression (.identifier name) property computed =>
    if name = paramName then (propertyName property computed).filter (· ≠ js "length") else none
  | _ => none

def extractFieldsFromBody (body : Node) (paramName : JsString) : Names :=
  (visited body).filterMap (fieldRead paramName)

/-- The fields that a visited aggregation reads, each as often as it reads them. -/
def aggregatedFields : Node → Names
  | .callExpression (.memberExpression object property computed)
      (.function kind _ params body :: _) =>
    if (propertyName property computed).any (· ∈ REDUCE_METHODS) && isEnvRecordsChain object &&
        kind ≠ .declaration then
      let recordParam := if 1 < params.length then params[1]? else params[0]?
      (recordParam.bind Node.identifier?).elim [] (extractFieldsFromBody body)
    else []
  | _ => []

def correlationReason (field : JsString) (count : Nat) : JsString :=
  js "Correlation guard: " ++ ofText (natText count) ++ js " aggregations detected on field '" ++
    field ++ js "'. " ++
    js "Multiple correlated aggregations on the same field can enable differencing attacks. " ++
    js "Use a single aggregation per numeric field, or increase dataset size above 50 records."

/-- The first field, in the order in which the fields are met, that is met twice. -/
def detectCorrelatedAggregations (ast : Node) : Option JsString :=
  let fields := (visited ast).flatMap aggregatedFields
  (fields.find? fun field => 2 ≤ fields.count field).map fun field =>
    correlationReason field (fields.count field)

/-! ### Pass 5 -/

def isRecordsMapCall : Node → Bool
  | .callExpression (.memberExpression object property computed) _ =>
    propertyName property computed = some (js "map") && isEnvRecordsChain object
  | _ => false

def isSpreadOfRecords : Node → Bool
  | .spreadElement argument => isRecordsMapCall argument
  | _ => false

def extremaReason (method : JsString) : JsString :=
  js "Min/Max gate: Math." ++ method ++
    js "() on individual records blocked for small datasets (n < 50). " ++
    js "Use avg/stddev/count for privacy-safe aggregations."

def sortReason : JsString :=
  js "Min/Max gate: .sort()[index] on individual records blocked for small datasets (n < 50). " ++
    js "Use avg/stddev/count for privacy-safe aggregations."

def minMaxViolation : Node → Option JsString
  | .callExpression (.memberExpression (.identifier name) property computed) arguments =>
    (propertyName property computed).bind fun method =>
      if name = js "Math" ∧ method ∈ ["min", "max"].map js ∧ arguments.any isSpreadOfRecords then
        some (extremaReason method)
      else none
  | .memberExpression (.callExpression (.memberExpression sortTarget property computed) _) _ true =>
    if (propertyName property computed).any (· ∈ ["sort", "toSorted"].map js) &&
        isEnvRecordsChain sortTarget then some sortReason
    else none
  | _ => none

def detectMinMaxExtraction (ast : Node) : Option JsString :=
  (visited ast).findSome? minMaxViolation

/-! ### The analyzer -/

/-- `recordCount < minMaxBlockThreshold` -/
def isBelow (recordCount : Nat) : JsNumber → Bool
  | .finite d => 0 ≤ d.coefficient && recordCount * (magnitude d).den < (magnitude d).num
  | .nan => false
  | .infinite negative => !negative

def thresholdText : JsNumber → JsString
  | .finite d => ofText (numberText d)
  | .nan => js "NaN"
  | .infinite negative => if negative then js "-Infinity" else js "Infinity"

/-- `replace` with a text: the first place only. -/
def replaceFirst (pattern replacement : JsString) : JsString → JsString
  | [] => if pattern = [] then replacement else []
  | u :: us =>
    if pattern <+: u :: us then replacement ++ (u :: us).drop pattern.length
    else u :: replaceFirst pattern replacement us

section Analyze

variable (piiFields : JsString → Bool)

/-- `analyze` after the parser. -/
def analyzeTree (ast : Node) (recordCount : Nat) (minMaxBlockThreshold : JsNumber) :
    Option JsString :=
  let recordBoundVars := identifyRecordBoundVars ast
  let taintedVars := propagateTaint piiFields ast recordBoundVars
  match checkReturnStatements piiFields ast recordBoundVars taintedVars with
  | some reason => some reason
  | none =>
    if 0 < recordCount && isBelow recordCount minMaxBlockThreshold then
      ((detectCorrelatedAggregations ast).or (detectMinMaxExtraction ast)).map
        (replaceFirst (js "50 records") (thresholdText minMaxBlockThreshold ++ js " records"))
    else none

end Analyze

/-! ### Queried fields -/

/-- The field that a visited node reads of a record. -/
def queriedField (recordBoundVars : Names) : Node → Option JsString
  | .memberExpression object property computed =>
    ((propertyName property computed).filter (· ≠ js "length")).filter fun _ =>
      match object with
      | .identifier name => name ∈ recordBoundVars
      | .memberExpression records _ true => isEnvRecordsAccess records
      | _ => false
  | _ => none

/-- `extractQueriedFields` after the parser; a `Set`, in the order of insertion. -/
def queriedFields (ast : Node) : Names :=
  ((visited ast).filterMap (queriedField (identifyRecordBoundVars ast))).foldl setAdd []

end NeuralMesh.Security
