import NeuralMesh.Server.AggregationPolicy
import NeuralMesh.Worker.LogicExecution

/-! The policy of a tool and the check of its output: the declared schema, then the
aggregation policy. What Zod answers is a parameter of each schema. -/
namespace NeuralMesh.Server

open Js Worker

structure ZodIssue where
  path : List JsString
  message : JsString

abbrev SafeParse := JsValue → Except (List ZodIssue) Unit

/-- What an object schema has besides: `strict()`, and its catch-all, which may be `ZodNever`. -/
structure ZodObject where
  strict : SafeParse
  catchallIsNever : Option Bool

structure ZodSchema where
  safeParse : SafeParse
  object : Option ZodObject

/-- Strict, unless the schema has an explicit catch-all. -/
def effectiveSchema (outputSchema : ZodSchema) : SafeParse :=
  match outputSchema.object with
  | none => outputSchema.safeParse
  | some obj => if obj.catchallIsNever = some false then outputSchema.safeParse else obj.strict

def accepts (outputSchema : ZodSchema) (v : JsValue) : Prop :=
  effectiveSchema outputSchema v = .ok ()

/-- An absent path is the empty string, absent lists are empty. -/
structure LogicExecutionPolicy where
  outputSchema : Option ZodSchema
  enforceAggregationFirst : Option AggregationFirst
  preflightDenyPatterns : List (Text → Bool)
  dpEpsilon : Option JsNumber
  dpSensitivity : Option JsNumber
  dpSmallDatasetThreshold : Option JsNumber
  queryBudgetPerField : Option Nat
  sensitiveKeys : List JsString
  budgetStorePath : JsString

def LogicExecutionPolicy.dpConfig (policy : LogicExecutionPolicy) : DpConfig where
  epsilon := policy.dpEpsilon.getD (.finite (Decimal.normalize 1 0))
  sensitivity := policy.dpSensitivity.getD (.finite (Decimal.normalize 1 0))
  smallDatasetThreshold := policy.dpSmallDatasetThreshold.getD (.finite (Decimal.normalize 50 0))

def joinWith (separator : JsString) : List JsString → JsString
  | [] => []
  | [t] => t
  | t :: ts => t ++ separator ++ joinWith separator ts

def issueText (i : ZodIssue) : JsString :=
  let path := joinWith (js ".") i.path
  (if path = [] then js "<root>" else path) ++ js " " ++ i.message

def schemaViolation (toolName : JsString) (issues : List ZodIssue) : JsString :=
  js "[LIOP] Output schema violation for " ++ toolName ++ js ": " ++
    joinWith (js "; ") (issues.map issueText) ++
    js ". HINT: Your output must conform to the declared schema. Use 'env.records' to access the dataset and return only allowed fields."

def aggregationViolation (isDev : Bool) : JsString :=
  if isDev then js "Aggregation-First Policy Violation: row-level export or K-Anonymity violation blocked. HINT: Use .reduce() to produce a flat \x7bkey:value\x7d object. Do NOT use .map() to create arrays of objects. Ensure dataset size > 10 for detailed results."
  else js "Aggregation-First Policy Violation: Output blocked due to privacy constraints."

/-- `parsed.isError === true` -/
def isErrorResult (parsed : JsValue) : Bool :=
  match member (js "isError") parsed with
  | .bool b => b
  | _ => false

/-- The server's environment: development messages, and the number of its records. -/
structure ServerEnv where
  isDev : Bool
  recordsCount : Nat

/-- The message of a violation; `none` is the result `null`. -/
def validateOutputPolicy (env : ServerEnv) (toolName : JsString) (output : JsValue)
    (policy : Option LogicExecutionPolicy) : Option JsString :=
  match policy with
  | none => none
  | some policy =>
    let parsed := parseUnknownJson output
    -- an object that looks like a failed tool call skips the schema and the aggregation check
    if isErrorResult parsed then none
    else
      match policy.outputSchema.map (effectiveSchema · parsed) with
      | some (.error issues) => some (schemaViolation toolName issues)
      | _ =>
        if violatesAggregationFirstPolicy policy.enforceAggregationFirst env.recordsCount
            (unwrapForAggregationPolicyScan parsed) then some (aggregationViolation env.isDev)
        else none

/-- What an output without a violation has passed. -/
theorem validateOutputPolicy_none {env : ServerEnv} {toolName : JsString} {output : JsValue}
    {policy : LogicExecutionPolicy} :
    validateOutputPolicy env toolName output (some policy) = none ↔
      isErrorResult (parseUnknownJson output) = true ∨
        (∀ schema, policy.outputSchema = some schema → accepts schema (parseUnknownJson output)) ∧
          violatesAggregationFirstPolicy policy.enforceAggregationFirst env.recordsCount
            (unwrapForAggregationPolicyScan output) = false := by
  simp only [validateOutputPolicy, unwrap_parseUnknownJson]
  by_cases failed : isErrorResult (parseUnknownJson output) = true
  · simp [failed]
  · rw [if_neg failed]
    cases schema : policy.outputSchema with
    | none => simp [failed]
    | some declared =>
      cases result : effectiveSchema declared (parseUnknownJson output) with
      | error issues => simp [failed, accepts, result]
      | ok => simp [failed, accepts, result]

end NeuralMesh.Server
