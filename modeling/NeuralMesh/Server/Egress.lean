import NeuralMesh.Server.OutputPolicy
import NeuralMesh.Server.PiiScanner
import NeuralMesh.Server.SemanticEvidence

/-! What leaves the server: the answer of the gRPC path to a direct output and to a proxied
call, and the result of the local path. -/
namespace NeuralMesh.Server

open Js Codec Worker

/-- The server's environment, its scanner, and `String` of objects and arrays. -/
structure EgressEnv extends ServerEnv where
  scanner : PiiScanner
  display : JsValue → JsString

def namedOrUnknown (toolName : JsString) : JsString :=
  if toolName = [] then js "unknown_tool" else toolName

namespace EgressEnv

variable (env : EgressEnv)

def violatesAggregation (toolPolicy : Option LogicExecutionPolicy) (v : JsValue) : Bool :=
  violatesAggregationFirstPolicy (toolPolicy.bind (·.enforceAggregationFirst)) env.recordsCount v

/-- The checks of `executeLogic` under the policy of the negotiated tool. -/
def grpcEgress (toolName : JsString) (toolPolicy : Option LogicExecutionPolicy) : Egress where
  display := env.display
  validateOutputPolicy validationOutput :=
    (validateOutputPolicy env.toServerEnv (namedOrUnknown toolName) validationOutput toolPolicy).map
      fun policyViolation =>
        if env.isDev then policyViolation
        else js "[LIOP] Egress Security Violation. Output blocked due to policy enforcement."
  isBlocked validationOutput :=
    (env.scanner.scan validationOutput).isSome ||
      env.violatesAggregation toolPolicy (unwrapForAggregationPolicyScan validationOutput)

/-! ### Proxied calls -/

structure ToolRequest where
  name : JsValue
  arguments : JsValue

/-- The call that a proxy request asks for. -/
def toolRequest (decoded : JsValue) : ToolRequest where
  name := member (ofText proxyKey) decoded
  arguments :=
    let args := member (js "__liop_proxy_args") decoded
    if truthy args then args else .obj []

/-- `value.key`; `none` is a `TypeError`. -/
def readMember (key : JsString) : JsValue → Option JsValue
  | .undefined | .null => none
  | v => some (member key v)

/-- `value[0]` -/
def readFirst : JsValue → Option JsValue
  | .undefined | .null => none
  | .arr elements => some (elements.headD .undefined)
  | .str s => some (match s with | [] => .undefined | u :: _ => .str [u])
  | v => some (member (js "0") v)

/-- `toolResult.content[0].text || "Unknown error"` -/
def errorText (display : JsValue → JsString) (toolResult : JsValue) : Option JsString := do
  let content ← readMember (js "content") toolResult
  let part ← readFirst content
  let text ← readMember (js "text") part
  return if truthy text then stringOf display text else js "Unknown error"

/-- The answer to a proxied call; the tool's result is `none` when the call throws. An
exception leaves the worker's output as the value to check. -/
def answerProxied (egress : Egress) (sanitized : JsValue) (toolResult : Option Node) :
    LogicResponse :=
  let caught := answer egress sanitized (stringOf egress.display sanitized)
  match toolResult with
  | none => caught
  | some result =>
    match readMember (js "isError") result.value with
    | none => caught
    | some isError =>
      if truthy isError then
        match errorText egress.display result.value with
        | none => caught
        | some text => ⟨text, true⟩
      else
        let sanitizedToolResult := (sanitizeOutput result).value
        answer egress (unwrapForAggregationPolicyScan sanitizedToolResult)
          (ofText (jsonText sanitizedToolResult))

/-- `executeLogic` from the worker's output on. -/
def executeLogicEgress (toolName : JsString) (toolPolicy : Option LogicExecutionPolicy)
    (callTool : ToolRequest → Option Node) (output : Node) : LogicResponse :=
  let egress := env.grpcEgress toolName toolPolicy
  let sanitized := (sanitizeOutput output).value
  match finalOutput env.display sanitized with
  | .direct text => answer egress sanitized text
  | .proxied decoded => answerProxied egress sanitized (callTool (toolRequest decoded))

/-! ### The local path -/

structure PoolResponse where
  output : Node
  image_id : JsString
  zk_receipt : JsString

structure CallToolResult where
  text : JsString
  isError : Bool

def localViolation : JsString :=
  js "[LIOP] Egress Security Violation. Output blocked due to policy enforcement. Ensure your logic uses strictly aggregated, non-PII patterns."

/-- `executeInWorkerPool` from the worker's response on. -/
def executeInWorkerPool (toolName : JsString) (toolPolicy : Option LogicExecutionPolicy)
    (workerResponse : PoolResponse) : CallToolResult :=
  let sanitizedOutput := (sanitizeOutput workerResponse.output).value
  let textOutput := jsonText (.obj [(js "computation_result", sanitizedOutput),
    (js "image_id", .str workerResponse.image_id),
    (js "zk_receipt", .str workerResponse.zk_receipt),
    (js "status", .str (js "Worker Pool Execution Success"))])
  match validateOutputPolicy env.toServerEnv (namedOrUnknown toolName) sanitizedOutput toolPolicy with
  | some policyViolation => ⟨if env.isDev then policyViolation else localViolation, true⟩
  | none =>
    let violation := env.scanner.scan sanitizedOutput
    let aggregationViolation := env.violatesAggregation toolPolicy sanitizedOutput
    if violation.isSome || aggregationViolation then
      let internalReason := violation.getD
        (js "Aggregation-First Policy Violation: Output blocked due to dynamic flat-key policy enforcement.")
      ⟨if env.isDev then js "[LIOP] Egress Security Violation: " ++ internalReason
        else localViolation, true⟩
    else ⟨ofText textOutput, false⟩

end EgressEnv

/-! ### What is released -/

section Released

variable {env : EgressEnv} {toolName : JsString} {toolPolicy : Option LogicExecutionPolicy}

theorem answer_is_error {egress : Egress} {v : JsValue} {text : JsString} :
    (answer egress v text).is_error = false ↔
      egress.validateOutputPolicy v = none ∧ egress.isBlocked v = false := by
  rw [answer]
  split
  · next refused => simp [refused]
  · next passed =>
    rw [passed]
    split_ifs with blocked
    · simp [blocked]
    · simp [blocked]

/-- The gRPC path releases a value exactly when it passes the three checks. -/
theorem grpc_released {v : JsValue} {text : JsString} :
    (answer (env.grpcEgress toolName toolPolicy) v text).is_error = false ↔
      validateOutputPolicy env.toServerEnv (namedOrUnknown toolName) v toolPolicy = none ∧
        env.scanner.scan v = none ∧
          env.violatesAggregation toolPolicy (unwrapForAggregationPolicyScan v) = false := by
  rw [answer_is_error]
  simp [EgressEnv.grpcEgress]

theorem local_released {workerResponse : EgressEnv.PoolResponse} :
    (env.executeInWorkerPool toolName toolPolicy workerResponse).isError = false ↔
      validateOutputPolicy env.toServerEnv (namedOrUnknown toolName)
          (sanitizeOutput workerResponse.output).value toolPolicy = none ∧
        env.scanner.scan (sanitizeOutput workerResponse.output).value = none ∧
          env.violatesAggregation toolPolicy (sanitizeOutput workerResponse.output).value = false := by
  rw [EgressEnv.executeInWorkerPool]
  split
  · next refused => simp [refused]
  · next passed =>
    rw [passed]
    dsimp only
    split_ifs with blocked
    · simp only [Bool.or_eq_true, Option.isSome_iff_ne_none] at blocked
      simp only [true_and, false_iff, not_and, Bool.not_eq_false]
      intro clean
      exact blocked.resolve_left (not_not.mpr clean)
    · simp only [Bool.or_eq_true, not_or, Bool.not_eq_true, Option.isSome_eq_false_iff,
        Option.isNone_iff_eq_none] at blocked
      simp [blocked]

theorem finalOutput_object (display : JsValue → JsString) {members : Members}
    (plain : truthy (member (ofText proxyKey)
      (asDoubles (settle (transmitted (.obj members))))) = false) :
    finalOutput display (.obj members) = .direct (ofText (jsonText (.obj members))) := by
  have parsed := parseDoubles_jsonText (.obj members)
  simp only [transmitted, settle, asDoubles] at parsed plain
  simp only [finalOutput, serialised, stringify, Option.map_some, wellFormed_ofText, parsed, plain,
    Bool.false_eq_true, if_false]

theorem finalOutput_request (display : JsValue → JsString) {members : Members}
    (request : truthy (member (ofText proxyKey)
      (asDoubles (settle (transmitted (.obj members))))) = true) :
    finalOutput display (.obj members) =
      .proxied (asDoubles (settle (transmitted (.obj members)))) := by
  have parsed := parseDoubles_jsonText (.obj members)
  simp only [transmitted, settle, asDoubles] at parsed request ⊢
  simp only [finalOutput, serialised, stringify, Option.map_some, wellFormed_ofText, parsed, request,
    if_true]

/-- The value of a worker's output is no proxy request. -/
def IsDirect (env : EgressEnv) (output : Node) : Prop :=
  ∃ text, finalOutput env.display (sanitizeOutput output).value = .direct text

theorem direct_response (toolName : JsString) (toolPolicy : Option LogicExecutionPolicy)
    {output : Node} (direct : IsDirect env output)
    (callTool : EgressEnv.ToolRequest → Option Node) :
    ∃ text, env.executeLogicEgress toolName toolPolicy callTool output =
      answer (env.grpcEgress toolName toolPolicy) (sanitizeOutput output).value text := by
  obtain ⟨text, found⟩ := direct
  exact ⟨text, by rw [EgressEnv.executeLogicEgress, found]⟩

end Released

end NeuralMesh.Server
