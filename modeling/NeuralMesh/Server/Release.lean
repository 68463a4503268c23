import NeuralMesh.Server.Egress

/-! What a released output has passed: the two paths compared, the declared schema, and
the parts of a proxied result. -/
namespace NeuralMesh.Server

open Js Worker

variable {env : EgressEnv} {toolName : JsString} {toolPolicy : Option LogicExecutionPolicy}

/-- The schema check of the policy: an error result skips it. -/
def PassesSchema (toolPolicy : Option LogicExecutionPolicy) (v : JsValue) : Prop :=
  isErrorResult (parseUnknownJson v) = true ∨
    ∀ policy ∈ toolPolicy, ∀ schema ∈ policy.outputSchema, accepts schema (parseUnknownJson v)

theorem validateOutputPolicy_of_aggregated (toolName : JsString) {v : JsValue}
    (aggregated : env.violatesAggregation toolPolicy (unwrapForAggregationPolicyScan v) = false) :
    validateOutputPolicy env.toServerEnv toolName v toolPolicy = none ↔
      PassesSchema toolPolicy v := by
  cases toolPolicy with
  | none => simp [validateOutputPolicy, PassesSchema]
  | some policy =>
    rw [validateOutputPolicy_none, PassesSchema]
    simp only [EgressEnv.violatesAggregation, Option.bind_some] at aggregated
    simp [aggregated]

/-! ### Local and gRPC egress -/

/-- The local path blocks no output that the gRPC path releases, except rows that the
unwrapping leaves out. -/
theorem local_block_is_grpc_error_iff {workerResponse : EgressEnv.PoolResponse}
    (direct : IsDirect env workerResponse.output)
    (callTool : EgressEnv.ToolRequest → Option Node) :
    ((env.executeInWorkerPool toolName toolPolicy workerResponse).isError = true →
      (env.executeLogicEgress toolName toolPolicy callTool workerResponse.output).is_error = true) ↔
    (env.violatesAggregation toolPolicy (sanitizeOutput workerResponse.output).value = true →
      env.violatesAggregation toolPolicy
        (unwrapForAggregationPolicyScan (sanitizeOutput workerResponse.output).value) = false →
      env.scanner.scan (sanitizeOutput workerResponse.output).value = none →
      ¬ PassesSchema toolPolicy (sanitizeOutput workerResponse.output).value) := by
  obtain ⟨text, response⟩ := direct_response toolName toolPolicy direct callTool
  rw [response, ← not_imp_not, Bool.not_eq_true, Bool.not_eq_true, grpc_released, local_released]
  constructor
  · intro agree rows unwrapped clean passes
    have valid := (validateOutputPolicy_of_aggregated (namedOrUnknown toolName) unwrapped).mpr
      passes
    have flat := (agree ⟨valid, clean, unwrapped⟩).2.2
    rw [rows] at flat
    cases flat
  · rintro refused ⟨valid, clean, unwrapped⟩
    refine ⟨valid, clean, ?_⟩
    by_contra rows
    exact refused (Bool.not_eq_false _ ▸ rows) unwrapped clean
      ((validateOutputPolicy_of_aggregated _ unwrapped).mp valid)

/-- Without an envelope the two paths agree. -/
theorem bare_output_agrees {workerResponse : EgressEnv.PoolResponse}
    (direct : IsDirect env workerResponse.output)
    (bare : isEnvelope (parseUnknownJson (sanitizeOutput workerResponse.output).value) = false)
    (callTool : EgressEnv.ToolRequest → Option Node)
    (blocked : (env.executeInWorkerPool toolName toolPolicy workerResponse).isError = true) :
    (env.executeLogicEgress toolName toolPolicy callTool workerResponse.output).is_error = true := by
  refine (local_block_is_grpc_error_iff direct callTool).mpr ?_ blocked
  intro rows unwrapped
  rw [EgressEnv.violatesAggregation, violatesAggregationFirstPolicy] at rows unwrapped
  rw [exportsRows_unwrap bare, rows] at unwrapped
  cases unwrapped

/-- A scanner without rules. -/
def openScanner : PiiScanner := ⟨fun _ => none, fun _ => none⟩

theorem scan_openScanner (v : JsValue) : openScanner.scan v = none := by
  induction v using induct_documents with
  | text s absent =>
    rw [scan_text openScanner absent]
    rfl
  | document s v found ih =>
    rw [scan_document openScanner found, ih]
    rfl
  | arr elements ih =>
    rw [scan_arr, List.findSome?_eq_none_iff]
    exact ih
  | obj members ih =>
    rw [scan_obj, List.findSome?_eq_none_iff]
    exact ih
  | _ => simp [PiiScanner.scan]

def openEnv : EgressEnv where
  isDev := false
  recordsCount := 100
  scanner := openScanner
  display := fun _ => js "[object Object]"

/-- The default policy with the aggregation check. -/
def aggregationPolicy : LogicExecutionPolicy where
  outputSchema := none
  enforceAggregationFirst := some (.flag true)
  preflightDenyPatterns := []
  dpEpsilon := none
  dpSensitivity := none
  dpSmallDatasetThreshold := none
  queryBudgetPerField := none
  sensitiveKeys := []
  budgetStorePath := []

/-- Eleven rows beside a computation result. -/
def rowsBesideResult : EgressEnv.PoolResponse where
  output := .branch none false [(js "computation_result", .scalar (.bool true)),
    (js "rows", .branch none true (List.replicate 11 ([], .branch none false [])))]
  image_id := []
  zk_receipt := []

theorem rowsBesideResult_value : (sanitizeOutput rowsBesideResult.output).value =
    .obj [(js "computation_result", .bool true), (js "rows", .arr (List.replicate 11 (.obj [])))] :=
  rfl

theorem rowsBesideResult_direct : IsDirect openEnv rowsBesideResult.output := by
  rw [IsDirect, rowsBesideResult_value]
  exact ⟨_, finalOutput_object _ (by decide)⟩

theorem rowsBesideResult_unwrapped :
    unwrapForAggregationPolicyScan (sanitizeOutput rowsBesideResult.output).value = .bool true := by
  have result : property (js "computation_result") [(js "computation_result", .bool true),
      (js "rows", .arr (List.replicate 11 (.obj [])))] = .bool true := rfl
  rw [rowsBesideResult_value, unwrap_obj, result, if_neg (by decide)]
  exact unwrapForAggregationPolicyScan.eq_3 _ (by simp) (by simp)

theorem rowsBesideResult_rows :
    openEnv.violatesAggregation (some aggregationPolicy)
      (sanitizeOutput rowsBesideResult.output).value = true := by
  have rows (n : Nat) : exportsRows (some (.flag true)) n (.arr (List.replicate 11 (.obj []))) =
      true := by
    rw [exportsRows_arr, if_pos ⟨by decide, by decide⟩]
    rfl
  rw [rowsBesideResult_value, EgressEnv.violatesAggregation, violatesAggregationFirstPolicy]
  simp only [aggregationPolicy, Option.bind_some, exportsRows_obj, List.any_cons, rows]
  simp [AggregationFirst.isEnforced]

theorem rows_beside_result_agree_iff :
    ((openEnv.executeInWorkerPool [] (some aggregationPolicy) rowsBesideResult).isError = true →
      (openEnv.executeLogicEgress [] (some aggregationPolicy) (fun _ => none)
        rowsBesideResult.output).is_error = true) ↔
    (openEnv.violatesAggregation (some aggregationPolicy)
        (sanitizeOutput rowsBesideResult.output).value = true →
      openEnv.violatesAggregation (some aggregationPolicy)
        (unwrapForAggregationPolicyScan (sanitizeOutput rowsBesideResult.output).value) = false →
      openEnv.scanner.scan (sanitizeOutput rowsBesideResult.output).value = none →
      ¬ PassesSchema (some aggregationPolicy) (sanitizeOutput rowsBesideResult.output).value) :=
  local_block_is_grpc_error_iff rowsBesideResult_direct (fun _ => none)

/-- The local path blocks the rows, the gRPC path sends them. -/
theorem rows_beside_result_released :
    (openEnv.executeInWorkerPool [] (some aggregationPolicy) rowsBesideResult).isError = true ∧
      IsDirect openEnv rowsBesideResult.output ∧
      (openEnv.executeLogicEgress [] (some aggregationPolicy) (fun _ => none)
        rowsBesideResult.output).is_error = false := by
  have flat : openEnv.violatesAggregation (some aggregationPolicy)
      (unwrapForAggregationPolicyScan (sanitizeOutput rowsBesideResult.output).value) = false := by
    rw [rowsBesideResult_unwrapped, EgressEnv.violatesAggregation, violatesAggregationFirstPolicy,
      exportsRows] <;> simp
  have valid : PassesSchema (some aggregationPolicy)
      (sanitizeOutput rowsBesideResult.output).value := by
    refine .inr ?_
    rintro policy ⟨⟩ schema ⟨⟩
  refine ⟨?_, rowsBesideResult_direct, ?_⟩
  · by_contra released
    have passed := local_released.mp (Bool.not_eq_true _ ▸ released)
    rw [rowsBesideResult_rows] at passed
    cases passed.2.2
  · obtain ⟨text, response⟩ := direct_response [] (some aggregationPolicy) rowsBesideResult_direct (fun _ => none)
    rw [response, grpc_released]
    exact ⟨(validateOutputPolicy_of_aggregated _ flat).mpr valid, scan_openScanner _, flat⟩

/-! ### The declared schema -/

/-- The output is released as a success, by the local path or as a direct answer. -/
def Released (env : EgressEnv) (toolName : JsString) (toolPolicy : Option LogicExecutionPolicy)
    (callTool : EgressEnv.ToolRequest → Option Node) (workerResponse : EgressEnv.PoolResponse) :
    Prop :=
  (env.executeInWorkerPool toolName toolPolicy workerResponse).isError = false ∨
    IsDirect env workerResponse.output ∧
      (env.executeLogicEgress toolName toolPolicy callTool workerResponse.output).is_error = false

/-- Neither the scanner nor, on one of the paths, the aggregation check stops the output. -/
def Unstopped (env : EgressEnv) (toolPolicy : Option LogicExecutionPolicy) (output : Node) : Prop :=
  let v := (sanitizeOutput output).value
  env.scanner.scan v = none ∧
    (env.violatesAggregation toolPolicy v = false ∨
      IsDirect env output ∧
        env.violatesAggregation toolPolicy (unwrapForAggregationPolicyScan v) = false)

theorem validateOutputPolicy_unaccepted (env : EgressEnv) (toolName : JsString)
    {policy : LogicExecutionPolicy} {schema : ZodSchema}
    (declared : policy.outputSchema = some schema) {v : JsValue}
    (unaccepted : ¬ accepts schema (parseUnknownJson v)) :
    validateOutputPolicy env.toServerEnv toolName v (some policy) = none ↔
      isErrorResult (parseUnknownJson v) = true := by
  rw [validateOutputPolicy_none]
  constructor
  · rintro (failed | ⟨accepted, _⟩)
    · exact failed
    · exact absurd (accepted schema declared) unaccepted
  · exact Or.inl

/-- The schema is enforced on everything but results that say `isError`. -/
theorem released_accepted_iff {policy : LogicExecutionPolicy} {schema : ZodSchema}
    (declared : policy.outputSchema = some schema)
    (callTool : EgressEnv.ToolRequest → Option Node) (workerResponse : EgressEnv.PoolResponse) :
    (Released env toolName (some policy) callTool workerResponse →
      accepts schema (parseUnknownJson (sanitizeOutput workerResponse.output).value)) ↔
    (isErrorResult (parseUnknownJson (sanitizeOutput workerResponse.output).value) = true →
      Unstopped env (some policy) workerResponse.output →
      accepts schema (parseUnknownJson (sanitizeOutput workerResponse.output).value)) := by
  have locally : (env.executeInWorkerPool toolName (some policy) workerResponse).isError = false ↔
    _ := local_released
  constructor
  · rintro enforced failed ⟨clean, stop⟩
    have valid : validateOutputPolicy env.toServerEnv (namedOrUnknown toolName)
        (sanitizeOutput workerResponse.output).value (some policy) = none :=
      validateOutputPolicy_none.mpr (.inl failed)
    apply enforced
    rcases stop with flat | ⟨direct, flat⟩
    · exact .inl (locally.mpr ⟨valid, clean, flat⟩)
    · obtain ⟨text, response⟩ := direct_response toolName (some policy) direct callTool
      exact .inr ⟨direct, by rw [response]; exact grpc_released.mpr ⟨valid, clean, flat⟩⟩
  · intro conditional released
    by_contra unaccepted
    have skipped := validateOutputPolicy_unaccepted env (namedOrUnknown toolName) declared unaccepted
    rcases released with passed | ⟨direct, passed⟩
    · obtain ⟨valid, clean, flat⟩ := locally.mp passed
      exact unaccepted (conditional (skipped.mp valid) ⟨clean, .inl flat⟩)
    · obtain ⟨text, response⟩ := direct_response toolName (some policy) direct callTool
      rw [response] at passed
      obtain ⟨valid, clean, flat⟩ := grpc_released.mp passed
      exact unaccepted (conditional (skipped.mp valid) ⟨clean, .inr ⟨direct, flat⟩⟩)

def refusingSchema : ZodSchema := ⟨fun _ => .error [⟨[], js "Invalid input"⟩], none⟩

def schemaPolicy : LogicExecutionPolicy := { aggregationPolicy with outputSchema := some refusingSchema }

/-- A result of the logic that says it is an error. -/
def claimedError : EgressEnv.PoolResponse where
  output := .branch none false [(js "isError", .scalar (.bool true)),
    (js "secret", .scalar (.str (js "value")))]
  image_id := []
  zk_receipt := []

theorem claimed_error_accepted_iff :
    (Released openEnv [] (some schemaPolicy) (fun _ => none) claimedError →
      accepts refusingSchema (parseUnknownJson (sanitizeOutput claimedError.output).value)) ↔
    (isErrorResult (parseUnknownJson (sanitizeOutput claimedError.output).value) = true →
      Unstopped openEnv (some schemaPolicy) claimedError.output →
      accepts refusingSchema (parseUnknownJson (sanitizeOutput claimedError.output).value)) :=
  released_accepted_iff rfl (fun _ => none) claimedError

theorem claimed_error_released :
    Released openEnv [] (some schemaPolicy) (fun _ => none) claimedError ∧
      ¬ accepts refusingSchema (parseUnknownJson (sanitizeOutput claimedError.output).value) := by
  have flat : openEnv.violatesAggregation (some schemaPolicy)
      (sanitizeOutput claimedError.output).value = false := by
    have value : (sanitizeOutput claimedError.output).value =
        .obj [(js "isError", .bool true), (js "secret", .str (js "value"))] := rfl
    have document : jsonDocument (js "value") = none := by decide
    rw [value, EgressEnv.violatesAggregation, violatesAggregationFirstPolicy]
    simp only [schemaPolicy, aggregationPolicy, Option.bind_some, exportsRows_obj, List.any_cons,
      List.any_nil, exportsRows_str, document, Option.map_none, Option.getD_none]
    rw [exportsRows] <;> first | decide | simp
  constructor
  · exact .inl (local_released.mpr ⟨validateOutputPolicy_none.mpr (.inl rfl), scan_openScanner _, flat⟩)
  · intro accepted
    cases accepted

/-! ### Proxied results -/

/-- `Examined p v`: the aggregation check looks at `p` when it looks at `v`. It does not look
into an array without objects. -/
inductive Examined (p : JsValue) : JsValue → Prop where
  | self : Examined p p
  | document {s : JsString} {v : JsValue} :
      jsonDocument s = some v → Examined p v → Examined p (.str s)
  | element {v w : JsValue} {elements : List JsValue} :
      v ∈ elements → w ∈ elements → isContainer w = true → Examined p v →
      Examined p (.arr elements)
  | member {m : JsString × JsValue} {members : Members} :
      m ∈ members → Examined p m.2 → Examined p (.obj members)

theorem exportsRows_examined {policyObj : Option AggregationFirst} {recordsCount : Nat}
    {p v : JsValue} (examined : Examined p v)
    (flat : exportsRows policyObj recordsCount v = false) :
    exportsRows policyObj recordsCount p = false := by
  induction examined with
  | self => exact flat
  | document found _ ih =>
    apply ih
    rwa [exportsRows_str, found] at flat
  | @element v w elements member object container _ ih =>
    apply ih
    rw [exportsRows_arr] at flat
    have mixed : ¬ (elements.all (!isContainer ·) = true) := by
      intro all
      have none' := List.all_eq_true.mp all w object
      rw [container] at none'
      cases none'
    split_ifs at flat with tabular primitive
    · exact Bool.eq_false_iff.mpr (List.any_eq_false.mp (Bool.or_eq_false_iff.mp flat).2 v member)
    · exact absurd primitive.2 mixed
    · exact Bool.eq_false_iff.mpr (List.any_eq_false.mp flat v member)
  | @member m members inside _ ih =>
    apply ih
    rw [exportsRows_obj, Bool.or_eq_false_iff] at flat
    exact Bool.eq_false_iff.mpr (List.any_eq_false.mp flat.2 m inside)

/-- The scan and the aggregation check hold of every part of the value that was unwrapped
from a released result of a proxied call. -/
theorem proxied_release_checked {sanitized : JsValue} {result : Node} {isError : JsValue}
    (object : EgressEnv.readMember (js "isError") result.value = some isError)
    (succeeded : truthy isError = false)
    (released : (EgressEnv.answerProxied (env.grpcEgress toolName toolPolicy) sanitized
      (some result)).is_error = false) :
    (∀ p, Part p (unwrapForAggregationPolicyScan (sanitizeOutput result).value) →
      env.scanner.scan p = none) ∧
    ∀ p, Examined p (unwrapForAggregationPolicyScan (sanitizeOutput result).value) →
      env.violatesAggregation toolPolicy p = false := by
  simp only [EgressEnv.answerProxied, object, succeeded, Bool.false_eq_true, if_false] at released
  obtain ⟨_, clean, flat⟩ := grpc_released.mp released
  rw [(unwrap_settled _).2] at flat
  refine ⟨fun p part => scan_part part clean, ?_⟩
  intro p examined
  rw [EgressEnv.violatesAggregation, violatesAggregationFirstPolicy, Bool.and_eq_false_iff] at flat ⊢
  rcases flat with off | flat
  · exact .inl off
  · exact .inr (exportsRows_examined examined flat)

/-- A scanner with one forbidden word. -/
def wordScanner : PiiScanner where
  checkKey := fun _ => none
  checkString s := if s = js "leak" then some (js "leak") else none

def structuredResult : Node :=
  .branch none false [(js "content", .branch none true
      [([], .branch none false [(js "type", .scalar (.str (js "text"))),
        (js "text", .scalar (.str (js "ok")))])]),
    (js "structuredContent", .branch none false [(js "note", .scalar (.str (js "leak")))])]

def wordEnv : EgressEnv := { openEnv with scanner := wordScanner }

theorem structuredResult_unwrapped :
    unwrapForAggregationPolicyScan (sanitizeOutput structuredResult).value = .str (js "ok") := by
  have value : (sanitizeOutput structuredResult).value =
      .obj [(js "content", .arr [.obj [(js "type", .str (js "text")), (js "text", .str (js "ok"))]]),
        (js "structuredContent", .obj [(js "note", .str (js "leak"))])] := rfl
  have document : jsonDocument (js "ok") = none := by decide
  have texts : contentTexts (property (js "content") [(js "content",
      .arr [.obj [(js "type", .str (js "text")), (js "text", .str (js "ok"))]]),
      (js "structuredContent", .obj [(js "note", .str (js "leak"))])]) = [js "ok"] := rfl
  rw [value, unwrap_obj, if_pos (by decide), if_neg (by rw [texts]; simp), texts, joinLines, unwrap_str,
    document]
  rfl

theorem structured_released : (EgressEnv.answerProxied (wordEnv.grpcEgress [] none) .undefined
    (some structuredResult)).is_error = false := by
  have document : jsonDocument (js "ok") = none := by decide
  have clean : wordScanner.scan (.str (js "ok")) = none := by
    rw [PiiScanner.scan]
    split
    · next other found =>
      rw [document] at found
      cases found
    · decide
  have object : EgressEnv.readMember (js "isError") structuredResult.value = some .undefined := rfl
  simp only [EgressEnv.answerProxied, object, truthy, Bool.false_eq_true, if_false]
  rw [grpc_released, structuredResult_unwrapped]
  exact ⟨rfl, clean, rfl⟩

theorem structured_release_checked :
    (∀ p, Part p (unwrapForAggregationPolicyScan (sanitizeOutput structuredResult).value) →
      wordEnv.scanner.scan p = none) ∧
    ∀ p, Examined p (unwrapForAggregationPolicyScan (sanitizeOutput structuredResult).value) →
      wordEnv.violatesAggregation none p = false :=
  have object : EgressEnv.readMember (js "isError") structuredResult.value = some .undefined := rfl
  proxied_release_checked object rfl structured_released

/-- The answer carries a part that the scan refuses. -/
theorem structured_release_unscanned :
    (EgressEnv.answerProxied (wordEnv.grpcEgress [] none) .undefined
      (some structuredResult)).is_error = false ∧
    ∃ p, Part p (sanitizeOutput structuredResult).value ∧ wordEnv.scanner.scan p ≠ none := by
  have document : jsonDocument (js "leak") = none := by decide
  refine ⟨structured_released, .str (js "leak"), ?_, ?_⟩
  · have outer : (js "structuredContent", JsValue.obj [(js "note", .str (js "leak"))]) ∈
        [(js "content", .arr [.obj [(js "type", .str (js "text")), (js "text", .str (js "ok"))]]),
          (js "structuredContent", JsValue.obj [(js "note", .str (js "leak"))])] := by simp
    have inner : (js "note", JsValue.str (js "leak")) ∈
        [(js "note", JsValue.str (js "leak"))] := by simp
    exact .member outer (.member inner .self)
  · have refused : wordScanner.scan (.str (js "leak")) = some (js "leak") := by
      rw [PiiScanner.scan]
      split
      · next other found =>
        rw [document] at found
        cases found
      · decide
    rw [show wordEnv.scanner = wordScanner from rfl, refused]
    simp

end NeuralMesh.Server
