import NeuralMesh.Codec.Base64
import NeuralMesh.Codec.Utf8
import NeuralMesh.Gateway.McpRequest
import NeuralMesh.Js.Encoding
import NeuralMesh.Worker.ZkVerifier

/-! The bridge checks the receipt in the answer of a tool before it hands the answer on. What is
thrown while the answer is read is taken for an answer that is no JSON, and passes; so does an
answer whose payload or receipt fields are empty. -/
namespace NeuralMesh.Bridge

open Js Codec Worker

/-! ### The verifier -/

structure ReceiptTask where
  logicPayload : Bytes
  remoteImageIdHex : JsValue
  zkReceipt : Bytes
  expectedOutput : JsValue

/-- What the bridge has from the runtime; `none` is an exception. -/
structure Runtime where
  /-- The import of the verifier. -/
  loads : Bool
  /-- `Buffer.from(value, "base64")` -/
  bufferFrom : JsValue → Option Bytes
  /-- A task of the worker pool, which is set up with the first one. -/
  run : ReceiptTask → Option Host.Verdict

def LiopVerifier.verifyZkReceipt (runtime : Runtime) (task : ReceiptTask) : Option Bool :=
  (runtime.run task).map Host.Verdict.verified

/-! ### Tools -/

structure CallToolRequest where
  name : JsValue
  arguments : JsValue

inductive ContentType where
  | text
  | image
  | resource

structure Resource where
  uri : JsString
  text : Option JsString
  blob : Option JsString

structure Content where
  type : ContentType
  text : Option JsString
  data : Option JsString
  mimeType : Option JsString
  resource : Option Resource

structure CallToolResult where
  /-- `none` when a tool leaves it out. -/
  content : Option (List Content)
  isError : Option Bool

/-- The methods other than `tools/call` stay with the server. -/
structure LiopServer (ρ : Type) where
  callTool : CallToolRequest → Except JsString CallToolResult
  otherMethod : (id method params : JsValue) → ρ

/-! ### The check of the bridge -/

/-- `data.zk_receipt || ""` -/
def receiptField (data : JsValue) : JsValue :=
  let receipt := member (js "zk_receipt") data
  if truthy receipt then receipt else .str []

def carriesReceipt (data : JsValue) : Bool :=
  truthy (member (js "image_id") data) || truthy (member (js "zk_receipt") data)

def receiptTask (payload : JsString) (data : JsValue) (zkReceipt : Bytes) : ReceiptTask where
  logicPayload := stringBytes payload
  remoteImageIdHex := member (js "image_id") data
  zkReceipt := zkReceipt
  expectedOutput := member (js "computation_result") data

/-- The text with the audit status; only objects carry a receipt. -/
def stamped : JsValue → JsString
  | .obj ms => ofText (jsonText (.obj (setProperty (js "audit_status") (.str (js
      "VERIFIED: ZK-Receipt & ImageID Mathematically Verified by LiopMcpBridge")) ms)))
  | data => ofText (jsonText data)

inductive Checked where
  | unchecked
  | refused
  | authentic (text : JsString)

/-- How the inner block ends, and the tasks that the verifier got; `none` is an exception. -/
structure Tried where
  outcome : Option Checked
  checked : List ReceiptTask

structure Verification where
  isVerified : Bool
  result : CallToolResult
  checked : List ReceiptTask
  /-- An exception was caught. -/
  caught : Bool

def CallToolResult.withText (text : JsString) (result : CallToolResult) : CallToolResult :=
  { result with content := result.content.map (List.modifyHead ({ · with text := some text })) }

/-- What follows the inner block. -/
def Tried.verification (result : CallToolResult) (tried : Tried) : Verification :=
  match tried.outcome with
  -- "Output not JSON"
  | none => ⟨true, result, tried.checked, true⟩
  | some .unchecked => ⟨true, result, tried.checked, false⟩
  | some .refused => ⟨false, result, tried.checked, false⟩
  | some (.authentic text) => ⟨true, result.withText text, tried.checked, false⟩

section Runtime

variable (runtime : Runtime)

/-- The inner block. -/
def tryReceipt (payload contentText : JsString) : Tried :=
  match parseDoubles (spelled contentText) with
  | none | some .null => ⟨none, []⟩
  | some data =>
    if carriesReceipt data then
      if runtime.loads then
        match runtime.bufferFrom (receiptField data) with
        | none => ⟨none, []⟩
        | some receipt =>
          let task := receiptTask payload data receipt
          match LiopVerifier.verifyZkReceipt runtime task with
          | none => ⟨none, [task]⟩
          | some false => ⟨some .refused, [task]⟩
          | some true => ⟨some (.authentic (stamped data)), [task]⟩
      else ⟨none, []⟩
    else ⟨some .unchecked, []⟩

def verifyZkReceipt (request : CallToolRequest) (result : CallToolResult) : Verification :=
  match member (js "payload") request.arguments with
  | .str payload =>
    if payload = [] then ⟨true, result, [], false⟩
    else
      match result.content with
      | none => ⟨false, result, [], true⟩
      | some content =>
        match content.head?.bind Content.text with
        | none | some [] => ⟨true, result, [], false⟩
        | some contentText => (tryReceipt runtime payload contentText).verification result
  | _ => ⟨true, result, [], false⟩

end Runtime

/-! ### Requests -/

structure JsonRpcRequest where
  jsonrpc : JsValue
  id : JsValue
  method : JsValue
  params : JsValue

structure ToolAnswer where
  resultType : Option JsString
  result : CallToolResult

inductive Response (ρ : Type) where
  | success (id : JsValue) (answer : ToolAnswer)
  | failure (id : JsValue) (code : Int) (message : JsString)
  | other (answer : ρ)

structure Handled (ρ : Type) where
  response : Response ρ
  checked : List ReceiptTask
  caught : Bool

/-- An answer before any tool was verified. -/
def unverified {ρ : Type} (response : Response ρ) : Handled ρ := ⟨response, [], false⟩

def isLegacyRequest (method params : JsValue) : Bool :=
  isString (js "initialize") method || isString (js "notifications/initialized") method ||
    let version := member Gateway.versionKey (member (js "_meta") params)
    !truthy version || isString (js "2025-11-25") version

def verificationFailed : ToolAnswer where
  resultType := none
  result :=
    { content := some [
        { type := .text
          text := some (js ("ALERT [LIOP ZERO-TRUST SHIELD] ZK Verification Failed. " ++
            "The mathematical ImageID does not match the original payload."))
          data := none
          mimeType := none
          resource := none }]
      isError := some true }

/-- The result goes out, or the refusal in its place. -/
def Verification.handled {ρ : Type} (id : JsValue) (resultType : Option JsString)
    (verification : Verification) : Handled ρ where
  response := .success id
    (if verification.isVerified then ⟨resultType, verification.result⟩ else verificationFailed)
  checked := verification.checked
  caught := verification.caught

def callRequest (params : JsValue) : CallToolRequest where
  name := member (js "name") params
  arguments :=
    let arguments := member (js "arguments") params
    if truthy arguments then arguments else .obj []

section Handler

variable {ρ : Type} (runtime : Runtime)

def handleToolsCall (server : LiopServer ρ) (isLegacy : Bool) (id params : JsValue) : Handled ρ :=
  if truthy (member (js "name") params) then
    let request := callRequest params
    match server.callTool request with
    | .error message => unverified (.failure id (-32000) message)
    | .ok result =>
      let verification :=
        if result.isError = some true then ⟨true, result, [], false⟩
        else verifyZkReceipt runtime request result
      verification.handled id (if isLegacy then none else some (js "complete"))
  else unverified (.failure id (-32602) (js "Missing tool name"))

def handleLiopToMcp (server : LiopServer ρ) (id method params : JsValue) : Handled ρ :=
  let isLegacy := isLegacyRequest method params
  if isString (js "tools/call") method then handleToolsCall runtime server isLegacy id params
  else unverified (.other (server.otherMethod id method params))

def handleJsonRpcRequest (liopServer : Option (LiopServer ρ)) (request : JsonRpcRequest) :
    Handled ρ :=
  if isString (js "2.0") request.jsonrpc then
    match liopServer with
    | some server => handleLiopToMcp runtime server request.id request.method request.params
    | none => unverified (.failure request.id (-32601) (js "Bridge source not configured"))
  else unverified (.failure request.id (-32600) (js "Invalid Request"))

end Handler

/-! ### The inner block -/

variable {runtime : Runtime} {payload contentText : JsString} {data : JsValue}

/-- The verifier got the payload and the receipt of the answer, and accepted them. -/
structure Authentic (runtime : Runtime) (payload : JsString) (data : JsValue)
    (task : ReceiptTask) : Prop where
  logicPayload : task.logicPayload = stringBytes payload
  remoteImageIdHex : task.remoteImageIdHex = member (js "image_id") data
  zkReceipt : runtime.bufferFrom (receiptField data) = some task.zkReceipt
  accepted : LiopVerifier.verifyZkReceipt runtime task = some true

/-- The payload and the receipt fields are not empty, and neither the receipt nor the verifier
throws. -/
structure Verifiable (runtime : Runtime) (payload : JsString) (data : JsValue) : Prop where
  sent : payload ≠ []
  carries : carriesReceipt data = true
  loads : runtime.loads = true
  runs : ∃ receipt, runtime.bufferFrom (receiptField data) = some receipt ∧
    runtime.run (receiptTask payload data receipt) ≠ none

/-- Without exceptions the verifier decides, and else nobody does. -/
inductive Ends (runtime : Runtime) (payload : JsString) (data : JsValue) : Tried → Prop where
  | refused (verifiable : Verifiable runtime payload data) (task : ReceiptTask) :
      Ends runtime payload data ⟨some .refused, [task]⟩
  | authentic (verifiable : Verifiable runtime payload data) {task : ReceiptTask}
      (accepted : Authentic runtime payload data task) (text : JsString) :
      Ends runtime payload data ⟨some (.authentic text), [task]⟩
  | unchecked (unverifiable : ¬ Verifiable runtime payload data) :
      Ends runtime payload data ⟨some .unchecked, []⟩
  | thrown (unverifiable : ¬ Verifiable runtime payload data) (checked : List ReceiptTask) :
      Ends runtime payload data ⟨none, checked⟩

theorem tryReceipt_ends (parsed : parseDoubles (spelled contentText) = some data)
    (sent : payload ≠ []) : Ends runtime payload data (tryReceipt runtime payload contentText) := by
  unfold tryReceipt
  split
  case h_1 unread =>
    rw [parsed] at unread
    cases unread
  case h_2 null =>
    rw [parsed] at null
    cases null
    exact .thrown (fun verifiable : Verifiable runtime payload .null =>
      Bool.false_ne_true verifiable.carries) []
  case h_3 value _ read =>
    rw [parsed] at read
    cases read
    split_ifs with carries loads
    · split
      case h_1 unconverted =>
        refine .thrown (fun verifiable => ?_) []
        obtain ⟨receipt, converted, -⟩ := verifiable.runs
        rw [unconverted] at converted
        cases converted
      case h_2 receipt converted =>
        have verifiable (ran : runtime.run (receiptTask payload data receipt) ≠ none) :
            Verifiable runtime payload data := ⟨sent, carries, loads, receipt, converted, ran⟩
        dsimp only
        cases answer : LiopVerifier.verifyZkReceipt runtime (receiptTask payload data receipt) with
        | none =>
          refine .thrown (fun verifiable => ?_) _
          obtain ⟨other, same, ran⟩ := verifiable.runs
          rw [converted, Option.some.injEq] at same
          subst same
          exact ran (Option.map_eq_none_iff.mp answer)
        | some isAuthentic =>
          have ran : runtime.run (receiptTask payload data receipt) ≠ none := by
            intro failed
            rw [LiopVerifier.verifyZkReceipt, failed] at answer
            cases answer
          cases isAuthentic with
          | false => exact .refused (verifiable ran) _
          | true => exact .authentic (verifiable ran) ⟨rfl, rfl, converted, answer⟩ _
    · exact .thrown (fun verifiable => loads verifiable.loads) []
    · exact .unchecked fun verifiable => carries verifiable.carries

/-! ### Calls with a receipt -/

/-- The tool answers a call that has a payload with a JSON text that carries the receipt fields. -/
structure ReceiptAnswer {ρ : Type} (server : LiopServer ρ) (request : JsonRpcRequest)
    (payload : JsString) (data : JsValue) (result : CallToolResult) : Prop where
  jsonrpc : request.jsonrpc = .str (js "2.0")
  method : request.method = .str (js "tools/call")
  name : truthy (member (js "name") request.params) = true
  sent : member (js "payload") (member (js "arguments") request.params) = .str payload
  answered : server.callTool (callRequest request.params) = .ok result
  noError : result.isError ≠ some true
  text : ∃ content first contentText, result.content = some (first :: content) ∧
    first.text = some contentText ∧ parseDoubles (spelled contentText) = some data
  carried : member (js "image_id") data ≠ .undefined ∨ member (js "zk_receipt") data ≠ .undefined

/-- A result without an error goes out only after the verifier accepted, and after an exception
the refusal goes out. -/
structure FailsClosed {ρ : Type} (runtime : Runtime) (payload : JsString) (data : JsValue)
    (handled : Handled ρ) : Prop where
  verified : ∀ id answer, handled.response = .success id answer →
    answer.result.isError ≠ some true →
    ∃ task ∈ handled.checked, Authentic runtime payload data task
  caught : handled.caught = true → ∃ id, handled.response = .success id verificationFailed

variable {ρ : Type} {server : LiopServer ρ} {request : JsonRpcRequest} {result : CallToolResult}

theorem handleJsonRpcRequest_receipt (call : ReceiptAnswer server request payload data result) :
    ∃ resultType, handleJsonRpcRequest runtime (some server) request =
      (verifyZkReceipt runtime (callRequest request.params) result).handled request.id
        resultType := by
  unfold handleJsonRpcRequest handleLiopToMcp handleToolsCall
  rw [if_pos (Host.isString_iff.mpr call.jsonrpc)]
  dsimp only
  rw [if_pos (Host.isString_iff.mpr call.method), if_pos call.name, call.answered]
  dsimp only
  rw [if_neg call.noError]
  exact ⟨_, rfl⟩

theorem callRequest_payload (call : ReceiptAnswer server request payload data result) :
    member (js "payload") (callRequest request.params).arguments = .str payload := by
  unfold callRequest
  dsimp only
  split_ifs with given
  · exact call.sent
  · have sent := call.sent
    cases arguments : member (js "arguments") request.params <;> rw [arguments] at sent given <;>
      first | cases sent | exact absurd rfl given

theorem verifyZkReceipt_tried (call : ReceiptAnswer server request payload data result)
    (sent : payload ≠ []) : ∃ contentText, parseDoubles (spelled contentText) = some data ∧
      verifyZkReceipt runtime (callRequest request.params) result =
        (tryReceipt runtime payload contentText).verification result := by
  obtain ⟨content, first, contentText, contents, text, parsed⟩ := call.text
  refine ⟨contentText, parsed, ?_⟩
  unfold verifyZkReceipt
  rw [callRequest_payload call]
  dsimp only
  rw [if_neg sent, contents]
  dsimp only
  rw [List.head?_cons, Option.bind_some, text]
  cases contentText with
  | nil => cases parsed
  | cons u us => rfl

/-- An answer that goes out with no verified task is open. -/
theorem passed_open {id : JsValue} {answer : ToolAnswer}
    (noError : answer.result.isError ≠ some true) (caught : Bool) :
    ¬ FailsClosed runtime payload data (⟨.success id answer, [], caught⟩ : Handled ρ) := by
  intro closed
  obtain ⟨task, none, -⟩ := closed.verified id answer rfl noError
  exact List.not_mem_nil none

theorem refused_closed (id : JsValue) (checked : List ReceiptTask) :
    FailsClosed runtime payload data
      (⟨.success id verificationFailed, checked, false⟩ : Handled ρ) where
  verified := by
    rintro _ _ ⟨⟩ noError
    exact absurd rfl noError
  caught := nofun

/-- An answer that was tried is closed as the way the inner block ended says. -/
theorem Ends.closed_iff {tried : Tried} (ends : Ends runtime payload data tried)
    (noError : result.isError ≠ some true) (id : JsValue) (resultType : Option JsString) :
    FailsClosed runtime payload data
        ((tried.verification result).handled id resultType : Handled ρ) ↔
      Verifiable runtime payload data := by
  cases ends with
  | refused verifiable task => exact iff_of_true (refused_closed id [task]) verifiable
  | authentic verifiable accepted text =>
    refine iff_of_true ⟨?_, nofun⟩ verifiable
    exact fun _ _ _ _ => ⟨_, List.mem_singleton_self _, accepted⟩
  | unchecked unverifiable => exact iff_of_false (passed_open noError false) unverifiable
  | thrown unverifiable checked =>
    -- the inner exception does not reach the refusal
    refine iff_of_false (fun closed => ?_) unverifiable
    obtain ⟨_, same⟩ := closed.caught rfl
    obtain ⟨-, answer⟩ := (Response.success.injEq ..).mp same
    exact noError (congrArg (fun answer => answer.result.isError) answer)

/-- The bridge fails closed exactly when the payload and the receipt fields are not empty and
nothing is thrown on the way. -/
theorem failsClosed_iff (runtime : Runtime) (server : LiopServer ρ) (request : JsonRpcRequest)
    (payload : JsString) (data : JsValue) (result : CallToolResult)
    (call : ReceiptAnswer server request payload data result) :
    FailsClosed runtime payload data (handleJsonRpcRequest runtime (some server) request) ↔
      Verifiable runtime payload data := by
  obtain ⟨resultType, handled⟩ := @handleJsonRpcRequest_receipt runtime _ _ _ _ _ _ call
  rw [handled]
  by_cases empty : payload = []
  · have skipped : verifyZkReceipt runtime (callRequest request.params) result =
        ⟨true, result, [], false⟩ := by
      unfold verifyZkReceipt
      rw [callRequest_payload call, empty]
      rfl
    rw [skipped]
    exact iff_of_false (passed_open call.noError false) fun verifiable => verifiable.sent empty
  · obtain ⟨contentText, parsed, tried⟩ := @verifyZkReceipt_tried runtime _ _ _ _ _ _ call empty
    rw [tried]
    exact (tryReceipt_ends parsed empty).closed_iff call.noError request.id resultType

/-! ### Two answers -/

/-- Buffers of strings, and a pool whose worker gives one verdict. -/
def poolOf (verified : Bool) : Runtime where
  loads := true
  bufferFrom
    | .str s => some (base64Bytes (wellFormed s))
    | _ => none
  run _ := some ⟨verified, []⟩

def answeredWith (text : JsString) : CallToolResult where
  content := some [⟨.text, some text, none, none, none⟩]
  isError := none

def toolServer (text : JsString) : LiopServer Unit where
  callTool _ := .ok (answeredWith text)
  otherMethod _ _ _ := ()

def toolsCall : JsonRpcRequest where
  jsonrpc := .str (js "2.0")
  id := .null
  method := .str (js "tools/call")
  params := .obj [(js "name", .str (js "total")),
    (js "arguments", .obj [(js "payload", .str (js "return 1"))])]

def receiptData (receipt : JsValue) : JsValue :=
  .obj [(js "image_id", .str (js "00")), (js "zk_receipt", receipt)]

theorem toolsCall_answer {receipt : JsValue} (plain : isPlain (receiptData receipt) = true)
    (ordered : isOrdered (receiptData receipt) = true)
    (doubles : asDoubles (receiptData receipt) = receiptData receipt) :
    ReceiptAnswer (toolServer (jsonString (receiptData receipt))) toolsCall (js "return 1")
      (receiptData receipt) (answeredWith (jsonString (receiptData receipt))) where
  jsonrpc := rfl
  method := rfl
  name := by decide
  sent := rfl
  answered := rfl
  noError := nofun
  text := by
    refine ⟨[], _, _, rfl, rfl, ?_⟩
    rw [jsonString, spelled_ofText, parseDoubles, parse_jsonText plain ordered, Option.map_some,
      doubles]
  carried := .inl nofun

theorem receipt_verified : FailsClosed (poolOf true) (js "return 1")
    (receiptData (.str (js "AAAA"))) (handleJsonRpcRequest (poolOf true)
      (some (toolServer (jsonString (receiptData (.str (js "AAAA")))))) toolsCall) :=
  (failsClosed_iff _ _ _ _ _ _ (toolsCall_answer (by decide) (by decide) rfl)).mpr
    { sent := by decide
      carries := by decide
      loads := rfl
      runs := ⟨_, rfl, nofun⟩ }

/-- A receipt that is no string passes a verifier that accepts nothing. -/
theorem true_receipt_passed :
    ReceiptAnswer (toolServer (jsonString (receiptData (.bool true)))) toolsCall (js "return 1")
      (receiptData (.bool true)) (answeredWith (jsonString (receiptData (.bool true)))) ∧
    ¬ FailsClosed (poolOf false) (js "return 1") (receiptData (.bool true))
      (handleJsonRpcRequest (poolOf false)
        (some (toolServer (jsonString (receiptData (.bool true))))) toolsCall) := by
  have call := @toolsCall_answer (.bool true) (by decide) (by decide) rfl
  refine ⟨call, fun closed => ?_⟩
  obtain ⟨resultType, handled⟩ := @handleJsonRpcRequest_receipt (poolOf false) _ _ _ _ _ _ call
  obtain ⟨contentText, parsed, tried⟩ :=
    @verifyZkReceipt_tried (poolOf false) _ _ _ _ _ _ call (by decide)
  have thrown : tryReceipt (poolOf false) (js "return 1") contentText = ⟨none, []⟩ := by
    unfold tryReceipt
    rw [parsed]
    rfl
  rw [handled, tried, thrown] at closed
  exact passed_open call.noError true closed

end NeuralMesh.Bridge
