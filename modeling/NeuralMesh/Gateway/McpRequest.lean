import NeuralMesh.Worker.ZkVerifier

/-! An MCP request over HTTP: its token, its headers and its body, which the handlers of both
versions check alike before they dispatch it. -/
namespace NeuralMesh.Gateway

open Js

structure AuthInfo where
  clientId : JsString

inductive HttpVersion where
  | http1
  | http2
  deriving DecidableEq

/-- The headers, the address of the socket, and what the validator says of the token. -/
structure McpRequest where
  version : HttpVersion
  remoteAddress : JsString
  authorization : Option JsString
  mcpMethod : Option JsString
  mcpName : Option JsString
  mcpVersion : Option JsString
  validated : Except JsString AuthInfo

/-- The answers, by status and error code; the last one is that of the router. -/
inductive Answer where
  /-- 503, -32000 -/
  | draining
  /-- 401 -/
  | unauthorized (description : JsString)
  /-- 429, -32029 -/
  | tooManyRequests (retryAfter : Nat)
  /-- 400, -32020 -/
  | headerMismatch (header : JsString)
  /-- 400, -32700 -/
  | parseError
  | dispatched (jsonRequest : JsValue) (authInfo : Option AuthInfo)

/-- `authInfo` stays `null` without a validator. -/
def authorize (jwtValidator : Bool) (request : McpRequest) : Except Answer (Option AuthInfo) :=
  if jwtValidator then
    match request.authorization.filter (js "Bearer ").isPrefixOf with
    | none => .error (.unauthorized (js "Missing or malformed Authorization header"))
    | some _ =>
      match request.validated with
      | .ok authInfo => .ok (some authInfo)
      | .error message => .error (.unauthorized message)
  else .ok none

/-- `object.key`; `none` is an exception. -/
def readMember (key : JsString) : JsValue → Option JsValue
  | .undefined | .null => none
  | v => some (member key v)

def versionKey : JsString := js "io.modelcontextprotocol/protocolVersion"

/-- `params._meta[versionKey] = mcpVersion`, which throws for a primitive. What is assigned to an array is
no part of its text. -/
def assignVersion (mcpVersion : JsString) : JsValue → Option JsValue
  | .obj ms => some (.obj (setProperty versionKey (.str mcpVersion) ms))
  | .arr vs => some (.arr vs)
  | _ => none

def stampParams (mcpVersion : JsString) : JsValue → Option JsValue
  | .obj ms =>
    let _meta := if truthy (property (js "_meta") ms) then property (js "_meta") ms else .obj []
    (if truthy (member versionKey _meta) then some _meta else assignVersion mcpVersion _meta).map
      fun stamped => .obj (setProperty (js "_meta") stamped ms)
  | .arr vs => some (.arr vs)
  | _ => none

/-- `if (mcpVersion && jsonRequest.params)` -/
def stampVersion (mcpVersion : JsString) (jsonRequest : JsValue) : Option JsValue :=
  (readMember (js "params") jsonRequest).bind fun params =>
    if truthy params then
      match jsonRequest with
      | .obj ms => (stampParams mcpVersion params).map fun stamped =>
          .obj (setProperty (js "params") stamped ms)
      | _ => none
    else some jsonRequest

/-- `jsonRequest.params?.name` -/
def paramsName (jsonRequest : JsValue) : Option JsValue :=
  (readMember (js "params") jsonRequest).map (member (js "name"))

/-- A header that is empty is no header. -/
def header (value : Option JsString) : Option JsString := value.filter (· ≠ [])

/-- The checks of a body; any exception is a parse error. -/
def prepare (request : McpRequest) (body : Text) : Except Answer JsValue := do
  let orParseError {α : Type} (result : Option α) : Except Answer α :=
    result.elim (.error .parseError) .ok
  let jsonRequest ← orParseError (parseDoubles body)
  if let some mcpMethod := header request.mcpMethod then
    let method ← orParseError (readMember (js "method") jsonRequest)
    if !Worker.isString mcpMethod method then throw (.headerMismatch (js "Mcp-Method"))
  if let some mcpName := header request.mcpName then
    let name ← orParseError (paramsName jsonRequest)
    if truthy name && !Worker.isString mcpName name then throw (.headerMismatch (js "Mcp-Name"))
  match header request.mcpVersion with
  | some mcpVersion => orParseError (stampVersion mcpVersion jsonRequest)
  | none => return jsonRequest

/-- The request reaches the router when nothing else refuses it. -/
def McpRequest.isDispatchable (jwtValidator : Bool) (request : McpRequest) (body : Text) : Bool :=
  (authorize jwtValidator request).isOk && (prepare request body).isOk

end NeuralMesh.Gateway
