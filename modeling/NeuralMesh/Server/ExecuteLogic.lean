import NeuralMesh.Codec.Hex
import NeuralMesh.Server.Egress
import NeuralMesh.Server.QueryBudget
import NeuralMesh.Transition

/-! The two calls of the gRPC service. A handshake stores the announced capability in a
session; an execution resolves it to a tool and runs under the policy found. -/
namespace NeuralMesh.Server

open Js Codec Worker

/-! ### Authentication -/

inductive GrpcStatus where
  | unauthenticated
  | permissionDenied
  | internal

structure GrpcError where
  code : GrpcStatus
  details : JsString

/-- The answers of the JWT validator and of `authorizeRequest`. -/
inductive JwtAnswer where
  | invalid (message : JsString)
  | denied (reason : JsString)
  | allowed

structure ToolDef where
  policy : Option LogicExecutionPolicy

/-- An absent token or path is the empty string. -/
structure LiopServer extends EgressEnv where
  tools : List (JsString × ToolDef)
  jwtValidator : Bool
  localTestToken : JsString
  preflight : PreflightConfig
  sha256 : Bytes → Bytes

/-- What a call brings besides its request: the header, the revoked hashes at that time
and the validator's answer. -/
structure Credentials where
  authHeader : JsString
  revoked : JsString → Bool
  jwt : JwtAnswer

def isTokenUnit (u : CodeUnit) : Bool :=
  let n := u.toNat
  (97 ≤ n && n ≤ 122) || (65 ≤ n && n ≤ 90) || (48 ≤ n && n ≤ 57) || n == 95 || n == 45

/-- `/^[a-zA-Z0-9_-]+-local-test-token$/` -/
def isTestTokenPattern (token : JsString) : Bool :=
  let suffix := js "-local-test-token"
  suffix.isSuffixOf token && suffix.length < token.length && token.all isTokenUnit

namespace LiopServer

variable (server : LiopServer)

/-- The hash of the accepted token, if tokens are used. -/
def authenticate (credentials : Credentials) : Except GrpcError (Option JsString) :=
  if !server.jwtValidator then .ok none
  else if credentials.authHeader = [] then
    .error ⟨.unauthenticated, js "Missing Authorization header in gRPC metadata"⟩
  else
    let bearer := js "Bearer "
    let token := if bearer.isPrefixOf credentials.authHeader then
      credentials.authHeader.drop bearer.length else credentials.authHeader
    let tokenHash := hashHex server.sha256 token
    if credentials.revoked tokenHash then
      .error ⟨.unauthenticated, js "Token has been revoked by the resource owner"⟩
    else if server.localTestToken ≠ [] then
      if token = server.localTestToken then .ok (some tokenHash)
      else .error ⟨.permissionDenied, if isTestTokenPattern token then
          js "Pre-shared local test token is invalid for this resource domain (segregation violation)."
        else js "Access Denied: This restricted node requires its specific static access token."⟩
    else match credentials.jwt with
      | .invalid message => .error ⟨.unauthenticated, js "Invalid JWT token: " ++ message⟩
      | .denied reason => .error ⟨.permissionDenied, if reason = [] then js "Access Denied" else reason⟩
      | .allowed => .ok (some tokenHash)

end LiopServer

/-! ### Sessions -/

structure Session where
  capability_hash : JsString
  kyber_sk : Bytes
  agent_did : JsString
  tokenHash : Option JsString
  createdAt : Nat

/-- One run of logic in the worker pool: the tool whose policy the checks use, that
policy, and what the worker was given and returned. -/
structure LogicRun where
  toolName : JsString
  toolPolicy : Option LogicExecutionPolicy
  dpConfig : Option DpConfig
  output : Except JsString Node
  response : LogicResponse

/-- A query that passed the checks before the run. -/
structure Query where
  toolName : JsString
  extractedFields : List JsString

structure ServerState where
  sessions : JsString → Option Session
  budgets : BudgetState
  accepted : List Query
  runs : List LogicRun

def ServerState.start : ServerState where
  sessions _ := none
  budgets := ⟨fun _ _ _ => 0, fun _ _ _ _ => 0⟩
  accepted := []
  runs := []

structure IntentRequest where
  credentials : Credentials
  capability_hash : JsString
  agent_did : JsString
  /-- The new secret key, the new session token and the time. -/
  kyber_sk : Bytes
  sessionToken : JsString
  now : Nat

/-- What the environment answers while logic is executed: decryption under a session key,
the budget file, and the worker pool. -/
structure ExecutionEnv where
  decrypt : (kyber_sk : Bytes) → Except JsString Text
  store : StoreOutcome
  pool : Option DpConfig → Except JsString Node

/-- What `callTool` answers besides: the rate limit, the parsed arguments, and the
handler. -/
structure ToolEnv where
  rateLimit : (toolName : JsString) → Option Node
  parseArgs : (toolName : JsString) → JsValue → Except JsString JsValue
  handler : (toolName : JsString) → JsValue → Except JsString Node
  store : StoreOutcome
  pool : Option DpConfig → Except JsString EgressEnv.PoolResponse

structure LogicRequest where
  credentials : Credentials
  session_token : JsString
  now : Nat
  /-- The revocation list when the session is checked. -/
  revokedLater : JsString → Bool
  execution : ExecutionEnv
  proxied : ToolEnv

inductive RpcEvent where
  | negotiateIntent (request : IntentRequest)
  | executeLogic (request : LogicRequest)

def textResult (text : JsString) (isError : Bool) : Node :=
  let content := Node.branch none true [([], .branch none false
    [(js "type", .scalar (.str (js "text"))), (js "text", .scalar (.str text))])]
  .branch none false ((js "content", content) ::
    if isError then [(js "isError", .scalar (.bool true))] else [])

/-- The checks of a session before it is used; a session past its lifetime is deleted. -/
def useSession (state : ServerState) (request : LogicRequest) :
    Except GrpcError Session × ServerState :=
  match state.sessions request.session_token with
  | none => (.error ⟨.unauthenticated, js "Invalid session token"⟩, state)
  | some session =>
    let sessionAge := request.now - session.createdAt
    if session.createdAt ≠ 0 ∧ 3600 * 1000 < sessionAge then
      (.error ⟨.unauthenticated, js "[LIOP-PQC] Session secret expired: Age (" ++
          ofText (natText ((sessionAge + 500) / 1000)) ++
          js "s) exceeds 3600s TTL limit. Re-handshake required."⟩,
        { state with sessions := fun token =>
            if token = request.session_token then none else state.sessions token })
    else if session.tokenHash.any request.revokedLater then
      (.error ⟨.unauthenticated, js "Token has been revoked by the resource owner"⟩, state)
    else (.ok session, state)

namespace LiopServer

variable (server : LiopServer)

def findTool (toolName : JsString) : Option ToolDef := server.tools.lookup toolName

/-- `toolName ? this.tools.get(toolName) : undefined`, and its policy. -/
def resolvePolicy (toolName : JsString) : Option LogicExecutionPolicy :=
  if toolName = [] then none else (server.findTool toolName).bind (·.policy)

def checkLogic (store : StoreOutcome) (budgets : BudgetState) (toolName : JsString) (logic : Text)
    (policy : Option LogicExecutionPolicy) (clientId : JsString) : Option JsString × BudgetState :=
  runPreflightPolicy server.preflight server.recordsCount store budgets toolName logic policy clientId

def negotiateIntent (state : ServerState) (request : IntentRequest) : ServerState :=
  match server.authenticate request.credentials with
  | .error _ => state
  | .ok tokenHash => { state with
      sessions := fun token =>
        if token = request.sessionToken then
          some ⟨request.capability_hash, request.kyber_sk, request.agent_did, tokenHash, request.now⟩
        else state.sessions token }

/-- `callTool`: its result (`none` is an exception), with the query and the run that it
leads to when the arguments carry logic. -/
def callTool (env : ToolEnv) (clientId : JsString) (state : ServerState)
    (request : EgressEnv.ToolRequest) : Option Node × ServerState :=
  match request.name with
  | .str name =>
    match server.findTool name with
    | none => (none, state)
    | some entry =>
      match env.rateLimit name with
      | some limited => (some limited, state)
      | none =>
        match env.parseArgs name request.arguments with
        | .error text => (some (textResult text true), state)
        | .ok parsedArgs =>
          let handled := match env.handler name parsedArgs with
            | .ok result => (some result, state)
            | .error text => (some (textResult text true), state)
          match member (js "payload") parsedArgs with
          | .str payload =>
            match extractLogic (wellFormed payload) with
            | none | some [] => handled
            | some logic =>
              match server.checkLogic env.store state.budgets name logic entry.policy clientId with
              | (some preflightReason, budgets) =>
                (some (textResult preflightReason true), { state with budgets := budgets })
              | (none, budgets) =>
                let toolPolicy := server.resolvePolicy name
                let dpConfig := toolPolicy.map (·.dpConfig)
                let result : EgressEnv.CallToolResult := match env.pool dpConfig with
                  | .error text => ⟨text, true⟩
                  | .ok worker => server.executeInWorkerPool name toolPolicy worker
                (some (textResult result.text result.isError), { state with
                  budgets := budgets
                  accepted := ⟨name, server.preflight.analyzer.extractQueriedFields logic⟩ :: state.accepted
                  runs := ⟨name, toolPolicy, dpConfig, (env.pool dpConfig).map (·.output),
                    ⟨result.text, result.isError⟩⟩ :: state.runs })
          | _ => handled
  | _ => (none, state)

/-- The tool call that an output asks for: its result, if there is one, and the state after it. -/
def callProxied (state : ServerState) (request : LogicRequest) (session : Session)
    (executed : Except JsString Node) : Option Node × ServerState :=
  match executed with
  | .error _ => (none, state)
  | .ok output =>
    match finalOutput server.display (sanitizeOutput output).value with
    | .direct _ => (none, state)
    | .proxied decoded =>
      let clientId := if session.agent_did = [] then js "unknown-client" else session.agent_did
      server.callTool request.proxied clientId state (EgressEnv.toolRequest decoded)

/-- `executeLogic` from the worker pool on. -/
def runLogic (state : ServerState) (request : LogicRequest) (session : Session) : ServerState :=
  let toolName := session.capability_hash
  let toolPolicy := server.resolvePolicy toolName
  let dpConfig := toolPolicy.map (·.dpConfig)
  let executed := request.execution.pool dpConfig
  let called := server.callProxied state request session executed
  let response := match executed with
    | .error text => ⟨text, true⟩
    | .ok output => server.executeLogicEgress toolName toolPolicy (fun _ => called.1) output
  { called.2 with runs := ⟨toolName, toolPolicy, dpConfig, executed, response⟩ :: called.2.runs }

/-- `executeLogic` from the preflight check on. -/
def runSession (state : ServerState) (request : LogicRequest) (session : Session) : ServerState :=
  let toolName := session.capability_hash
  match request.execution.decrypt session.kyber_sk with
  | .error _ => state
  | .ok decryptedPayload =>
    let logic := preflightSource decryptedPayload
    let clientId := if session.agent_did = [] then request.session_token else session.agent_did
    match server.checkLogic request.execution.store state.budgets (namedOrUnknown toolName) logic
        (server.resolvePolicy toolName) clientId with
    | (some _, budgets) => { state with budgets := budgets }
    | (none, budgets) =>
      server.runLogic { state with
        budgets := budgets
        accepted := ⟨toolName, server.preflight.analyzer.extractQueriedFields logic⟩ :: state.accepted }
        request session

def executeLogic (state : ServerState) (request : LogicRequest) : ServerState :=
  match server.authenticate request.credentials with
  | .error _ => state
  | .ok _ =>
    match useSession state request with
    | (.error _, state) => state
    | (.ok session, state) => server.runSession state request session

def step (state : ServerState) : RpcEvent → ServerState
  | .negotiateIntent request => server.negotiateIntent state request
  | .executeLogic request => server.executeLogic state request

/-! ### What a call can do -/

/-- Looking a session up deletes it at most. -/
theorem useSession_state (state : ServerState) (request : LogicRequest) :
    ∃ sessions, (useSession state request).2 = { state with sessions := sessions } ∧
      ∀ token session, sessions token = some session → state.sessions token = some session := by
  unfold useSession
  split
  · exact ⟨_, rfl, fun _ _ stored => stored⟩
  · dsimp only
    split_ifs
    · refine ⟨_, rfl, fun token session stored => ?_⟩
      split_ifs at stored
      exact stored
    · exact ⟨_, rfl, fun _ _ stored => stored⟩
    · exact ⟨_, rfl, fun _ _ stored => stored⟩

theorem useSession_ok {state after : ServerState} {request : LogicRequest} {session : Session}
    (used : useSession state request = (.ok session, after)) :
    after = state ∧ state.sessions request.session_token = some session := by
  unfold useSession at used
  split at used
  · cases used
  · next stored found =>
    dsimp only at used
    split_ifs at used
    · cases used
    · cases used
    · cases used
      exact ⟨rfl, found⟩

/-- The state after a query under a policy has been accepted and has run. -/
def recordRun (state : ServerState) (budgets : BudgetState) (toolName : JsString) (logic : Text)
    (output : Except JsString Node) (response : LogicResponse) : ServerState :=
  { state with
    budgets := budgets
    accepted := ⟨toolName, server.preflight.analyzer.extractQueriedFields logic⟩ :: state.accepted
    runs := ⟨toolName, server.resolvePolicy toolName, (server.resolvePolicy toolName).map (·.dpConfig),
      output, response⟩ :: state.runs }

/-- Logic that the arguments of a call to the tool carry. -/
def CarriesLogic (env : ToolEnv) (name : JsString) (logic : Text) : Prop :=
  ∃ arguments parsedArgs payload, env.parseArgs name arguments = .ok parsedArgs ∧
    member (js "payload") parsedArgs = .str payload ∧ extractLogic (wellFormed payload) = some logic

/-- `callTool` changes nothing, or it runs logic for a registered tool. -/
theorem callTool_cases (env : ToolEnv) (clientId : JsString) (state : ServerState)
    (request : EgressEnv.ToolRequest) :
    (server.callTool env clientId state request).2 = state ∨
    ∃ name entry logic budgets output response,
      request.name = .str name ∧ server.findTool name = some entry ∧ CarriesLogic env name logic ∧
      server.checkLogic env.store state.budgets name logic entry.policy clientId = (none, budgets) ∧
      (∀ o, output = .ok o → response.is_error = false →
        server.violatesAggregation (server.resolvePolicy name) (sanitizeOutput o).value = false) ∧
      (server.callTool env clientId state request).2 =
        server.recordRun state budgets name logic output response := by
  unfold callTool
  split
  · next name named =>
    split
    · exact .inl rfl
    · next entry found =>
      split
      · exact .inl rfl
      · split
        · exact .inl rfl
        · next parsedArgs parsed =>
          have handled : (match env.handler name parsedArgs with
              | .ok result => (some result, state)
              | .error text => (some (textResult text true), state)).2 = state := by
            split <;> rfl
          dsimp only
          split
          · next payload carried =>
            split
            · exact .inl handled
            · exact .inl handled
            · next logic _ extracted =>
              split
              · next reason budgets rejected =>
                left
                rw [runPreflightPolicy_rejected rejected]
              · next budgets passed =>
                refine .inr ⟨name, entry, logic, budgets, _, _, named, found,
                  ⟨_, parsedArgs, payload, parsed, carried, extracted⟩, passed, ?_, rfl⟩
                intro o ran ok
                cases pooled : env.pool ((server.resolvePolicy name).map (·.dpConfig)) with
                | error text =>
                  rw [pooled] at ran
                  cases ran
                | ok worker =>
                  rw [pooled] at ran ok
                  cases ran
                  exact (local_released.mp ok).2.2
          · exact .inl handled
  · exact .inl rfl

theorem proxied_truthy {display : JsValue → JsString} {sanitized decoded : JsValue}
    (proxied : finalOutput display sanitized = .proxied decoded) :
    truthy (member (ofText proxyKey) decoded) = true := by
  unfold finalOutput at proxied
  split at proxied
  · cases proxied
  · split at proxied
    · cases proxied
    · cases proxied
    · split_ifs at proxied with found
      cases proxied
      exact found

theorem callProxied_state (state : ServerState) (request : LogicRequest) (session : Session)
    (executed : Except JsString Node) :
    (server.callProxied state request session executed).2 = state ∨
    ∃ call : EgressEnv.ToolRequest, truthy call.name = true ∧
      (server.callProxied state request session executed).2 = (server.callTool request.proxied
        (if session.agent_did = [] then js "unknown-client" else session.agent_did) state call).2 := by
  cases executed with
  | error text => exact .inl rfl
  | ok output =>
    unfold callProxied
    dsimp only
    split
    · exact .inl rfl
    · next decoded proxied => exact .inr ⟨_, proxied_truthy proxied, rfl⟩

theorem callProxied_direct {output : Node} (direct : IsDirect server.toEgressEnv output)
    (state : ServerState) (request : LogicRequest) (session : Session) :
    server.callProxied state request session (.ok output) = (none, state) := by
  obtain ⟨text, found⟩ := direct
  unfold callProxied
  dsimp only
  rw [found]

/-- A session leads to nothing, or to a run after an accepted query. -/
theorem runSession_cases (state : ServerState) (request : LogicRequest) (session : Session) :
    server.runSession state request session = state ∨
    ∃ decryptedPayload budgets, request.execution.decrypt session.kyber_sk = .ok decryptedPayload ∧
      server.checkLogic request.execution.store state.budgets
        (namedOrUnknown session.capability_hash) (preflightSource decryptedPayload)
        (server.resolvePolicy session.capability_hash)
        (if session.agent_did = [] then request.session_token else session.agent_did) =
          (none, budgets) ∧
      server.runSession state request session = server.runLogic { state with
        budgets := budgets
        accepted := ⟨session.capability_hash, server.preflight.analyzer.extractQueriedFields
          (preflightSource decryptedPayload)⟩ :: state.accepted } request session := by
  unfold runSession
  split
  · exact .inl rfl
  · next decryptedPayload decrypted =>
    dsimp only
    split
    · next reason budgets rejected =>
      left
      rw [runPreflightPolicy_rejected rejected]
    · next budgets passed =>
      exact .inr ⟨decryptedPayload, budgets, decrypted, passed, rfl⟩

end LiopServer

end NeuralMesh.Server
