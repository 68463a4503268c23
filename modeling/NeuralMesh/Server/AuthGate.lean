import NeuralMesh.Server.ExecuteLogic
import NeuralMesh.Server.Revocation

/-! The authentication of the two calls. Between the steps of a call other calls run, hashes are
revoked, and other processes write the revocation file. -/
namespace NeuralMesh.Server.AuthGate

open Js Codec Worker Transition

structure IntentCall where
  authHeader : JsString
  capability_hash : JsString
  agent_did : JsString

structure LogicCall where
  authHeader : JsString
  session_token : JsString

/-- What the checks at the start of a call come to; the validator is asked last. -/
inductive Admission where
  | refused (error : GrpcError)
  | passed (tokenHash : Option JsString)
  | validating (tokenHash : JsString)

inductive Phase where
  | idle
  | validatingIntent (call : IntentCall) (tokenHash : JsString)
  | generating (call : IntentCall) (tokenHash : Option JsString)
  | validatingLogic (call : LogicCall) (tokenHash : JsString)
  | executing (call : LogicCall) (session : Session)

/-- Logic that has passed all checks, and when. -/
structure Admitted (I : Type) where
  call : I
  request : LogicCall
  session : Session
  now : Nat

/-- The server and its calls. No call reads the list of what has been admitted. -/
structure Gate (I : Type) where
  revokedTokenHashes : List JsString
  state : ServerState
  calls : I → Phase
  admitted : List (Admitted I)

/-- What happens next. A list is what a check reads from the revocation file; there is none if the
file is not configured, has not changed, or cannot be read. -/
inductive Event (I : Type) where
  | negotiateIntent (i : I) (call : IntentCall) (file : Option (List JsString))
  | executeLogic (i : I) (call : LogicCall) (now : Nat) (file later : Option (List JsString))
  | validated (i : I) (answer : JwtAnswer) (now : Nat) (file : Option (List JsString))
  | generated (i : I) (kyber_sk : Bytes) (sessionToken : JsString) (now : Nat)
  | executed (i : I) (execution : ExecutionEnv) (proxied : ToolEnv)
  | revokeTokenHash (hash : JsString) (file : Option (List JsString))

/-! ### Headers -/

def bearerToken (authHeader : JsString) : JsString :=
  let bearer := js "Bearer "
  if bearer.isPrefixOf authHeader then authHeader.drop bearer.length else authHeader

section Admission

variable (server : LiopServer)

def tokenHash (authHeader : JsString) : JsString := hashHex server.sha256 (bearerToken authHeader)

def checkToken (revoked : JsString → Bool) (authHeader : JsString) : Admission :=
  if !server.jwtValidator then .passed none
  else if authHeader = [] then
    .refused ⟨.unauthenticated, js "Missing Authorization header in gRPC metadata"⟩
  else if revoked (tokenHash server authHeader) then
    .refused ⟨.unauthenticated, js "Token has been revoked by the resource owner"⟩
  else if server.localTestToken ≠ [] then
    if bearerToken authHeader = server.localTestToken then
      .passed (some (tokenHash server authHeader))
    else .refused ⟨.permissionDenied, if isTestTokenPattern (bearerToken authHeader) then
        js ("Pre-shared local test token is invalid for this resource domain " ++
          "(segregation violation).")
      else js "Access Denied: This restricted node requires its specific static access token."⟩
  else .validating (tokenHash server authHeader)

def verdict (tokenHash : JsString) : JwtAnswer → Except GrpcError (Option JsString)
  | .invalid message => .error ⟨.unauthenticated, js "Invalid JWT token: " ++ message⟩
  | .denied reason =>
    .error ⟨.permissionDenied, if reason = [] then js "Access Denied" else reason⟩
  | .allowed => .ok (some tokenHash)

/-- The two parts together are the authentication of a call that nothing interrupts. -/
theorem authenticate_eq (credentials : Credentials) : server.authenticate credentials =
    match checkToken server credentials.revoked credentials.authHeader with
    | .refused error => .error error
    | .passed tokenHash => .ok tokenHash
    | .validating tokenHash => verdict tokenHash credentials.jwt := by
  simp only [LiopServer.authenticate, checkToken, tokenHash, bearerToken]
  split_ifs <;> rfl

end Admission

/-! ### Steps -/

def LogicCall.request (call : LogicCall) (execution : ExecutionEnv) (proxied : ToolEnv) :
    LogicRequest where
  credentials := ⟨call.authHeader, fun _ => false, .allowed⟩
  session_token := call.session_token
  now := 0
  revokedLater _ := false
  execution := execution
  proxied := proxied

namespace Gate

variable {I : Type} [DecidableEq I]

def start : Gate I := ⟨[], ServerState.start, fun _ => .idle, []⟩

omit [DecidableEq I] in
def isRevoked (gate : Gate I) (hash : JsString) : Bool := gate.revokedTokenHashes.contains hash

@[simps] def wait (gate : Gate I) (i : I) (phase : Phase) : Gate I :=
  { gate with calls := Function.update gate.calls i phase }

@[simps] def store (gate : Gate I) (sessionToken : JsString) (session : Option Session) : Gate I :=
  { gate with state := { gate.state with sessions := fun token =>
      if token = sessionToken then session else gate.state.sessions token } }

/-- The execution of admitted logic begins. -/
@[simps] def execute (gate : Gate I) (i : I) (call : LogicCall) (session : Session) (now : Nat) :
    Gate I :=
  { gate.wait i (.executing call session) with
    admitted := gate.admitted ++ [⟨i, call, session, now⟩] }

variable (server : LiopServer) (toLowerCase : JsString → JsString)

def loadRevocationList (gate : Gate I) (file : Option (List JsString)) : Gate I :=
  match file with
  | none => gate
  | some list => { gate with revokedTokenHashes := loadedHashes toLowerCase list }

def revokeTokenHash (gate : Gate I) (hash : JsString) (file : Option (List JsString)) : Gate I :=
  if hash = [] then gate
  else
    let gate := gate.loadRevocationList toLowerCase file
    { gate with revokedTokenHashes := setAdd gate.revokedTokenHashes (toLowerCase hash) }

/-- The file is read only for a token that is there. -/
def check (gate : Gate I) (authHeader : JsString) (file : Option (List JsString)) :
    Gate I × Admission :=
  let gate := if server.jwtValidator && authHeader ≠ [] then
    gate.loadRevocationList toLowerCase file else gate
  (gate, checkToken server gate.isRevoked authHeader)

/-- `proceed` up to the decryption. -/
def proceed (gate : Gate I) (i : I) (call : LogicCall) (now : Nat)
    (file : Option (List JsString)) : Gate I :=
  match gate.state.sessions call.session_token with
  | none => gate.wait i .idle
  | some session =>
    if session.createdAt ≠ 0 ∧ 3600 * 1000 < now - session.createdAt then
      (gate.store call.session_token none).wait i .idle
    else
      let gate := if session.tokenHash.isSome then
        gate.loadRevocationList toLowerCase file else gate
      if session.tokenHash.any gate.isRevoked then gate.wait i .idle
      else gate.execute i call session now

def negotiateIntent (gate : Gate I) (i : I) (call : IntentCall) (file : Option (List JsString)) :
    Gate I :=
  match gate.calls i with
  | .idle =>
    match gate.check server toLowerCase call.authHeader file with
    | (gate, .refused _) => gate
    | (gate, .passed tokenHash) => gate.wait i (.generating call tokenHash)
    | (gate, .validating tokenHash) => gate.wait i (.validatingIntent call tokenHash)
  | _ => gate

def executeLogic (gate : Gate I) (i : I) (call : LogicCall) (now : Nat)
    (file later : Option (List JsString)) : Gate I :=
  match gate.calls i with
  | .idle =>
    match gate.check server toLowerCase call.authHeader file with
    | (gate, .refused _) => gate
    | (gate, .passed _) => gate.proceed toLowerCase i call now later
    | (gate, .validating tokenHash) => gate.wait i (.validatingLogic call tokenHash)
  | _ => gate

/-- The validator has answered. -/
def validate (gate : Gate I) (i : I) (answer : JwtAnswer) (now : Nat)
    (file : Option (List JsString)) : Gate I :=
  match gate.calls i with
  | .validatingIntent call tokenHash =>
    match verdict tokenHash answer with
    | .error _ => gate.wait i .idle
    | .ok tokenHash => gate.wait i (.generating call tokenHash)
  | .validatingLogic call tokenHash =>
    match verdict tokenHash answer with
    | .error _ => gate.wait i .idle
    | .ok _ => gate.proceed toLowerCase i call now file
  | _ => gate

/-- The keys of a session have been generated. -/
def generate (gate : Gate I) (i : I) (kyber_sk : Bytes) (sessionToken : JsString) (now : Nat) :
    Gate I :=
  match gate.calls i with
  | .generating call tokenHash =>
    (gate.store sessionToken
      (some ⟨call.capability_hash, kyber_sk, call.agent_did, tokenHash, now⟩)).wait i .idle
  | _ => gate

/-- Admitted logic is executed. -/
def finish (gate : Gate I) (i : I) (execution : ExecutionEnv) (proxied : ToolEnv) : Gate I :=
  match gate.calls i with
  | .executing call session =>
    ({ gate with state :=
        server.runSession gate.state (call.request execution proxied) session }).wait i .idle
  | _ => gate

def step (gate : Gate I) : Event I → Gate I
  | .negotiateIntent i call file => gate.negotiateIntent server toLowerCase i call file
  | .executeLogic i call now file later =>
    gate.executeLogic server toLowerCase i call now file later
  | .validated i answer now file => gate.validate toLowerCase i answer now file
  | .generated i kyber_sk sessionToken now => gate.generate i kyber_sk sessionToken now
  | .executed i execution proxied => gate.finish server i execution proxied
  | .revokeTokenHash hash file => gate.revokeTokenHash toLowerCase hash file

/-! ### What a check can do -/

/-- The ways a check ends; only a token that is there is looked up. -/
inductive Checks (gate : Gate I) (authHeader : JsString) (file : Option (List JsString)) :
    Gate I × Admission → Prop where
  | free (unneeded : server.jwtValidator = false) : Checks gate authHeader file (gate, .passed none)
  | refused (reads : Option (List JsString)) (error : GrpcError)
    (read : reads = none ∨ reads = file) :
    Checks gate authHeader file (gate.loadRevocationList toLowerCase reads, .refused error)
  | static (needed : server.jwtValidator = true)
    (own : bearerToken authHeader = server.localTestToken)
    (unrevoked : (gate.loadRevocationList toLowerCase file).isRevoked
      (tokenHash server authHeader) = false) :
    Checks gate authHeader file
      (gate.loadRevocationList toLowerCase file, .passed (some (tokenHash server authHeader)))
  | validating (needed : server.jwtValidator = true) (unnamed : server.localTestToken = [])
    (unrevoked : (gate.loadRevocationList toLowerCase file).isRevoked
      (tokenHash server authHeader) = false) :
    Checks gate authHeader file
      (gate.loadRevocationList toLowerCase file, .validating (tokenHash server authHeader))

omit [DecidableEq I] in
theorem check_checks (gate : Gate I) (authHeader : JsString) (file : Option (List JsString)) :
    Checks server toLowerCase gate authHeader file
      (gate.check server toLowerCase authHeader file) := by
  unfold check
  cases needed : server.jwtValidator with
  | false =>
    have passed : checkToken server gate.isRevoked authHeader = .passed none := by
      simp only [checkToken, needed, Bool.not_false, if_true]
    simp only [Bool.false_and, Bool.false_eq_true, if_false, passed]
    exact .free needed
  | true =>
    by_cases missing : authHeader = []
    · have refused : checkToken server gate.isRevoked authHeader = .refused
          ⟨.unauthenticated, js "Missing Authorization header in gRPC metadata"⟩ := by
        simp only [checkToken, needed, missing, Bool.not_true, Bool.false_eq_true, if_false,
          if_true]
      simp only [missing, ne_eq, not_true_eq_false, decide_false, Bool.and_false,
        Bool.false_eq_true, if_false]
      rw [← missing, refused]
      exact .refused none _ (.inl rfl)
    · simp only [missing, ne_eq, not_false_eq_true, decide_true, Bool.and_true, if_true]
      cases revoked : (gate.loadRevocationList toLowerCase file).isRevoked
          (tokenHash server authHeader) with
      | true =>
        simp only [checkToken, needed, missing, revoked, Bool.not_true, Bool.false_eq_true,
          if_false, if_true]
        exact .refused file _ (.inr rfl)
      | false =>
        simp only [checkToken, needed, missing, revoked, Bool.not_true, Bool.false_eq_true,
          if_false]
        split_ifs with named own pattern
        · exact .static needed own revoked
        · exact .refused file _ (.inr rfl)
        · exact .refused file _ (.inr rfl)
        · exact .validating needed (not_not.mp named) revoked

/-- The ways the checks of a session end. -/
inductive Proceeds (gate : Gate I) (i : I) (call : LogicCall) (now : Nat)
    (file : Option (List JsString)) : Gate I → Prop where
  | refused (reads : Option (List JsString)) (read : reads = none ∨ reads = file) :
    Proceeds gate i call now file ((gate.loadRevocationList toLowerCase reads).wait i .idle)
  | expired : Proceeds gate i call now file ((gate.store call.session_token none).wait i .idle)
  | admitted (session : Session) (found : gate.state.sessions call.session_token = some session)
    (fresh : session.createdAt ≠ 0 → now ≤ session.createdAt + 3600 * 1000)
    (reads : Option (List JsString))
    (read : reads = none ∧ session.tokenHash = none ∨ reads = file)
    (unrevoked : ∀ hash, session.tokenHash = some hash →
      (gate.loadRevocationList toLowerCase reads).isRevoked hash = false) :
    Proceeds gate i call now file
      ((gate.loadRevocationList toLowerCase reads).execute i call session now)

theorem proceed_proceeds (gate : Gate I) (i : I) (call : LogicCall) (now : Nat)
    (file : Option (List JsString)) :
    Proceeds toLowerCase gate i call now file (gate.proceed toLowerCase i call now file) := by
  unfold proceed
  cases found : gate.state.sessions call.session_token with
  | none => exact .refused none (.inl rfl)
  | some session =>
    dsimp only
    split_ifs with expired bound revoked free
    · exact .expired
    · exact .refused file (.inr rfl)
    · refine .admitted session found (fun created => ?_) file (.inr rfl) fun hash own => ?_
      · have recent := fun old => expired ⟨created, old⟩
        omega
      · rw [own] at revoked
        exact Bool.eq_false_of_not_eq_true revoked
    · exact .refused none (.inl rfl)
    · refine .admitted session found (fun created => ?_) none (.inl ⟨rfl, ?_⟩)
        fun hash own => ?_
      · have recent := fun old => expired ⟨created, old⟩
        omega
      · exact Option.not_isSome_iff_eq_none.mp bound
      · rw [own] at bound
        exact absurd rfl bound

/-! ### Calls that nothing interrupts -/

variable {server} {toLowerCase} {gate : Gate I} {i : I}

omit [DecidableEq I] in
theorem check_unread (authHeader : JsString) : gate.check server toLowerCase authHeader none =
    (gate, checkToken server gate.isRevoked authHeader) := by
  unfold check
  split_ifs <;> rfl

/-- The steps of a handshake, one after the other, are the handshake. -/
theorem negotiate_atomic (idle : gate.calls i = .idle) (request : IntentRequest)
    (known : gate.isRevoked = request.credentials.revoked) :
    (run (step server toLowerCase) gate
      [.negotiateIntent i
        ⟨request.credentials.authHeader, request.capability_hash, request.agent_did⟩ none,
        .validated i request.credentials.jwt request.now none,
        .generated i request.kyber_sk request.sessionToken request.now]).state =
      server.negotiateIntent gate.state request := by
  simp only [run, List.foldl_cons, List.foldl_nil, step, negotiateIntent, idle, check_unread,
    LiopServer.negotiateIntent, authenticate_eq, ← known]
  cases checkToken server gate.isRevoked request.credentials.authHeader with
  | refused error => simp only [validate, generate, idle]
  | passed tokenHash =>
    simp only [validate, generate, wait_calls, Function.update_self]
    rfl
  | validating tokenHash =>
    simp only [validate, wait_calls, Function.update_self]
    cases verdict tokenHash request.credentials.jwt with
    | error error => simp only [generate, wait_calls, Function.update_self, wait_state]
    | ok tokenHash =>
      simp only [generate, wait_calls, Function.update_self]
      rfl

/-- No answer of the validator is waited for behind the checks of a session. -/
theorem proceed_validate (call : LogicCall) (now : Nat) (file : Option (List JsString))
    (answer : JwtAnswer) (later : Nat) (unread : Option (List JsString)) :
    (gate.proceed toLowerCase i call now file).validate toLowerCase i answer later unread =
      gate.proceed toLowerCase i call now file := by
  have proceeds := proceed_proceeds toLowerCase gate i call now file
  generalize gate.proceed toLowerCase i call now file = proceeded at proceeds
  cases proceeds with
  | refused | expired => simp only [validate, wait_calls, Function.update_self]
  | admitted => simp only [validate, execute_calls, wait_calls, Function.update_self]

theorem proceed_finish (request : LogicRequest) (known : gate.isRevoked = request.revokedLater) :
    ((gate.proceed toLowerCase i ⟨request.credentials.authHeader, request.session_token⟩
        request.now none).finish server i request.execution request.proxied).state =
      match useSession gate.state request with
      | (.error _, state) => state
      | (.ok session, state) => server.runSession state request session := by
  unfold proceed useSession
  cases found : gate.state.sessions request.session_token with
  | none => simp only [finish, wait_calls, Function.update_self, wait_state]
  | some session =>
    simp only [loadRevocationList, ite_self, known]
    split_ifs
    · simp only [finish, wait_calls, Function.update_self]
      rfl
    · simp only [finish, wait_calls, Function.update_self, wait_state]
    · simp only [finish, execute_calls, wait_calls, Function.update_self]
      rfl

/-- The steps of an execution, one after the other, are the execution. -/
theorem execute_atomic (idle : gate.calls i = .idle) (request : LogicRequest)
    (known : gate.isRevoked = request.credentials.revoked)
    (still : gate.isRevoked = request.revokedLater) :
    (run (step server toLowerCase) gate
      [.executeLogic i ⟨request.credentials.authHeader, request.session_token⟩
          request.now none none,
        .validated i request.credentials.jwt request.now none,
        .executed i request.execution request.proxied]).state =
      server.executeLogic gate.state request := by
  simp only [run, List.foldl_cons, List.foldl_nil, step, executeLogic, idle, check_unread,
    LiopServer.executeLogic, authenticate_eq, ← known]
  cases checkToken server gate.isRevoked request.credentials.authHeader with
  | refused error => simp only [validate, finish, idle]
  | passed tokenHash =>
    simp only [proceed_validate]
    exact proceed_finish request still
  | validating tokenHash =>
    simp only [validate, wait_calls, Function.update_self]
    cases verdict tokenHash request.credentials.jwt with
    | error error => simp only [finish, wait_calls, Function.update_self, wait_state]
    | ok accepted => exact proceed_finish request still

end Gate

end NeuralMesh.Server.AuthGate
