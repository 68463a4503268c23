import NeuralMesh.Server.PolicyRuns

/-! The query budget over every run of one client. Counts are kept for the identity that a
handshake announces, or for the session when it announces none, so they bound the client
only while it announces one identity. -/
namespace NeuralMesh.Server

open Js

/-- The accepted queries on a field of a tool. -/
def queriesOn (accepted : List Query) (toolName field : JsString) : Nat :=
  accepted.countP fun query => query.toolName = toolName ∧ field ∈ query.extractedFields

namespace LiopServer

variable (server : LiopServer)

def fieldLimit (toolName field : JsString) : Nat :=
  (server.preflight.analyzer.queryLimit (server.resolvePolicy toolName) field).queries

def countPath (toolName : JsString) : JsString :=
  budgetPath server.preflight.budgetStorePath (server.resolvePolicy toolName)

/-- Every session announced `agent_did`, whose counts cover the accepted queries. -/
structure BudgetInvariant (agent_did : JsString) (state : ServerState) : Prop where
  sessions : ∀ token session, state.sessions token = some session → session.agent_did = agent_did
  limited : ∀ toolName field,
    queriesOn state.accepted toolName field ≤ server.fieldLimit toolName field
  counted : ∀ toolName field, queriesOn state.accepted toolName field ≤
    state.budgets.countAt (server.countPath toolName) agent_did (namedOrUnknown toolName) field

/-- A handshake announces `agent_did`; and where a budget file is configured, it is in use
and keeps the counts of the queried fields. -/
def BudgetKept (agent_did : JsString) (state : ServerState) : RpcEvent → Prop
  | .negotiateIntent request => request.agent_did = agent_did
  | .executeLogic request =>
    (∀ session decryptedPayload, state.sessions request.session_token = some session →
      request.execution.decrypt session.kyber_sk = .ok decryptedPayload →
      StoreKept server.preflight.budgetStorePath request.execution.store
        (namedOrUnknown session.capability_hash) (server.resolvePolicy session.capability_hash)
        (server.preflight.analyzer.extractQueriedFields (preflightSource decryptedPayload))) ∧
    ∀ name logic, CarriesLogic request.proxied name logic →
      StoreKept server.preflight.budgetStorePath request.proxied.store name
        (server.resolvePolicy name) (server.preflight.analyzer.extractQueriedFields logic)

variable {server} {agent_did : JsString}

theorem queriesOn_cons (query : Query) (accepted : List Query) (toolName field : JsString) :
    queriesOn (query :: accepted) toolName field = queriesOn accepted toolName field +
      if query.toolName = toolName ∧ field ∈ query.extractedFields then 1 else 0 := by
  simp [queriesOn, List.countP_cons]

/-- Accepting a charged query keeps the invariant. -/
theorem accept_budget {state : ServerState} (good : server.BudgetInvariant agent_did state)
    {toolName : JsString} {fields : List JsString} {after : BudgetState} (runs : List LogicRun)
    (charged : Charged server.preflight.analyzer state.budgets after (server.countPath toolName)
      agent_did (namedOrUnknown toolName) fields (server.resolvePolicy toolName)) :
    server.BudgetInvariant agent_did { state with
      budgets := after
      accepted := ⟨toolName, fields⟩ :: state.accepted
      runs := runs } := by
  refine ⟨good.sessions, ?_, ?_⟩
  · intro tool field
    rw [queriesOn_cons]
    split_ifs with queried
    · obtain ⟨rfl, member⟩ := queried
      have covered := good.counted toolName field
      have below := charged.below field member
      rw [fieldLimit]
      dsimp only
      omega
    · exact good.limited tool field
  · intro tool field
    have covered := good.counted tool field
    rw [queriesOn_cons]
    dsimp only
    split_ifs with queried
    · obtain ⟨rfl, member⟩ := queried
      have more := charged.counted field member
      omega
    · exact covered.trans (charged.kept _ _ _ _)

theorem resolvePolicy_of_named {name : JsString} (named : name ≠ []) {entry : ToolDef}
    (found : server.findTool name = some entry) : server.resolvePolicy name = entry.policy := by
  rw [resolvePolicy, if_neg named, found]
  rfl

theorem callTool_budget {state : ServerState} (good : server.BudgetInvariant agent_did state)
    (env : ToolEnv) {request : EgressEnv.ToolRequest} (named : truthy request.name = true)
    (kept : ∀ name logic, CarriesLogic env name logic →
      StoreKept server.preflight.budgetStorePath env.store name (server.resolvePolicy name)
        (server.preflight.analyzer.extractQueriedFields logic)) :
    server.BudgetInvariant agent_did (server.callTool env agent_did state request).2 := by
  rcases server.callTool_cases env agent_did state request with idle |
    ⟨name, entry, logic, budgets, output, response, string, found, carried, passed, _, ran⟩
  · rwa [idle]
  · rw [string, truthy, bne_iff_ne] at named
    have policy := resolvePolicy_of_named named found
    have key : namedOrUnknown name = name := if_neg named
    have store := kept name logic carried
    rw [ran, recordRun]
    apply accept_budget good
    rw [countPath, key, policy]
    rw [policy] at store
    exact runPreflightPolicy_accepted store passed

theorem runLogic_budget (announced : agent_did ≠ []) {state : ServerState}
    (good : server.BudgetInvariant agent_did state) (request : LogicRequest) {session : Session}
    (same : session.agent_did = agent_did)
    (kept : ∀ name logic, CarriesLogic request.proxied name logic →
      StoreKept server.preflight.budgetStorePath request.proxied.store name
        (server.resolvePolicy name) (server.preflight.analyzer.extractQueriedFields logic)) :
    server.BudgetInvariant agent_did (server.runLogic state request session) := by
  rw [runLogic]
  generalize request.execution.pool
    ((server.resolvePolicy session.capability_hash).map (·.dpConfig)) = executed
  have called : server.BudgetInvariant agent_did
      (server.callProxied state request session executed).2 := by
    rcases server.callProxied_state state request session executed with idle | ⟨call, named, after⟩
    · rwa [idle]
    · rw [after, same, if_neg announced]
      exact callTool_budget good request.proxied named kept
  exact ⟨called.sessions, called.limited, called.counted⟩

theorem negotiateIntent_budget {state : ServerState}
    (good : server.BudgetInvariant agent_did state) {request : IntentRequest}
    (announced : request.agent_did = agent_did) :
    server.BudgetInvariant agent_did (server.negotiateIntent state request) := by
  unfold negotiateIntent
  split
  · exact good
  · refine ⟨?_, good.limited, good.counted⟩
    intro token session stored
    dsimp only at stored
    split_ifs at stored
    · cases stored
      exact announced
    · exact good.sessions token session stored

theorem executeLogic_budget (announced : agent_did ≠ []) {state : ServerState}
    (good : server.BudgetInvariant agent_did state) {request : LogicRequest}
    (kept : server.BudgetKept agent_did state (.executeLogic request)) :
    server.BudgetInvariant agent_did (server.executeLogic state request) := by
  unfold executeLogic
  split
  · exact good
  · split
    · next error after refused =>
      obtain ⟨sessions, deleted, fewer⟩ := useSession_state state request
      rw [refused] at deleted
      obtain rfl : after = _ := deleted
      exact ⟨fun token session stored => good.sessions token session (fewer token session stored),
        good.limited, good.counted⟩
    · next session after used =>
      obtain ⟨rfl, stored⟩ := useSession_ok used
      have same := good.sessions _ _ stored
      rcases server.runSession_cases after request session with idle |
        ⟨decryptedPayload, budgets, decrypted, passed, ran⟩
      · rwa [idle]
      · rw [ran]
        rw [same, if_neg announced] at passed
        have charged := runPreflightPolicy_accepted
          (kept.1 session decryptedPayload stored decrypted) passed
        exact runLogic_budget announced (accept_budget good after.runs charged) request same kept.2

theorem start_budget (agent_did : JsString) : server.BudgetInvariant agent_did .start := by
  refine ⟨?_, ?_, ?_⟩
  · intro token session stored
    cases stored
  · intro toolName field
    exact Nat.zero_le _
  · intro toolName field
    exact Nat.zero_le _

theorem step_budget (announced : agent_did ≠ []) (state : ServerState) (event : RpcEvent)
    (good : server.BudgetInvariant agent_did state)
    (kept : server.BudgetKept agent_did state event) :
    server.BudgetInvariant agent_did (server.step state event) := by
  cases event with
  | negotiateIntent request => exact negotiateIntent_budget good kept
  | executeLogic request => exact executeLogic_budget announced good kept

/-- A client that always announces one identity stays within the limit of every field. -/
theorem run_within_budget (announced : agent_did ≠ []) {events before : List RpcEvent}
    (allowed : Transition.Allowed server.step (server.BudgetKept agent_did) .start events)
    (visited : before <+: events) (toolName field : JsString) :
    queriesOn (Transition.run server.step .start before).accepted toolName field ≤
      server.fieldLimit toolName field :=
  (Transition.visited_invariant (step_budget announced) (start_budget agent_did) allowed
    visited).limited toolName field

end LiopServer

/-! ### One identity and none -/

/-- A server with tokens whose tool `t` allows one query on a field. -/
def budgetServer : LiopServer where
  toEgressEnv := openEnv
  tools := [(js "t", ⟨some { aggregationPolicy with queryBudgetPerField := some 1 }⟩)]
  jwtValidator := true
  localTestToken := []
  preflight := ⟨fun _ => false, ⟨fun _ _ _ => none, fun _ => [js "balance"], id, [], []⟩, []⟩
  sha256 := fun _ => []

def bearer : Credentials := ⟨js "Bearer k", fun _ => false, .allowed⟩

/-- Two handshakes of one token that announce this identity, each with one query. -/
def twoSessions (agent_did : JsString) : List RpcEvent :=
  [.negotiateIntent { handshake (js "t") agent_did (js "1") with credentials := bearer },
    .executeLogic { execution (js "1") (.scalar (.bool true)) with credentials := bearer },
    .negotiateIntent { handshake (js "t") agent_did (js "2") with credentials := bearer },
    .executeLogic { execution (js "2") (.scalar (.bool true)) with credentials := bearer }]

theorem budgetServer_memory (toolName : JsString) :
    budgetPath budgetServer.preflight.budgetStorePath (budgetServer.resolvePolicy toolName) = [] := by
  cases resolved : budgetServer.resolvePolicy toolName with
  | none => rfl
  | some policy =>
    obtain ⟨tool, found, own⟩ := LiopServer.resolvePolicy_some resolved
    unfold LiopServer.findTool at found
    simp only [budgetServer, List.lookup_cons, List.lookup_nil] at found
    split at found
    · cases found
      cases own
      rfl
    · cases found

theorem one_identity_within_budget :
    queriesOn (Transition.run budgetServer.step .start (twoSessions (js "a"))).accepted (js "t")
      (js "balance") ≤ budgetServer.fieldLimit (js "t") (js "balance") := by
  have memory (outcome : StoreOutcome) (key toolName : JsString) (fields : List JsString) :
      StoreKept budgetServer.preflight.budgetStorePath outcome key
        (budgetServer.resolvePolicy toolName) fields := by
    intro stored
    exact absurd (budgetServer_memory toolName) stored
  have allowed : Transition.Allowed budgetServer.step (budgetServer.BudgetKept (js "a")) .start
      (twoSessions (js "a")) := by
    refine ⟨rfl, ⟨?_, ?_⟩, rfl, ⟨?_, ?_⟩, trivial⟩
    · exact fun session _ _ _ => memory _ _ session.capability_hash _
    · exact fun name _ _ => memory _ _ name _
    · exact fun session _ _ _ => memory _ _ session.capability_hash _
    · exact fun name _ _ => memory _ _ name _
  exact LiopServer.run_within_budget (by decide) allowed List.prefix_rfl (js "t") (js "balance")

/-- Without an identity each handshake brings a new budget. -/
theorem new_handshake_new_budget :
    budgetServer.fieldLimit (js "t") (js "balance") = 1 ∧
    queriesOn (Transition.run budgetServer.step .start (twoSessions [])).accepted (js "t")
      (js "balance") = 2 :=
  ⟨rfl, rfl⟩

end NeuralMesh.Server
