import NeuralMesh.Server.ExecuteLogic
import NeuralMesh.Server.Release

/-! Which policy logic runs under, over every run of handshakes and executions. The
capability that a handshake announces is only resolved when logic is executed, and each
check is skipped when it names no tool. -/
namespace NeuralMesh.Server

open Js Worker

namespace LiopServer

variable (server : LiopServer)

/-- Every registered tool has a policy. -/
def Policed : Prop :=
  ∀ name tool, server.findTool name = some tool → tool.policy.isSome = true

/-- The checks of the run used the policy of a registered tool. -/
def UnderPolicy (run : LogicRun) : Prop :=
  ∃ tool policy, server.findTool run.toolName = some tool ∧ tool.policy = some policy ∧
    run.toolPolicy = some policy ∧ run.dpConfig = some policy.dpConfig

/-- A direct output that the run sends as a success passes the aggregation check. -/
def Aggregated (run : LogicRun) : Prop :=
  ∀ output, run.output = .ok output → IsDirect server.toEgressEnv output →
    run.response.is_error = false →
    server.violatesAggregation run.toolPolicy (sanitizeOutput output).value = false

structure PolicyInvariant (state : ServerState) : Prop where
  sessions : ∀ token session, state.sessions token = some session →
    (server.resolvePolicy session.capability_hash).isSome = true
  runs : ∀ run ∈ state.runs, server.UnderPolicy run ∧ server.Aggregated run

/-- A handshake names a registered tool; and rows in a direct output of an execution are
still rows after the unwrapping. -/
def PolicyKept (state : ServerState) : RpcEvent → Prop
  | .negotiateIntent request =>
    request.capability_hash ≠ [] ∧ (server.findTool request.capability_hash).isSome = true
  | .executeLogic request => ∀ session, state.sessions request.session_token = some session →
      ∀ output, request.execution.pool
          ((server.resolvePolicy session.capability_hash).map (·.dpConfig)) = .ok output →
        IsDirect server.toEgressEnv output →
        server.violatesAggregation (server.resolvePolicy session.capability_hash)
          (sanitizeOutput output).value = true →
        server.violatesAggregation (server.resolvePolicy session.capability_hash)
          (unwrapForAggregationPolicyScan (sanitizeOutput output).value) = true

variable {server}

theorem resolvePolicy_some {name : JsString} {policy : LogicExecutionPolicy}
    (resolved : server.resolvePolicy name = some policy) :
    ∃ tool, server.findTool name = some tool ∧ tool.policy = some policy := by
  unfold resolvePolicy at resolved
  split_ifs at resolved
  exact Option.bind_eq_some_iff.mp resolved

theorem resolvePolicy_registered (policed : server.Policed) {name : JsString} (named : name ≠ [])
    {tool : ToolDef} (found : server.findTool name = some tool) :
    (server.resolvePolicy name).isSome = true := by
  rw [resolvePolicy, if_neg named, found, Option.bind_some]
  exact policed name tool found

theorem underPolicy_resolved {name : JsString} {output : Except JsString Node}
    {response : LogicResponse} (resolved : (server.resolvePolicy name).isSome = true) :
    server.UnderPolicy ⟨name, server.resolvePolicy name,
      (server.resolvePolicy name).map (·.dpConfig), output, response⟩ := by
  obtain ⟨policy, same⟩ := Option.isSome_iff_exists.mp resolved
  obtain ⟨tool, found, own⟩ := resolvePolicy_some same
  exact ⟨tool, policy, found, own, same, by rw [same]; rfl⟩

/-- A tool call keeps the invariant: it only runs logic for a registered tool. -/
theorem callTool_policy (policed : server.Policed) {state : ServerState}
    (good : server.PolicyInvariant state) (env : ToolEnv) (clientId : JsString)
    {request : EgressEnv.ToolRequest} (named : truthy request.name = true) :
    server.PolicyInvariant (server.callTool env clientId state request).2 := by
  rcases server.callTool_cases env clientId state request with idle |
    ⟨name, entry, logic, budgets, output, response, string, found, _, _, flat, ran⟩
  · rwa [idle]
  · rw [ran]
    rw [string, truthy, bne_iff_ne] at named
    refine ⟨good.sessions, ?_⟩
    intro run member
    rcases List.mem_cons.mp member with rfl | earlier
    · refine ⟨underPolicy_resolved (resolvePolicy_registered policed named found), ?_⟩
      intro o executed _ ok
      exact flat o executed ok
    · exact good.runs run earlier

/-- What is released of a direct output passes the check that the unwrapping does not
weaken. -/
theorem runLogic_policy (policed : server.Policed) {state : ServerState}
    (good : server.PolicyInvariant state) (request : LogicRequest) {session : Session}
    (resolved : (server.resolvePolicy session.capability_hash).isSome = true)
    (kept : ∀ output, request.execution.pool
        ((server.resolvePolicy session.capability_hash).map (·.dpConfig)) = .ok output →
      IsDirect server.toEgressEnv output →
      server.violatesAggregation (server.resolvePolicy session.capability_hash)
        (sanitizeOutput output).value = true →
      server.violatesAggregation (server.resolvePolicy session.capability_hash)
        (unwrapForAggregationPolicyScan (sanitizeOutput output).value) = true) :
    server.PolicyInvariant (server.runLogic state request session) := by
  generalize executed : request.execution.pool
    ((server.resolvePolicy session.capability_hash).map (·.dpConfig)) = result at kept
  have called : server.PolicyInvariant (server.callProxied state request session result).2 := by
    rcases server.callProxied_state state request session result with idle | ⟨call, named, after⟩
    · rwa [idle]
    · rw [after]
      exact callTool_policy policed good _ _ named
  rw [runLogic, executed]
  refine ⟨called.sessions, ?_⟩
  intro run member
  rcases List.mem_cons.mp member with rfl | earlier
  · refine ⟨underPolicy_resolved resolved, ?_⟩
    intro output ran direct ok
    subst ran
    obtain ⟨text, response⟩ := direct_response session.capability_hash
      (server.resolvePolicy session.capability_hash) direct (fun _ => (server.callProxied state request session (.ok output)).1)
    dsimp only at ok
    rw [response] at ok
    have unwrapped := (grpc_released.mp ok).2.2
    by_contra rows
    rw [kept output rfl direct (Bool.not_eq_false _ ▸ rows)] at unwrapped
    cases unwrapped
  · exact called.runs run earlier

theorem negotiateIntent_policy (policed : server.Policed) {state : ServerState}
    (good : server.PolicyInvariant state) {request : IntentRequest}
    (named : server.PolicyKept state (.negotiateIntent request)) :
    server.PolicyInvariant (server.negotiateIntent state request) := by
  obtain ⟨nonempty, registered⟩ := named
  obtain ⟨tool, found⟩ := Option.isSome_iff_exists.mp registered
  unfold negotiateIntent
  split
  · exact good
  · refine ⟨?_, good.runs⟩
    intro token session stored
    dsimp only at stored
    split_ifs at stored
    · cases stored
      exact resolvePolicy_registered policed nonempty found
    · exact good.sessions token session stored

theorem executeLogic_policy (policed : server.Policed) {state : ServerState}
    (good : server.PolicyInvariant state) {request : LogicRequest}
    (kept : server.PolicyKept state (.executeLogic request)) :
    server.PolicyInvariant (server.executeLogic state request) := by
  unfold executeLogic
  split
  · exact good
  · split
    · next error after refused =>
      obtain ⟨sessions, deleted, fewer⟩ := useSession_state state request
      rw [refused] at deleted
      obtain rfl : after = _ := deleted
      exact ⟨fun token session stored => good.sessions token session (fewer token session stored),
        good.runs⟩
    · next session after used =>
      obtain ⟨rfl, stored⟩ := useSession_ok used
      have resolved := good.sessions _ _ stored
      rcases server.runSession_cases after request session with idle |
        ⟨decryptedPayload, budgets, _, _, ran⟩
      · rwa [idle]
      · rw [ran]
        refine runLogic_policy policed ?_ request resolved (kept session stored)
        exact ⟨good.sessions, good.runs⟩

theorem start_policy : server.PolicyInvariant .start := by
  constructor
  · intro token session stored
    cases stored
  · intro run member
    cases member

theorem step_policy (policed : server.Policed) (state : ServerState) (event : RpcEvent)
    (good : server.PolicyInvariant state) (kept : server.PolicyKept state event) :
    server.PolicyInvariant (server.step state event) := by
  cases event with
  | negotiateIntent request => exact negotiateIntent_policy policed good kept
  | executeLogic request => exact executeLogic_policy policed good kept

/-- In a run whose handshakes name registered tools, all logic runs under a registered
policy, and no released direct output violates every registered policy. -/
theorem run_under_policy (policed : server.Policed) {events before : List RpcEvent}
    (allowed : Transition.Allowed server.step server.PolicyKept .start events)
    (visited : before <+: events) :
    ∀ run ∈ (Transition.run server.step .start before).runs,
      server.UnderPolicy run ∧
        ∀ output, run.output = .ok output → IsDirect server.toEgressEnv output →
          run.response.is_error = false →
          ∃ name tool policy, server.findTool name = some tool ∧ tool.policy = some policy ∧
            server.violatesAggregation (some policy) (sanitizeOutput output).value = false := by
  have good := Transition.visited_invariant (step_policy policed) start_policy allowed visited
  intro run member
  obtain ⟨under, aggregated⟩ := good.runs run member
  refine ⟨under, ?_⟩
  intro output ran direct ok
  obtain ⟨tool, policy, found, own, used, _⟩ := under
  have flat := aggregated output ran direct ok
  rw [used] at flat
  exact ⟨run.toolName, tool, policy, found, own, flat⟩

end LiopServer

/-! ### A registered and an unregistered capability -/

/-- A server without authentication whose only tool is `t`. -/
def exampleServer : LiopServer where
  toEgressEnv := openEnv
  tools := [(js "t", ⟨some aggregationPolicy⟩)]
  jwtValidator := false
  localTestToken := []
  preflight := ⟨fun _ => false, ⟨fun _ _ _ => none, fun _ => [js "balance"], id, [], []⟩, []⟩
  sha256 := id

def handshake (capability_hash agent_did sessionToken : JsString) : IntentRequest where
  credentials := ⟨[], fun _ => false, .allowed⟩
  capability_hash := capability_hash
  agent_did := agent_did
  kyber_sk := []
  sessionToken := sessionToken
  now := 1

def execution (session_token : JsString) (output : Node) : LogicRequest where
  credentials := ⟨[], fun _ => false, .allowed⟩
  session_token := session_token
  now := 2
  revokedLater := fun _ => false
  execution := ⟨fun _ => .ok [], .used, fun _ => .ok output⟩
  proxied := ⟨fun _ => none, fun _ _ => .error [], fun _ _ => .error [], .used, fun _ => .error []⟩

def registeredEvents : List RpcEvent :=
  [.negotiateIntent (handshake (js "t") (js "a") (js "s")),
    .executeLogic (execution (js "s") (.scalar (.bool true)))]

theorem exampleServer_policed : exampleServer.Policed := by
  intro name tool found
  unfold LiopServer.findTool at found
  simp only [exampleServer, List.lookup_cons, List.lookup_nil] at found
  split at found
  · cases found
    rfl
  · cases found

theorem registered_run_under_policy :
    (Transition.run exampleServer.step .start registeredEvents).runs ≠ [] ∧
    ∀ run ∈ (Transition.run exampleServer.step .start registeredEvents).runs,
      exampleServer.UnderPolicy run ∧
        ∀ output, run.output = .ok output → IsDirect exampleServer.toEgressEnv output →
          run.response.is_error = false →
          ∃ name tool policy, exampleServer.findTool name = some tool ∧ tool.policy = some policy ∧
            exampleServer.violatesAggregation (some policy) (sanitizeOutput output).value = false := by
  have allowed : Transition.Allowed exampleServer.step exampleServer.PolicyKept .start
      registeredEvents := by
    refine ⟨⟨by decide, rfl⟩, ?_, trivial⟩
    rintro session _ output ⟨⟩ _ rows
    have flat (policyObj : Option AggregationFirst) (n : Nat) :
        exportsRows policyObj n (.bool true) = false := by
      rw [exportsRows] <;> simp
    rw [EgressEnv.violatesAggregation, violatesAggregationFirstPolicy] at rows
    have value : (sanitizeOutput (.scalar (.bool true))).value = .bool true := rfl
    rw [value, flat, Bool.and_false] at rows
    cases rows
  refine ⟨?_, LiopServer.run_under_policy exampleServer_policed allowed List.prefix_rfl⟩
  intro empty
  cases empty

def unregisteredEvents : List RpcEvent :=
  [.negotiateIntent (handshake (js "nothing") (js "a") (js "s")),
    .executeLogic (execution (js "s") rowsBesideResult.output)]

/-- A capability that names no tool: no noise, no checks, and the rows are sent. -/
theorem unregistered_capability_runs :
    exampleServer.Policed ∧
    ∃ run ∈ (Transition.run exampleServer.step .start unregisteredEvents).runs,
      run.dpConfig = none ∧ run.toolPolicy = none ∧ run.response.is_error = false ∧
      ∃ output, run.output = .ok output ∧ IsDirect exampleServer.toEgressEnv output ∧
        ∀ name tool policy, exampleServer.findTool name = some tool → tool.policy = some policy →
          exampleServer.violatesAggregation (some policy) (sanitizeOutput output).value = true := by
  refine ⟨exampleServer_policed, ?_⟩
  have direct : IsDirect exampleServer.toEgressEnv rowsBesideResult.output := rowsBesideResult_direct
  obtain ⟨state, request, session, named, pooled, ran⟩ : ∃ state request session,
      session.capability_hash = js "nothing" ∧
      request.execution.pool none = .ok rowsBesideResult.output ∧
      Transition.run exampleServer.step .start unregisteredEvents =
        exampleServer.runLogic state request session := ⟨_, _, _, rfl, rfl, rfl⟩
  have unresolved : exampleServer.resolvePolicy session.capability_hash = none := by
    rw [named]
    rfl
  rw [ran, LiopServer.runLogic]
  simp only [unresolved, Option.map_none, pooled, LiopServer.callProxied_direct _ direct]
  refine ⟨_, List.mem_cons_self, rfl, rfl, ?_, rowsBesideResult.output, rfl, direct, ?_⟩
  · obtain ⟨text, response⟩ := direct_response session.capability_hash none direct (fun _ => none)
    rw [response, grpc_released]
    exact ⟨rfl, scan_openScanner _, rfl⟩
  · intro name tool policy found own
    unfold LiopServer.findTool at found
    simp only [exampleServer, List.lookup_cons, List.lookup_nil] at found
    split at found
    · cases found
      cases own
      exact rowsBesideResult_rows
    · cases found

end NeuralMesh.Server
