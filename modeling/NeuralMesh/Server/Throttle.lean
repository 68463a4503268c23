import NeuralMesh.Answers
import NeuralMesh.Server.ExecuteLogic
import NeuralMesh.Server.Release

/-! The throttle of the Logic-on-Origin tools. Their handler counts the calls that fail, and answers
nothing else while it cools down; but a payload with an envelope never reaches the handler. -/
namespace NeuralMesh.Server

open Js Codec Worker

def THROTTLE_THRESHOLD : Nat := 5

def THROTTLE_COOLDOWN_MS : Nat := 60 * 1000

def CACHE_TTL_MS : Nat := 24 * 60 * 60 * 1000

/-- The statistics of `global_connection`. -/
structure ConnectionStats where
  failures : Nat
  lastAttempt : Nat

def ConnectionStats.IsThrottled (stats : ConnectionStats) (now : Nat) : Prop :=
  THROTTLE_THRESHOLD ≤ stats.failures ∧ now - stats.lastAttempt < THROTTLE_COOLDOWN_MS

instance (stats : ConnectionStats) (now : Nat) : Decidable (stats.IsThrottled now) :=
  inferInstanceAs (Decidable (_ ∧ _))

def ConnectionStats.fail (stats : ConnectionStats) (now : Nat) : ConnectionStats :=
  ⟨stats.failures + 1, now⟩

structure ThrottleState where
  budgets : BudgetState
  connectionStats : ConnectionStats
  /-- The times of the accepted payloads, by their hashes. -/
  logicCache : (payloadHash : JsString) → Option Nat

def ThrottleState.start : ThrottleState where
  budgets := ⟨fun _ _ _ => 0, fun _ _ _ _ => 0⟩
  connectionStats := ⟨0, 0⟩
  logicCache _ := none

/-- The parsed arguments of a tool whose schema has a text payload. -/
structure LogicArgs where
  payload : JsString
  bypassCache : Bool

/-- A call of such a tool, with what its environment answers: the rate limiters, the schema, the
budget file and the worker pool. -/
structure LogicCall where
  name : JsString
  clientId : JsString
  now : Nat
  rateLimit : Option Node
  parsed : Except JsString LogicArgs
  store : StoreOutcome
  pool : Option DpConfig → Except JsString EgressEnv.PoolResponse

inductive LogicOutcome where
  | missing
  | rateLimited (result : Node)
  | invalid (text : JsString)
  | throttled
  | malformed
  | rejected (preflightReason : JsString)
  /-- A fault of the worker pool. -/
  | faulted (text : JsString)
  | ran (result : EgressEnv.CallToolResult)

namespace LogicOutcome

/-- The call ended before its payload was looked at. -/
def isRefused : LogicOutcome → Bool
  | .missing | .rateLimited _ | .invalid _ | .throttled => true
  | _ => false

def isMalformed : LogicOutcome → Bool
  | .malformed => true
  | _ => false

/-- A malformed envelope, a preflight rejection or a blocked egress. -/
def isViolation : LogicOutcome → Bool
  | .malformed | .rejected _ => true
  | .ran result => result.isError
  | _ => false

/-- The field of the result. -/
def isError : LogicOutcome → Bool
  | .ran result => result.isError
  | _ => true

/-- What the caller gets; `none` is an exception. -/
def result : LogicOutcome → Option Node
  | .missing => none
  | .rateLimited result => some result
  | .invalid text => some (textResult text true)
  | .throttled => some (textResult
      (js "LIOP_THROTTLED: Too many violations. Cooling down for 60 seconds.") true)
  | .malformed => some (textResult (js "Error: Malformed payload. Missing @LIOP boundary.\\nYou MUST wrap your logic exactly like this:\\n\\n@LIOP\x7bwasi_v1,DynamicAudit\x7d\\n// Your JS code here\\n@END") true)
  | .rejected preflightReason => some (textResult preflightReason true)
  | .faulted text => some (textResult text true)
  | .ran result => some (textResult result.text result.isError)

end LogicOutcome

namespace LogicCall

variable (server : LiopServer)

/-- `executeInWorkerPool` -/
def executeInWorkerPool (call : LogicCall) : LogicOutcome :=
  let toolPolicy := server.resolvePolicy call.name
  match call.pool (toolPolicy.map (·.dpConfig)) with
  | .error text => .faulted text
  | .ok worker => .ran (server.toEgressEnv.executeInWorkerPool call.name toolPolicy worker)

/-- The handler that `tool` registers for a schema with a text payload. -/
def finalHandler (policy : Option LogicExecutionPolicy) (call : LogicCall) (args : LogicArgs)
    (s : ThrottleState) : LogicOutcome × ThrottleState :=
  let stats := s.connectionStats
  if stats.IsThrottled call.now then (.throttled, s)
  else
    let payloadHash := hashHex server.sha256 args.payload
    match extractLogic (wellFormed args.payload) with
    | none | some [] => (.malformed, { s with connectionStats := stats.fail call.now })
    | some logic =>
      let preflight :=
        server.checkLogic call.store s.budgets call.name logic policy (js "mcp-client")
      let cached := (s.logicCache payloadHash).any fun timestamp =>
        call.now - timestamp < CACHE_TTL_MS
      if !args.bypassCache && cached then
        match preflight with
        | (some preflightReason, budgets) =>
          (.rejected preflightReason, { s with budgets := budgets })
        | (none, budgets) => (call.executeInWorkerPool server, { s with budgets := budgets })
      else
        match preflight with
        | (some preflightReason, budgets) => (.rejected preflightReason,
            { s with budgets := budgets, connectionStats := stats.fail call.now })
        | (none, budgets) =>
          let outcome := call.executeInWorkerPool server
          if outcome.isError then (outcome,
            { s with budgets := budgets, connectionStats := stats.fail call.now })
          else (outcome, {
            budgets := budgets
            connectionStats := ⟨0, call.now⟩
            logicCache := fun hash =>
              if hash = payloadHash then some call.now else s.logicCache hash })

def callTool (s : ThrottleState) (call : LogicCall) : LogicOutcome × ThrottleState :=
  match server.findTool call.name with
  | none => (.missing, s)
  | some entry =>
    match call.rateLimit with
    | some limited => (.rateLimited limited, s)
    | none =>
      match call.parsed with
      | .error text => (.invalid text, s)
      | .ok args =>
        match extractLogic (wellFormed args.payload) with
        | none | some [] => call.finalHandler server entry.policy args s
        | some logic =>
          match server.checkLogic call.store s.budgets call.name logic entry.policy
              call.clientId with
          | (some preflightReason, budgets) =>
            (.rejected preflightReason, { s with budgets := budgets })
          | (none, budgets) => (call.executeInWorkerPool server, { s with budgets := budgets })

/-- The call ends before its payload is looked at, throttled or not. -/
def EndsEarly (call : LogicCall) : Prop :=
  server.findTool call.name = none ∨ call.rateLimit.isSome ∨ call.parsed.isOk = false

/-- The logic of an envelope in the payload. -/
def logic (call : LogicCall) : Option Text :=
  match call.parsed with
  | .error _ => none
  | .ok args => (extractLogic (wellFormed args.payload)).filter (· ≠ [])

/-! ### One call -/

/-- What a call does: it ends early, or meets the throttle, or fails in the handler, or is looked at
before the handler and leaves the statistics alone. -/
inductive Answered (call : LogicCall) (s : ThrottleState) : LogicOutcome × ThrottleState → Prop
  | early {outcome : LogicOutcome} (ends : call.EndsEarly server)
    (refused : outcome.isRefused = true) : Answered call s (outcome, s)
  | throttled (later : ¬ call.EndsEarly server) (plain : call.logic = none)
    (cooling : s.connectionStats.IsThrottled call.now) : Answered call s (.throttled, s)
  | malformed (later : ¬ call.EndsEarly server) (plain : call.logic = none)
    (ready : ¬ s.connectionStats.IsThrottled call.now) : Answered call s
      (.malformed, { s with connectionStats := s.connectionStats.fail call.now })
  | looked {outcome : LogicOutcome} {budgets : BudgetState} (later : ¬ call.EndsEarly server)
    (carried : call.logic ≠ none) (passed : outcome.isRefused = false)
    (wellFormed : outcome.isMalformed = false) :
    Answered call s (outcome, { s with budgets := budgets })

variable {server} {call : LogicCall} {s : ThrottleState}

theorem finalHandler_plain (policy : Option LogicExecutionPolicy) {args : LogicArgs}
    (plain : (extractLogic (wellFormed args.payload)).filter (· ≠ []) = none) :
    call.finalHandler server policy args s =
      if s.connectionStats.IsThrottled call.now then (.throttled, s)
      else (.malformed, { s with connectionStats := s.connectionStats.fail call.now }) := by
  rw [finalHandler]
  dsimp only
  cases extracted : extractLogic (wellFormed args.payload) with
  | none => rfl
  | some logic =>
    cases logic with
    | nil => rfl
    | cons c cs =>
      rw [extracted, Option.filter_some, if_pos (decide_eq_true (List.cons_ne_nil c cs))] at plain
      cases plain

theorem executeInWorkerPool_looked (call : LogicCall) :
    (call.executeInWorkerPool server).isRefused = false ∧
      (call.executeInWorkerPool server).isMalformed = false := by
  rw [executeInWorkerPool]
  cases call.pool ((server.resolvePolicy call.name).map (·.dpConfig)) with
  | error text => exact ⟨rfl, rfl⟩
  | ok worker => exact ⟨rfl, rfl⟩

/-- A call that passes the limiters and the schema. -/
theorem callTool_parsed (s : ThrottleState) {entry : ToolDef}
    (found : server.findTool call.name = some entry) (limited : call.rateLimit = none)
    {args : LogicArgs} (parsed : call.parsed = .ok args) :
    callTool server s call = match extractLogic (wellFormed args.payload) with
      | none | some [] => call.finalHandler server entry.policy args s
      | some logic =>
        match server.checkLogic call.store s.budgets call.name logic entry.policy
            call.clientId with
        | (some preflightReason, budgets) =>
          (.rejected preflightReason, { s with budgets := budgets })
        | (none, budgets) => (call.executeInWorkerPool server, { s with budgets := budgets }) := by
  rw [callTool, found, limited, parsed]

theorem callTool_answered (server : LiopServer) (call : LogicCall) (s : ThrottleState) :
    Answered server call s (callTool server s call) := by
  rw [callTool]
  cases found : server.findTool call.name with
  | none => exact .early (.inl found) rfl
  | some entry =>
    dsimp only
    cases limited : call.rateLimit with
    | some result => exact .early (.inr (.inl (by rw [limited]; rfl))) rfl
    | none =>
      cases parsed : call.parsed with
      | error text => exact .early (.inr (.inr (by rw [parsed]; rfl))) rfl
      | ok args =>
        have later : ¬ call.EndsEarly server := by
          rintro (absent | stopped | invalid)
          · cases found.symm.trans absent
          · rw [limited] at stopped
            cases stopped
          · rw [parsed] at invalid
            cases invalid
        have handled (plain : call.logic = none) :
            Answered server call s (call.finalHandler server entry.policy args s) := by
          have unmatched := plain
          rw [logic, parsed] at unmatched
          rw [finalHandler_plain entry.policy unmatched]
          split_ifs with cooling
          · exact .throttled later plain cooling
          · exact .malformed later plain cooling
        dsimp only
        split
        · next extracted => exact handled (by rw [logic, parsed]; dsimp only; rw [extracted]; rfl)
        · next extracted => exact handled (by rw [logic, parsed]; dsimp only; rw [extracted]; rfl)
        · next source nonempty extracted =>
          have carried : call.logic ≠ none := by
            have kept : source ≠ [] := nonempty
            rw [logic, parsed]
            dsimp only
            rw [extracted, Option.filter_some, if_pos (decide_eq_true kept)]
            exact nofun
          split
          · exact .looked later carried rfl rfl
          · obtain ⟨passed, looked⟩ := @executeInWorkerPool_looked server call
            exact .looked later carried passed looked

end LogicCall

/-! ### The call without statistics -/

namespace LogicCall

/-- The environment in which the handler's answer is the one that it gives here. -/
def environment (server : LiopServer) (call : LogicCall) (s : ThrottleState) : ToolEnv where
  rateLimit _ := call.rateLimit
  parseArgs _ _ := call.parsed.map fun args => .obj [(js "payload", .str args.payload)]
  handler _ _ := .ok ((callTool server s call).1.result.getD (textResult [] true))
  store := call.store
  pool := call.pool

/-- Apart from the statistics this is the call of the server. -/
theorem callTool_refines (server : LiopServer) (call : LogicCall) (s : ThrottleState)
    {state : ServerState} (same : state.budgets = s.budgets) (arguments : JsValue) :
    let called := server.callTool (call.environment server s) call.clientId state
      ⟨.str call.name, arguments⟩
    called.1 = (callTool server s call).1.result ∧
      called.2.budgets = (callTool server s call).2.budgets := by
  have payload (args : LogicArgs) :
      member (js "payload") (.obj [(js "payload", .str args.payload)]) = .str args.payload := by
    rw [member, property, if_pos rfl]
  unfold LiopServer.callTool
  dsimp only [environment]
  cases found : server.findTool call.name with
  | none =>
    have here : callTool server s call = (.missing, s) := by rw [callTool, found]
    rw [here]
    exact ⟨rfl, same⟩
  | some entry =>
    cases limited : call.rateLimit with
    | some result =>
      have here : callTool server s call = (.rateLimited result, s) := by
        rw [callTool, found, limited]
      rw [here]
      exact ⟨rfl, same⟩
    | none =>
      cases parsed : call.parsed with
      | error text =>
        have here : callTool server s call = (.invalid text, s) := by
          rw [callTool, found, limited, parsed]
        rw [here]
        exact ⟨rfl, same⟩
      | ok args =>
        have here := callTool_parsed s found limited parsed
        have plain (unmatched : (extractLogic (wellFormed args.payload)).filter (· ≠ []) = none)
            (handled : callTool server s call = call.finalHandler server entry.policy args s) :
            some ((callTool server s call).1.result.getD (textResult [] true)) =
                (callTool server s call).1.result ∧
              state.budgets = (callTool server s call).2.budgets := by
          rw [handled, finalHandler_plain entry.policy unmatched]
          split_ifs
          · exact ⟨rfl, same⟩
          · exact ⟨rfl, same⟩
        dsimp only [Except.map]
        rw [payload]
        dsimp only
        cases extracted : extractLogic (wellFormed args.payload) with
        | none =>
          rw [extracted] at here
          exact plain (by rw [extracted]; rfl) here
        | some source =>
          rw [extracted] at here
          cases source with
          | nil => exact plain (by rw [extracted]; rfl) here
          | cons c cs =>
            rw [here, same]
            dsimp only
            cases server.checkLogic call.store s.budgets call.name (c :: cs) entry.policy
                call.clientId with
            | mk reason budgets =>
              cases reason with
              | some reason => exact ⟨rfl, rfl⟩
              | none =>
                refine ⟨?_, rfl⟩
                dsimp only
                rw [executeInWorkerPool]
                cases call.pool ((server.resolvePolicy call.name).map (·.dpConfig)) with
                | error text => rfl
                | ok worker => rfl

end LogicCall

/-! ### Runs -/

/-- The calls that were answered, oldest first. -/
abbrev LogicLog := List (LogicCall × LogicOutcome)

namespace LogicLog

/-- The violations at the end, newest first; a call that was refused does not interrupt them. -/
def streak (log : LogicLog) : LogicLog :=
  (log.filter fun answered => !answered.2.isRefused).reverse.takeWhile fun answered =>
    answered.2.isViolation

def malformedCalls (log : LogicLog) : LogicLog := log.filter fun answered => answered.2.isMalformed

/-- The newest of these calls is not older than the cooldown. -/
def IsRecent (now : Nat) (newest : Option (LogicCall × LogicOutcome)) : Prop :=
  ∃ answered ∈ newest, now - answered.1.now < THROTTLE_COOLDOWN_MS

instance (now : Nat) (newest : Option (LogicCall × LogicOutcome)) :
    Decidable (IsRecent now newest) :=
  inferInstanceAs (Decidable (∃ answered ∈ newest, _))

/-- Enough violations in a row, the last of them within the cooldown. -/
def Violated (log : LogicLog) (now : Nat) : Prop :=
  THROTTLE_THRESHOLD ≤ log.streak.length ∧ IsRecent now log.streak.head?

instance (log : LogicLog) (now : Nat) : Decidable (log.Violated now) :=
  inferInstanceAs (Decidable (_ ∧ _))

/-- Enough calls whose payload had no envelope, the last of them within the cooldown. -/
def Counted (log : LogicLog) (now : Nat) : Prop :=
  THROTTLE_THRESHOLD ≤ log.malformedCalls.length ∧ IsRecent now log.malformedCalls.getLast?

/-- The statistics after these calls. -/
def stats (log : LogicLog) : ConnectionStats :=
  ⟨log.malformedCalls.length, log.malformedCalls.getLast?.elim 0 (·.1.now)⟩

theorem throttled_iff (log : LogicLog) (now : Nat) :
    log.stats.IsThrottled now ↔ log.Counted now := by
  refine and_congr_right fun enough => ?_
  rw [IsRecent, stats]
  cases newest : log.malformedCalls.getLast? with
  | none =>
    rw [List.getLast?_eq_none_iff] at newest
    rw [stats, newest] at enough
    exact absurd enough (by decide)
  | some last => exact ⟨fun recent => ⟨last, rfl, recent⟩, fun ⟨_, same, recent⟩ => by
      rwa [← Option.some.inj same] at recent⟩

end LogicLog

namespace LogicCall

variable {server : LiopServer}

theorem step_stats (log : LogicLog) (s : ThrottleState) (call : LogicCall)
    (same : s.connectionStats = log.stats) :
    (Answers.next (callTool server) s call).connectionStats =
      LogicLog.stats (log ++ [(call, (callTool server s call).1)]) := by
  have answered := callTool_answered server call s
  have unmalformed {outcome : LogicOutcome} (apart : outcome.isMalformed = false) :
      LogicLog.stats (log ++ [(call, outcome)]) = log.stats := by
    rw [LogicLog.stats, LogicLog.malformedCalls, List.filter_append,
      List.filter_cons_of_neg (by rw [apart]; exact Bool.false_ne_true), List.filter_nil,
      List.append_nil]
    rfl
  rw [Answers.next]
  generalize callTool server s call = result at answered
  cases answered with
  | @early outcome ends refused =>
    have apart : outcome.isMalformed = false := by
      cases outcome <;> first | rfl | cases refused
    rw [unmalformed apart]
    exact same
  | throttled later plain cooling =>
    rw [unmalformed rfl]
    exact same
  | malformed later plain ready =>
    dsimp only
    rw [same, LogicLog.stats, LogicLog.stats, LogicLog.malformedCalls, LogicLog.malformedCalls,
      List.filter_append, List.filter_cons_of_pos rfl, List.filter_nil, List.length_append,
      List.getLast?_concat]
    rfl
  | looked later carried passed wellFormed =>
    rw [unmalformed wellFormed]
    exact same

/-- The handler has counted the malformed payloads, and no other violation. -/
theorem run_stats (server : LiopServer) (calls : List LogicCall) :
    (Transition.run (Answers.next (callTool server)) .start calls).connectionStats =
      LogicLog.stats (Answers.trace (callTool server) .start calls) := by
  have kept := @Answers.trace_kept ThrottleState LogicCall LogicOutcome (callTool server)
    (fun log s => s.connectionStats = LogicLog.stats log)
    (fun log s call same => step_stats log s call same) [] .start rfl calls
  rwa [List.nil_append] at kept

/-- The next call is refused, if enough calls in a row were violations. -/
def Throttles (server : LiopServer) (before : List LogicCall) (call : LogicCall) : Prop :=
  LogicLog.Violated (Answers.trace (callTool server) .start before) call.now →
    (callTool server (Transition.run (Answers.next (callTool server)) .start before)
      call).1.isRefused

/-- A call is refused if it ends early, or if its payload has no envelope and enough of those before
it had none. -/
theorem refused_iff (before : List LogicCall) (call : LogicCall) :
    (callTool server (Transition.run (Answers.next (callTool server)) .start before)
        call).1.isRefused = true ↔
      call.EndsEarly server ∨ call.logic = none ∧
        LogicLog.Counted (Answers.trace (callTool server) .start before) call.now := by
  have answered := callTool_answered server call
    (Transition.run (Answers.next (callTool server)) .start before)
  have counted := LogicLog.throttled_iff (Answers.trace (callTool server) .start before) call.now
  rw [← run_stats] at counted
  generalize callTool server _ call = result at answered
  cases answered with
  | early ends refused => exact ⟨fun _ => .inl ends, fun _ => refused⟩
  | throttled later plain cooling =>
    exact ⟨fun _ => .inr ⟨plain, counted.mp cooling⟩, fun _ => rfl⟩
  | malformed later plain ready =>
    refine ⟨nofun, fun stopped => ?_⟩
    rcases stopped with ends | ⟨-, enough⟩
    · exact absurd ends later
    · exact absurd (counted.mpr enough) ready
  | looked later carried passed _ =>
    rw [passed]
    refine ⟨nofun, fun stopped => ?_⟩
    rcases stopped with ends | ⟨plain, -⟩
    · exact absurd ends later
    · exact absurd plain carried

/-- A call without an envelope is refused, or malformed. -/
theorem plain_outcome {call : LogicCall} (plain : call.logic = none) (s : ThrottleState) :
    (!(callTool server s call).1.isRefused) = (callTool server s call).1.isMalformed := by
  have answered := callTool_answered server call s
  generalize callTool server s call = result at answered
  cases answered with
  | @early outcome ends refused => cases outcome <;> first | rfl | cases refused
  | throttled later _ cooling => rfl
  | malformed later _ ready => rfl
  | looked later carried _ _ => exact absurd plain carried

theorem trace_plain {calls : List LogicCall} (plain : ∀ call ∈ calls, call.logic = none)
    (s : ThrottleState) : ∀ answered ∈ Answers.trace (callTool server) s calls,
      (!answered.2.isRefused) = answered.2.isMalformed := by
  induction calls generalizing s with
  | nil => exact fun answered member => nomatch member
  | cons call calls ih =>
    obtain ⟨first, others⟩ := List.forall_mem_cons.mp plain
    rw [Answers.trace]
    exact List.forall_mem_cons.mpr ⟨plain_outcome first s, ih others _⟩

/-- Where no payload has an envelope, the handler counts every violation. -/
theorem counted_of_violated {log : LogicLog}
    (plain : ∀ answered ∈ log, (!answered.2.isRefused) = answered.2.isMalformed) {now : Nat}
    (violated : log.Violated now) : log.Counted now := by
  have same : log.filter (fun answered => !answered.2.isRefused) = log.malformedCalls :=
    List.filter_congr plain
  have whole : log.streak = log.malformedCalls.reverse := by
    rw [LogicLog.streak, same, List.takeWhile_eq_self_iff]
    intro answered member
    have malformed := (List.mem_filter.mp (List.mem_reverse.mp member)).2
    cases outcome : answered.2 with
    | malformed => rfl
    | _ =>
      rw [outcome] at malformed
      cases malformed
  obtain ⟨enough, recent⟩ := violated
  rw [whole] at enough recent
  rw [List.length_reverse] at enough
  rw [List.head?_reverse] at recent
  exact ⟨enough, recent⟩

/-- After enough violations in a row the next call is refused exactly if it ends early, or has no
envelope and follows enough payloads without one; so it is in a run without envelopes. -/
theorem throttles_exactly (server : LiopServer) (before : List LogicCall) (call : LogicCall) :
    (Throttles server before call ↔
      (LogicLog.Violated (Answers.trace (callTool server) .start before) call.now →
        call.EndsEarly server ∨ call.logic = none ∧
          LogicLog.Counted (Answers.trace (callTool server) .start before) call.now)) ∧
    ((∀ c ∈ call :: before, c.logic = none) → Throttles server before call) := by
  constructor
  · exact imp_congr_right fun _ => refused_iff before call
  · intro plain violated
    obtain ⟨here, earlier⟩ := List.forall_mem_cons.mp plain
    exact (refused_iff before call).mpr
      (.inr ⟨here, counted_of_violated (trace_plain earlier .start) violated⟩)

/-- A server with one tool, whose analyzer rejects the program `f`. -/
def execServer : LiopServer where
  toEgressEnv := openEnv
  tools := [(js "exec", ⟨none⟩)]
  jwtValidator := false
  localTestToken := []
  preflight := ⟨fun _ => false, ⟨fun logic _ _ => if logic = ['f'] then some (js "f") else none,
    fun _ => [], id, [], []⟩, []⟩
  sha256 := fun _ => []

/-- A call of the tool, whose program returns `true`. -/
def execCall (payload : JsString) (now : Nat) : LogicCall where
  name := js "exec"
  clientId := js "local-client"
  now := now
  rateLimit := none
  parsed := .ok ⟨payload, false⟩
  store := .used
  pool _ := .ok ⟨.scalar (.bool true), [], []⟩

/-- After five payloads without an envelope one with an envelope runs; and after five that were
rejected a malformed one is not throttled. -/
theorem envelope_not_throttled :
    ¬ Throttles execServer (List.replicate 5 (execCall (js "bad-payload") 0))
        (execCall (js "@LIOP\x7bx\x7d\nt\n@END") 1) ∧
      ¬ Throttles execServer (List.replicate 5 (execCall (js "@LIOP\x7bx\x7d\nf\n@END") 0))
        (execCall (js "bad-payload") 1) := by
  have missed (before : List LogicCall) (call : LogicCall)
      (violated : LogicLog.Violated (Answers.trace (callTool execServer) .start before) call.now)
      (looked : (callTool execServer (Transition.run (Answers.next (callTool execServer)) .start
        before) call).1.isRefused = false) : ¬ Throttles execServer before call := by
    intro throttles
    cases looked.symm.trans (throttles violated)
  exact ⟨missed _ _ (by decide +kernel) (by decide +kernel),
    missed _ _ (by decide +kernel) (by decide +kernel)⟩

end LogicCall

end NeuralMesh.Server
