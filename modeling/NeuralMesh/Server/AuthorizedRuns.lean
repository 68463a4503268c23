import NeuralMesh.Server.AuthGate
import NeuralMesh.Server.Release

/-! What the authentication guarantees, whatever happens between the steps of the calls: logic is
executed for accepted tokens only, in sessions of accepted tokens, and no longer once a token has
been revoked. -/
namespace NeuralMesh.Server.AuthGate

open Js Codec Worker Transition

variable {I : Type} [DecidableEq I] (server : LiopServer) (toLowerCase : JsString → JsString)

/-- The server after some of the events. -/
def after (events : List (Event I)) : Gate I :=
  run (Gate.step server toLowerCase) Gate.start events

theorem after_concat (history : List (Event I)) (event : Event I) :
    after server toLowerCase (history ++ [event]) =
      (after server toLowerCase history).step server toLowerCase event :=
  run_append

/-! ### Authorized logic -/

/-- The call begins with this header, and the check reads this file. -/
def Event.Begins (i : I) (authHeader : JsString) (file : Option (List JsString)) : Event I → Prop
  | negotiateIntent j call read => j = i ∧ call.authHeader = authHeader ∧ read = file
  | executeLogic j call _ read _ => j = i ∧ call.authHeader = authHeader ∧ read = file
  | validated .. | generated .. | executed .. | revokeTokenHash .. => False

/-- The header of a call whose token is validated. -/
def Phase.header : Phase → Option JsString
  | validatingIntent call _ => some call.authHeader
  | validatingLogic call _ => some call.authHeader
  | idle | generating .. | executing .. => none

/-- The token in the header was not revoked when the call began. -/
def Checked (history : List (Event I)) (i : I) (authHeader : JsString) : Prop :=
  ∃ before event file, before ++ [event] <+: history ∧ event.Begins i authHeader file ∧
    ((after server toLowerCase before).loadRevocationList toLowerCase file).isRevoked
      (tokenHash server authHeader) = false

/-- The ways a call is authenticated, and the token hash that its session is bound to. -/
inductive Authenticated (history : List (Event I)) (i : I) (authHeader : JsString) :
    Option JsString → Prop where
  | free (unneeded : server.jwtValidator = false) : Authenticated history i authHeader none
  | static (own : bearerToken authHeader = server.localTestToken)
    (checked : Checked server toLowerCase history i authHeader) :
    Authenticated history i authHeader (some (tokenHash server authHeader))
  | validated (unnamed : server.localTestToken = [])
    (checked : Checked server toLowerCase history i authHeader)
    (asking : List (Event I)) (now : Nat) (file : Option (List JsString))
    (visited : asking ++ [.validated i .allowed now file] <+: history)
    (asked : ((after server toLowerCase asking).calls i).header = some authHeader) :
    Authenticated history i authHeader (some (tokenHash server authHeader))

/-- The session that a handshake has left behind. -/
def Negotiated (history : List (Event I)) (sessionToken : JsString) (session : Session) : Prop :=
  ∃ i call file before kyber_sk tokenHash now,
    Event.negotiateIntent i call file ∈ before ∧
    before ++ [.generated i kyber_sk sessionToken now] <+: history ∧
    Authenticated server toLowerCase before i call.authHeader tokenHash ∧
    session = ⟨call.capability_hash, kyber_sk, call.agent_did, tokenHash, now⟩

def Called (history : List (Event I)) (i : I) (call : LogicCall) : Prop :=
  ∃ now file later, Event.executeLogic i call now file later ∈ history

structure Authorized (history : List (Event I)) (logic : Admitted I) : Prop where
  called : Called history logic.call logic.request
  caller : ∃ tokenHash,
    Authenticated server toLowerCase history logic.call logic.request.authHeader tokenHash
  session : Negotiated server toLowerCase history logic.request.session_token logic.session
  fresh : logic.session.createdAt ≠ 0 → logic.now ≤ logic.session.createdAt + 3600 * 1000
  /-- The token of the session was not revoked when the logic was admitted. -/
  unrevoked : ∀ hash, logic.session.tokenHash = some hash → ∃ upTo, upTo <+: history ∧
    (after server toLowerCase upTo).isRevoked hash = false

/-! ### Longer histories -/

section Longer

variable {server} {toLowerCase} {history later : List (Event I)}

theorem Checked.mono {i : I} {authHeader : JsString}
    (checked : Checked server toLowerCase history i authHeader) (longer : history <+: later) :
    Checked server toLowerCase later i authHeader := by
  obtain ⟨before, event, file, visited, begins, unrevoked⟩ := checked
  exact ⟨before, event, file, visited.trans longer, begins, unrevoked⟩

theorem Authenticated.mono {i : I} {authHeader : JsString} {tokenHash : Option JsString}
    (authenticated : Authenticated server toLowerCase history i authHeader tokenHash)
    (longer : history <+: later) :
    Authenticated server toLowerCase later i authHeader tokenHash := by
  cases authenticated with
  | free unneeded => exact .free unneeded
  | static own checked => exact .static own (checked.mono longer)
  | validated unnamed checked asking now file visited asked =>
    exact .validated unnamed (checked.mono longer) asking now file (visited.trans longer) asked

theorem Negotiated.mono {sessionToken : JsString} {session : Session}
    (negotiated : Negotiated server toLowerCase history sessionToken session)
    (longer : history <+: later) : Negotiated server toLowerCase later sessionToken session := by
  obtain ⟨i, call, file, before, kyber_sk, tokenHash, now, called, visited, rest⟩ := negotiated
  exact ⟨i, call, file, before, kyber_sk, tokenHash, now, called, visited.trans longer, rest⟩

omit [DecidableEq I] in
theorem Called.mono {i : I} {call : LogicCall} (called : Called history i call)
    (longer : history <+: later) : Called later i call := by
  obtain ⟨now, file, second, member⟩ := called
  exact ⟨now, file, second, longer.subset member⟩

theorem Authorized.mono {logic : Admitted I}
    (authorized : Authorized server toLowerCase history logic) (longer : history <+: later) :
    Authorized server toLowerCase later logic where
  called := authorized.called.mono longer
  caller := authorized.caller.imp fun _ authenticated => authenticated.mono longer
  session := authorized.session.mono longer
  fresh := authorized.fresh
  unrevoked hash own := by
    obtain ⟨upTo, visited, free⟩ := authorized.unrevoked hash own
    exact ⟨upTo, visited.trans longer, free⟩

end Longer

/-! ### The invariant -/

/-- What is known of a call while it waits. -/
def Owed (history : List (Event I)) (i : I) : Phase → Prop
  | .idle => True
  | .validatingIntent call hash => (∃ file, Event.negotiateIntent i call file ∈ history) ∧
    Checked server toLowerCase history i call.authHeader ∧ server.localTestToken = [] ∧
      hash = tokenHash server call.authHeader
  | .generating call hash => (∃ file, Event.negotiateIntent i call file ∈ history) ∧
    Authenticated server toLowerCase history i call.authHeader hash
  | .validatingLogic call hash => Called history i call ∧
    Checked server toLowerCase history i call.authHeader ∧ server.localTestToken = [] ∧
      hash = tokenHash server call.authHeader
  | .executing _ _ => True

structure Tracks (history : List (Event I)) (gate : Gate I) : Prop where
  sessions : ∀ token session, gate.state.sessions token = some session →
    Negotiated server toLowerCase history token session
  waiting : ∀ i, Owed server toLowerCase history i (gate.calls i)
  admitted : ∀ logic ∈ gate.admitted, Authorized server toLowerCase history logic

section Steps

variable {server} {toLowerCase} {history later : List (Event I)} {gate : Gate I}

theorem Owed.mono {i : I} {phase : Phase} (owed : Owed server toLowerCase history i phase)
    (longer : history <+: later) : Owed server toLowerCase later i phase := by
  cases phase with
  | idle | executing => trivial
  | validatingIntent call hash =>
    obtain ⟨⟨file, member⟩, checked, rest⟩ := owed
    exact ⟨⟨file, longer.subset member⟩, checked.mono longer, rest⟩
  | generating call hash =>
    obtain ⟨⟨file, member⟩, authenticated⟩ := owed
    exact ⟨⟨file, longer.subset member⟩, authenticated.mono longer⟩
  | validatingLogic call hash =>
    obtain ⟨called, checked, rest⟩ := owed
    exact ⟨called.mono longer, checked.mono longer, rest⟩

theorem Tracks.mono (tracks : Tracks server toLowerCase history gate) (longer : history <+: later) :
    Tracks server toLowerCase later gate where
  sessions token session found := (tracks.sessions token session found).mono longer
  waiting i := (tracks.waiting i).mono longer
  admitted logic member := (tracks.admitted logic member).mono longer

theorem Tracks.load (tracks : Tracks server toLowerCase history gate)
    (file : Option (List JsString)) :
    Tracks server toLowerCase history (gate.loadRevocationList toLowerCase file) := by
  cases file with
  | none => exact tracks
  | some list => exact ⟨tracks.sessions, tracks.waiting, tracks.admitted⟩

theorem Tracks.wait (tracks : Tracks server toLowerCase history gate) {i : I} {phase : Phase}
    (owed : Owed server toLowerCase history i phase) :
    Tracks server toLowerCase history (gate.wait i phase) where
  sessions := tracks.sessions
  waiting j := by
    by_cases same : j = i
    · subst same
      simp only [Gate.wait_calls, Function.update_self]
      exact owed
    · simp only [Gate.wait_calls, Function.update_of_ne same]
      exact tracks.waiting j
  admitted := tracks.admitted

theorem Tracks.store (tracks : Tracks server toLowerCase history gate) {sessionToken : JsString}
    {stored : Option Session}
    (negotiated : ∀ session, stored = some session →
      Negotiated server toLowerCase history sessionToken session) :
    Tracks server toLowerCase history (gate.store sessionToken stored) where
  sessions token session found := by
    simp only [Gate.store_state_sessions] at found
    split_ifs at found with same
    · rw [same]
      exact negotiated session found
    · exact tracks.sessions token session found
  waiting := tracks.waiting
  admitted := tracks.admitted

theorem Tracks.execute (tracks : Tracks server toLowerCase history gate) {i : I} {call : LogicCall}
    {session : Session} {now : Nat}
    (authorized : Authorized server toLowerCase history ⟨i, call, session, now⟩) :
    Tracks server toLowerCase history (gate.execute i call session now) where
  sessions := tracks.sessions
  waiting := by
    have waits : Tracks server toLowerCase history (gate.wait i (.executing call session)) :=
      tracks.wait trivial
    exact waits.waiting
  admitted logic member := by
    obtain earlier | new := List.mem_append.mp member
    · exact tracks.admitted logic earlier
    · obtain rfl := List.mem_singleton.mp new
      exact authorized

/-- A call is let through to the execution. -/
theorem Tracks.proceed (tracks : Tracks server toLowerCase history gate) {i : I} {call : LogicCall}
    {now : Nat} {file : Option (List JsString)} (called : Called history i call)
    (caller : ∃ tokenHash, Authenticated server toLowerCase history i call.authHeader tokenHash)
    (reached : gate.proceed toLowerCase i call now file = after server toLowerCase history) :
    Tracks server toLowerCase history (gate.proceed toLowerCase i call now file) := by
  have proceeds := Gate.proceed_proceeds toLowerCase gate i call now file
  generalize gate.proceed toLowerCase i call now file = proceeded at proceeds reached
  cases proceeds with
  | refused reads => exact (tracks.load reads).wait trivial
  | expired => exact (tracks.store (by rintro _ ⟨⟩)).wait trivial
  | admitted session found fresh reads read unrevoked =>
    have kept := tracks.sessions _ _ found
    refine (tracks.load reads).execute ⟨called, caller, kept, fresh, fun hash own => ?_⟩
    refine ⟨history, List.prefix_rfl, ?_⟩
    rw [← reached]
    exact unrevoked hash own

/-- A check that has been passed. -/
theorem check_tracks {authHeader : JsString} {file : Option (List JsString)}
    {checkedGate : Gate I} {admission : Admission}
    (checks : Gate.Checks server toLowerCase gate authHeader file (checkedGate, admission))
    (tracks : Tracks server toLowerCase history gate) {before : List (Event I)} {i : I}
    {event : Event I} (visited : before ++ [event] <+: history)
    (begins : event.Begins i authHeader file) (reached : gate = after server toLowerCase before) :
    Tracks server toLowerCase history checkedGate ∧
      (∀ hash, admission = .passed hash →
        Authenticated server toLowerCase history i authHeader hash) ∧
      ∀ hash, admission = .validating hash →
        Checked server toLowerCase history i authHeader ∧ server.localTestToken = [] ∧
          hash = tokenHash server authHeader := by
  subst reached
  cases checks with
  | free unneeded =>
    refine ⟨tracks, ?_, by rintro _ ⟨⟩⟩
    rintro _ ⟨⟩
    exact .free unneeded
  | refused reads => exact ⟨tracks.load reads, by rintro _ ⟨⟩, by rintro _ ⟨⟩⟩
  | static needed own unrevoked =>
    refine ⟨tracks.load file, ?_, by rintro _ ⟨⟩⟩
    rintro _ ⟨⟩
    exact .static own ⟨before, event, file, visited, begins, unrevoked⟩
  | validating needed unnamed unrevoked =>
    refine ⟨tracks.load file, by rintro _ ⟨⟩, ?_⟩
    rintro _ ⟨⟩
    exact ⟨⟨before, event, file, visited, begins, unrevoked⟩, unnamed, rfl⟩

theorem tracks_negotiateIntent (tracks : Tracks server toLowerCase history gate) {i : I}
    {call : IntentCall} {file : Option (List JsString)} {before : List (Event I)}
    (visited : before ++ [.negotiateIntent i call file] <+: history)
    (reached : gate = after server toLowerCase before) :
    Tracks server toLowerCase history (gate.negotiateIntent server toLowerCase i call file) := by
  have called : ∃ file, Event.negotiateIntent i call file ∈ history :=
    ⟨file, visited.subset (by simp)⟩
  unfold Gate.negotiateIntent
  cases phase : gate.calls i with
  | validatingIntent | generating | validatingLogic | executing => exact tracks
  | idle =>
    have checks := Gate.check_checks server toLowerCase gate call.authHeader file
    rcases checked : gate.check server toLowerCase call.authHeader file with ⟨passedGate, admission⟩
    rw [checked] at checks
    obtain ⟨kept, passed, validating⟩ :=
      check_tracks checks tracks (i := i) visited ⟨rfl, rfl, rfl⟩ reached
    cases admission with
    | refused error => exact kept
    | passed hash => exact kept.wait ⟨called, passed hash rfl⟩
    | validating hash => exact kept.wait ⟨called, validating hash rfl⟩

theorem tracks_executeLogic (tracks : Tracks server toLowerCase history gate) {i : I}
    {call : LogicCall} {now : Nat} {file second : Option (List JsString)} {before : List (Event I)}
    (visited : before ++ [.executeLogic i call now file second] <+: history)
    (reached : gate = after server toLowerCase before)
    (next : gate.executeLogic server toLowerCase i call now file second =
      after server toLowerCase history) :
    Tracks server toLowerCase history
      (gate.executeLogic server toLowerCase i call now file second) := by
  have called : Called history i call := ⟨now, file, second, visited.subset (by simp)⟩
  unfold Gate.executeLogic at next ⊢
  cases phase : gate.calls i with
  | validatingIntent | generating | validatingLogic | executing => exact tracks
  | idle =>
    have checks := Gate.check_checks server toLowerCase gate call.authHeader file
    simp only [phase] at next
    rcases checked : gate.check server toLowerCase call.authHeader file with ⟨passedGate, admission⟩
    rw [checked] at checks next
    obtain ⟨kept, passed, validating⟩ :=
      check_tracks checks tracks (i := i) visited ⟨rfl, rfl, rfl⟩ reached
    cases admission with
    | refused error => exact kept
    | passed hash => exact kept.proceed called ⟨hash, passed hash rfl⟩ next
    | validating hash => exact kept.wait ⟨called, validating hash rfl⟩

/-- The validator accepts the token that a call waits with. -/
theorem verdict_authenticated {i : I} {authHeader hash : JsString} {accepted : Option JsString}
    {answer : JwtAnswer} {now : Nat} {file : Option (List JsString)} {before : List (Event I)}
    (visited : before ++ [.validated i answer now file] <+: history)
    (asked : ((after server toLowerCase before).calls i).header = some authHeader)
    (checked : Checked server toLowerCase history i authHeader)
    (unnamed : server.localTestToken = []) (same : hash = tokenHash server authHeader)
    (allowed : verdict hash answer = .ok accepted) :
    Authenticated server toLowerCase history i authHeader accepted := by
  cases answer with
  | invalid | denied => cases allowed
  | allowed =>
    cases allowed
    subst same
    exact .validated unnamed checked before now file visited asked

theorem tracks_validate (tracks : Tracks server toLowerCase history gate) {i : I}
    {answer : JwtAnswer} {now : Nat} {file : Option (List JsString)} {before : List (Event I)}
    (visited : before ++ [.validated i answer now file] <+: history)
    (reached : gate = after server toLowerCase before)
    (next : gate.validate toLowerCase i answer now file = after server toLowerCase history) :
    Tracks server toLowerCase history (gate.validate toLowerCase i answer now file) := by
  have owed := tracks.waiting i
  unfold Gate.validate at next ⊢
  cases phase : gate.calls i with
  | idle | generating | executing => exact tracks
  | validatingIntent call hash =>
    rw [phase] at owed
    obtain ⟨called, checked, unnamed, same⟩ := owed
    dsimp only
    cases answered : verdict hash answer with
    | error error => exact tracks.wait trivial
    | ok accepted =>
      refine tracks.wait ⟨called, verdict_authenticated visited ?_ checked unnamed same answered⟩
      rw [← reached, phase]
      rfl
  | validatingLogic call hash =>
    rw [phase] at owed
    obtain ⟨called, checked, unnamed, same⟩ := owed
    simp only [phase] at next
    dsimp only
    cases answered : verdict hash answer with
    | error error => exact tracks.wait trivial
    | ok accepted =>
      simp only [answered] at next
      refine tracks.proceed called
        ⟨accepted, verdict_authenticated visited ?_ checked unnamed same answered⟩ next
      rw [← reached, phase]
      rfl

theorem tracks_generate {before : List (Event I)} (so_far : Tracks server toLowerCase before gate)
    {i : I} {kyber_sk : Bytes} {sessionToken : JsString} {now : Nat}
    (visited : before ++ [.generated i kyber_sk sessionToken now] <+: history) :
    Tracks server toLowerCase history (gate.generate i kyber_sk sessionToken now) := by
  have tracks := so_far.mono ((List.prefix_append _ _).trans visited)
  have owed := so_far.waiting i
  unfold Gate.generate
  cases phase : gate.calls i with
  | idle | validatingIntent | validatingLogic | executing => exact tracks
  | generating call hash =>
    rw [phase] at owed
    obtain ⟨⟨file, called⟩, authenticated⟩ := owed
    refine (tracks.store fun session stored => ?_).wait trivial
    obtain rfl := Option.some.inj stored
    exact ⟨i, call, file, before, kyber_sk, hash, now, called, visited, authenticated, rfl⟩

omit [DecidableEq I] in
/-- The execution of logic changes no session. -/
theorem runSession_sessions (state : ServerState) (request : LogicRequest) (session : Session) :
    (server.runSession state request session).sessions = state.sessions := by
  obtain same | ⟨payload, budgets, -, -, ran⟩ := server.runSession_cases state request session
  · rw [same]
  · rw [ran]
    unfold LiopServer.runLogic
    dsimp only
    obtain same | ⟨call, -, called⟩ := server.callProxied_state _ request session _
    · rw [same]
    · rw [called]
      obtain same | ⟨_, _, _, _, _, _, -, -, -, -, -, recorded⟩ :=
        server.callTool_cases request.proxied _ _ call
      · rw [same]
      · rw [recorded]
        rfl

theorem tracks_finish (tracks : Tracks server toLowerCase history gate) {i : I}
    {execution : ExecutionEnv} {proxied : ToolEnv} :
    Tracks server toLowerCase history (gate.finish server i execution proxied) := by
  unfold Gate.finish
  split
  · next call session phase =>
    have sessions : (server.runSession gate.state (call.request execution proxied)
        session).sessions = gate.state.sessions := runSession_sessions _ _ _
    refine Tracks.wait ?_ ?_
    · refine ⟨fun token session found => ?_, tracks.waiting, tracks.admitted⟩
      rw [sessions] at found
      exact tracks.sessions token session found
    · trivial
  · exact tracks

theorem tracks_step {event : Event I} {before : List (Event I)}
    (so_far : Tracks server toLowerCase before (after server toLowerCase before)) :
    Tracks server toLowerCase (before ++ [event])
      ((after server toLowerCase before).step server toLowerCase event) := by
  have tracks := so_far.mono (List.prefix_append before [event])
  have next := (after_concat server toLowerCase before event).symm
  cases event with
  | negotiateIntent i call file => exact tracks_negotiateIntent tracks List.prefix_rfl rfl
  | executeLogic i call now file later =>
    exact tracks_executeLogic tracks List.prefix_rfl rfl next
  | validated i answer now file => exact tracks_validate tracks List.prefix_rfl rfl next
  | generated i kyber_sk sessionToken now => exact tracks_generate so_far List.prefix_rfl
  | executed i execution proxied => exact tracks_finish tracks
  | revokeTokenHash hash file =>
    have loaded := tracks.load file
    simp only [Gate.step, Gate.revokeTokenHash]
    split_ifs
    · exact tracks
    · exact ⟨loaded.sessions, loaded.waiting, loaded.admitted⟩

end Steps

theorem after_tracks (events : List (Event I)) :
    Tracks server toLowerCase events (after server toLowerCase events) := by
  induction events using List.reverseRecOn with
  | nil =>
    refine ⟨?_, fun i => trivial, ?_⟩
    · rintro token session ⟨⟩
    · rintro logic ⟨⟩
  | append_singleton before event ih =>
    rw [after_concat]
    exact tracks_step ih

/-- A server with the static token `k`; the hash of a text is its hex text. -/
def staticServer : LiopServer where
  toEgressEnv := openEnv
  tools := []
  jwtValidator := true
  localTestToken := js "k"
  preflight := ⟨fun _ => false, ⟨fun _ _ _ => none, fun _ => [], id, [], []⟩, []⟩
  sha256 := id

/-- A handshake, and logic in its session. -/
def staticCalls : List (Event Nat) :=
  [.negotiateIntent 0 ⟨js "Bearer k", js "t", js "a"⟩ none, .generated 0 [] (js "s") 1,
    .executeLogic 1 ⟨js "k", js "s"⟩ 2 none none]

/-- The lists that an event may read from the revocation file. -/
def Event.files : Event I → List (Option (List JsString))
  | negotiateIntent _ _ file | validated _ _ _ file | revokeTokenHash _ file => [file]
  | executeLogic _ _ _ file later => [file, later]
  | generated .. | executed .. => []

/-- The hash stays in the revocation file. -/
def Event.Keeps (hash : JsString) (event : Event I) : Prop :=
  ∀ list, some list ∈ event.files → hash ∈ loadedHashes toLowerCase list

/-- The session is bound to another token, and so is the call, unless it had begun before. -/
structure Unaffected (before : List (Event I)) (hash : JsString) (logic : Admitted I) : Prop where
  session : logic.session.tokenHash ≠ some hash
  caller : server.jwtValidator = true → tokenHash server logic.request.authHeader = hash →
    Called before logic.call logic.request

/-- What holds from the revocation of a hash on. -/
structure Stopped (old : List (Admitted I)) (before : List (Event I)) (hash : JsString)
    (gate : Gate I) : Prop where
  revoked : hash ∈ gate.revokedTokenHashes
  waiting : ∀ i call own, gate.calls i = .validatingLogic call own →
    server.jwtValidator = true → tokenHash server call.authHeader = hash → Called before i call
  admitted : ∀ logic ∈ gate.admitted, logic ∈ old ∨ Unaffected server before hash logic

section Stopped

variable {server} {toLowerCase} {old : List (Admitted I)} {before : List (Event I)}
  {hash : JsString} {gate : Gate I}

omit [DecidableEq I] in
theorem Gate.isRevoked_iff : gate.isRevoked hash = true ↔ hash ∈ gate.revokedTokenHashes :=
  List.contains_iff_mem

omit [DecidableEq I] in
theorem Stopped.load (stopped : Stopped server old before hash gate)
    {file : Option (List JsString)}
    (kept : ∀ list, file = some list → hash ∈ loadedHashes toLowerCase list) :
    Stopped server old before hash (gate.loadRevocationList toLowerCase file) := by
  cases file with
  | none => exact stopped
  | some list => exact ⟨kept list rfl, stopped.waiting, stopped.admitted⟩

omit [DecidableEq I] in
theorem Stopped.serve (stopped : Stopped server old before hash gate) (state : ServerState) :
    Stopped server old before hash { gate with state } :=
  ⟨stopped.revoked, stopped.waiting, stopped.admitted⟩

theorem Stopped.wait (stopped : Stopped server old before hash gate) {i : I} {phase : Phase}
    (called : ∀ call own, phase = .validatingLogic call own →
      server.jwtValidator = true → tokenHash server call.authHeader = hash →
        Called before i call) :
    Stopped server old before hash (gate.wait i phase) where
  revoked := stopped.revoked
  waiting j call own waits := by
    by_cases same : j = i
    · subst same
      simp only [Gate.wait_calls, Function.update_self] at waits
      exact called call own waits
    · simp only [Gate.wait_calls, Function.update_of_ne same] at waits
      exact stopped.waiting j call own waits
  admitted := stopped.admitted

theorem Stopped.execute (stopped : Stopped server old before hash gate) {i : I} {call : LogicCall}
    {session : Session} {now : Nat}
    (unaffected : Unaffected server before hash ⟨i, call, session, now⟩) :
    Stopped server old before hash (gate.execute i call session now) where
  revoked := stopped.revoked
  waiting := by
    have waits : Stopped server old before hash (gate.wait i (.executing call session)) :=
      stopped.wait (by rintro _ _ ⟨⟩)
    exact waits.waiting
  admitted logic member := by
    obtain earlier | new := List.mem_append.mp member
    · exact stopped.admitted logic earlier
    · obtain rfl := List.mem_singleton.mp new
      exact .inr unaffected

theorem Stopped.idle (stopped : Stopped server old before hash gate) (i : I) :
    Stopped server old before hash (gate.wait i .idle) :=
  stopped.wait (by rintro _ _ ⟨⟩)

omit [DecidableEq I] in
/-- Nothing with the hash passes a look into the set. -/
theorem Stopped.ne (stopped : Stopped server old before hash gate) {other : JsString}
    (unrevoked : gate.isRevoked other = false) : other ≠ hash := by
  rintro rfl
  rw [Gate.isRevoked_iff.mpr stopped.revoked] at unrevoked
  cases unrevoked

theorem Stopped.proceed (stopped : Stopped server old before hash gate) {i : I} {call : LogicCall}
    {now : Nat} {file : Option (List JsString)}
    (kept : ∀ list, file = some list → hash ∈ loadedHashes toLowerCase list)
    (caller : server.jwtValidator = true → tokenHash server call.authHeader = hash →
      Called before i call) :
    Stopped server old before hash (gate.proceed toLowerCase i call now file) := by
  have proceeds := Gate.proceed_proceeds toLowerCase gate i call now file
  have read {reads : Option (List JsString)} (from_file : reads = none ∨ reads = file) :
      Stopped server old before hash (gate.loadRevocationList toLowerCase reads) := by
    obtain rfl | rfl := from_file
    · exact stopped
    · exact stopped.load kept
  generalize gate.proceed toLowerCase i call now file = proceeded at proceeds ⊢
  cases proceeds with
  | refused reads from_file => exact (read from_file).idle i
  | expired => exact (stopped.serve _).idle i
  | admitted session found fresh reads from_file unrevoked =>
    have loaded := read (from_file.imp_left And.left)
    exact loaded.execute ⟨fun own => loaded.ne (unrevoked hash own) rfl, caller⟩

omit [DecidableEq I] in
theorem Stopped.check (stopped : Stopped server old before hash gate) {authHeader : JsString}
    {file : Option (List JsString)} {checkedGate : Gate I} {admission : Admission}
    (checks : Gate.Checks server toLowerCase gate authHeader file (checkedGate, admission))
    (kept : ∀ list, file = some list → hash ∈ loadedHashes toLowerCase list) :
    Stopped server old before hash checkedGate ∧
      ((∃ error, admission = .refused error) ∨
        (server.jwtValidator = true → tokenHash server authHeader ≠ hash)) := by
  have loaded := stopped.load kept
  cases checks with
  | free unneeded => exact ⟨stopped, .inr fun needed => absurd needed (by simp [unneeded])⟩
  | refused reads error read =>
    refine ⟨?_, .inl ⟨error, rfl⟩⟩
    obtain rfl | rfl := read
    · exact stopped
    · exact loaded
  | static needed own unrevoked | validating needed own unrevoked =>
    exact ⟨loaded, .inr fun _ => loaded.ne unrevoked⟩

theorem stopped_step {event : Event I} (stopped : Stopped server old before hash gate)
    (kept : event.Keeps toLowerCase hash) :
    Stopped server old before hash (gate.step server toLowerCase event) := by
  cases event with
  | negotiateIntent i call file =>
    simp only [Gate.step, Gate.negotiateIntent]
    cases phase : gate.calls i with
    | validatingIntent | generating | validatingLogic | executing => exact stopped
    | idle =>
      have checks := Gate.check_checks server toLowerCase gate call.authHeader file
      rcases checked : gate.check server toLowerCase call.authHeader file with ⟨passed, admission⟩
      rw [checked] at checks
      obtain ⟨still, -⟩ := stopped.check checks fun list own =>
        kept list (by simp [own, Event.files])
      cases admission with
      | refused error => exact still
      | passed own | validating own => exact still.wait (by rintro _ _ ⟨⟩)
  | executeLogic i call now file later =>
    have keeps {read : Option (List JsString)} (one : read ∈ [file, later]) (list : List JsString)
        (own : read = some list) : hash ∈ loadedHashes toLowerCase list := kept list (own ▸ one)
    simp only [Gate.step, Gate.executeLogic]
    cases phase : gate.calls i with
    | validatingIntent | generating | validatingLogic | executing => exact stopped
    | idle =>
      have checks := Gate.check_checks server toLowerCase gate call.authHeader file
      rcases checked : gate.check server toLowerCase call.authHeader file with ⟨passed, admission⟩
      rw [checked] at checks
      obtain ⟨still, ⟨error, rfl⟩ | other⟩ := stopped.check checks (keeps (by simp))
      · exact still
      · cases admission with
        | refused error => exact still
        | passed own =>
          exact still.proceed (keeps (by simp)) fun needed same => absurd same (other needed)
        | validating own =>
          refine still.wait fun waiting hash waits needed same => ?_
          cases waits
          exact absurd same (other needed)
  | validated i answer now file =>
    simp only [Gate.step, Gate.validate]
    cases phase : gate.calls i with
    | idle | generating | executing => exact stopped
    | validatingIntent call own =>
      dsimp only
      cases verdict own answer with
      | error error => exact stopped.idle i
      | ok accepted => exact stopped.wait (by rintro _ _ ⟨⟩)
    | validatingLogic call own =>
      dsimp only
      cases verdict own answer with
      | error error => exact stopped.idle i
      | ok accepted =>
        exact stopped.proceed (fun list read => kept list (by simp [read, Event.files]))
          (stopped.waiting i call own phase)
  | generated i kyber_sk sessionToken now =>
    simp only [Gate.step, Gate.generate]
    cases phase : gate.calls i with
    | idle | validatingIntent | validatingLogic | executing => exact stopped
    | generating call own =>
      exact (stopped.serve _).idle i
  | executed i execution proxied =>
    simp only [Gate.step, Gate.finish]
    cases phase : gate.calls i with
    | idle | validatingIntent | validatingLogic | generating => exact stopped
    | executing call session =>
      exact (stopped.serve _).idle i
  | revokeTokenHash other file =>
    have loaded : Stopped server old before hash (gate.loadRevocationList toLowerCase file) :=
      stopped.load fun list own => kept list (by simp [own, Event.files])
    simp only [Gate.step, Gate.revokeTokenHash]
    split_ifs
    · exact stopped
    · exact ⟨mem_setAdd.mpr (.inl loaded.revoked), loaded.waiting, loaded.admitted⟩

/-- The revocation itself. -/
theorem stopped_revoke {revoked : JsString} (named : revoked ≠ [])
    {file : Option (List JsString)}
    (tracks : Tracks server toLowerCase before gate) :
    Stopped server gate.admitted before (toLowerCase revoked)
      (gate.revokeTokenHash toLowerCase revoked file) := by
  have waiting : ∀ i call own, gate.calls i = .validatingLogic call own → Called before i call := by
    intro i call own waits
    have owed := tracks.waiting i
    rw [waits] at owed
    exact owed.1
  rw [Gate.revokeTokenHash, if_neg named]
  refine ⟨mem_setAdd.mpr (.inr rfl), fun i call own waits _ _ => ?_, fun logic member => .inl ?_⟩
  · cases file with
    | none | some => exact waiting i call own waits
  · cases file with
    | none | some => exact member

end Stopped

/-- Once a hash has been revoked, and as long as it stays in the revocation file, no logic is
executed in a session that is bound to it, and none for its token but by calls that had begun. -/
theorem run_revoked {hash : JsString} (named : hash ≠ []) (before later : List (Event I))
    (file : Option (List JsString))
    (kept : ∀ event ∈ later, event.Keeps toLowerCase (toLowerCase hash)) :
    ∀ logic ∈ (run (Gate.step server toLowerCase) Gate.start
        (before ++ .revokeTokenHash hash file :: later)).admitted,
      logic ∈ (run (Gate.step server toLowerCase) Gate.start before).admitted ∨
        Unaffected server before (toLowerCase hash) logic := by
  rw [run_append]
  exact (run_invariant (fun _ _ stopped keeps => stopped_step stopped keeps)
    (stopped_revoke named (after_tracks server toLowerCase before))
    (Allowed.of_forall (fun event member _ => kept event member) _)).admitted

/-- The same server with a validator instead. -/
def jwtServer : LiopServer := { staticServer with localTestToken := [] }

/-- A handshake with the token `l`, and one with `k`, which is still generating keys when its token
is revoked. -/
def twoHandshakes : List (Event Nat) :=
  [.negotiateIntent 0 ⟨js "Bearer l", js "t", js "a"⟩ none, .validated 0 .allowed 1 none,
    .generated 0 [] (js "s") 2, .negotiateIntent 1 ⟨js "k", js "t", js "a"⟩ none,
    .validated 1 .allowed 3 none]

/-- The second session is opened after all, but only the first can be used. -/
def laterCalls : List (Event Nat) :=
  [.generated 1 [] (js "r") 4, .executeLogic 2 ⟨js "l", js "s"⟩ 5 none none,
    .executeLogic 3 ⟨js "l", js "r"⟩ 5 none none, .validated 3 .allowed 6 none,
    .validated 2 .allowed 7 none]

/-- What is executed in the first session. -/
def firstLogic : Admitted Nat :=
  ⟨2, ⟨js "l", js "s"⟩, ⟨js "t", [], js "a", some (js "6c"), 2⟩, 7⟩

theorem twoHandshakes_revoked :
    firstLogic ∈ (run (Gate.step jwtServer id) Gate.start twoHandshakes).admitted ∨
      Unaffected jwtServer twoHandshakes (id (js "6b")) firstLogic := by
  refine run_revoked jwtServer id (by decide) twoHandshakes laterCalls none ?_ firstLogic
    List.mem_cons_self
  intro event member list read
  simp only [laterCalls, List.mem_cons, List.not_mem_nil, or_false] at member
  obtain rfl | rfl | rfl | rfl | rfl := member <;> simp [Event.files] at read

end NeuralMesh.Server.AuthGate
