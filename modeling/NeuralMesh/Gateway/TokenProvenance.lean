import NeuralMesh.Gateway.TokenRouting

/-! Where the tokens come from that the gateway sends, over all interleavings of its calls with each
other and with changes of the manifest cache. -/
namespace NeuralMesh.Gateway.TokenRouting

open Js Transition

variable {I : Type} [DecidableEq I] (environment : TokenEnvironment) (initial : TokenRouter I)

/-- The state after some of the events. -/
def after (events : List (Event I)) : TokenRouter I :=
  run (TokenRouter.step environment) initial events

theorem after_concat (history : List (Event I)) (event : Event I) :
    after environment initial (history ++ [event]) =
      (after environment initial history).step environment event :=
  run_append

/-- The call waits for the answer of the Nexus. -/
def Phase.asks : Phase → Bool
  | checking _ | acquiring _ => true
  | idle | routing .. => false

/-- A token of the gateway itself: from the environment, or an answer that a call waited for. -/
inductive Shared (history : List (Event I)) (token : JsString) : Prop where
  | static (configured : usable (TokenRouter.staticToken environment) = some token)
  | nexus (before : List (Event I)) (i : I) (answer : Option JsString)
    (visited : before ++ [.resume i answer] <+: history)
    (asked : ((after environment initial before).calls i).asks = true)
    (given : usable answer = some token)

/-- A variable that the provider's id names, or its manifest as the gateway had it at some time. -/
def NodeSpecific (history : List (Event I)) (peerId : PeerId) (token : JsString) : Prop :=
  ∃ before, before <+: history ∧
    ∃ key ∈ environment.tokenKeys peerId ((after environment initial before).manifestCache peerId),
      usable (environment.variableOf key) = some token

/-- The sources of a token in this order. -/
inductive Origin (history : List (Event I)) (request : Request) (token : JsString) : Prop where
  | caller (own : usable request.token = some token)
  | node (bare : usable request.token = none)
    (named : NodeSpecific environment initial history request.peerId token)
  | shared (bare : usable request.token = none) (known : Shared environment initial history token)

def Called (history : List (Event I)) (i : I) (request : Request) : Prop :=
  ∃ cached, Event.call i request cached ∈ history

/-- What is sent in a call. -/
structure Provenance (history : List (Event I)) (sent : Sent I) : Prop where
  called : Called history sent.call sent.request
  origin : ∀ token, sent.activeToken = some token →
    Origin environment initial history sent.request token
  own : ∀ token, usable sent.request.token = some token → sent.activeToken = some token
  /-- Nothing is sent without a token to a provider whose manifest asks for one. -/
  bare : sent.activeToken = none → ∃ before, before <+: history ∧
    (after environment initial before).authRequired sent.request.peerId = false

/-! ### Longer histories -/

section Longer

variable {environment} {initial} {history later : List (Event I)}

theorem Shared.mono {token : JsString} (known : Shared environment initial history token)
    (longer : history <+: later) : Shared environment initial later token := by
  obtain configured | ⟨before, i, answer, visited, asked, given⟩ := known
  · exact .static configured
  · exact .nexus before i answer (visited.trans longer) asked given

theorem Origin.mono {request : Request} {token : JsString}
    (origin : Origin environment initial history request token) (longer : history <+: later) :
    Origin environment initial later request token := by
  obtain own | ⟨bare, before, visited, named⟩ | ⟨bare, known⟩ := origin
  · exact .caller own
  · exact .node bare ⟨before, visited.trans longer, named⟩
  · exact .shared bare (known.mono longer)

omit [DecidableEq I] in
theorem Called.mono {i : I} {request : Request} (called : Called history i request)
    (longer : history <+: later) : Called later i request := by
  obtain ⟨cached, member⟩ := called
  exact ⟨cached, longer.subset member⟩

theorem Provenance.mono {sent : Sent I} (provenance : Provenance environment initial history sent)
    (longer : history <+: later) : Provenance environment initial later sent where
  called := provenance.called.mono longer
  origin token sends := (provenance.origin token sends).mono longer
  own := provenance.own
  bare sends := by
    obtain ⟨before, visited, free⟩ := provenance.bare sends
    exact ⟨before, visited.trans longer, free⟩

end Longer

/-! ### The invariant -/

/-- What holds of the tokens of a call while it waits. -/
def Owed (history : List (Event I)) (i : I) : Phase → Prop
  | .idle => True
  | .checking request | .acquiring request =>
    Called history i request ∧ usable request.token = none
  | .routing request effectiveToken => Called history i request ∧
    (∀ token, usable effectiveToken = some token →
      Origin environment initial history request token) ∧
    (usable effectiveToken = none → usable request.token = none)

structure Tracks (history : List (Event I)) (router : TokenRouter I) : Prop where
  shared : ∀ token, usable router.meshAgentToken = some token →
    Shared environment initial history token
  waiting : ∀ i, Owed environment initial history i (router.calls i)
  sent : ∀ s ∈ router.sent, Provenance environment initial history s

variable {environment} {initial} {history later : List (Event I)} {router : TokenRouter I}

theorem Owed.mono {i : I} {phase : Phase} (owed : Owed environment initial history i phase)
    (longer : history <+: later) : Owed environment initial later i phase := by
  cases phase with
  | idle => trivial
  | checking request | acquiring request => exact ⟨owed.1.mono longer, owed.2⟩
  | routing request effectiveToken =>
    obtain ⟨called, origin, bare⟩ := owed
    exact ⟨called.mono longer, fun token found => (origin token found).mono longer, bare⟩

theorem Tracks.mono (tracks : Tracks environment initial history router)
    (longer : history <+: later) : Tracks environment initial later router where
  shared token found := (tracks.shared token found).mono longer
  waiting i := (tracks.waiting i).mono longer
  sent s member := (tracks.sent s member).mono longer

theorem Tracks.adopt (tracks : Tracks environment initial history router) {token : JsString}
    (known : Shared environment initial history token) :
    Tracks environment initial history { router with meshAgentToken := some token } where
  shared other found := by
    have same : usable (some token) = some other := found
    cases token with
    | nil => cases same
    | cons u text =>
      obtain rfl := Option.some.inj same
      exact known
  waiting := tracks.waiting
  sent := tracks.sent

theorem Tracks.wait (tracks : Tracks environment initial history router) {i : I} {phase : Phase}
    (owed : Owed environment initial history i phase) :
    Tracks environment initial history (router.wait i phase) where
  shared := tracks.shared
  waiting j := by
    by_cases same : j = i
    · subst same
      simp only [TokenRouter.wait, Function.update_self]
      exact owed
    · simp only [TokenRouter.wait, Function.update_of_ne same]
      exact tracks.waiting j
  sent := tracks.sent

/-- The end of a call. -/
theorem Tracks.negotiate (tracks : Tracks environment initial history router) {i : I}
    {request : Request} {activeToken : Option JsString} (called : Called history i request)
    (origin : ∀ token, usable activeToken = some token →
      Origin environment initial history request token)
    (bare : usable activeToken = none → usable request.token = none)
    {before : List (Event I)} (visited : before <+: history)
    (cached : router.manifestCache = (after environment initial before).manifestCache) :
    Tracks environment initial history (router.negotiate i request activeToken) := by
  have idle : Owed environment initial history i Phase.idle := trivial
  rw [TokenRouter.negotiate]
  split_ifs with refused
  · exact tracks.wait idle
  · refine ⟨tracks.shared, (tracks.wait idle).waiting, fun s member => ?_⟩
    obtain earlier | new := List.mem_append.mp member
    · exact tracks.sent s earlier
    · obtain rfl := List.mem_singleton.mp new
      refine ⟨called, origin, fun token own => ?_, fun absent => ⟨before, visited, ?_⟩⟩
      · -- a call with a token sends one, and it can only be this one
        cases found : usable activeToken with
        | none => exact absurd (bare found) (by rw [own]; exact Option.some_ne_none token)
        | some other =>
          obtain same | ⟨none, -⟩ | ⟨none, -⟩ := origin other found
          · rw [own] at same
            exact same.symm
          · exact absurd none (by rw [own]; exact Option.some_ne_none token)
          · exact absurd none (by rw [own]; exact Option.some_ne_none token)
      · have open_access : router.authRequired request.peerId = false := by
          have active : usable activeToken = none := absent
          simpa [active] using refused
        rw [TokenRouter.authRequired] at open_access ⊢
        rw [← cached]
        exact open_access

/-! ### Acquisition -/

omit [DecidableEq I] in
variable (environment) in
/-- What an acquisition comes to. -/
theorem acquisition_cases (router : TokenRouter I) (peerId : PeerId) :
    (∃ token, ∃ key ∈ environment.tokenKeys peerId (router.manifestCache peerId),
      usable (environment.variableOf key) = some token ∧
        router.getOrAcquireMeshAgentToken environment peerId =
          (.resolved (some token), router)) ∨
    (∃ token, usable router.meshAgentToken = some token ∧
      router.getOrAcquireMeshAgentToken environment peerId = (.resolved (some token), router)) ∨
    (∃ token, usable (TokenRouter.staticToken environment) = some token ∧
      router.getOrAcquireMeshAgentToken environment peerId =
        (.resolved (some token), { router with meshAgentToken := some token })) ∨
    router.getOrAcquireMeshAgentToken environment peerId = (.requested, router) ∨
    router.getOrAcquireMeshAgentToken environment peerId = (.resolved none, router) := by
  simp only [TokenRouter.getOrAcquireMeshAgentToken]
  cases node : usable (if peerId = [] then none
      else environment.nodeToken peerId (router.manifestCache peerId)) with
  | some token =>
    have found : usable (environment.nodeToken peerId (router.manifestCache peerId)) =
        some token := by
      by_cases anonymous : peerId = []
      · rw [if_pos anonymous] at node
        cases node
      · rwa [if_neg anonymous] at node
    rw [TokenEnvironment.usable_nodeToken] at found
    obtain ⟨key, named, set⟩ := List.exists_of_findSome?_eq_some found
    exact .inl ⟨token, key, named, set, rfl⟩
  | none =>
    right
    cases shared : usable router.meshAgentToken with
    | some token => exact .inl ⟨token, rfl, rfl⟩
    | none =>
      right
      cases static : usable (TokenRouter.staticToken environment) with
      | some token => exact .inl ⟨token, rfl, rfl⟩
      | none =>
        right
        cases usable (environment.env (js "LIOP_NEXUS_URL")) with
        | some _ => exact .inl rfl
        | none => exact .inr rfl

theorem usable_usable {token : Option JsString} {text : JsString}
    (found : usable token = some text) : usable (some text) = some text := by
  rcases token with - | - | ⟨u, rest⟩
  · cases found
  · cases found
  · obtain rfl := Option.some.inj found
    rfl

variable (environment) (initial) in
/-- A resolution for a call without a token, in the state after the history. -/
structure Resolves (history : List (Event I)) (request : Request) (router : TokenRouter I)
    (token : Option JsString) (changed : TokenRouter I) : Prop where
  tracks : Tracks environment initial history changed
  origin : ∀ text, usable token = some text →
    Origin environment initial history request text
  cached : changed.manifestCache = router.manifestCache

theorem Tracks.acquire (tracks : Tracks environment initial history router) {request : Request}
    (bare : usable request.token = none) {before : List (Event I)} (visited : before <+: history)
    (cached : router.manifestCache = (after environment initial before).manifestCache) :
    router.getOrAcquireMeshAgentToken environment request.peerId = (.requested, router) ∨
      ∃ token changed,
        router.getOrAcquireMeshAgentToken environment request.peerId = (.resolved token, changed) ∧
          Resolves environment initial history request router token
            changed := by
  obtain ⟨token, key, named, set, result⟩ | ⟨token, shared, result⟩ | ⟨token, static, result⟩ |
    result | result := acquisition_cases environment router request.peerId
  · refine .inr ⟨_, _, result, tracks, fun text found => ?_, rfl⟩
    rw [usable_usable set] at found
    obtain rfl := Option.some.inj found
    rw [cached] at named
    exact .node bare ⟨before, visited, key, named, set⟩
  · refine .inr ⟨_, _, result, tracks, fun text found => ?_, rfl⟩
    rw [usable_usable shared] at found
    obtain rfl := Option.some.inj found
    exact .shared bare (tracks.shared token shared)
  · refine .inr ⟨_, _, result, tracks.adopt (.static static), fun text found => ?_, rfl⟩
    rw [usable_usable static] at found
    obtain rfl := Option.some.inj found
    exact .shared bare (.static static)
  · exact .inl result
  · exact .inr ⟨_, _, result, tracks, fun text found => absurd found (by simp [usable]), rfl⟩

/-! ### Steps -/

/-- The answer of the Nexus, in a call that waited for it. -/
theorem Tracks.answer (tracks : Tracks environment initial history router) {request : Request}
    (bare : usable request.token = none) {answer : Option JsString}
    (given : ∀ token, usable answer = some token → Shared environment initial history token) :
    Resolves environment initial history request router
      (router.acquired answer).1 (router.acquired answer).2 := by
  rw [TokenRouter.acquired]
  cases found : usable answer with
  | none => exact ⟨tracks, fun text found => absurd found (by simp [usable]), rfl⟩
  | some token =>
    refine ⟨tracks.adopt (given token found), fun text same => ?_, rfl⟩
    rw [usable_usable found] at same
    obtain rfl := Option.some.inj same
    exact .shared bare (given token found)

theorem Tracks.checked (tracks : Tracks environment initial history router) {i : I}
    {request : Request} {token : Option JsString} (called : Called history i request)
    (origin : ∀ text, usable token = some text →
      Origin environment initial history request text) :
    Tracks environment initial history (router.checked i request token) := by
  rw [TokenRouter.checked]
  cases found : usable token with
  | none =>
    have idle : Owed environment initial history i Phase.idle := trivial
    exact tracks.wait idle
  | some text =>
    refine tracks.wait ⟨called, fun other same => ?_, fun absent => ?_⟩
    · rw [usable_usable found] at same
      exact Option.some.inj same ▸ origin text found
    · rw [usable_usable found] at absent
      cases absent

theorem tracks_call (tracks : Tracks environment initial history router) {i : I}
    {request : Request} {cached : Bool} (called : Called history i request)
    {before : List (Event I)} (visited : before <+: history)
    (reached : router.manifestCache = (after environment initial before).manifestCache) :
    Tracks environment initial history
      (router.transcodeMcpToLiop environment i request cached) := by
  have caller : ∀ token, usable request.token = some token →
      Origin environment initial history request token := fun token own => .caller own
  rw [TokenRouter.transcodeMcpToLiop]
  split_ifs
  · cases own : usable request.token with
    | some token =>
      refine tracks.checked called fun text found => ?_
      rw [usable_usable own] at found
      exact .caller (own.trans found)
    | none =>
      dsimp only
      obtain asks | ⟨token, changed, result, resolves⟩ := tracks.acquire own visited reached
      · rw [asks]
        exact tracks.wait ⟨called, own⟩
      · rw [result]
        exact resolves.tracks.checked called resolves.origin
  · exact tracks.wait ⟨called, caller, id⟩

theorem tracks_performTranscoding (tracks : Tracks environment initial history router) {i : I}
    {request : Request} {token : Option JsString} (called : Called history i request)
    (origin : ∀ text, usable token = some text →
      Origin environment initial history request text)
    (bare : usable token = none → usable request.token = none)
    {before : List (Event I)} (visited : before <+: history)
    (reached : router.manifestCache = (after environment initial before).manifestCache) :
    Tracks environment initial history
      (router.performTranscoding environment i request token) := by
  rw [TokenRouter.performTranscoding]
  cases found : usable token with
  | some text =>
    refine tracks.negotiate called (fun other same => ?_) (fun absent => ?_) visited reached
    · rw [usable_usable found] at same
      exact Option.some.inj same ▸ origin text found
    · rw [usable_usable found] at absent
      cases absent
  | none =>
    dsimp only
    obtain asks | ⟨token, changed, result, resolves⟩ :=
      tracks.acquire (bare found) visited reached
    · rw [asks]
      exact tracks.wait ⟨called, bare found⟩
    · rw [result]
      exact resolves.tracks.negotiate called resolves.origin (fun _ => bare found) visited
        (resolves.cached.trans reached)

theorem tracks_step {event : Event I} (tracks : Tracks environment initial history router)
    (reached : router = after environment initial history) :
    Tracks environment initial (history ++ [event]) (router.step environment event) := by
  have longer : history <+: history ++ [event] := List.prefix_append _ _
  have kept := tracks.mono longer
  have cache : router.manifestCache = (after environment initial history).manifestCache := by
    rw [← reached]
  cases event with
  | cache peerId manifest => exact ⟨kept.shared, kept.waiting, kept.sent⟩
  | call i request cached =>
    have called : Called (history ++ [.call i request cached]) i request :=
      ⟨cached, List.mem_append_right _ (List.mem_singleton.mpr rfl)⟩
    rw [TokenRouter.step]
    cases router.calls i with
    | idle => exact tracks_call kept called longer cache
    | _ => exact kept
  | resume i answer =>
    have owed := kept.waiting i
    rw [TokenRouter.step, TokenRouter.resume]
    -- an answer counts where the call waits for it
    have given : (router.calls i).asks = true → ∀ token, usable answer = some token →
        Shared environment initial (history ++ [.resume i answer]) token := by
      intro asked token found
      rw [reached] at asked
      exact .nexus history i answer List.prefix_rfl asked found
    cases phase : router.calls i with
    | idle => exact kept
    | checking request =>
      rw [phase] at owed given
      have resolves := kept.answer owed.2 (given rfl)
      exact resolves.tracks.checked owed.1 resolves.origin
    | routing request effectiveToken =>
      rw [phase] at owed
      exact tracks_performTranscoding kept owed.1 owed.2.1 owed.2.2 longer cache
    | acquiring request =>
      rw [phase] at owed given
      have resolves := kept.answer owed.2 (given rfl)
      exact resolves.tracks.negotiate owed.1 resolves.origin (fun _ => owed.2) longer
        (resolves.cached.trans cache)

/-! ### Runs -/

/-- A gateway with the token `g` of its own. -/
def staticEnvironment : TokenEnvironment where
  env name := if name = js "LIOP_TOKEN" then some (js "g") else none
  toUpperCase := id
  toLowerCase := id

/-- Two calls to one provider, one without a token. -/
def twoCalls : List (Event Nat) :=
  [.call 0 ⟨js "p", some (js "c")⟩ false, .call 1 ⟨js "p", none⟩ false, .resume 1 none,
    .resume 0 none]

end NeuralMesh.Gateway.TokenRouting
