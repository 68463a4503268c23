import NeuralMesh.Client.Connections
import NeuralMesh.Server.BoundaryPattern
import NeuralMesh.Transition

/-! Which peer a call of a tool reaches, and with which token, over all interleavings of calls with
each other, with discovery and with streams that fail. -/
namespace NeuralMesh.Client

open Js Gateway Transition

variable {I : Type} [DecidableEq I] (environment : TokenEnvironment) (initial : LiopClient I)

/-- The state after some of the events. -/
def after (events : List (Event I)) : LiopClient I :=
  run (LiopClient.step environment) initial events

/-! ### Names -/

def Event.toolNames : Event I → List JsString
  | callTool _ toolName => [toolName]
  | discover .. | resume .. | close .. => []

def Event.peerIds : Event I → List PeerId
  | discover peerId _ => [peerId]
  | resume _ network => network.providers.getD []
  | callTool .. | close .. => []

def Named (history : List (Event I)) (toolName : JsString) : Prop :=
  ∃ event ∈ history, toolName ∈ event.toolNames

def Known (history : List (Event I)) (peerId : PeerId) : Prop :=
  ∃ event ∈ history, peerId ∈ event.peerIds

/-- The three kinds of keys are told apart. -/
structure Apart (history : List (Event I)) : Prop where
  tools : ∀ toolName, Named history toolName → toolName ≠ staticKey ∧ ¬ Known history toolName
  peers : ∀ peerId, Known history peerId → peerId ≠ staticKey

/-! ### Connections -/

/-- The cached manifest of the peer has listed the tool. -/
def Listed (history : List (Event I)) (peerId : PeerId) (toolName : JsString) : Prop :=
  ∃ before, before <+: history ∧ ∃ manifest,
    (after environment initial before).manifests.get? peerId = some manifest ∧
      toolName ∈ manifest.tools

/-- The peer was the first provider when a call looked for the tool. -/
def Found (history : List (Event I)) (peerId : PeerId) (toolName : JsString) : Prop :=
  ∃ before i network rest, before ++ [.resume i network] <+: history ∧
    (after environment initial before).calls i = .finding toolName ∧
      network.providers = some (peerId :: rest)

/-- The token of a connection. One that was opened for a provider from the DHT has the token of the
first peer in the cache that listed the tool. -/
def Opened (history : List (Event I)) (rpcClient : RpcClient) : Prop :=
  match rpcClient.dialled with
  | .configured => initial.rpcClients staticKey = some rpcClient
  | .cached peerId => ∃ before, before <+: history ∧ ∃ manifest,
      (after environment initial before).manifests.get? peerId = some manifest ∧
        rpcClient.token = tokenFor environment initial.oauthToken peerId (some manifest)
  | .found _ toolName => ∃ before, before <+: history ∧
      rpcClient.token = match lister (after environment initial before).manifests toolName with
        | some (owner, manifest) => tokenFor environment initial.oauthToken owner (some manifest)
        | none => tokenFor environment initial.oauthToken toolName none

/-- The peer of the connection offers the tool. -/
def Offers (history : List (Event I)) (toolName : JsString) : Dialled → Prop
  | .configured => True
  | .cached peerId => Listed environment initial history peerId toolName
  | .found peerId wanted => wanted = toolName ∧ Found environment initial history peerId toolName

/-- What is kept under a key. -/
def Keyed (history : List (Event I)) (key : JsString) : Dialled → Prop
  | .configured => key = staticKey
  | .cached peerId => key = peerId ∧ Known history peerId
  | .found peerId toolName =>
    key = toolName ∧ Named history toolName ∧ Found environment initial history peerId toolName

/-- What holds of a waiting call. -/
def Owed (history : List (Event I)) : Phase → Prop
  | .idle | .connected .. => True
  | .dialing toolName _ peerId _ => Named history toolName ∧ Known history peerId ∧
      Listed environment initial history peerId toolName
  | .finding toolName => Named history toolName
  | .querying toolName providerId | .resolving toolName providerId _ =>
    Named history toolName ∧ Known history providerId ∧
      Found environment initial history providerId toolName

structure Tracks (history : List (Event I)) (client : LiopClient I) : Prop where
  oauthToken : client.oauthToken = initial.oauthToken
  known : ∀ peerId manifest, client.manifests.get? peerId = some manifest → Known history peerId
  pool : ∀ key rpcClient, client.rpcClients key = some rpcClient →
    Keyed environment initial history key rpcClient.dialled ∧
      Opened environment initial history rpcClient
  waiting : ∀ i, Owed environment initial history (client.calls i)
  uses : ∀ use ∈ client.uses, Opened environment initial history use.rpcClient ∧
    Offers environment initial history use.toolName use.rpcClient.dialled

/-! ### Longer histories -/

section Longer

variable {environment} {initial} {history later : List (Event I)}

omit [DecidableEq I] in
theorem Named.mono {toolName : JsString} (named : Named history toolName)
    (longer : history <+: later) : Named later toolName := by
  obtain ⟨event, member, names⟩ := named
  exact ⟨event, longer.subset member, names⟩

omit [DecidableEq I] in
theorem Known.mono {peerId : PeerId} (known : Known history peerId)
    (longer : history <+: later) : Known later peerId := by
  obtain ⟨event, member, names⟩ := known
  exact ⟨event, longer.subset member, names⟩

omit [DecidableEq I] in
theorem Apart.of_longer (apart : Apart later) (longer : history <+: later) : Apart history where
  tools toolName named := by
    obtain ⟨dynamic, tool⟩ := apart.tools toolName (named.mono longer)
    exact ⟨dynamic, fun known => tool (known.mono longer)⟩
  peers peerId known := apart.peers peerId (known.mono longer)

theorem Listed.mono {peerId : PeerId} {toolName : JsString}
    (listed : Listed environment initial history peerId toolName) (longer : history <+: later) :
    Listed environment initial later peerId toolName := by
  obtain ⟨before, visited, rest⟩ := listed
  exact ⟨before, visited.trans longer, rest⟩

theorem Found.mono {peerId : PeerId} {toolName : JsString}
    (found : Found environment initial history peerId toolName) (longer : history <+: later) :
    Found environment initial later peerId toolName := by
  obtain ⟨before, i, network, rest, visited, asked, answered⟩ := found
  exact ⟨before, i, network, rest, visited.trans longer, asked, answered⟩

theorem Opened.mono {rpcClient : RpcClient} (opened : Opened environment initial history rpcClient)
    (longer : history <+: later) : Opened environment initial later rpcClient := by
  rw [Opened] at opened ⊢
  cases dialled : rpcClient.dialled with
  | configured =>
    rw [dialled] at opened
    exact opened
  | cached peerId | found peerId toolName =>
    rw [dialled] at opened
    obtain ⟨before, visited, rest⟩ := opened
    exact ⟨before, visited.trans longer, rest⟩

theorem Offers.mono {toolName : JsString} {dialled : Dialled}
    (offers : Offers environment initial history toolName dialled) (longer : history <+: later) :
    Offers environment initial later toolName dialled := by
  cases dialled with
  | configured => trivial
  | cached peerId => exact Listed.mono offers longer
  | found peerId wanted => exact ⟨offers.1, offers.2.mono longer⟩

theorem Keyed.mono {key : JsString} {dialled : Dialled}
    (keyed : Keyed environment initial history key dialled) (longer : history <+: later) :
    Keyed environment initial later key dialled := by
  cases dialled with
  | configured => exact keyed
  | cached peerId => exact ⟨keyed.1, keyed.2.mono longer⟩
  | found peerId toolName =>
    obtain ⟨same, named, found⟩ := keyed
    exact ⟨same, named.mono longer, found.mono longer⟩

theorem Owed.mono {phase : Phase} (owed : Owed environment initial history phase)
    (longer : history <+: later) : Owed environment initial later phase := by
  cases phase with
  | idle | connected => trivial
  | dialing toolName index peerId manifest =>
    obtain ⟨named, known, listed⟩ := owed
    exact ⟨named.mono longer, known.mono longer, listed.mono longer⟩
  | finding toolName => exact Named.mono owed longer
  | querying toolName providerId | resolving toolName providerId =>
    obtain ⟨named, known, found⟩ := owed
    exact ⟨named.mono longer, known.mono longer, found.mono longer⟩

theorem after_concat (event : Event I) :
    after environment initial (history ++ [event]) =
      (after environment initial history).step environment event :=
  run_append

end Longer

variable {environment} {initial} {history : List (Event I)} {client : LiopClient I}

theorem Tracks.mono {later : List (Event I)} (tracks : Tracks environment initial history client)
    (longer : history <+: later) : Tracks environment initial later client where
  oauthToken := tracks.oauthToken
  known peerId manifest cached := (tracks.known peerId manifest cached).mono longer
  pool key rpcClient present := by
    obtain ⟨keyed, opened⟩ := tracks.pool key rpcClient present
    exact ⟨keyed.mono longer, opened.mono longer⟩
  waiting i := (tracks.waiting i).mono longer
  uses use member := by
    obtain ⟨opened, offers⟩ := tracks.uses use member
    exact ⟨opened.mono longer, offers.mono longer⟩

/-! ### The cache of manifests -/

theorem manifests_walk (i : I) (toolName : JsString) (index : Nat) :
    (client.walk i toolName index).manifests = client.manifests := by
  rw [LiopClient.walk]
  cases LiopClient.nextProvider toolName index (client.manifests.entries.drop index) with
  | none => rfl
  | some next =>
    dsimp only
    cases client.rpcClients next.2.1 <;> rfl

theorem manifests_connectTo (i : I) (toolName key address : JsString) (dialled : Dialled) :
    (client.connectTo environment i toolName key address dialled).manifests =
      client.manifests := by
  rw [LiopClient.connectTo, LiopClient.getOrCreateRpcClient]
  cases client.rpcClients key <;> rfl

theorem manifests_callTool (i : I) (toolName : JsString) :
    (client.callTool i toolName).manifests = client.manifests := by
  rw [LiopClient.callTool]
  cases client.rpcClients staticKey with
  | some _ => rfl
  | none =>
    dsimp only
    cases client.rpcClients toolName with
    | some _ => rfl
    | none => exact manifests_walk i toolName 0

theorem manifests_close (i : I) (failed : Bool) :
    (client.close i failed).manifests = client.manifests := by
  rw [LiopClient.close]
  cases client.calls i with
  | connected toolName targetClientKey => cases failed <;> rfl
  | _ => rfl

variable (environment) (client) in
/-- A step leaves the cached manifests, or stores one. -/
theorem manifests_step (event : Event I) :
    (client.step environment event).manifests = client.manifests ∨
      ∃ peerId manifest, (client.step environment event).manifests =
        client.manifests.set peerId manifest := by
  cases event with
  | discover peerId manifest => exact .inr ⟨peerId, manifest, rfl⟩
  | callTool i toolName =>
    rw [LiopClient.step]
    cases client.calls i with
    | idle => exact .inl (manifests_callTool i toolName)
    | _ => exact .inl rfl
  | close i failed => exact .inl (manifests_close i failed)
  | resume i network =>
    rw [LiopClient.step, LiopClient.resume]
    cases client.calls i with
    | idle | connected => exact .inl rfl
    | dialing toolName index peerId manifest =>
      cases network.addresses with
      | none => exact .inl rfl
      | some addrs =>
        dsimp only
        cases usable (selectOptimalIp addrs) with
        | some ip => exact .inl (manifests_connectTo i toolName peerId _ _)
        | none => exact .inl (manifests_walk i toolName (index + 1))
    | finding toolName =>
      rcases network.providers with - | - | ⟨providerId, rest⟩ <;> exact .inl rfl
    | querying toolName providerId =>
      rcases network.manifest with - | - | manifest
      · exact .inl rfl
      · exact .inl rfl
      · exact .inr ⟨providerId, manifest, rfl⟩
    | resolving toolName providerId grpcPort =>
      cases network.addresses with
      | none => exact .inl rfl
      | some addrs => exact .inl (manifests_connectTo i toolName toolName _ _)

/-- A peer stays in the cache. -/
theorem cached_stays {peerId : PeerId} {manifest : ClientManifest} {before : List (Event I)}
    (visited : before <+: history)
    (cached : (after environment initial before).manifests.get? peerId = some manifest) :
    ∃ newer, (after environment initial history).manifests.get? peerId = some newer := by
  obtain ⟨later, rfl⟩ := visited
  induction later using List.reverseRecOn with
  | nil => exact ⟨manifest, (List.append_nil before).symm ▸ cached⟩
  | append_singleton later event ih =>
    obtain ⟨newer, kept⟩ := ih
    rw [← List.append_assoc, after_concat]
    obtain same | ⟨other, stored, same⟩ :=
      manifests_step environment (after environment initial (before ++ later)) event
    · exact ⟨newer, same ▸ kept⟩
    · rw [same]
      by_cases equal : peerId = other
      · subst equal
        exact ⟨stored, InsertionMap.get?_set⟩
      · exact ⟨newer, (InsertionMap.get?_set_ne equal).trans kept⟩

/-! ### What a key leads to -/

theorem offers_static (apart : Apart history) {toolName : JsString} {dialled : Dialled}
    (keyed : Keyed environment initial history staticKey dialled) :
    Offers environment initial history toolName dialled := by
  cases dialled with
  | configured => trivial
  | cached peerId =>
    obtain ⟨same, known⟩ := keyed
    exact absurd same.symm (apart.peers peerId known)
  | found peerId wanted =>
    obtain ⟨same, named, -⟩ := keyed
    exact absurd same.symm (apart.tools wanted named).1

theorem offers_tool (apart : Apart history) {toolName : JsString} {dialled : Dialled}
    (named : Named history toolName) (keyed : Keyed environment initial history toolName dialled) :
    Offers environment initial history toolName dialled := by
  obtain ⟨dynamic, tool⟩ := apart.tools toolName named
  cases dialled with
  | configured => exact absurd keyed dynamic
  | cached peerId =>
    obtain ⟨rfl, known⟩ := keyed
    exact absurd known tool
  | found peerId wanted =>
    obtain ⟨rfl, -, found⟩ := keyed
    exact ⟨rfl, found⟩

theorem offers_peer (apart : Apart history) {toolName : JsString} {peerId : PeerId}
    {dialled : Dialled} (known : Known history peerId)
    (listed : Listed environment initial history peerId toolName)
    (keyed : Keyed environment initial history peerId dialled) :
    Offers environment initial history toolName dialled := by
  cases dialled with
  | configured => exact absurd keyed (apart.peers peerId known)
  | cached other =>
    obtain ⟨rfl, -⟩ := keyed
    exact listed
  | found other wanted =>
    obtain ⟨rfl, named, -⟩ := keyed
    exact absurd known (apart.tools peerId named).2

/-! ### Steps of a call -/

theorem Tracks.wait (tracks : Tracks environment initial history client) {i : I} {phase : Phase}
    (owed : Owed environment initial history phase) :
    Tracks environment initial history (client.wait i phase) where
  oauthToken := tracks.oauthToken
  known := tracks.known
  pool := tracks.pool
  waiting j := by
    by_cases same : j = i
    · subst same
      simp only [LiopClient.wait, Function.update_self]
      exact owed
    · simp only [LiopClient.wait, Function.update_of_ne same]
      exact tracks.waiting j
  uses := tracks.uses

theorem Tracks.use (tracks : Tracks environment initial history client) {i : I}
    {toolName targetClientKey : JsString} {rpcClient : RpcClient}
    (opened : Opened environment initial history rpcClient)
    (offers : Offers environment initial history toolName rpcClient.dialled) :
    Tracks environment initial history (client.use i toolName targetClientKey rpcClient) := by
  have connected : Owed environment initial history (.connected toolName targetClientKey) := trivial
  have waits : Tracks environment initial history
      (client.wait i (.connected toolName targetClientKey)) := tracks.wait connected
  refine ⟨waits.oauthToken, waits.known, waits.pool, waits.waiting, fun use member => ?_⟩
  obtain earlier | new := List.mem_append.mp member
  · exact tracks.uses use earlier
  · obtain rfl := List.mem_singleton.mp new
    exact ⟨opened, offers⟩

/-- A connection for a key, whether it is there or not. -/
theorem Tracks.connectTo (tracks : Tracks environment initial history client) {i : I}
    {toolName key address : JsString} {dialled : Dialled}
    (keyed : Keyed environment initial history key dialled)
    (opened : Opened environment initial history
      ⟨address, tokenOfKey environment client.oauthToken client.manifests key, dialled⟩)
    (offers : ∀ other, Keyed environment initial history key other →
      Offers environment initial history toolName other) :
    Tracks environment initial history
      (client.connectTo environment i toolName key address dialled) := by
  rw [LiopClient.connectTo, LiopClient.getOrCreateRpcClient]
  cases present : client.rpcClients key with
  | some rpcClient =>
    obtain ⟨kept, open_before⟩ := tracks.pool key rpcClient present
    exact tracks.use open_before (offers _ kept)
  | none =>
    have created : Tracks environment initial history
        { client with rpcClients := Function.update client.rpcClients key (some ⟨address,
          tokenOfKey environment client.oauthToken client.manifests key, dialled⟩) } := by
      refine ⟨tracks.oauthToken, tracks.known, fun other rpcClient found => ?_, tracks.waiting,
        tracks.uses⟩
      by_cases same : other = key
      · subst same
        simp only [Function.update_self] at found
        obtain rfl := Option.some.inj found
        exact ⟨keyed, opened⟩
      · simp only [Function.update_of_ne same] at found
        exact tracks.pool other rpcClient found
    exact created.use opened (offers _ keyed)

theorem nextProvider_spec {toolName : JsString} {index place : Nat} {peerId : PeerId}
    {manifest : ClientManifest} {entries : List (PeerId × ClientManifest)}
    (found : LiopClient.nextProvider toolName index entries = some (place, peerId, manifest)) :
    (peerId, manifest) ∈ entries ∧ toolName ∈ manifest.tools := by
  induction entries generalizing index with
  | nil => cases found
  | cons entry entries ih =>
    rw [LiopClient.nextProvider] at found
    split_ifs at found with lists
    · cases found
      exact ⟨List.mem_cons_self, lists⟩
    · obtain ⟨member, lists⟩ := ih found
      exact ⟨List.mem_cons_of_mem _ member, lists⟩

theorem Tracks.walk (tracks : Tracks environment initial history client) (apart : Apart history)
    {i : I} {toolName : JsString} {index : Nat} (named : Named history toolName)
    {before : List (Event I)} (visited : before <+: history)
    (reached : client.manifests = (after environment initial before).manifests) :
    Tracks environment initial history (client.walk i toolName index) := by
  rw [LiopClient.walk]
  cases found : LiopClient.nextProvider toolName index (client.manifests.entries.drop index) with
  | none =>
    have finding : Owed environment initial history (.finding toolName) := named
    exact tracks.wait finding
  | some next =>
    obtain ⟨place, peerId, manifest⟩ := next
    obtain ⟨member, lists⟩ := nextProvider_spec found
    have cached : client.manifests.get? peerId = some manifest :=
      InsertionMap.get?_eq_some_iff.mpr (List.mem_of_mem_drop member)
    have known := tracks.known peerId manifest cached
    have listed : Listed environment initial history peerId toolName :=
      ⟨before, visited, manifest, reached ▸ cached, lists⟩
    dsimp only
    cases present : client.rpcClients peerId with
    | some rpcClient =>
      obtain ⟨kept, opened⟩ := tracks.pool peerId rpcClient present
      exact tracks.use opened (offers_peer apart known listed kept)
    | none =>
      have dialing : Owed environment initial history (.dialing toolName place peerId manifest) :=
        ⟨named, known, listed⟩
      exact tracks.wait dialing

theorem tracks_callTool (tracks : Tracks environment initial history client)
    (apart : Apart history) {i : I} {toolName : JsString} (named : Named history toolName)
    {before : List (Event I)} (visited : before <+: history)
    (reached : client.manifests = (after environment initial before).manifests) :
    Tracks environment initial history (client.callTool i toolName) := by
  rw [LiopClient.callTool]
  cases static : client.rpcClients staticKey with
  | some rpcClient =>
    obtain ⟨kept, opened⟩ := tracks.pool staticKey rpcClient static
    exact tracks.use opened (offers_static apart kept)
  | none =>
    dsimp only
    cases present : client.rpcClients toolName with
    | some rpcClient =>
      obtain ⟨kept, opened⟩ := tracks.pool toolName rpcClient present
      exact tracks.use opened (offers_tool apart named kept)
    | none => exact tracks.walk apart named visited reached

/-- The token for a tool, whose name is no peer's. -/
theorem opened_found (apart : Apart history) {toolName : JsString} (named : Named history toolName)
    {providerId : PeerId} {address : JsString}
    (tracks : Tracks environment initial history client) {before : List (Event I)}
    (visited : before <+: history)
    (reached : client.manifests = (after environment initial before).manifests) :
    Opened environment initial history
      ⟨address, tokenOfKey environment client.oauthToken client.manifests toolName,
        .found providerId toolName⟩ := by
  refine ⟨before, visited, ?_⟩
  have uncached : client.manifests.get? toolName = none := by
    cases cached : client.manifests.get? toolName with
    | none => rfl
    | some manifest =>
      exact absurd (tracks.known toolName manifest cached) (apart.tools toolName named).2
  rewrite [tokenOfKey, uncached, tracks.oauthToken, ← reached]
  rfl

theorem tracks_resume {before : List (Event I)} (so_far : Tracks environment initial before client)
    {i : I} {network : Network} (ends : before ++ [.resume i network] = history)
    (apart : Apart history) (reached : client = after environment initial before) :
    Tracks environment initial history (client.resume environment i network) := by
  have earlier : before <+: history := ends ▸ List.prefix_append _ _
  have tracks := so_far.mono earlier
  have manifests : client.manifests = (after environment initial before).manifests := by
    rw [reached]
  have idle : Owed environment initial history .idle := trivial
  have owed := tracks.waiting i
  rw [LiopClient.resume]
  cases phase : client.calls i with
  | idle | connected => exact tracks
  | dialing toolName index peerId manifest =>
    rw [phase] at owed
    obtain ⟨named, known, listed⟩ := owed
    cases network.addresses with
    | none => exact tracks.wait idle
    | some addrs =>
      dsimp only
      cases usable (selectOptimalIp addrs) with
      | none => exact tracks.walk apart named earlier manifests
      | some ip =>
        have keyed : Keyed environment initial history peerId (.cached peerId) := ⟨rfl, known⟩
        refine tracks.connectTo keyed ?_ fun other => offers_peer apart known listed
        -- the peer is still cached, perhaps with a newer manifest
        have waits := so_far.waiting i
        rw [phase] at waits
        obtain ⟨-, -, first, seen, cached, present, -⟩ := waits
        obtain ⟨newer, kept⟩ := cached_stays seen present
        rw [← manifests] at kept
        refine ⟨before, earlier, newer, manifests ▸ kept, ?_⟩
        rw [tokenOfKey, kept, tracks.oauthToken]
  | finding toolName =>
    rw [phase] at owed
    cases providers : network.providers with
    | none => exact tracks.wait idle
    | some providerIds =>
      cases providerIds with
      | nil => exact tracks.wait idle
      | cons providerId rest =>
        have known : Known history providerId :=
          ⟨.resume i network, ends ▸ List.mem_append_right _ (List.mem_singleton.mpr rfl), by
            rw [Event.peerIds, providers]
            exact List.mem_cons_self⟩
        have querying : Owed environment initial history (.querying toolName providerId) :=
          ⟨owed, known, before, i, network, rest, ends ▸ List.prefix_rfl, reached ▸ phase, providers⟩
        exact tracks.wait querying
  | querying toolName providerId =>
    rw [phase] at owed
    have resolving (grpcPort : Decimal) :
        Owed environment initial history (.resolving toolName providerId grpcPort) := owed
    rcases network.manifest with - | - | manifest
    · exact tracks.wait idle
    · exact tracks.wait (resolving _)
    · have waits : Tracks environment initial history
          (client.wait i (.resolving toolName providerId manifest.grpcPort)) :=
        tracks.wait (resolving manifest.grpcPort)
      refine ⟨waits.oauthToken, fun peerId stored cached => ?_, waits.pool, waits.waiting,
        waits.uses⟩
      by_cases same : peerId = providerId
      · subst same
        exact owed.2.1
      · rw [InsertionMap.get?_set_ne same] at cached
        exact tracks.known peerId stored cached
  | resolving toolName providerId grpcPort =>
    rw [phase] at owed
    obtain ⟨named, known, found⟩ := owed
    cases network.addresses with
    | none => exact tracks.wait idle
    | some addrs =>
      have keyed : Keyed environment initial history toolName (.found providerId toolName) :=
        ⟨rfl, named, found⟩
      exact tracks.connectTo keyed (opened_found apart named tracks earlier manifests)
        fun other => offers_tool apart named

theorem tracks_close (tracks : Tracks environment initial history client) (i : I) (failed : Bool) :
    Tracks environment initial history (client.close i failed) := by
  have idle : Owed environment initial history .idle := trivial
  rw [LiopClient.close]
  cases client.calls i with
  | connected toolName targetClientKey =>
    cases failed with
    | false => exact tracks.wait idle
    | true =>
      have waits : Tracks environment initial history (client.wait i .idle) := tracks.wait idle
      refine ⟨waits.oauthToken, waits.known, fun key rpcClient present => ?_, waits.waiting,
        waits.uses⟩
      -- an entry that is left is an old one
      refine tracks.pool key rpcClient ?_
      simp only [if_true, Function.update_apply] at present
      split_ifs at present
      exact present
  | _ => exact tracks

theorem tracks_step {event : Event I} (tracks : Tracks environment initial history client)
    (apart : Apart (history ++ [event])) (reached : client = after environment initial history) :
    Tracks environment initial (history ++ [event]) (client.step environment event) := by
  have longer : history <+: history ++ [event] := List.prefix_append _ _
  have kept := tracks.mono longer
  have here : event ∈ history ++ [event] := List.mem_append_right _ (List.mem_singleton.mpr rfl)
  cases event with
  | discover peerId manifest =>
    refine ⟨kept.oauthToken, fun other stored cached => ?_, kept.pool, kept.waiting, kept.uses⟩
    rw [LiopClient.step] at cached
    by_cases same : other = peerId
    · subst same
      exact ⟨_, here, List.mem_singleton.mpr rfl⟩
    · simp only [InsertionMap.get?_set_ne same] at cached
      exact kept.known other stored cached
  | callTool i toolName =>
    have named : Named (history ++ [.callTool i toolName]) toolName :=
      ⟨_, here, List.mem_singleton.mpr rfl⟩
    rw [LiopClient.step]
    cases client.calls i with
    | idle => exact tracks_callTool kept apart named longer (by rw [reached])
    | _ => exact kept
  | resume i network => exact tracks_resume tracks rfl apart reached
  | close i failed => exact tracks_close kept i failed

/-! ### Runs -/

omit [DecidableEq I] in
theorem apart_of_lists {events : List (Event I)}
    (tools : ∀ toolName ∈ events.flatMap Event.toolNames,
      toolName ≠ staticKey ∧ toolName ∉ events.flatMap Event.peerIds)
    (peers : ∀ peerId ∈ events.flatMap Event.peerIds, peerId ≠ staticKey) : Apart events where
  tools toolName named := by
    obtain ⟨dynamic, tool⟩ := tools toolName (List.mem_flatMap.mpr named)
    exact ⟨dynamic, fun known => tool (List.mem_flatMap.mpr known)⟩
  peers peerId known := peers peerId (List.mem_flatMap.mpr known)

def bankManifest : ClientManifest where
  tools := [js "balance"]
  grpcPort := ⟨50052, 0, by decide⟩
  token := ⟨some (js "BANK"), none, true⟩

/-- A process that has a token for the bank. -/
def bankEnvironment : TokenEnvironment where
  env name := if name = js "LIOP_TOKEN_BANK" then some (js "secret") else none
  toUpperCase text := text.map Server.upperUnit
  toLowerCase text := text.map Server.lowerUnit

def balanceCall : List (Event Unit) :=
  [.discover (js "12D3KooWBank") bankManifest, .callTool () (js "balance"),
    .resume () ⟨some [js "/ip4/10.0.0.2/tcp/4001"], none, none⟩]

end NeuralMesh.Client
