import NeuralMesh.Server.ManifestTransport
import NeuralMesh.Transition

/-! The gateway router's manifest cache under its three kinds of steps: a refresh
that verifies, a direct query while routing that does not, and a tool listing
that completes the input schemas inside the cached manifests. -/
namespace NeuralMesh.Gateway

open Js Crypto

abbrev PeerId := JsString

structure CacheEntry where
  manifest : JsValue
  cachedAt : Nat

/-- A `Map` from peers to manifests, in insertion order. -/
abbrev Cache := List (PeerId × CacheEntry)

def Cache.set (peerId : PeerId) (entry : CacheEntry) : Cache → Cache
  | [] => [(peerId, entry)]
  | (p, e) :: cache => if p = peerId then (p, entry) :: cache else (p, e) :: set peerId entry cache

/-- `manifest.pqcSignature && manifest.pqcPublicKey` -/
def carriesAttestation (manifest : JsValue) : Bool :=
  truthy (member pqcSignature manifest) && truthy (member pqcPublicKey manifest)

/-! ### Refresh -/

/-- One entry of `Promise.allSettled` over the manifest queries. -/
inductive QueryResult where
  | fulfilled (peerId : PeerId) (manifest : JsValue)
  | rejected

/-- Reading `manifest.tools.length` throws when there are no tools at all. -/
def hasTools (manifest : JsValue) : Bool :=
  match member (js "tools") manifest with
  | .undefined | .null => false
  | _ => true

/-- The loop over the query results; an exception leaves it early. -/
def refreshManifestCache (lib : Library) (now : Nat) : List QueryResult → Cache → Cache
  | [], cache => cache
  | .rejected :: results, cache => refreshManifestCache lib now results cache
  | .fulfilled peerId manifest :: results, cache =>
    if truthy manifest then
      if carriesAttestation manifest && !verifyReceived lib manifest then
        refreshManifestCache lib now results cache
      else
        let cache := cache.set peerId ⟨manifest, now⟩
        if hasTools manifest then refreshManifestCache lib now results cache else cache
    else refreshManifestCache lib now results cache

/-! ### Direct query -/

/-- Port resolution of `routeToRemoteProvider`: the port and the cache after it.
`answer` is what the peer's manifest protocol returns if it is asked. -/
def routeToRemoteProvider (defaultRpcPort : JsValue) (now : Nat) (peerId : PeerId)
    (answer : JsValue) (cache : Cache) : JsValue × Cache :=
  match cache.lookup peerId with
  | some entry => (member (js "grpcPort") entry.manifest, cache)
  | none =>
    if truthy answer then
      (member (js "grpcPort") answer, cache.set peerId ⟨answer, now⟩)
    else (defaultRpcPort, cache)

/-! ### Listing -/

/-- The defaults that `getRemoteTools` writes into an input schema. -/
def completeSchema (schema : Members) : Members :=
  let typed := if truthy (property (js "type") schema) then schema
    else setProperty (js "type") (.str (js "object")) schema
  if truthy (property (js "properties") typed) then typed
  else setProperty (js "properties") (.obj []) typed

def isStatusTool (tool : Members) : Bool :=
  match property (js "name") tool with
  | .str name => name == js "LiopMeshStatus"
  | _ => false

/-- The input schema object is shared with the cache, so completing it for the
listing changes the cached tool. -/
def completeTool : JsValue → JsValue
  | .obj tool =>
    if isStatusTool tool then .obj tool
    else match property (js "inputSchema") tool with
      | .obj schema => .obj (setProperty (js "inputSchema") (.obj (completeSchema schema)) tool)
      | _ => .obj tool
  | tool => tool

def toolsOf (manifest : JsValue) : List JsValue :=
  match member (js "tools") manifest with
  | .arr tools => tools
  | _ => []

/-- Completes the first `reached` tools of a manifest. -/
def completeManifest (reached : Nat) : JsValue → JsValue
  | .obj manifest =>
    match property (js "tools") manifest with
    | .arr tools => .obj (setProperty (js "tools")
        (.arr ((tools.take reached).map completeTool ++ tools.drop reached)) manifest)
    | _ => .obj manifest
  | manifest => manifest

/-- What `getRemoteTools` does to the cache. Malformed data of a peer makes it
throw, so it gets as far as the first `reached` tools. -/
def getRemoteTools : Nat → Cache → Cache
  | _, [] => []
  | reached, (peerId, entry) :: cache =>
    (peerId, { entry with manifest := completeManifest reached entry.manifest }) ::
      getRemoteTools (reached - (toolsOf entry.manifest).length) cache

/-! ### Steps -/

inductive RouterEvent where
  | refresh (now : Nat) (results : List QueryResult)
  | route (now : Nat) (peerId : PeerId) (answer : JsValue)
  | list (reached : Nat)

def step (lib : Library) (defaultRpcPort : JsValue) (cache : Cache) : RouterEvent → Cache
  | .refresh now results => refreshManifestCache lib now results cache
  | .route now peerId answer => (routeToRemoteProvider defaultRpcPort now peerId answer cache).2
  | .list reached => getRemoteTools reached cache

/-! ### Integrity -/

/-- A manifest that carries an attestation passes its own check. -/
def Sound (lib : Library) (manifest : JsValue) : Prop :=
  carriesAttestation manifest = true → verifyReceived lib manifest = true

def CacheIntegrity (lib : Library) (cache : Cache) : Prop :=
  ∀ e ∈ cache, Sound lib e.2.manifest

theorem mem_set {peerId : PeerId} {entry : CacheEntry} {cache : Cache} {e : PeerId × CacheEntry}
    (member : e ∈ cache.set peerId entry) : e.2 = entry ∨ e ∈ cache := by
  induction cache with
  | nil =>
    obtain rfl := List.mem_singleton.mp member
    exact .inl rfl
  | cons first cache ih =>
    obtain ⟨p, f⟩ := first
    simp only [Cache.set] at member
    split_ifs at member
    · rcases List.mem_cons.mp member with rfl | later
      · exact .inl rfl
      · exact .inr (List.mem_cons_of_mem _ later)
    · rcases List.mem_cons.mp member with rfl | later
      · exact .inr List.mem_cons_self
      · exact (ih later).imp_right (List.mem_cons_of_mem _)

theorem set_integrity {lib : Library} {cache : Cache} (integrity : CacheIntegrity lib cache)
    (peerId : PeerId) {entry : CacheEntry} (sound : Sound lib entry.manifest) :
    CacheIntegrity lib (cache.set peerId entry) := by
  intro e member
  rcases mem_set member with same | old
  · rw [same]
    exact sound
  · exact integrity e old

/-- A refresh stores only manifests that pass the check they carry. -/
theorem refresh_integrity (lib : Library) (now : Nat) (results : List QueryResult) {cache : Cache}
    (integrity : CacheIntegrity lib cache) :
    CacheIntegrity lib (refreshManifestCache lib now results cache) := by
  induction results generalizing cache with
  | nil => exact integrity
  | cons result results ih =>
    cases result with
    | rejected => exact ih integrity
    | fulfilled peerId manifest =>
      simp only [refreshManifestCache]
      split_ifs with present tampered tools
      · exact ih integrity
      · have sound : Sound lib manifest := by
          intro carries
          simpa [carries] using tampered
        exact ih (set_integrity integrity peerId sound)
      · have sound : Sound lib manifest := by
          intro carries
          simpa [carries] using tampered
        exact set_integrity integrity peerId sound
      · exact ih integrity

/-- A direct query is harmless when its answer is not stored, or passes the
check it carries. -/
def RouteHarmless (lib : Library) (peerId : PeerId) (answer : JsValue) (cache : Cache) : Prop :=
  cache.lookup peerId ≠ none ∨ truthy answer = false ∨ Sound lib answer

theorem route_integrity {lib : Library} (defaultRpcPort : JsValue) (now : Nat) {peerId : PeerId}
    {answer : JsValue} {cache : Cache} (integrity : CacheIntegrity lib cache)
    (harmless : RouteHarmless lib peerId answer cache) :
    CacheIntegrity lib (routeToRemoteProvider defaultRpcPort now peerId answer cache).2 := by
  unfold routeToRemoteProvider
  cases known : cache.lookup peerId with
  | some entry => exact integrity
  | none =>
    dsimp only
    split_ifs with present
    · rcases harmless with cached | absent | sound
      · exact absurd known cached
      · simp [present] at absent
      · exact set_integrity integrity peerId sound
    · exact integrity

/-- The listing finds nothing to complete in the input schema of a tool. -/
def SchemaComplete : JsValue → Prop
  | .obj tool => isStatusTool tool = false → ∀ schema, property (js "inputSchema") tool = .obj schema →
      truthy (property (js "type") schema) = true ∧ truthy (property (js "properties") schema) = true
  | _ => True

/-- Every tool that the listing reaches in an attested manifest is complete. -/
def ListHarmless : Nat → Cache → Prop
  | _, [] => True
  | reached, (_, entry) :: cache =>
    (carriesAttestation entry.manifest = true →
      ∀ tool ∈ (toolsOf entry.manifest).take reached, SchemaComplete tool) ∧
    ListHarmless (reached - (toolsOf entry.manifest).length) cache

theorem completeTool_complete {tool : JsValue} (complete : SchemaComplete tool) :
    completeTool tool = tool := by
  cases tool with
  | obj tool =>
    simp only [completeTool]
    split
    · rfl
    · rename_i other
      split
      · rename_i schema found
        obtain ⟨typed, described⟩ := complete (by simpa using other) schema found
        have unchanged : completeSchema schema = schema := by
          simp only [completeSchema, typed, if_true, described]
        rw [unchanged, setProperty_same (by decide) (by simp) found]
      · rfl
  | _ => rfl

theorem completeManifest_complete {manifest : JsValue} {reached : Nat}
    (complete : ∀ tool ∈ (toolsOf manifest).take reached, SchemaComplete tool) :
    completeManifest reached manifest = manifest := by
  cases manifest with
  | obj manifest =>
    simp only [completeManifest]
    split
    · rename_i tools found
      simp only [toolsOf, Js.member, found] at complete
      have unchanged : (tools.take reached).map completeTool = tools.take reached := by
        conv_rhs => rw [← List.map_id' (tools.take reached)]
        exact List.map_congr_left fun tool member => completeTool_complete (complete tool member)
      rw [unchanged, List.take_append_drop, setProperty_same (by decide) (by simp) found]
    · rfl
  | _ => rfl

/-- The listing does not touch the attestation fields. -/
theorem carriesAttestation_complete (reached : Nat) (manifest : JsValue) :
    carriesAttestation (completeManifest reached manifest) = carriesAttestation manifest := by
  cases manifest with
  | obj manifest =>
    have signature : pqcSignature ≠ js "tools" := by decide
    have publicKey : pqcPublicKey ≠ js "tools" := by decide
    simp only [completeManifest]
    split
    · simp only [carriesAttestation, Js.member, property_setProperty_ne signature,
        property_setProperty_ne publicKey]
    · rfl
  | _ => rfl

theorem list_integrity {lib : Library} {reached : Nat} {cache : Cache}
    (integrity : CacheIntegrity lib cache) (harmless : ListHarmless reached cache) :
    CacheIntegrity lib (getRemoteTools reached cache) := by
  induction cache generalizing reached with
  | nil => exact integrity
  | cons first cache ih =>
    obtain ⟨peerId, entry⟩ := first
    obtain ⟨complete, rest⟩ := harmless
    intro e member
    rcases List.mem_cons.mp member with rfl | later
    · intro carries
      rw [carriesAttestation_complete] at carries
      rw [completeManifest_complete (complete carries)]
      exact integrity (peerId, entry) List.mem_cons_self carries
    · exact ih (fun e old => integrity e (List.mem_cons_of_mem _ old)) rest e later

/-- The condition under which a step keeps the integrity of the cache. -/
def Harmless (lib : Library) (cache : Cache) : RouterEvent → Prop
  | .refresh _ _ => True
  | .route _ peerId answer => RouteHarmless lib peerId answer cache
  | .list reached => ListHarmless reached cache

theorem step_integrity (lib : Library) (defaultRpcPort : JsValue) (cache : Cache)
    (event : RouterEvent) (integrity : CacheIntegrity lib cache)
    (harmless : Harmless lib cache event) :
    CacheIntegrity lib (step lib defaultRpcPort cache event) := by
  cases event with
  | refresh now results => exact refresh_integrity lib now results integrity
  | route now peerId answer => exact route_integrity defaultRpcPort now integrity harmless
  | list reached => exact list_integrity integrity harmless

/-- Along every run whose direct queries and listings are harmless, every cached
manifest that carries an attestation passes the check. -/
theorem run_integrity (lib : Library) (defaultRpcPort : JsValue) (events before : List RouterEvent)
    (harmless : Transition.Allowed (step lib defaultRpcPort) (Harmless lib) [] events)
    (visited : before <+: events) :
    CacheIntegrity lib (Transition.run (step lib defaultRpcPort) [] before) :=
  Transition.visited_invariant (step_integrity lib defaultRpcPort)
    (by simp [CacheIntegrity]) harmless visited

/-- The manifest of a configured server, with an attestation. -/
def attested (attestation : Attestation) : JsValue :=
  .obj (attach (Server.unsignedManifest Server.configuredProvider) attestation)

/-- The attestation that the server makes. -/
def honestAttestation : Attestation :=
  ⟨toBase64 (List.replicate SIGNATURE_BYTES 0), toBase64 (List.replicate PUBLIC_KEY_BYTES 0)⟩

def honestLibrary : Library :=
  attestingLibrary (signedMessage (Server.unsignedManifest Server.configuredProvider))

theorem honestAttestation_sound : Sound honestLibrary (attested honestAttestation) :=
  fun _ => Server.verifyReceived_attach (attestingLibrary_attests _)

theorem honest_run_integrity :
    let events : List RouterEvent :=
      [.route 0 (js "peer") (attested honestAttestation), .list 1, .refresh 1 [.rejected]]
    Transition.Allowed (step honestLibrary .undefined) (Harmless honestLibrary) [] events ∧
      CacheIntegrity honestLibrary (Transition.run (step honestLibrary .undefined) [] events) := by
  intro events
  have harmless : Transition.Allowed (step honestLibrary .undefined) (Harmless honestLibrary) []
      events := by
    refine ⟨.inr (.inr honestAttestation_sound), ⟨fun _ tool member => ?_, trivial⟩, trivial, trivial⟩
    have none : toolsOf (attested honestAttestation) = [] := rfl
    rw [none] at member
    cases member
  exact ⟨harmless, run_integrity honestLibrary .undefined events events harmless List.prefix_rfl⟩

/-- A peer that is asked directly while routing can plant any manifest. -/
theorem tampered_manifest_cached : ¬ CacheIntegrity honestLibrary
    (Transition.run (step honestLibrary .undefined) []
      [.route 0 (js "peer") (attested ⟨js "AA==", js "AA=="⟩)]) := by
  intro integrity
  have sound := integrity (js "peer", ⟨attested ⟨js "AA==", js "AA=="⟩, 0⟩)
    (List.mem_singleton_self _) (by decide)
  have rejected : verifyReceived honestLibrary (attested ⟨js "AA==", js "AA=="⟩) = false := by
    decide +kernel
  rw [rejected] at sound
  cases sound

end NeuralMesh.Gateway
