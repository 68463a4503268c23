import NeuralMesh.Backoff
import NeuralMesh.Exclusion
import NeuralMesh.Gateway.ManifestCache

/-! Discovery of manifests by the gateway router. The calls of `refreshManifestCache` share one
discovery; it looks for providers, asks those that are out of their cooldown and not cached yet, and
tells the client when the number of tools changes. Between any two steps of it other calls run. -/
namespace NeuralMesh.Gateway.Discovery

open Js Crypto Backoff

def MANIFEST_CACHE_TTL_S : Nat := 300
def MANIFEST_DISCOVERY_RETRIES : Nat := 5
def MANIFEST_FAILURE_BASE_COOLDOWN_MS : Nat := 15000
def MANIFEST_FAILURE_MAX_COOLDOWN_MS : Nat := 5 * 60000
def MANIFEST_SKIP_LOG_THROTTLE_MS : Nat := 30000

/-! ### Failures -/

structure ManifestFailure extends Record where
  lastSkipLogAt : Nat

/-- `manifestFailureState` -/
abbrev ManifestFailures := PeerId → Option ManifestFailure

namespace ManifestFailures

variable (states : ManifestFailures) (peerId : PeerId) (now : Nat)

def record : Option Record := (states peerId).map ManifestFailure.toRecord

/-- A skipped query is logged now and then. -/
def shouldSkipManifestQuery : Bool × ManifestFailures :=
  match states peerId with
  | none => (false, states)
  | some state =>
    if state.cooldownUntil ≤ now then (false, states)
    else if now - state.lastSkipLogAt > MANIFEST_SKIP_LOG_THROTTLE_MS then
      (true, Function.update states peerId (some { state with lastSkipLogAt := now }))
    else (true, states)

def recordManifestQuerySuccess : ManifestFailures := Function.update states peerId none

def recordManifestQueryFailure : ManifestFailures :=
  Function.update states peerId (some
    { toRecord := onFailure MANIFEST_FAILURE_BASE_COOLDOWN_MS MANIFEST_FAILURE_MAX_COOLDOWN_MS
        (states.record peerId) now
      lastSkipLogAt := 0 })

end ManifestFailures

/-! ### Tool counts -/

/-- A sum of lengths; `none` is `NaN`. -/
abbrev Count := Option Nat

/-- `newCount !== prevCount` -/
def differs : Count → Count → Bool
  | some newCount, some prevCount => newCount != prevCount
  | _, _ => true

/-- `manifest.tools.length` of a manifest with tools. -/
def toolsLength (manifest : JsValue) : Count :=
  match member (js "tools") manifest with
  | .arr tools => some tools.length
  | .str text => some text.length
  | _ => none

/-- The sum over the cache; the outer `none` is the exception of a manifest without tools. -/
def toolCount : Cache → Option Count
  | [] => some (some 0)
  | (_, entry) :: cache =>
    if hasTools entry.manifest then
      (toolCount cache).map fun rest => (toolsLength entry.manifest).bind fun n => rest.map (n + ·)
    else none

/-! ### Discovery -/

/-- Where a call of `refreshManifestCache` waits. -/
inductive Phase where
  | uncalled
  | connecting (prevCount : Count) (i : Nat)
  | searching (prevCount : Count) (maxColdAttempts coldAttempt attempt : Nat)
  | retrying (prevCount : Count) (maxColdAttempts coldAttempt attempt : Nat)
  | cooling (prevCount : Count) (maxColdAttempts coldAttempt : Nat)
  | querying (prevCount : Count) (asked : Nat) (eligiblePeers : List PeerId)
  | returned

/-- The body of a discovery is under way. -/
def Phase.running : Phase → Bool
  | uncalled | returned => false
  | _ => true

/-- The answer of one manifest query. -/
inductive Answer where
  | manifest (value : JsValue)
  | null
  | rejected

/-- What a step finds around it. -/
structure Environment where
  now : Nat
  /-- `getConnections`, as peer ids -/
  connections : List PeerId
  /-- What `discoverManifestProviders` resolves to, or its rejection. -/
  providers : Option (List PeerId)
  answers : PeerId → Answer
  /-- `findProviders` lists no peer twice. -/
  distinct : ∀ providerIds, providers = some providerIds → providerIds.Nodup

structure LiopMcpRouter (I : Type) where
  manifestCache : Cache
  manifestFailureState : ManifestFailures
  /-- The promise of the running discovery is set. -/
  currentDiscovery : Bool
  calls : I → Phase
  /-- The counts at which `onToolsChanged` was called. -/
  toolsChanged : List Count
  /-- The queries of each peer that were recorded as failed or successful. -/
  attempts : PeerId → List Attempt

inductive Event (I : Type) where
  | call (i : I) (silent : Bool) (env : Environment)
  | resume (i : I) (env : Environment)
  /-- A tool call that asks a peer for its manifest by itself. -/
  | route (peerId : PeerId) (manifest : JsValue) (now : Nat)

def fresh (cache : Cache) (peerId : PeerId) (now : Nat) : Bool :=
  match cache.lookup peerId with
  | some entry => now - entry.cachedAt < MANIFEST_CACHE_TTL_S * 1000
  | none => false

def allFresh (cache : Cache) (now : Nat) : Bool :=
  cache.all fun entry => now - entry.2.cachedAt < MANIFEST_CACHE_TTL_S * 1000

/-- `Array.from(new Set([...providerIds, ...activePeers]))`, when there are active peers. -/
def mergePeers (providerIds activePeers : List PeerId) : List PeerId :=
  if activePeers = [] then providerIds else (providerIds ++ activePeers).foldl setAdd []

/-- The stable sort that puts the connected peers first. -/
def connectedFirst (connectedPeers providerIds : List PeerId) : List PeerId :=
  providerIds.filter (· ∈ connectedPeers) ++ providerIds.filter (· ∉ connectedPeers)

/-- The filter of the peers to ask, which also notes the skips that it logs. -/
def eligible (selfId : PeerId) (now : Nat) (cache : Cache) :
    List PeerId → ManifestFailures → List PeerId × ManifestFailures
  | [], states => ([], states)
  | peerId :: providerIds, states =>
    if peerId = selfId then eligible selfId now cache providerIds states
    else
      let (skip, states) := states.shouldSkipManifestQuery peerId now
      let (peers, states) := eligible selfId now cache providerIds states
      if skip || fresh cache peerId now then (peers, states) else (peerId :: peers, states)

/-- The variables of the loop over the query results. -/
structure Results where
  manifestCache : Cache
  manifestFailureState : ManifestFailures
  attempts : PeerId → List Attempt
  cacheUpdated : Bool

namespace Results

variable (results : Results) (peerId : PeerId) (asked now : Nat)

def attempt (failed : Bool) : PeerId → List Attempt :=
  Function.update results.attempts peerId (results.attempts peerId ++ [⟨asked, now, failed⟩])

def fail : Results :=
  { results with
    manifestFailureState := results.manifestFailureState.recordManifestQueryFailure peerId now
    attempts := results.attempt peerId asked now true }

def store (manifest : JsValue) : Results :=
  { manifestCache := results.manifestCache.set peerId ⟨manifest, now⟩
    manifestFailureState := results.manifestFailureState.recordManifestQuerySuccess peerId
    attempts := results.attempt peerId asked now false
    cacheUpdated := true }

end Results

/-- The loop over the query results, and whether it was left by an exception. -/
def settle (lib : Library) (asked now : Nat) (answers : PeerId → Answer) :
    List PeerId → Results → Results × Bool
  | [], results => (results, false)
  | peerId :: peers, results =>
    match answers peerId with
    | .rejected => settle lib asked now answers peers results
    | .null => settle lib asked now answers peers (results.fail peerId asked now)
    | .manifest manifest =>
      if !truthy manifest || carriesAttestation manifest && !verifyReceived lib manifest then
        settle lib asked now answers peers (results.fail peerId asked now)
      else if hasTools manifest then
        settle lib asked now answers peers (results.store peerId asked now manifest)
      else (results.store peerId asked now manifest, true)

namespace LiopMcpRouter

variable {I : Type} [DecidableEq I]

def start : LiopMcpRouter I := ⟨[], fun _ => none, false, fun _ => .uncalled, [], fun _ => []⟩

variable (router : LiopMcpRouter I) (i : I)

def wait (phase : Phase) : LiopMcpRouter I :=
  { router with calls := Function.update router.calls i phase }

/-- The end of the discovery, with its `finally`. -/
def finish : LiopMcpRouter I := { router.wait i .returned with currentDiscovery := false }

/-- The first search for providers. -/
def search (prevCount : Count) : LiopMcpRouter I :=
  router.wait i (.searching prevCount (if router.manifestCache = [] then 5 else 1) 0 0)

/-- The queries of the providers that were found. -/
def query (selfId : PeerId) (prevCount : Count) (env : Environment) (providerIds : List PeerId) :
    LiopMcpRouter I :=
  if providerIds = [] then router.finish i
  else
    let (peers, states) := eligible selfId env.now router.manifestCache
      (connectedFirst env.connections providerIds) router.manifestFailureState
    { router.wait i (.querying prevCount env.now peers) with manifestFailureState := states }

/-- What follows when the DHT has answered. -/
def found (selfId : PeerId) (prevCount : Count) (maxColdAttempts coldAttempt attempt : Nat)
    (env : Environment) (providerIds : List PeerId) : LiopMcpRouter I :=
  if providerIds.any (· ≠ selfId) = false ∧ attempt < MANIFEST_DISCOVERY_RETRIES - 1 then
    router.wait i (.retrying prevCount maxColdAttempts coldAttempt attempt)
  else
    let providerIds := mergePeers providerIds env.connections
    if providerIds.any (· ≠ selfId) = false ∧ coldAttempt < maxColdAttempts - 1 then
      router.wait i (.cooling prevCount maxColdAttempts coldAttempt)
    else router.query i selfId prevCount env providerIds

/-- The rest of the discovery when its queries have settled. -/
def settled (lib : Library) (prevCount : Count) (asked : Nat) (eligiblePeers : List PeerId)
    (env : Environment) : LiopMcpRouter I :=
  let (results, threw) := settle lib asked env.now env.answers eligiblePeers
    ⟨router.manifestCache, router.manifestFailureState, router.attempts, false⟩
  let router := { router.finish i with
    manifestCache := results.manifestCache
    manifestFailureState := results.manifestFailureState
    attempts := results.attempts }
  if threw = false ∧ results.cacheUpdated = true then
    match toolCount results.manifestCache with
    | some newCount =>
      if differs newCount prevCount then
        { router with toolsChanged := router.toolsChanged ++ [newCount] }
      else router
    | none => router
  else router

/-- A call, up to its first `await`. -/
def refreshManifestCache (silent : Bool) (env : Environment) : LiopMcpRouter I :=
  if router.currentDiscovery then router.wait i .returned
  else if !silent && router.manifestCache ≠ [] && allFresh router.manifestCache env.now then
    router.wait i .returned
  else
    let router := { router with currentDiscovery := true }
    match toolCount router.manifestCache with
    -- the exception comes before the first `await`, so `finally` clears the promise before it is set
    | none => router.wait i .returned
    | some prevCount =>
      if router.manifestCache = [] ∧ env.connections = [] then router.wait i (.connecting prevCount 0)
      else router.search i prevCount

/-- The body goes on behind its `await`. -/
def resume (lib : Library) (selfId : PeerId) (env : Environment) : LiopMcpRouter I :=
  match router.calls i with
  | .uncalled | .returned => router
  | .connecting prevCount k =>
    if k + 1 < 3 ∧ env.connections = [] then router.wait i (.connecting prevCount (k + 1))
    else router.search i prevCount
  | .searching prevCount maxColdAttempts coldAttempt attempt =>
    match env.providers with
    | none => router.finish i
    | some providerIds =>
      router.found i selfId prevCount maxColdAttempts coldAttempt attempt env providerIds
  | .retrying prevCount maxColdAttempts coldAttempt attempt =>
    router.wait i (.searching prevCount maxColdAttempts coldAttempt (attempt + 1))
  | .cooling prevCount maxColdAttempts coldAttempt =>
    router.wait i (.searching prevCount maxColdAttempts (coldAttempt + 1) 0)
  | .querying prevCount asked eligiblePeers =>
    router.settled i lib prevCount asked eligiblePeers env

def step (lib : Library) (selfId : PeerId) (router : LiopMcpRouter I) :
    Event I → LiopMcpRouter I
  | .call i silent env =>
    match router.calls i with
    | .uncalled => router.refreshManifestCache i silent env
    | _ => router
  | .resume i env => router.resume i lib selfId env
  | .route peerId manifest now =>
    if truthy manifest then
      { router with manifestCache := router.manifestCache.set peerId ⟨manifest, now⟩ }
    else router

end LiopMcpRouter

end NeuralMesh.Gateway.Discovery
