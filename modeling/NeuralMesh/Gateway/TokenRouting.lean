import NeuralMesh.Gateway.ManifestCache
import NeuralMesh.Gateway.NodeTokens

/-! The access tokens that the gateway sends to providers. The calls of its clients run interleaved;
each comes with the token of its client or none, and may wait for a token of the gateway itself,
which all calls share. -/
namespace NeuralMesh.Gateway.TokenRouting

open Js Transition

/-- A tool call that has been resolved to a provider. -/
structure Request where
  peerId : PeerId
  token : Option JsString

/-- Where a call waits. -/
inductive Phase where
  | idle
  /-- For the Nexus, in the check before routing. -/
  | checking (request : Request)
  | routing (request : Request) (effectiveToken : Option JsString)
  /-- For the Nexus, in the transcoding. -/
  | acquiring (request : Request)

/-- An intent that is sent to a provider, with its `authorization`. -/
structure Sent (I : Type) where
  call : I
  request : Request
  activeToken : Option JsString

structure TokenRouter (I : Type) where
  manifestCache : PeerId → Option TokenManifest
  meshAgentToken : Option JsString
  calls : I → Phase
  sent : List (Sent I)

inductive Event (I : Type) where
  /-- The cached manifest of a peer changes. -/
  | cache (peerId : PeerId) (manifest : Option TokenManifest)
  /-- A call; `cached` when its provider was found in the manifest cache. -/
  | call (i : I) (request : Request) (cached : Bool)
  /-- The call goes on; `answer` is the access token in the answer of the Nexus, if it waits for it. -/
  | resume (i : I) (answer : Option JsString)

/-! ### Acquisition -/

inductive Acquisition where
  | resolved (token : Option JsString)
  | requested

namespace TokenRouter

variable {I : Type} [DecidableEq I] (environment : TokenEnvironment)

def start (manifestCache : PeerId → Option TokenManifest) : TokenRouter I :=
  ⟨manifestCache, none, fun _ => .idle, []⟩

/-- The tokens from the environment that belong to no provider. -/
def staticToken : Option JsString :=
  either (environment.env (js "LIOP_OAUTH_TOKEN")) (environment.env (js "LIOP_TOKEN"))

variable (router : TokenRouter I) (i : I)

/-- Up to the request to the Nexus. -/
def getOrAcquireMeshAgentToken (peerId : PeerId) : Acquisition × TokenRouter I :=
  let nodeToken := if peerId = [] then none
    else environment.nodeToken peerId (router.manifestCache peerId)
  match usable nodeToken with
  | some token => (.resolved (some token), router)
  | none =>
    match usable router.meshAgentToken with
    | some token => (.resolved (some token), router)
    | none =>
      match usable (staticToken environment) with
      | some token => (.resolved (some token), { router with meshAgentToken := some token })
      | none =>
        match usable (environment.env (js "LIOP_NEXUS_URL")) with
        | some _ => (.requested, router)
        | none => (.resolved none, router)

/-- The rest, with the answer of the Nexus; an answer without a token is `undefined`. -/
def acquired (answer : Option JsString) : Option JsString × TokenRouter I :=
  match usable answer with
  | some token => (some token, { router with meshAgentToken := some token })
  | none => (none, router)

/-! ### Calls -/

def wait (phase : Phase) : TokenRouter I :=
  { router with calls := Function.update router.calls i phase }

def authRequired (peerId : PeerId) : Bool :=
  match router.manifestCache peerId with
  | some manifest => manifest.authRequired
  | none => false

/-- The check of `transcodeMcpToLiop` with a token for the provider; without one it refuses. -/
def checked (request : Request) (resolvedToken : Option JsString) : TokenRouter I :=
  match usable resolvedToken with
  | some token => router.wait i (.routing request (some token))
  | none => router.wait i .idle

/-- `transcodeMcpToLiop` for a provider, up to its next `await`. -/
def transcodeMcpToLiop (request : Request) (cached : Bool) : TokenRouter I :=
  if cached && router.authRequired request.peerId then
    match usable request.token with
    | some token => router.checked i request (some token)
    | none =>
      match router.getOrAcquireMeshAgentToken environment request.peerId with
      | (.resolved token, router) => router.checked i request token
      | (.requested, router) => router.wait i (.checking request)
  else router.wait i (.routing request request.token)

/-- The end of `performTranscoding` as far as tokens go: a refusal or an intent. -/
def negotiate (request : Request) (activeToken : Option JsString) : TokenRouter I :=
  if router.authRequired request.peerId && usable activeToken = none then router.wait i .idle
  else { router.wait i .idle with sent := router.sent ++ [⟨i, request, usable activeToken⟩] }

def performTranscoding (request : Request) (token : Option JsString) : TokenRouter I :=
  match usable token with
  | some token => router.negotiate i request (some token)
  | none =>
    match router.getOrAcquireMeshAgentToken environment request.peerId with
    | (.resolved token, router) => router.negotiate i request token
    | (.requested, router) => router.wait i (.acquiring request)

def resume (answer : Option JsString) : TokenRouter I :=
  match router.calls i with
  | .idle => router
  | .checking request =>
    let (token, router) := router.acquired answer
    router.checked i request token
  | .routing request effectiveToken =>
    router.performTranscoding environment i request effectiveToken
  | .acquiring request =>
    let (token, router) := router.acquired answer
    router.negotiate i request token

def step (router : TokenRouter I) : Event I → TokenRouter I
  | .cache peerId manifest =>
    { router with manifestCache := Function.update router.manifestCache peerId manifest }
  | .call i request cached =>
    match router.calls i with
    | .idle => router.transcodeMcpToLiop environment i request cached
    | _ => router
  | .resume i answer => router.resume environment i answer

end TokenRouter

end NeuralMesh.Gateway.TokenRouting
