import NeuralMesh.Gateway.NodeTokens
import NeuralMesh.InsertionMap
import NeuralMesh.Js.NumberText
import Mathlib.Logic.Function.Basic

/-! The gRPC connections of a client. They are kept under the name of a tool, the id of a peer or
the word `static`, all in one map, and each is opened with one address and one access token. Calls
of tools run interleaved, and with the discovery that fills the manifest cache. -/
namespace NeuralMesh.Client

open Js Gateway

abbrev PeerId := JsString

/-- What choosing a provider reads of a manifest. -/
structure ClientManifest where
  tools : List JsString
  grpcPort : Decimal
  token : TokenManifest

/-- Whose address a connection has. -/
inductive Dialled where
  /-- The address that the client was connected with. -/
  | configured
  /-- A peer whose cached manifest lists the tool. -/
  | cached (peerId : PeerId)
  /-- The first provider that the DHT found for the tool. -/
  | found (peerId : PeerId) (toolName : JsString)

structure RpcClient where
  address : JsString
  token : Option JsString
  dialled : Dialled

/-- Where a call of a tool waits. -/
inductive Phase where
  | idle
  /-- `resolvePeer` of a peer in the cache, at this place of the loop. -/
  | dialing (toolName : JsString) (index : Nat) (peerId : PeerId) (manifest : ClientManifest)
  /-- `findProviders`, then `queryManifest` and `resolvePeer` of the provider. -/
  | finding (toolName : JsString)
  | querying (toolName : JsString) (providerId : PeerId)
  | resolving (toolName : JsString) (providerId : PeerId) (grpcPort : Decimal)
  /-- The rest of the call, with the key under which the connection is thought to be. -/
  | connected (toolName targetClientKey : JsString)

/-- A connection that a call has chosen. -/
structure Use where
  toolName : JsString
  rpcClient : RpcClient

structure LiopClient (I : Type) where
  manifests : InsertionMap PeerId ClientManifest
  rpcClients : JsString → Option RpcClient
  oauthToken : Option JsString
  calls : I → Phase
  uses : List Use

/-- What the mesh answers; without an answer the call is rejected. -/
structure Network where
  addresses : Option (List JsString)
  providers : Option (List PeerId)
  manifest : Option (Option ClientManifest)

inductive Event (I : Type) where
  /-- Discovery stores a manifest. -/
  | discover (peerId : PeerId) (manifest : ClientManifest)
  | callTool (i : I) (toolName : JsString)
  | resume (i : I) (network : Network)
  /-- The stream of a call ends, with an error or not. -/
  | close (i : I) (failed : Bool)

def staticKey : JsString := js "static"

/-! ### Addresses -/

/-- The part of a multiaddress behind `ip4`. -/
def ip4Of (maddr : JsString) : Option JsString :=
  match (maddr.splitOn 47).dropWhile (· ≠ js "ip4") with
  | _ :: ip :: _ => some ip
  | _ => none

def routable (ip : JsString) : Bool :=
  ip != js "127.0.0.1" && !(js "127.").isPrefixOf ip && ip != js "0.0.0.0" && ip != js "localhost"

def selectOptimalIp (addrs : List JsString) : Option JsString :=
  ((addrs.filterMap ip4Of).find? routable).or (addrs.filterMap ip4Of).head?

def grpcTarget (ip : JsString) (grpcPort : Decimal) : JsString :=
  ip ++ js ":" ++ ofText (numberText grpcPort)

/-! ### Tokens -/

section Tokens

variable (environment : TokenEnvironment) (oauthToken : Option JsString)

/-- The token for a peer, or else the one of the client. -/
def tokenFor (peerId : PeerId) (manifest : Option ClientManifest) : Option JsString :=
  match usable (environment.nodeToken peerId (manifest.map (·.token))) with
  | some envToken => some envToken
  | none => oauthToken

/-- The first cached peer that lists the tool. -/
def lister (manifests : InsertionMap PeerId ClientManifest) (toolName : JsString) :
    Option (PeerId × ClientManifest) :=
  manifests.entries.find? fun entry => toolName ∈ entry.2.tools

/-- `getOrCreateRpcClient` looks for the provider of its key, which may be a tool. -/
def tokenOfKey (manifests : InsertionMap PeerId ClientManifest) (key : JsString) :
    Option JsString :=
  match manifests.get? key with
  | some manifest => tokenFor environment oauthToken key (some manifest)
  | none =>
    match lister manifests key with
    | some (peerId, manifest) => tokenFor environment oauthToken peerId (some manifest)
    | none => tokenFor environment oauthToken key none

end Tokens

/-! ### Calls -/

namespace LiopClient

variable {I : Type} [DecidableEq I] (environment : TokenEnvironment)

/-- The client after `connect`, with or without an address. -/
def connect (oauthToken : Option JsString) (address : Option JsString) : LiopClient I where
  manifests := ∅
  rpcClients key := if key = staticKey then
    address.map fun address => ⟨address, oauthToken, .configured⟩ else none
  oauthToken := oauthToken
  calls _ := .idle
  uses := []

variable (client : LiopClient I) (i : I)

def wait (phase : Phase) : LiopClient I :=
  { client with calls := Function.update client.calls i phase }

/-- The call goes on with this connection. -/
def use (toolName targetClientKey : JsString) (rpcClient : RpcClient) : LiopClient I :=
  { client.wait i (.connected toolName targetClientKey) with
    uses := client.uses ++ [⟨toolName, rpcClient⟩] }

/-- The address of a connection that exists is not looked at. -/
def getOrCreateRpcClient (key address : JsString) (dialled : Dialled) : RpcClient × LiopClient I :=
  match client.rpcClients key with
  | some rpcClient => (rpcClient, client)
  | none =>
    let rpcClient : RpcClient :=
      ⟨address, tokenOfKey environment client.oauthToken client.manifests key, dialled⟩
    (rpcClient, { client with rpcClients := Function.update client.rpcClients key (some rpcClient) })

/-- The next peer of the loop whose manifest lists the tool, and its place. -/
def nextProvider (toolName : JsString) :
    Nat → List (PeerId × ClientManifest) → Option (Nat × PeerId × ClientManifest)
  | _, [] => none
  | index, (peerId, manifest) :: entries =>
    if toolName ∈ manifest.tools then some (index, peerId, manifest)
    else nextProvider toolName (index + 1) entries

/-- The loop over the cached manifests, from this place on. -/
def walk (toolName : JsString) (index : Nat) : LiopClient I :=
  match nextProvider toolName index (client.manifests.entries.drop index) with
  | none => client.wait i (.finding toolName)
  | some (index, peerId, manifest) =>
    match client.rpcClients peerId with
    | some rpcClient => client.use i toolName peerId rpcClient
    | none => client.wait i (.dialing toolName index peerId manifest)

def callTool (toolName : JsString) : LiopClient I :=
  match client.rpcClients staticKey with
  | some rpcClient => client.use i toolName staticKey rpcClient
  | none =>
    match client.rpcClients toolName with
    -- the branch of the static connection is taken here too
    | some rpcClient => client.use i toolName staticKey rpcClient
    | none => client.walk i toolName 0

/-- The connection for a key is created, unless it is there, and used. -/
def connectTo (toolName key address : JsString) (dialled : Dialled) : LiopClient I :=
  let (rpcClient, client) := client.getOrCreateRpcClient environment key address dialled
  client.use i toolName key rpcClient

def resume (network : Network) : LiopClient I :=
  match client.calls i with
  | .idle | .connected .. => client
  | .dialing toolName index peerId manifest =>
    match network.addresses with
    | none => client.wait i .idle
    | some addrs =>
      match usable (selectOptimalIp addrs) with
      | some ip => client.connectTo environment i toolName peerId (grpcTarget ip manifest.grpcPort)
          (.cached peerId)
      | none => client.walk i toolName (index + 1)
  | .finding toolName =>
    match network.providers with
    | none | some [] => client.wait i .idle
    | some (providerId :: _) => client.wait i (.querying toolName providerId)
  | .querying toolName providerId =>
    match network.manifest with
    | none => client.wait i .idle
    | some none => client.wait i (.resolving toolName providerId ⟨50051, 0, by decide⟩)
    | some (some manifest) =>
      { client.wait i (.resolving toolName providerId manifest.grpcPort) with
        manifests := client.manifests.set providerId manifest }
  | .resolving toolName providerId grpcPort =>
    match network.addresses with
    | none => client.wait i .idle
    | some addrs =>
      let ip := (usable (selectOptimalIp addrs)).getD (js "127.0.0.1")
      client.connectTo environment i toolName toolName (grpcTarget ip grpcPort)
        (.found providerId toolName)

/-- An error of the stream evicts the connection. -/
def close (failed : Bool) : LiopClient I :=
  match client.calls i with
  | .connected toolName targetClientKey =>
    if failed then
      { client.wait i .idle with
        rpcClients := Function.update (Function.update client.rpcClients targetClientKey none)
          toolName none }
    else client.wait i .idle
  | _ => client

def step (client : LiopClient I) : Event I → LiopClient I
  | .discover peerId manifest =>
    { client with manifests := client.manifests.set peerId manifest }
  | .callTool i toolName =>
    match client.calls i with
    | .idle => client.callTool i toolName
    | _ => client
  | .resume i network => client.resume environment i network
  | .close i failed => client.close i failed

end LiopClient

end NeuralMesh.Client
