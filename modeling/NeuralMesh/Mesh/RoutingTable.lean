import NeuralMesh.Codec.TornText
import NeuralMesh.InsertionMap
import NeuralMesh.Server.ManifestProvider
import NeuralMesh.Transition

/-! The peers that a mesh node keeps from one start to the next. They are written to a file when it
stops and read when it starts; the writing may be cut short, and the node may end without stopping. -/
namespace NeuralMesh.Mesh.RoutingTable

open Js Codec Transition

/-- Peer ids and addresses of libp2p with their texts. A peer store keeps some of the addresses it is
given, and it keeps what it has kept. -/
structure Libp2p (P M : Type) where
  idText : P → JsString
  addressText : M → JsString
  /-- `none` is an exception. -/
  peerIdFromString : JsString → Option P
  multiaddr : JsString → Option M
  kept : List M → List M
  id_visible : ∀ peerId, idText peerId ≠ []
  id_read : ∀ peerId, peerIdFromString (idText peerId) = some peerId
  address_read : ∀ address, multiaddr (addressText address) = some address
  kept_kept : ∀ addresses, kept (kept addresses) = kept addresses

/-- The store of a running node: each peer with addresses that the store has kept. -/
structure PeerStore {P M : Type} (lib : Libp2p P M) where
  peers : InsertionMap P (List M)
  settled : ∀ peer ∈ peers.entries, lib.kept peer.2 = peer.2

section Files

variable {P M : Type} [DecidableEq P] (lib : Libp2p P M)

namespace PeerStore

variable {lib}

instance : EmptyCollection (PeerStore lib) :=
  ⟨∅, fun _ member => absurd member List.not_mem_nil⟩

theorem mem_setEntry {key : P} {value : List M} {entries : List (P × List M)}
    {peer : P × List M} (member : peer ∈ InsertionMap.setEntry key value entries) :
    peer = (key, value) ∨ peer ∈ entries := by
  induction entries with
  | nil => exact .inl (List.mem_singleton.mp member)
  | cons entry entries ih =>
    rw [InsertionMap.setEntry] at member
    split_ifs at member
    · exact (List.mem_cons.mp member).imp_right (List.mem_cons_of_mem _)
    · obtain rfl | later := List.mem_cons.mp member
      · exact .inr List.mem_cons_self
      · exact (ih later).imp_right (List.mem_cons_of_mem _)

/-- `peerStore.save` -/
def save (store : PeerStore lib) (peerId : P) (addresses : List M) : PeerStore lib where
  peers := store.peers.set peerId (lib.kept addresses)
  settled peer member := by
    obtain rfl | earlier := mem_setEntry member
    · exact lib.kept_kept addresses
    · exact store.settled peer earlier

/-- The peers that have an address. -/
def reachable (store : PeerStore lib) : List (P × List M) :=
  store.peers.entries.filter fun peer => peer.2 ≠ []

end PeerStore

/-! ### The file -/

def savedPeer (peer : P × List M) : JsValue :=
  .obj [(js "id", .str (lib.idText peer.1)),
    (js "addresses", .arr (peer.2.map fun address => .str (lib.addressText address)))]

def peersToSave (store : PeerStore lib) : JsValue :=
  .arr (store.reachable.map (savedPeer lib))

/-- The bytes that `saveRoutingTable` writes. -/
def routingTable (store : PeerStore lib) : Bytes := utf8 (indentedText [] (peersToSave lib store))

/-- `peer.addresses.map((a) => multiaddr(a))` -/
def readAddresses : List JsValue → Option (List M)
  | [] => some []
  | .str text :: values =>
    (lib.multiaddr text).bind fun address => (readAddresses values).map (address :: ·)
  | _ :: _ => none

/-- The body of the loop of `loadRoutingTable`; an entry that cannot be used is skipped. -/
def loadPeer (peer : JsValue) (store : PeerStore lib) : PeerStore lib :=
  match member (js "id") peer, member (js "addresses") peer with
  | .str id, .arr addresses =>
    if id = [] then store
    else
      match lib.peerIdFromString id, readAddresses lib addresses with
      | some peerId, some addrs => store.save peerId addrs
      | _, _ => store
  | _, _ => store

/-- The loop. Reading a property of `null` or `undefined` ends it. -/
def loadPeers : List JsValue → PeerStore lib → PeerStore lib
  | [], store => store
  | .null :: _, store | .undefined :: _, store => store
  | peer :: peers, store => loadPeers peers (loadPeer lib peer store)

/-- What is read at a start; a file that is missing or that is no array adds nothing. -/
def loadRoutingTable (file : Option Bytes) (store : PeerStore lib) : PeerStore lib :=
  match file.bind fun bytes => parse (decodeUtf8 bytes) with
  | some (.arr peers) => loadPeers lib peers store
  | _ => store

/-! ### Reading what was written -/

omit [DecidableEq P] in
theorem isPlain_savedPeer (peer : P × List M) : isPlain (savedPeer lib peer) = true := by
  simp [savedPeer, isPlain, allMembersPlain_iff, allPlain_iff]

omit [DecidableEq P] in
theorem isOrdered_savedPeer (peer : P × List M) : isOrdered (savedPeer lib peer) = true := by
  refine Server.fixedKeys_ordered [js "id", js "addresses"] (by decide) rfl ?_
  simp [isOrdered]

omit [DecidableEq P] in
theorem parse_routingTable (store : PeerStore lib) :
    parse (decodeUtf8 (routingTable lib store)) = some (peersToSave lib store) := by
  rw [routingTable, decodeUtf8_utf8]
  refine parse_indentedText ?_ ?_
  · simp only [peersToSave, isPlain, allPlain_iff, List.mem_map]
    rintro _ ⟨peer, -, rfl⟩
    exact isPlain_savedPeer lib peer
  · exact Server.isOrdered_map fun peer _ => isOrdered_savedPeer lib peer

omit [DecidableEq P] in
theorem readAddresses_texts (addresses : List M) :
    readAddresses lib (addresses.map fun address => .str (lib.addressText address)) =
      some addresses := by
  induction addresses with
  | nil => rfl
  | cons address addresses ih =>
    rw [List.map_cons, readAddresses, lib.address_read, ih]
    rfl

theorem loadPeer_saved (peer : P × List M) (store : PeerStore lib) :
    loadPeer lib (savedPeer lib peer) store = store.save peer.1 peer.2 := by
  have id : member (js "id") (savedPeer lib peer) = .str (lib.idText peer.1) := by
    simp only [savedPeer, member, property, if_true]
  have addresses : member (js "addresses") (savedPeer lib peer) =
      .arr (peer.2.map fun address => .str (lib.addressText address)) := by
    simp [savedPeer, member, property, show js "id" ≠ js "addresses" by decide]
  rw [loadPeer, id, addresses]
  simp only [if_neg (lib.id_visible peer.1), lib.id_read, readAddresses_texts]

theorem setEntry_new {key : P} {value : List M} {entries : List (P × List M)}
    (fresh : key ∉ entries.map Prod.fst) :
    InsertionMap.setEntry key value entries = entries ++ [(key, value)] := by
  induction entries with
  | nil => rfl
  | cons entry entries ih =>
    obtain ⟨differ, others⟩ := not_or.mp (mt List.mem_cons.mpr fresh)
    rw [InsertionMap.setEntry, if_neg (Ne.symm differ), ih others]
    rfl

/-- New peers come behind those that are there. -/
theorem loadPeers_saved {peers : List (P × List M)} {store : PeerStore lib}
    (settled : ∀ peer ∈ peers, lib.kept peer.2 = peer.2)
    (distinct : ((store.peers.entries ++ peers).map Prod.fst).Nodup) :
    (loadPeers lib (peers.map (savedPeer lib)) store).peers.entries =
      store.peers.entries ++ peers := by
  induction peers generalizing store with
  | nil => exact (List.append_nil _).symm
  | cons peer peers ih =>
    obtain ⟨first, others⟩ := List.forall_mem_cons.mp settled
    rw [List.map_append, List.map_cons] at distinct
    have fresh : peer.1 ∉ store.peers.entries.map Prod.fst := fun inside =>
      (List.nodup_append.mp distinct).2.2 _ inside _ List.mem_cons_self rfl
    have saved : (store.save peer.1 peer.2).peers.entries = store.peers.entries ++ [peer] := by
      have kept : (store.save peer.1 peer.2).peers.entries =
          InsertionMap.setEntry peer.1 (lib.kept peer.2) store.peers.entries := rfl
      rw [kept, first]
      exact setEntry_new fresh
    have one : loadPeers lib (savedPeer lib peer :: peers.map (savedPeer lib)) store =
        loadPeers lib (peers.map (savedPeer lib)) (store.save peer.1 peer.2) := by
      rw [← loadPeer_saved lib peer store]
      rfl
    rw [List.map_cons, one, ih others, saved, List.append_assoc, List.singleton_append]
    rw [saved, List.append_assoc, List.singleton_append, List.map_append, List.map_cons]
    exact distinct

theorem load_routingTable (store : PeerStore lib) :
    (loadRoutingTable lib (some (routingTable lib store)) ∅).peers.entries = store.reachable := by
  have read : (some (routingTable lib store)).bind (fun bytes => parse (decodeUtf8 bytes)) =
      some (peersToSave lib store) := parse_routingTable lib store
  rw [loadRoutingTable, read]
  refine loadPeers_saved lib (fun peer member => ?_) ?_
  · exact store.settled peer (List.mem_filter.mp member).1
  · exact store.peers.distinct.sublist (List.filter_sublist.map Prod.fst)

theorem load_torn (store : PeerStore lib) {n : Nat} (short : n < (routingTable lib store).length) :
    loadRoutingTable lib (some ((routingTable lib store).take n)) ∅ = ∅ := by
  have plain : isPlain (peersToSave lib store) = true := by
    simp only [peersToSave, isPlain, allPlain_iff, List.mem_map]
    rintro _ ⟨peer, -, rfl⟩
    exact isPlain_savedPeer lib peer
  have rest : (routingTable lib store).drop n ≠ [] := by
    intro none
    have all := List.drop_eq_nil_iff.mp none
    omega
  have unread : parse (decodeUtf8 ((routingTable lib store).take n)) = none :=
    parse_torn plain rfl (List.take_append_drop n _).symm rest
  rw [loadRoutingTable, Option.bind_some, unread]

/-! ### Starts and stops -/

/-- How the writing at a stop ends: with its first bytes in the file, or without touching it. -/
inductive WriteOutcome where
  | wrote (bytes : Nat)
  | refused

inductive NodeEvent where
  | start
  /-- The running node learns of peers and forgets them. -/
  | change (update : PeerStore lib → PeerStore lib)
  | stop (outcome : WriteOutcome)
  /-- The process ends by itself. -/
  | crash

/-- A node with its file. -/
structure MeshNode where
  peerStore : Option (PeerStore lib)
  file : Option Bytes

def MeshNode.step (node : MeshNode lib) : NodeEvent lib → MeshNode lib
  | .start => { node with peerStore := some (loadRoutingTable lib node.file ∅) }
  | .change update => { node with peerStore := node.peerStore.map update }
  | .stop outcome =>
    match node.peerStore, outcome with
    | some store, .wrote bytes => ⟨none, some ((routingTable lib store).take bytes)⟩
    | some _, .refused => { node with peerStore := none }
    | none, _ => node
  | .crash => { node with peerStore := none }

/-- What the file is for: the peers that the next start brings back. -/
structure PeerMemory where
  peerStore : Option (PeerStore lib)
  durable : PeerStore lib

def PeerStore.reachableOnly {lib : Libp2p P M} (store : PeerStore lib) : PeerStore lib where
  peers := ⟨store.reachable, store.peers.distinct.sublist (List.filter_sublist.map Prod.fst)⟩
  settled peer member := store.settled peer (List.mem_filter.mp member).1

/-- A stop keeps all peers with an address or, when its writing was cut short, none. -/
def PeerMemory.step (memory : PeerMemory lib) : NodeEvent lib → PeerMemory lib
  | .start => { memory with peerStore := some memory.durable }
  | .change update => { memory with peerStore := memory.peerStore.map update }
  | .stop outcome =>
    match memory.peerStore, outcome with
    | some store, .wrote bytes =>
      ⟨none, if (routingTable lib store).length ≤ bytes then store.reachableOnly else ∅⟩
    | some _, .refused => { memory with peerStore := none }
    | none, _ => memory
  | .crash => { memory with peerStore := none }

variable {lib}

omit [DecidableEq P] in
theorem PeerStore.ext_entries {a b : PeerStore lib} (same : a.peers.entries = b.peers.entries) :
    a = b := by
  obtain ⟨⟨entries, distinct⟩, settled⟩ := a
  obtain ⟨⟨others, _⟩, _⟩ := b
  obtain rfl : entries = others := same
  rfl

/-- The file holds what the next start brings back. -/
structure Represents (node : MeshNode lib) (memory : PeerMemory lib) : Prop where
  peerStore : node.peerStore = memory.peerStore
  durable : loadRoutingTable lib node.file ∅ = memory.durable

theorem represents_step {node : MeshNode lib} {memory : PeerMemory lib}
    (represents : Represents node memory) (event : NodeEvent lib) :
    Represents (node.step lib event) (memory.step lib event) := by
  obtain ⟨peerStore, file⟩ := node
  obtain ⟨_, durable⟩ := memory
  obtain ⟨rfl, loaded⟩ := represents
  dsimp only at loaded
  cases event with
  | start => exact ⟨congrArg some loaded, loaded⟩
  | change update => exact ⟨rfl, loaded⟩
  | crash => exact ⟨rfl, loaded⟩
  | stop outcome =>
    cases peerStore with
    | none => exact ⟨rfl, loaded⟩
    | some store =>
      cases outcome with
      | refused => exact ⟨rfl, loaded⟩
      | wrote bytes =>
        refine ⟨rfl, ?_⟩
        simp only [MeshNode.step, PeerMemory.step]
        split_ifs with complete
        · rw [List.take_of_length_le complete]
          exact PeerStore.ext_entries (load_routingTable lib store)
        · exact load_torn lib store (Nat.lt_of_not_le complete)

variable (lib) in
/-- A start brings back the peers of the last stop that wrote: all that had an address, or none. -/
theorem run_restored (events : List (NodeEvent lib)) :
    (run (MeshNode.step lib) ⟨none, none⟩ events).peerStore =
      (run (PeerMemory.step lib) ⟨none, ∅⟩ events).peerStore := by
  suffices all : ∀ (node : MeshNode lib) (memory : PeerMemory lib), Represents node memory →
      Represents (run (MeshNode.step lib) node events)
        (run (PeerMemory.step lib) memory events) from
    (all ⟨none, none⟩ ⟨none, ∅⟩ ⟨rfl, rfl⟩).peerStore
  induction events with
  | nil => exact fun node memory represents => represents
  | cons event events ih =>
    exact fun node memory represents => ih _ _ (represents_step represents event)

end Files

/-- Ids and addresses that are their own texts. -/
def textLibp2p : Libp2p { text : JsString // text ≠ [] } JsString where
  idText peerId := peerId.1
  addressText address := address
  peerIdFromString text := if visible : text ≠ [] then some ⟨text, visible⟩ else none
  multiaddr text := some text
  kept addresses := addresses
  id_visible peerId := peerId.2
  id_read peerId := dif_pos peerId.2
  address_read _ := rfl
  kept_kept _ := rfl

def bankId : { text : JsString // text ≠ [] } := ⟨js "12D3KooWBank", by decide⟩

/-- A node that learns of one peer and stops, while eight bytes are written. -/
def tornStop : List (NodeEvent textLibp2p) :=
  [.start, .change fun store => store.save bankId [js "/ip4/10.0.0.2/tcp/4001"], .stop (.wrote 8),
    .start]

theorem tornStop_restored :
    (run (MeshNode.step textLibp2p) ⟨none, none⟩ tornStop).peerStore =
      (run (PeerMemory.step textLibp2p) ⟨none, ∅⟩ tornStop).peerStore :=
  run_restored textLibp2p tornStop

end NeuralMesh.Mesh.RoutingTable
