import NeuralMesh.FirstOffer
import NeuralMesh.Gateway.ManifestCache
import NeuralMesh.Observability.Metrics
import NeuralMesh.Server.ResourceRegistry
import NeuralMesh.Server.Revocation
import Mathlib.Data.List.Sort

/-! The resources that the gateway lists for its own server and for the peers in its manifest cache,
and what it answers when one of them is read. A URI is listed once, for the server itself or for the
first peer that offers it. -/
namespace NeuralMesh.Gateway

open Js Server

/-- `taxonomy` of a manifest. -/
structure ManifestTaxonomy where
  domain : JsString
  clearanceTier : Decimal
  executionTypes : Option (List JsString)

/-- What listing and reading take from a cached manifest. -/
structure ResourceManifest where
  resources : List ManifestResource
  serverName : Option JsString
  taxonomy : Option ManifestTaxonomy

/-- The registered resources and the cached manifests, each kept in a `Map`. -/
structure ResourceCatalog where
  registry : ResourceRegistry
  manifestCache : List (PeerId × ResourceManifest)
  peers_distinct : (manifestCache.map Prod.fst).Nodup

/-- A resource in the manifest of a peer. -/
structure Offer where
  peerId : PeerId
  manifest : ResourceManifest
  resource : ManifestResource

inductive ListedResource where
  | registered (resource : RegisteredResource)
  | remote (offer : Offer)

inductive ReadResponse where
  | result (contents : ResourceContents)
  | error (code : Int) (message : JsString)
  deriving DecidableEq

/-! ### Descriptions -/

/-- `executionTypes.join(", ")` -/
def joinTypes (executionTypes : List JsString) : JsString :=
  (js ", ").intercalate executionTypes

def ManifestTaxonomy.blueprint (taxonomy : ManifestTaxonomy) : JsString :=
  js "\n\n[LIOP Zero-Trust Blueprint]\nDomain: " ++ taxonomy.domain ++ js "\nClearance Tier: " ++
    ofText (numberText taxonomy.clearanceTier) ++
    match taxonomy.executionTypes with
    | none | some [] => []
    | some executionTypes => js "\nExecution Types: " ++ joinTypes executionTypes

/-- `string.trim()` -/
def trimUnits (text : JsString) : JsString := (text.dropWhile isSpaceUnit).rdropWhile isSpaceUnit

namespace Offer

def originStamp (offer : Offer) : JsString :=
  js "\n\n[LIOP Zero-Trust Origin]\nProvider: " ++
    orElse offer.manifest.serverName (js "Unknown Provider") ++ js "\nNetwork ID: " ++
    offer.peerId ++ ((offer.manifest.taxonomy.map ManifestTaxonomy.blueprint).getD [])

/-- The object in the listing. -/
def augmented (offer : Offer) : ManifestResource :=
  if js "liop://schema/" <+: offer.resource.uri then
    { offer.resource with
      name := js "[SCHEMA] " ++ offer.resource.name
      description := some (js "[CRITICAL SCHEMA] " ++
        orElse offer.resource.description (js "Data Dictionary for Zero-Shot Autonomy") ++
        offer.originStamp) }
  else
    { offer.resource with
      description := match offer.resource.description with
        | none | some [] => some (trimUnits offer.originStamp)
        | some description => some (description ++ offer.originStamp) }

/-- The entry of `contents` when it is read from the cache. -/
def contents (offer : Offer) : ResourceContents where
  uri := offer.resource.uri
  mimeType := orElse offer.resource.mimeType plainText
  text := orElse offer.resource.text
    (orElse offer.resource.description (js "No content provided"))

end Offer

/-! ### Listing and reading -/

def ListedResource.uri : ListedResource → JsString
  | registered resource => resource.uri
  | remote offer => offer.augmented.uri

/-- What the resource itself has to be read. -/
def ListedResource.contents : ListedResource → Except JsString ResourceContents
  | registered resource => resource.contents
  | remote offer => .ok offer.contents

namespace ResourceCatalog

def offers (catalog : ResourceCatalog) : List Offer :=
  catalog.manifestCache.flatMap fun (peerId, manifest) =>
    manifest.resources.map (⟨peerId, manifest, ·⟩)

/-- The two loops of `getRemoteResources`, with the URIs seen. -/
def getRemoteResources (catalog : ResourceCatalog) : List Offer :=
  firstOffers (·.resource.uri) (catalog.registry.resources.map (·.uri)) catalog.offers

def allResources (catalog : ResourceCatalog) : List ListedResource :=
  catalog.registry.resources.map ListedResource.registered ++
    catalog.getRemoteResources.map ListedResource.remote

/-- `resources/list` -/
def listing (localeCompare : JsString → JsString → Int) (catalog : ResourceCatalog) :
    List ListedResource :=
  catalog.allResources.mergeSort fun a b => localeCompare a.uri b.uri ≤ 0

/-- The loop of the fallback: the first manifest with such a resource, and its first one. -/
def resolveOffer (catalog : ResourceCatalog) (targetUri : JsString) : Option Offer :=
  catalog.manifestCache.findSome? fun (peerId, manifest) =>
    (manifest.resources.find? (·.uri = targetUri)).map (⟨peerId, manifest, ·⟩)

/-- `resources/read`; whatever is thrown for a registered resource leads to the cache. -/
def readResource (catalog : ResourceCatalog) : Option JsString → ReadResponse
  | none | some [] => .error (-32602) (js "Missing resource uri")
  | some uri =>
    match catalog.registry.readResource uri with
    | .ok contents => .result contents
    | .error message =>
      match catalog.resolveOffer uri with
      | some offer => .result offer.contents
      | none => .error (-32000) message

/-! ### The listing -/

variable {catalog : ResourceCatalog} {localeCompare : JsString → JsString → Int}

theorem augmented_uri (offer : Offer) : offer.augmented.uri = offer.resource.uri := by
  rw [Offer.augmented]
  split_ifs <;> rfl

theorem mem_offers {offer : Offer} :
    offer ∈ catalog.offers ↔
      (offer.peerId, offer.manifest) ∈ catalog.manifestCache ∧
        offer.resource ∈ offer.manifest.resources := by
  simp only [offers, List.mem_flatMap, List.mem_map, Prod.exists]
  constructor
  · rintro ⟨peerId, manifest, cached, resource, offered, rfl⟩
    exact ⟨cached, offered⟩
  · rintro ⟨cached, offered⟩
    exact ⟨offer.peerId, offer.manifest, cached, offer.resource, offered, rfl⟩

theorem resolveOffer_eq (uri : JsString) :
    catalog.resolveOffer uri = catalog.offers.find? (·.resource.uri = uri) := by
  rw [resolveOffer, offers]
  induction catalog.manifestCache with
  | nil => rfl
  | cons entry cache ih =>
    rw [List.flatMap_cons, List.find?_append, ← ih, List.findSome?_cons, List.find?_map]
    simp only [Function.comp_def]
    cases entry.2.resources.find? (·.uri = uri) <;> rfl

theorem uris_perm :
    ((catalog.listing localeCompare).map ListedResource.uri).Perm
      (catalog.registry.resources.map (·.uri) ++
        catalog.getRemoteResources.map (·.resource.uri)) := by
  have uris : catalog.allResources.map ListedResource.uri =
      catalog.registry.resources.map (·.uri) ++
        catalog.getRemoteResources.map (·.resource.uri) := by
    simp only [allResources, List.map_append, List.map_map, Function.comp_def,
      ListedResource.uri, augmented_uri]
  have sorted := (List.mergeSort_perm catalog.allResources
    fun a b => localeCompare a.uri b.uri ≤ 0).map ListedResource.uri
  rw [uris] at sorted
  exact sorted

theorem remote_distinct : (catalog.registry.resources.map (·.uri) ++
    catalog.getRemoteResources.map (·.resource.uri)).Nodup := by
  refine List.nodup_append.mpr ⟨catalog.registry.distinct, FirstOffers.nodup, ?_⟩
  rintro uri own other remote rfl
  exact (FirstOffers.mem_keys.mp remote).1 own

theorem uris_nodup : ((catalog.listing localeCompare).map ListedResource.uri).Nodup :=
  uris_perm.nodup_iff.mpr remote_distinct

theorem mem_listing_registered {resource : RegisteredResource} :
    ListedResource.registered resource ∈ catalog.listing localeCompare ↔
      resource ∈ catalog.registry.resources := by
  simp [listing, allResources, List.mem_mergeSort]

theorem mem_listing_remote {offer : Offer} :
    ListedResource.remote offer ∈ catalog.listing localeCompare ↔
      offer ∈ catalog.getRemoteResources := by
  simp [listing, allResources, List.mem_mergeSort]

theorem mem_uris {uri : JsString} :
    uri ∈ (catalog.listing localeCompare).map ListedResource.uri ↔
      uri ∈ catalog.registry.resources.map (·.uri) ∨
        ∃ entry ∈ catalog.manifestCache, uri ∈ entry.2.resources.map (·.uri) := by
  have offered : uri ∈ catalog.offers.map (·.resource.uri) ↔
      ∃ entry ∈ catalog.manifestCache, uri ∈ entry.2.resources.map (·.uri) := by
    simp only [List.mem_map, mem_offers]
    constructor
    · rintro ⟨offer, ⟨cached, offered⟩, same⟩
      exact ⟨_, cached, offer.resource, offered, same⟩
    · rintro ⟨entry, cached, resource, offered, same⟩
      exact ⟨⟨entry.1, entry.2, resource⟩, ⟨cached, offered⟩, same⟩
  rw [uris_perm.mem_iff, List.mem_append, getRemoteResources, FirstOffers.mem_keys, offered]
  by_cases own : uri ∈ catalog.registry.resources.map (·.uri) <;> simp only [own, true_or,
    not_true_eq_false, false_and, or_false, false_or, not_false_eq_true, true_and]

/-! ### Reading what is listed -/

theorem readResource_of {uri : JsString} (visible : uri ≠ []) :
    catalog.readResource (some uri) =
      match catalog.registry.readResource uri with
      | .ok contents => .result contents
      | .error message =>
        match catalog.resolveOffer uri with
        | some offer => .result offer.contents
        | none => .error (-32000) message := by
  obtain ⟨u, rest, rfl⟩ := List.exists_cons_of_ne_nil visible
  rfl

theorem read_registered {resource : RegisteredResource}
    (registered : resource ∈ catalog.registry.resources) :
    catalog.registry.readResource resource.uri = resource.contents := by
  rw [ResourceRegistry.readResource, ResourceRegistry.find?_eq_some registered]

/-- The offer that is listed is the one that is read. -/
theorem read_remote {offer : Offer} (listed : offer ∈ catalog.getRemoteResources)
    (visible : offer.resource.uri ≠ []) :
    catalog.readResource (some offer.resource.uri) = .result offer.contents := by
  obtain ⟨foreign, found⟩ := FirstOffers.mem_iff.mp listed
  have unknown : catalog.registry.readResource offer.resource.uri =
      .error (js "Resource not found: " ++ offer.resource.uri) := by
    rw [ResourceRegistry.readResource, ResourceRegistry.find?_eq_none.mpr foreign]
  rw [readResource_of visible, unknown]
  dsimp only
  rw [resolveOffer_eq, found]

/-- What `resources/list` promises to `resources/read`. -/
structure Agrees (catalog : ResourceCatalog) (listed : List ListedResource) : Prop where
  distinct : (listed.map ListedResource.uri).Nodup
  complete : ∀ uri, uri ∈ listed.map ListedResource.uri ↔
    uri ∈ catalog.registry.resources.map (·.uri) ∨
      ∃ entry ∈ catalog.manifestCache, uri ∈ entry.2.resources.map (·.uri)
  readable : ∀ resource ∈ listed, resource.uri ≠ [] → ∀ contents, resource.contents = .ok contents →
    catalog.readResource (some resource.uri) = .result contents
  /-- A registered resource whose function throws is taken from a peer, where one offers its URI. -/
  failing : ∀ resource ∈ listed, resource.uri ≠ [] → ∀ message, resource.contents = .error message →
    catalog.readResource (some resource.uri) =
      match catalog.offers.find? (·.resource.uri = resource.uri) with
      | some offer => .result offer.contents
      | none => .error (-32000) message

theorem listing_agrees (localeCompare : JsString → JsString → Int) (catalog : ResourceCatalog) :
    catalog.Agrees (catalog.listing localeCompare) where
  distinct := uris_nodup
  complete uri := mem_uris
  readable := by
    rintro (resource | offer) listed visible contents read
    · rw [ListedResource.uri] at visible ⊢
      rw [readResource_of visible, read_registered (mem_listing_registered.mp listed)]
      rw [ListedResource.contents] at read
      rw [read]
    · rw [ListedResource.uri, augmented_uri] at visible ⊢
      rw [read_remote (mem_listing_remote.mp listed) visible]
      exact congrArg ReadResponse.result (Except.ok.inj read)
  failing := by
    rintro (resource | offer) listed visible message thrown
    · rw [ListedResource.uri] at visible ⊢
      rw [readResource_of visible, read_registered (mem_listing_registered.mp listed)]
      rw [ListedResource.contents] at thrown
      rw [thrown]
      dsimp only
      rw [resolveOffer_eq]
    · exact absurd thrown (by simp [ListedResource.contents])

/-! ### The provider of a listed resource -/

/-- A reader of the manifest and the provider show the same. -/
theorem contents_told {offer : Offer} {resource : RegisteredResource}
    (own : offer.resource = resource.manifestResource) :
    resource.contents = .ok offer.contents ↔ resource.Told := by
  have unlike : ∀ description : Option JsString,
      orElse description (js "No description provided") =
        orElse description (js "No content provided") ↔
          description ≠ none ∧ description ≠ some [] := by
    rintro (- | - | ⟨u, rest⟩)
    · exact ⟨fun same => absurd same (by decide), fun told => absurd rfl told.1⟩
    · exact ⟨fun same => absurd same (by decide), fun told => absurd rfl told.2⟩
    · exact ⟨fun _ => ⟨Option.some_ne_none _, by simp⟩, fun _ => rfl⟩
  have twice : ∀ description : Option JsString,
      orElse description (orElse description (js "No content provided")) =
        orElse description (js "No content provided") := by
    rintro (- | - | ⟨u, rest⟩) <;> rfl
  obtain ⟨name, uri, description, mimeType, content⟩ := resource
  rw [Offer.contents, own]
  rcases content with - | (content | outcome)
  · simp only [RegisteredResource.contents, RegisteredResource.manifestResource,
      RegisteredResource.Told, Except.map, Except.ok.injEq, ResourceContents.mk.injEq, true_and,
      twice]
    exact unlike description
  · simp only [RegisteredResource.contents, RegisteredResource.manifestResource,
      RegisteredResource.Told, Except.map, Except.ok.injEq, ResourceContents.mk.injEq, true_and]
    cases content with
    | nil =>
      refine ⟨fun same => ?_, fun visible => absurd rfl visible⟩
      have shown : orElse description (js "No content provided") ≠ [] :=
        orElse_ne_nil (by decide)
      exact absurd same.symm shown
    | cons u rest => exact ⟨fun _ => List.cons_ne_nil u rest, fun _ => rfl⟩
  · cases outcome <;> simp [RegisteredResource.contents, RegisteredResource.manifestResource,
      RegisteredResource.Told, Except.map, twice]

/-- The gateway's answer for a listed resource of a peer is the one that the peer itself gives. -/
theorem read_provider_iff {offer : Offer} {provider : ResourceRegistry}
    {resource : RegisteredResource}
    (listed : ListedResource.remote offer ∈ catalog.listing localeCompare)
    (own : offer.manifest.resources = provider.manifestResources)
    (registered : resource ∈ provider.resources) (same : resource.uri = offer.resource.uri)
    (visible : resource.uri ≠ []) :
    (∃ contents, provider.readResource resource.uri = .ok contents ∧
      catalog.readResource (some resource.uri) = .result contents) ↔ resource.Told := by
  have offered : offer ∈ catalog.getRemoteResources := mem_listing_remote.mp listed
  have inside : offer.resource ∈ offer.manifest.resources :=
    (mem_offers.mp (List.mem_of_find?_eq_some (FirstOffers.mem_iff.mp offered).2)).2
  -- a provider has one resource under the URI
  have origin : offer.resource = resource.manifestResource := by
    rw [own] at inside
    obtain ⟨found, member, told⟩ := List.mem_map.mp inside
    have again : found.uri = resource.uri := by
      rw [same, ← told]
      rfl
    have first := ResourceRegistry.find?_eq_some member
    rw [again, ResourceRegistry.find?_eq_some registered] at first
    rw [← told, Option.some.inj first]
  have answer : catalog.readResource (some resource.uri) = .result offer.contents := by
    rw [same]
    exact read_remote offered (same ▸ visible)
  have direct : provider.readResource resource.uri = resource.contents := by
    rw [ResourceRegistry.readResource, ResourceRegistry.find?_eq_some registered]
  rw [← contents_told origin, answer, direct]
  constructor
  · rintro ⟨contents, read, through⟩
    rw [read, ReadResponse.result.inj through]
  · intro read
    exact ⟨offer.contents, read, rfl⟩

def listedContent : RegisteredResource where
  name := js "Schema"
  uri := js "liop://schema/global"
  description := none
  mimeType := none
  content := some (.text (js "fields"))

def contentProvider : ResourceRegistry := ⟨[listedContent], List.nodup_singleton _⟩

def contentOffer : Offer where
  peerId := js "12D3KooWBank"
  manifest := ⟨contentProvider.manifestResources, some (js "Bank"), none⟩
  resource := listedContent.manifestResource

/-- A gateway without resources of its own, which knows one peer. -/
def contentCatalog : ResourceCatalog :=
  ⟨∅, [(contentOffer.peerId, contentOffer.manifest)], List.nodup_singleton _⟩

theorem content_listed :
    ListedResource.remote contentOffer ∈ contentCatalog.listing Observability.compareUnits :=
  mem_listing_remote.mpr (List.mem_singleton.mpr rfl)

theorem content_read :
    ListedResource.remote contentOffer ∈ contentCatalog.listing Observability.compareUnits ∧
      ((∃ contents, contentProvider.readResource listedContent.uri = .ok contents ∧
        contentCatalog.readResource (some listedContent.uri) = .result contents) ↔
          listedContent.Told) :=
  ⟨content_listed, read_provider_iff content_listed rfl (List.mem_singleton.mpr rfl) rfl
    (by decide)⟩

/-! ### The order of the listing -/

/-- A consistent comparator. -/
structure Collates (localeCompare : JsString → JsString → Int) : Prop where
  total : ∀ a b, localeCompare a b ≤ 0 ∨ localeCompare b a ≤ 0
  trans : ∀ a b c, localeCompare a b ≤ 0 → localeCompare b c ≤ 0 → localeCompare a c ≤ 0

theorem uris_sorted (collates : Collates localeCompare) :
    ((catalog.listing localeCompare).map ListedResource.uri).Pairwise
      fun a b => localeCompare a b ≤ 0 := by
  rw [List.pairwise_map]
  have sorted := @List.pairwise_mergeSort ListedResource
    (fun a b => localeCompare a.uri b.uri ≤ 0)
    (fun a b c first second => decide_eq_true
      (collates.trans _ _ _ (of_decide_eq_true first) (of_decide_eq_true second)))
    (fun a b => by simpa using collates.total a.uri b.uri) catalog.allResources
  exact sorted.imp fun ordered => of_decide_eq_true ordered

/-- Gateways that know the same resources list the same URIs, whatever they discovered first. -/
theorem listing_order {other : ResourceCatalog} (collates : Collates localeCompare)
    (registered : other.registry.resources.Perm catalog.registry.resources)
    (cached : other.manifestCache.Perm catalog.manifestCache)
    (separate : ∀ a ∈ (catalog.listing localeCompare).map ListedResource.uri,
      ∀ b ∈ (catalog.listing localeCompare).map ListedResource.uri,
        localeCompare a b ≤ 0 → localeCompare b a ≤ 0 → a = b) :
    (other.listing localeCompare).map ListedResource.uri =
      (catalog.listing localeCompare).map ListedResource.uri := by
  have same : ∀ uri, uri ∈ (other.listing localeCompare).map ListedResource.uri ↔
      uri ∈ (catalog.listing localeCompare).map ListedResource.uri := by
    intro uri
    have offered : (∃ entry ∈ other.manifestCache, uri ∈ entry.2.resources.map (·.uri)) ↔
        ∃ entry ∈ catalog.manifestCache, uri ∈ entry.2.resources.map (·.uri) := by
      simp only [cached.mem_iff]
    rw [mem_uris, mem_uris, offered, (registered.map (·.uri)).mem_iff]
  have perm : ((other.listing localeCompare).map ListedResource.uri).Perm
      ((catalog.listing localeCompare).map ListedResource.uri) :=
    (List.perm_ext_iff_of_nodup uris_nodup uris_nodup).mpr same
  refine List.Perm.eq_of_pairwise ?_ (uris_sorted collates) (uris_sorted collates) perm
  intro a b member other forth back
  exact separate a ((same a).mp member) b other forth back

theorem compareUnits_collates : Collates Observability.compareUnits where
  total a b := by
    induction a generalizing b with
    | nil => cases b <;> simp [Observability.compareUnits]
    | cons u a ih =>
      cases b with
      | nil => simp [Observability.compareUnits]
      | cons v b =>
        simp only [Observability.compareUnits, UInt16.lt_iff_toNat_lt]
        specialize ih b
        split_ifs <;> omega
  trans a b c := by
    induction a generalizing b c with
    | nil => cases b <;> cases c <;> simp [Observability.compareUnits]
    | cons u a ih =>
      cases b with
      | nil => simp [Observability.compareUnits]
      | cons v b =>
        cases c with
        | nil => simp [Observability.compareUnits]
        | cons w c =>
          simp only [Observability.compareUnits, UInt16.lt_iff_toNat_lt]
          specialize ih b c
          split_ifs <;> omega

theorem compareUnits_antisymm {a b : JsString} (forth : Observability.compareUnits a b ≤ 0)
    (back : Observability.compareUnits b a ≤ 0) : a = b := by
  induction a generalizing b with
  | nil =>
    cases b with
    | nil => rfl
    | cons v b => exact absurd back (by simp [Observability.compareUnits])
  | cons u a ih =>
    cases b with
    | nil => exact absurd forth (by simp [Observability.compareUnits])
    | cons v b =>
      simp only [Observability.compareUnits, UInt16.lt_iff_toNat_lt] at forth back
      have same : u = v := UInt16.toNat_inj.mp (by split_ifs at forth back <;> omega)
      subst same
      simp only [lt_irrefl, if_false] at forth back
      rw [ih forth back]

def secondOffer : PeerId × ResourceManifest :=
  (js "12D3KooWClinic", ⟨[⟨js "Rows", js "liop://rows", none, none, none⟩], none, none⟩)

def bothPeers : ResourceCatalog :=
  ⟨∅, [(contentOffer.peerId, contentOffer.manifest), secondOffer],
    List.nodup_cons.mpr ⟨by decide, List.nodup_singleton _⟩⟩

/-- The same peers, found the other way round. -/
def otherWayRound : ResourceCatalog :=
  ⟨∅, [secondOffer, (contentOffer.peerId, contentOffer.manifest)],
    List.nodup_cons.mpr ⟨by decide, List.nodup_singleton _⟩⟩

theorem bothPeers_order :
    (otherWayRound.listing Observability.compareUnits).map ListedResource.uri =
      (bothPeers.listing Observability.compareUnits).map ListedResource.uri :=
  listing_order compareUnits_collates (.refl _) (.swap _ _ _)
    fun _ _ _ _ forth back => compareUnits_antisymm forth back

end ResourceCatalog

end NeuralMesh.Gateway
