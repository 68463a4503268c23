import NeuralMesh.Js.Object

/-! The manifest a server offers to the mesh, before it is signed. Options that
are not configured stay in the object as members with the value `undefined`. -/
namespace NeuralMesh.Server

open Js

structure Tool where
  name : JsString
  description : Option JsString
  inputSchema : Option JsObject

structure Resource where
  name : JsString
  uri : JsString
  description : Option JsString
  mimeType : Option JsString
  /-- The content, when it is a string. -/
  content : Option JsString

structure Taxonomy where
  domain : Option JsString
  clearanceTier : Option Decimal
  executionTypes : Option (List JsString)

structure ProviderConfig where
  peerId : JsString
  grpcPort : Decimal
  tools : List Tool
  resources : List Resource
  serverInfo : JsObject
  authRequired : Bool
  tokenSlug : Option JsString
  taxonomy : Option Taxonomy

def optional (value : Option JsString) : JsValue := (value.map JsValue.str).getD .undefined

def Tool.manifestEntry (t : Tool) : JsValue := .obj
  [(js "name", .str t.name), (js "description", optional t.description),
    (js "inputSchema", (t.inputSchema.map fun o => .obj o.members).getD .undefined)]

def Resource.manifestEntry (r : Resource) : JsValue := .obj
  [(js "name", .str r.name), (js "uri", .str r.uri), (js "description", optional r.description),
    (js "mimeType", optional r.mimeType), (js "text", optional (r.content <|> r.description))]

def Taxonomy.manifestEntry (t : Taxonomy) : JsValue :=
  -- an empty domain is falsy, a tier of zero is kept
  let domain := match t.domain with
    | none | some [] => js "Unknown Domain"
    | some domain => domain
  .obj [(js "domain", .str domain), (js "clearanceTier", .num (.finite (t.clearanceTier.getD 0))),
    (js "executionTypes", .arr ((t.executionTypes.getD []).map .str))]

def unsignedManifest (config : ProviderConfig) : Members :=
  [(js "peerId", .str config.peerId),
    (js "grpcPort", .num (.finite config.grpcPort)),
    (js "tools", .arr (config.tools.map Tool.manifestEntry)),
    (js "resources", .arr (config.resources.map Resource.manifestEntry)),
    (js "serverInfo", .obj config.serverInfo.members),
    (js "authRequired", .bool config.authRequired),
    (js "tokenSlug", optional config.tokenSlug),
    (js "taxonomy", (config.taxonomy.map Taxonomy.manifestEntry).getD .undefined)]

/-! ### Well-formedness -/

theorem optional_ordered (value : Option JsString) : isOrdered (optional value) = true := by
  cases value <;> rfl

theorem fixedKeys_ordered (keys : List JsString) {ms : Members}
    (sorted : keys.Pairwise fun a b => precedes a b = true) (same : ms.map Prod.fst = keys)
    (each : ∀ m ∈ ms, isOrdered m.2 = true) : isOrdered (.obj ms) = true := by
  subst same
  exact (isOrdered_obj ms).mpr ⟨List.pairwise_map.mp sorted, each⟩

theorem isOrdered_map {entries : List α} {f : α → JsValue}
    (each : ∀ e ∈ entries, isOrdered (f e) = true) : isOrdered (.arr (entries.map f)) = true := by
  simp only [isOrdered, allOrdered_iff, List.mem_map]
  rintro _ ⟨e, member, rfl⟩
  exact each e member

theorem Tool.manifestEntry_ordered (t : Tool) : isOrdered t.manifestEntry = true := by
  have schema : isOrdered ((t.inputSchema.map fun o => JsValue.obj o.members).getD .undefined) =
      true := by
    cases t.inputSchema with
    | none => rfl
    | some o => exact o.ordered
  refine fixedKeys_ordered [js "name", js "description", js "inputSchema"] (by decide) rfl ?_
  simp [optional_ordered, schema, isOrdered]

theorem Resource.manifestEntry_ordered (r : Resource) : isOrdered r.manifestEntry = true := by
  refine fixedKeys_ordered [js "name", js "uri", js "description", js "mimeType", js "text"]
    (by decide) rfl ?_
  simp [optional_ordered, isOrdered]

theorem Taxonomy.manifestEntry_ordered (t : Taxonomy) : isOrdered t.manifestEntry = true := by
  refine fixedKeys_ordered [js "domain", js "clearanceTier", js "executionTypes"]
    (by decide) rfl ?_
  simp [isOrdered]

theorem unsignedManifest_ordered (config : ProviderConfig) :
    isOrdered (.obj (unsignedManifest config)) = true := by
  have tools := isOrdered_map fun t (_ : t ∈ config.tools) => t.manifestEntry_ordered
  have resources := isOrdered_map fun r (_ : r ∈ config.resources) => r.manifestEntry_ordered
  have taxonomy : isOrdered ((config.taxonomy.map Taxonomy.manifestEntry).getD .undefined) =
      true := by
    cases config.taxonomy with
    | none => rfl
    | some t => exact t.manifestEntry_ordered
  refine fixedKeys_ordered [js "peerId", js "grpcPort", js "tools", js "resources",
    js "serverInfo", js "authRequired", js "tokenSlug", js "taxonomy"] (by decide) rfl ?_
  simp only [unsignedManifest, List.forall_mem_cons, List.not_mem_nil, false_implies,
    implies_true, and_true]
  exact ⟨rfl, rfl, tools, resources, config.serverInfo.ordered, rfl, optional_ordered _, taxonomy⟩

/-- The manifest object of a server. -/
def providerManifest (config : ProviderConfig) : JsObject :=
  ⟨unsignedManifest config, unsignedManifest_ordered config⟩

end NeuralMesh.Server
