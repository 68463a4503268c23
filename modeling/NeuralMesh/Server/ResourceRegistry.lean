import NeuralMesh.Js.StringText
import Mathlib.Data.List.Nodup

/-! The resources that a server has registered: what it answers when one of them is read, and what
its manifest says of them to the mesh. -/
namespace NeuralMesh.Server

open Js

/-- The text of a resource, or a function; `outcome` is how a call of it ends. -/
inductive ResourceContent where
  | text (content : JsString)
  | produced (outcome : Except JsString JsString)

structure RegisteredResource where
  name : JsString
  uri : JsString
  description : Option JsString
  mimeType : Option JsString
  content : Option ResourceContent

/-- One entry of `contents`. -/
structure ResourceContents where
  uri : JsString
  mimeType : JsString
  text : JsString
  deriving DecidableEq

/-- An entry of `resources` in a manifest. -/
structure ManifestResource where
  name : JsString
  uri : JsString
  description : Option JsString
  mimeType : Option JsString
  text : Option JsString
  deriving DecidableEq

/-- A `Map` from the URIs. -/
structure ResourceRegistry where
  resources : List RegisteredResource
  distinct : (resources.map (·.uri)).Nodup

/-- `value || other` -/
def orElse (value : Option JsString) (other : JsString) : JsString :=
  match value with
  | none | some [] => other
  | some text => text

def plainText : JsString := js "text/plain"

/-! ### Operations -/

namespace RegisteredResource

/-- The answer when this resource is read; an error is what its function throws. -/
def contents (resource : RegisteredResource) : Except JsString ResourceContents :=
  let text := match resource.content with
    | some (.produced outcome) => outcome
    | some (.text content) => .ok content
    | none => .ok (orElse resource.description (js "No description provided"))
  text.map fun text => ⟨resource.uri, orElse resource.mimeType plainText, text⟩

/-- `typeof r.content === "string" ? r.content : r.description` is the text. -/
def manifestResource (resource : RegisteredResource) : ManifestResource where
  name := resource.name
  uri := resource.uri
  description := resource.description
  mimeType := resource.mimeType
  text := match resource.content with
    | some (.text content) => some content
    | _ => resource.description

end RegisteredResource

namespace ResourceRegistry

instance : EmptyCollection ResourceRegistry := ⟨⟨[], List.nodup_nil⟩⟩

def find? (registry : ResourceRegistry) (uri : JsString) : Option RegisteredResource :=
  registry.resources.find? (·.uri = uri)

theorem find?_eq_some {registry : ResourceRegistry} {resource : RegisteredResource}
    (registered : resource ∈ registry.resources) : registry.find? resource.uri = some resource := by
  obtain ⟨resources, distinct⟩ := registry
  rw [find?]
  induction resources with
  | nil => exact absurd registered List.not_mem_nil
  | cons first rest ih =>
    obtain ⟨fresh, others⟩ := List.nodup_cons.mp distinct
    obtain rfl | later := List.mem_cons.mp registered
    · exact List.find?_cons_of_pos (decide_eq_true rfl)
    · have differ : first.uri ≠ resource.uri := fun same =>
        fresh (List.mem_map.mpr ⟨resource, later, same.symm⟩)
      rw [List.find?_cons_of_neg (by simpa using differ)]
      exact ih others later

theorem find?_eq_none {registry : ResourceRegistry} {uri : JsString} :
    registry.find? uri = none ↔ uri ∉ registry.resources.map (·.uri) := by
  rw [find?, List.find?_eq_none]
  constructor
  · intro absent member
    obtain ⟨resource, registered, same⟩ := List.mem_map.mp member
    exact absent resource registered (decide_eq_true same)
  · intro absent resource registered same
    exact absent (List.mem_map.mpr ⟨resource, registered, of_decide_eq_true same⟩)

/-- Registration; a URI that is taken is refused. -/
def resource (registry : ResourceRegistry) (added : RegisteredResource) :
    Except JsString ResourceRegistry :=
  if taken : added.uri ∈ registry.resources.map (·.uri) then
    .error (js "Resource URI already registered: " ++ added.uri)
  else
    .ok ⟨registry.resources ++ [added], by
      rw [List.map_append, List.map_singleton]
      exact List.nodup_append.mpr ⟨registry.distinct, List.nodup_singleton _,
        fun uri member other single same =>
          taken ((List.mem_singleton.mp single) ▸ same ▸ member)⟩⟩

def readResource (registry : ResourceRegistry) (uri : JsString) :
    Except JsString ResourceContents :=
  match registry.find? uri with
  | none => .error (js "Resource not found: " ++ uri)
  | some resource => resource.contents

def manifestResources (registry : ResourceRegistry) : List ManifestResource :=
  registry.resources.map RegisteredResource.manifestResource

end ResourceRegistry

/-! ### What the manifest tells -/

theorem orElse_ne_nil {value : Option JsString} {other : JsString} (visible : other ≠ []) :
    orElse value other ≠ [] := by
  rcases value with - | - | ⟨u, text⟩
  · exact visible
  · exact visible
  · exact List.cons_ne_nil u text

/-- The text that a reader of the manifest shows is the one that the server answers with. -/
def RegisteredResource.Told (resource : RegisteredResource) : Prop :=
  match resource.content with
  | some (.text content) => content ≠ []
  | some (.produced outcome) =>
    outcome = .ok (orElse resource.description (js "No content provided"))
  | none => resource.description ≠ none ∧ resource.description ≠ some []

end NeuralMesh.Server
