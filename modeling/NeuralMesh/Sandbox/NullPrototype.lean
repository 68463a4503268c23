import NeuralMesh.Js.Object
import Mathlib.Logic.Relation

/-! The values that the V8 fallback injects into its context, as an object graph
with prototype links. Every container is a fresh clone, so data is a tree whose
prototypes point into the host realm's graph of intrinsic objects. -/
namespace NeuralMesh.Sandbox

open Js

/-! ### Object graph -/

/-- The host-realm objects that the prototype of a clone leads to. -/
inductive Intrinsic where
  | objectPrototype
  | arrayPrototype
  | functionPrototype
  | object
  | array
  | function
  deriving DecidableEq

namespace Intrinsic

def isPrototype : Intrinsic → Bool
  | objectPrototype | arrayPrototype | functionPrototype => true
  | object | array | function => false

def prototype : Intrinsic → Option Intrinsic
  | objectPrototype => none
  | arrayPrototype | functionPrototype => some objectPrototype
  | object | array | function => some functionPrototype

/-- The `constructor` property, own or inherited. -/
def constructor : Intrinsic → Intrinsic
  | objectPrototype => object
  | arrayPrototype => array
  | functionPrototype | object | array | function => function

/-- The `prototype` property of a constructor. -/
def instances : Intrinsic → Option Intrinsic
  | object => some objectPrototype
  | array => some arrayPrototype
  | function => some functionPrototype
  | _ => none

end Intrinsic

/-- Host data: a scalar, or a container with its prototype. -/
inductive HostValue where
  | scalar (value : JsValue)
  | array (prototype : Option Intrinsic) (elements : List HostValue)
  | object (prototype : Option Intrinsic) (members : List (JsString × HostValue))

inductive Node where
  | data (value : HostValue)
  | intrinsic (name : Intrinsic)

/-- One own property or prototype link. -/
inductive Edge : Node → Node → Prop
  | element {p : Option Intrinsic} {es : List HostValue} {v : HostValue} (member : v ∈ es) :
    Edge (.data (.array p es)) (.data v)
  | property {p : Option Intrinsic} {ms : List (JsString × HostValue)} {k : JsString}
    {v : HostValue} (member : (k, v) ∈ ms) : Edge (.data (.object p ms)) (.data v)
  | arrayPrototype (i : Intrinsic) (es : List HostValue) :
    Edge (.data (.array (some i) es)) (.intrinsic i)
  | objectPrototype (i : Intrinsic) (ms : List (JsString × HostValue)) :
    Edge (.data (.object (some i) ms)) (.intrinsic i)
  | intrinsicPrototype {i j : Intrinsic} (link : i.prototype = some j) :
    Edge (.intrinsic i) (.intrinsic j)
  | intrinsicConstructor (i : Intrinsic) : Edge (.intrinsic i) (.intrinsic i.constructor)
  | intrinsicInstances {i j : Intrinsic} (link : i.instances = some j) :
    Edge (.intrinsic i) (.intrinsic j)

abbrev Reachable := Relation.ReflTransGen Edge

def Node.IsHostPrototype : Node → Prop
  | .intrinsic i => i.isPrototype = true
  | .data _ => False

/-- `node.constructor`: an own property first, then along the prototypes. -/
def Node.constructor : Node → Option Node
  | .intrinsic i => some (.intrinsic i.constructor)
  | .data (.scalar _) => none
  | .data (.array p _) => p.map fun i => .intrinsic i.constructor
  | .data (.object p ms) =>
    match ms.lookup (js "constructor") with
    | some v => some (.data v)
    | none => p.map fun i => .intrinsic i.constructor

def Node.HasHostConstructor (n : Node) : Prop := ∃ i, n.constructor = some (.intrinsic i)

/-! ### Building the context -/

mutual

/-- The objects that `JSON.parse` of the host creates for a value. -/
def hostValue : JsValue → HostValue
  | .arr elements => .array (some .arrayPrototype) (hostElements elements)
  | .obj members => .object (some .objectPrototype) (hostMembers members)
  | v => .scalar v

def hostElements : List JsValue → List HostValue
  | [] => []
  | v :: vs => hostValue v :: hostElements vs

def hostMembers : Members → List (JsString × HostValue)
  | [] => []
  | (k, v) :: ms => (k, hostValue v) :: hostMembers ms

end

mutual

def toNullPrototype : HostValue → HostValue
  | .scalar v => .scalar v
  -- `map` creates its result with the array prototype of the host
  | .array _ elements => .array (some .arrayPrototype) (nullElements elements)
  | .object _ members => .object none (nullMembers members)

def nullElements : List HostValue → List HostValue
  | [] => []
  | v :: vs => toNullPrototype v :: nullElements vs

def nullMembers : List (JsString × HostValue) → List (JsString × HostValue)
  | [] => []
  | (k, v) :: ms => (k, toNullPrototype v) :: nullMembers ms

end

/-- `toNullPrototype(JSON.parse(JSON.stringify(v)))`; `none` is an exception. -/
def inject (v : JsValue) : Option HostValue :=
  ((stringify v).bind parse).map fun copy => toNullPrototype (hostValue copy)

/-- The globals that are set to `undefined`. -/
def poisoned : List JsString :=
  ["require", "process", "global", "globalThis", "Buffer", "setTimeout", "setInterval",
    "setImmediate", "queueMicrotask", "eval", "Function", "SharedArrayBuffer", "Date",
    "ArrayBuffer", "Uint8Array", "Int8Array", "Uint16Array", "Int16Array", "Uint32Array",
    "Int32Array", "Float32Array", "Float64Array", "BigInt64Array", "BigUint64Array",
    "DataView"].map js

/-- `{ records, ...inputs }` -/
def envObject (records : List JsValue) (inputs : Members) : Members :=
  assign inputs [(js "records", .arr records)]

def injectInputs : Members → Option (List (JsString × HostValue))
  | [] => some []
  | (k, v) :: ms => do
    let value ← inject v
    let rest ← injectInputs ms
    return (k, value) :: rest

/-- The own properties of `sandboxEnv` when the context is created. -/
def sandboxEnv (records : List JsValue) (inputs : Members) :
    Option (List (JsString × HostValue)) := do
  let globals := assign (poisoned.map fun k => (k, .scalar .undefined)) []
  let injectedRecords ← inject (.arr records)
  let env ← inject (.obj (envObject records inputs))
  let values ← injectInputs inputs
  return assign values
    (setProperty (js "env") env (setProperty (js "records") injectedRecords globals))

/-! ### Isolation -/

/-- Nothing that the context can reach belongs to the host's realm. -/
def Isolated (bindings : List (JsString × HostValue)) : Prop :=
  ∀ b ∈ bindings, ∀ n, Reachable (.data b.2) n → ¬ n.IsHostPrototype ∧ ¬ n.HasHostConstructor

mutual

/-- An array occurs somewhere in the value. -/
def hasArray : JsValue → Bool
  | .arr _ => true
  | .obj members => anyMemberHasArray members
  | _ => false

def anyMemberHasArray : Members → Bool
  | [] => false
  | (_, v) :: ms => hasArray v || anyMemberHasArray ms

end

/-! ### One clone -/

@[simp] theorem hostElements_eq (vs : List JsValue) : hostElements vs = vs.map hostValue := by
  induction vs with
  | nil => rfl
  | cons v vs ih => rw [hostElements, ih, List.map_cons]

@[simp] theorem hostMembers_eq (ms : Members) :
    hostMembers ms = ms.map fun m => (m.1, hostValue m.2) := by
  induction ms with
  | nil => rfl
  | cons m ms ih => rw [hostMembers, ih, List.map_cons]

@[simp] theorem nullElements_eq (vs : List HostValue) :
    nullElements vs = vs.map toNullPrototype := by
  induction vs with
  | nil => rfl
  | cons v vs ih => rw [nullElements, ih, List.map_cons]

@[simp] theorem nullMembers_eq (ms : List (JsString × HostValue)) :
    nullMembers ms = ms.map fun m => (m.1, toNullPrototype m.2) := by
  induction ms with
  | nil => rfl
  | cons m ms ih => rw [nullMembers, ih, List.map_cons]

@[simp] theorem anyMemberHasArray_iff (ms : Members) :
    anyMemberHasArray ms = true ↔ ∃ m ∈ ms, hasArray m.2 = true := by
  induction ms with
  | nil => simp [anyMemberHasArray]
  | cons m ms ih => simp [anyMemberHasArray, ih]

/-- The clone of a value. -/
def clone (v : JsValue) : HostValue := toNullPrototype (hostValue v)

theorem clone_arr (vs : List JsValue) :
    clone (.arr vs) = .array (some .arrayPrototype) (vs.map clone) := by
  simp only [clone, hostValue, hostElements_eq, toNullPrototype, nullElements_eq, List.map_map]
  rfl

theorem clone_obj (ms : Members) :
    clone (.obj ms) = .object none (ms.map fun m => (m.1, clone m.2)) := by
  simp only [clone, hostValue, hostMembers_eq, toNullPrototype, nullMembers_eq, List.map_map]
  rfl

/-- From a value without arrays, one link leads to another such value. -/
theorem edge_without_array {v : JsValue} (plain : hasArray v = false) {n : Node}
    (edge : Edge (.data (clone v)) n) : ∃ w, n = .data (clone w) ∧ hasArray w = false := by
  cases v with
  | undefined | null | bool | num | str => cases edge
  | arr elements => simp [hasArray] at plain
  | obj members =>
    rw [clone_obj] at edge
    cases edge with
    | property member =>
      obtain ⟨m, old, same⟩ := List.mem_map.mp member
      cases same
      refine ⟨m.2, rfl, ?_⟩
      by_contra array
      have found : anyMemberHasArray members = true :=
        (anyMemberHasArray_iff members).mpr ⟨m, old, by simpa using array⟩
      simp [hasArray, found] at plain

theorem reachable_without_array {v : JsValue} (plain : hasArray v = false) {n : Node}
    (reach : Reachable (.data (clone v)) n) : ∃ w, n = .data (clone w) ∧ hasArray w = false := by
  induction reach with
  | refl => exact ⟨v, rfl, plain⟩
  | tail _ edge ih =>
    obtain ⟨w, rfl, next⟩ := ih
    exact edge_without_array next edge

theorem clone_constructor {v : JsValue} (plain : hasArray v = false) :
    ¬ (Node.data (clone v)).HasHostConstructor := by
  rintro ⟨i, host⟩
  cases v with
  | undefined | null | bool | num | str => cases host
  | arr elements => simp [hasArray] at plain
  | obj members =>
    rw [clone_obj, Node.constructor] at host
    split at host <;> cases host

theorem reachable_prototype {v : JsValue} (array : hasArray v = true) :
    Reachable (.data (clone v)) (.intrinsic .arrayPrototype) := by
  induction v with
  | undefined | null | bool | num | str => cases array
  | arr elements _ =>
    rw [clone_arr]
    exact .single (.arrayPrototype _ _)
  | obj members ih =>
    obtain ⟨m, member, found⟩ := (anyMemberHasArray_iff members).mp array
    rw [clone_obj]
    exact .head (.property (List.mem_map.mpr ⟨m, member, rfl⟩)) (ih m member found)

/-- A clone keeps the host out exactly when there is no array in it. -/
theorem clone_isolated (v : JsValue) :
    (∀ n, Reachable (.data (clone v)) n → ¬ n.IsHostPrototype ∧ ¬ n.HasHostConstructor) ↔
      hasArray v = false := by
  constructor
  · intro isolated
    by_contra array
    exact (isolated _ (reachable_prototype (by simpa using array))).1 rfl
  · intro plain n reach
    obtain ⟨w, rfl, next⟩ := reachable_without_array plain reach
    exact ⟨not_false, clone_constructor next⟩

/-! ### The context -/

theorem inject_json {v : JsValue} (plain : isPlain v = true) (ordered : isOrdered v = true) :
    inject v = some (clone v) := by
  rw [inject, stringify_of_ne (plain_present plain), Option.bind_some,
    parse_jsonText plain ordered, Option.map_some, clone]

theorem injectInputs_json {inputs : Members} (plain : ∀ m ∈ inputs, isPlain m.2 = true)
    (ordered : ∀ m ∈ inputs, isOrdered m.2 = true) :
    injectInputs inputs = some (inputs.map fun m => (m.1, clone m.2)) := by
  induction inputs with
  | nil => rfl
  | cons m inputs ih =>
    obtain ⟨k, v⟩ := m
    have first : inject v = some (clone v) :=
      inject_json (plain (k, v) List.mem_cons_self) (ordered (k, v) List.mem_cons_self)
    rw [injectInputs, first, ih (fun m member => plain m (List.mem_cons_of_mem _ member))
      fun m member => ordered m (List.mem_cons_of_mem _ member)]
    rfl

theorem records_plain (records : List Json) : isPlain (.arr (records.map Json.value)) = true := by
  simp only [isPlain, allPlain_iff, List.mem_map]
  rintro _ ⟨r, _, rfl⟩
  exact r.plain

theorem records_ordered (records : List Json) :
    isOrdered (.arr (records.map Json.value)) = true := by
  simp only [isOrdered, allOrdered_iff, List.mem_map]
  rintro _ ⟨r, _, rfl⟩
  exact r.ordered

/-- The globals before the inputs are assigned. -/
def baseGlobals (records : List Json) (inputs : Members) : List (JsString × HostValue) :=
  setProperty (js "env") (clone (.obj (envObject (records.map Json.value) inputs)))
    (setProperty (js "records") (clone (.arr (records.map Json.value)))
      (assign (poisoned.map fun k => (k, .scalar .undefined)) []))

theorem sandboxEnv_json (records : List Json) (inputs : JsonObject) :
    sandboxEnv (records.map Json.value) inputs.members =
      some (assign (inputs.members.map fun m => (m.1, clone m.2))
        (baseGlobals records inputs.members)) := by
  have plain := inputs.plain
  simp only [isPlain, allMembersPlain_iff] at plain
  obtain ⟨_, ordered⟩ := (isOrdered_obj _).mp inputs.ordered
  have env : inject (.obj (envObject (records.map Json.value) inputs.members)) =
      some (clone (.obj (envObject (records.map Json.value) inputs.members))) := by
    apply inject_json
    · exact assign_plain plain (by simpa using records_plain records)
    · exact assign_ordered ordered
        ((isOrdered_obj _).mpr ⟨List.pairwise_singleton _ _, by simpa using records_ordered records⟩)
  rw [sandboxEnv, inject_json (records_plain records) (records_ordered records), env,
    injectInputs_json plain ordered]
  rfl

theorem baseGlobals_sorted (records : List Json) (inputs : Members) :
    (baseGlobals records inputs).Pairwise fun a b => precedes a.1 b.1 = true :=
  setProperty_pairwise _ _ (setProperty_pairwise _ _ (assign_pairwise _ List.Pairwise.nil))

/-- The object `env` holds the inputs, and the records unless an input replaces them. -/
theorem mem_envObject (records : List JsValue) (inputs : JsonObject) (m : JsString × JsValue) :
    m ∈ envObject records inputs.members ↔ m ∈ inputs.members ∨
      m = (js "records", .arr records) ∧ ∀ e ∈ inputs.members, m.1 ≠ e.1 := by
  have unique := uniqueKeys_of_ordered ((isOrdered_obj _).mp inputs.ordered).1
  rw [envObject, mem_assign unique (List.pairwise_singleton _ _), List.mem_singleton]

/-- The context is isolated from the host exactly when an input takes the name
`records` and no input contains an array. -/
theorem sandboxEnv_isolated_iff (records : List Json) (inputs : JsonObject) :
    ∃ bindings, sandboxEnv (records.map Json.value) inputs.members = some bindings ∧
      (Isolated bindings ↔ (∃ m ∈ inputs.members, m.1 = js "records") ∧
        ∀ m ∈ inputs.members, hasArray m.2 = false) := by
  refine ⟨_, sandboxEnv_json records inputs, ?_⟩
  have unique := uniqueKeys_of_ordered ((isOrdered_obj _).mp inputs.ordered).1
  have bound (b : JsString × HostValue) :=
    mem_assign (unique.map clone) (baseGlobals_sorted records inputs.members) b
  constructor
  · intro isolated
    constructor
    · have different : js "records" ≠ js "env" := by decide
      by_contra fresh
      have member := (bound (js "records", clone (.arr (records.map Json.value)))).mpr
        (.inr ⟨mem_setProperty_of_ne _ (mem_setProperty_self _ _ _) different, ?_⟩)
      · have array := (clone_isolated _).mp (isolated _ member)
        simp [hasArray] at array
      · intro e mapped same
        obtain ⟨m, old, rfl⟩ := List.mem_map.mp mapped
        exact fresh ⟨m, old, same.symm⟩
    · intro m member
      exact (clone_isolated m.2).mp
        (isolated (m.1, clone m.2) ((bound _).mpr (.inl (List.mem_map.mpr ⟨m, member, rfl⟩))))
  · rintro ⟨⟨taken, member, name⟩, plain⟩ b binding
    rcases (bound b).mp binding with input | ⟨base, apart⟩
    · obtain ⟨m, old, rfl⟩ := List.mem_map.mp input
      exact (clone_isolated m.2).mpr (plain m old)
    · have replaced : b.1 ≠ js "records" := by
        have different := apart (taken.1, clone taken.2) (List.mem_map.mpr ⟨taken, member, rfl⟩)
        rwa [name] at different
      rcases mem_setProperty base with rfl | base
      · -- `env` holds no records, since an input replaced them
        apply (clone_isolated _).mpr
        by_contra array
        obtain ⟨m, inside, found⟩ := (anyMemberHasArray_iff _).mp (by simpa [hasArray] using array)
        rcases (mem_envObject _ inputs m).mp inside with input | ⟨rfl, apart⟩
        · simp [plain m input] at found
        · exact apart taken member name.symm
      · rcases mem_setProperty base with rfl | base
        · exact absurd rfl replaced
        · rcases mem_of_mem_assign base with poison | none
          · obtain ⟨k, _, rfl⟩ := List.mem_map.mp poison
            exact (clone_isolated .undefined).mpr rfl
          · cases none

/-- Even without records and inputs, the injected empty array leads to the host. -/
theorem empty_records_escape :
    ∃ bindings, sandboxEnv [] [] = some bindings ∧ ¬ Isolated bindings := by
  refine ⟨_, sandboxEnv_json [] ⟨⟨[], rfl⟩, rfl⟩, fun isolated => ?_⟩
  have member : (js "records", clone (.arr [])) ∈ assign [] (baseGlobals [] []) :=
    mem_setProperty_of_ne _ (mem_setProperty_self _ _ _) (by decide)
  exact absurd ((clone_isolated _).mp (isolated _ member)) (by decide)

end NeuralMesh.Sandbox
