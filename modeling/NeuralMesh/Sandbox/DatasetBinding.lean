import NeuralMesh.Codec.Utf8
import NeuralMesh.Js.Document
import NeuralMesh.Sandbox.NullPrototype

/-! The records that the logic finds in its context, and the records that the receipt
names. The context merges the host's array with the client's inputs, whose names the
client chooses. -/
namespace NeuralMesh.Sandbox

open Js Codec

/-! ### The inputs -/

/-- The name and the decrypted text of each input. -/
abbrev Plaintexts := List (JsString × Bytes)

/-- The assignments to `decryptedInputs`; `none` is an exception. `refuses` tells which
assignment throws after the earlier ones, because a prototype makes the name read-only. -/
def decryptInputs (refuses : Members → JsString → Bool) : Members → Plaintexts → Option Members
  | earlier, [] => some earlier
  | earlier, (key, text) :: rest => do
    let value ← parseDoubles (decodeUtf8 text)
    if refuses earlier key then none
    else decryptInputs refuses (earlier ++ [(key, value)]) rest

/-- The own properties: an assignment to `__proto__` creates none. -/
def decryptedInputs (refuses : Members → JsString → Bool) (plaintexts : Plaintexts) :
    Option Members :=
  (decryptInputs refuses [] plaintexts).map fun assigned =>
    assign (assigned.filter fun e => e.1 ≠ js "__proto__") []

/-! ### What the logic finds -/

/-- The host's records. -/
structure Dataset where
  records : List JsValue
  ordered : isOrdered (.arr records) = true

/-- The text whose hash is the journal's `dataset_hash`. -/
def Dataset.text (dataset : Dataset) : Text := jsonText (.arr dataset.records)

/-- The constructors, other than `Object`, whose prototype the script freezes first. -/
def frozenConstructors : List JsString :=
  ["Array", "String", "Number", "Boolean", "RegExp", "Map", "Set", "Promise", "Error"].map js

def isNull : JsValue → Bool
  | .null => true
  | _ => false

/-- `Object.freeze(X.prototype)` throws when an input replaces `Object`, or `X` by `null`. -/
def preludeRuns (inputs : Members) : Bool :=
  inputs.all fun m => m.1 ≠ js "Object" && !(m.1 ∈ frozenConstructors && isNull m.2)

/-- `value.records`; `none` is a `TypeError`. -/
def recordsOf : HostValue → Option HostValue
  | .object _ members => some ((members.lookup (js "records")).getD (.scalar .undefined))
  | .scalar .undefined | .scalar .null => none
  | _ => some (.scalar .undefined)

structure Observed where
  /-- The global `records`. -/
  records : HostValue
  /-- `env.records` -/
  envRecords : Option HostValue

/-- `none` when the logic does not start. -/
def observe (refuses : Members → JsString → Bool) (records : List JsValue)
    (plaintexts : Plaintexts) : Option Observed := do
  let inputs ← decryptedInputs refuses plaintexts
  let bindings ← sandboxEnv records inputs
  let binding name := (bindings.lookup name).getD (.scalar .undefined)
  if preludeRuns inputs then
    some ⟨binding (js "records"), recordsOf (binding (js "env"))⟩
  else none

/-- Both names give the copy of the host's records. -/
def BindsDataset (dataset : Dataset) (observed : Observed) : Prop :=
  ∃ copy, inject (.arr dataset.records) = some copy ∧ observed.records = copy ∧
    observed.envRecords = some copy

/-- No input stands in for the records, unless it has their very text. -/
structure KeepsDataset (dataset : Dataset) (inputs : Members) : Prop where
  records : ∀ v, (js "records", v) ∈ inputs → stringify v = some dataset.text
  env : ∀ v, (js "env", v) ∈ inputs → stringify (member (js "records") v) = some dataset.text

/-! ### Copies -/

mutual

/-- The value without its prototypes. -/
def HostValue.data : HostValue → JsValue
  | .scalar v => v
  | .array _ elements => .arr (elementData elements)
  | .object _ members => .obj (memberData members)

def elementData : List HostValue → List JsValue
  | [] => []
  | v :: vs => v.data :: elementData vs

def memberData : List (JsString × HostValue) → Members
  | [] => []
  | (k, v) :: ms => (k, v.data) :: memberData ms

end

@[simp] theorem elementData_eq (vs : List HostValue) : elementData vs = vs.map HostValue.data := by
  induction vs with
  | nil => rfl
  | cons v vs ih => rw [elementData, ih, List.map_cons]

@[simp] theorem memberData_eq (ms : List (JsString × HostValue)) :
    memberData ms = ms.map fun m => (m.1, m.2.data) := by
  induction ms with
  | nil => rfl
  | cons m ms ih => rw [memberData, ih, List.map_cons]

theorem data_clone : Function.LeftInverse HostValue.data clone := by
  intro v
  induction v with
  | undefined | null | bool | num | str => rfl
  | arr elements ih =>
    rw [clone_arr, HostValue.data, elementData_eq, List.map_map, JsValue.arr.injEq]
    exact (List.map_congr_left ih).trans (List.map_id elements)
  | obj members ih =>
    rw [clone_obj, HostValue.data, memberData_eq, List.map_map, JsValue.obj.injEq]
    refine (List.map_congr_left (g := id) fun m member => ?_).trans (List.map_id members)
    exact Prod.ext rfl (ih m member)

theorem inject_present {v : JsValue} (ordered : isOrdered v = true) (present : v ≠ .undefined) :
    inject v = some (clone (transmitted v)) := by
  rw [inject, stringify_of_ne present, Option.bind_some, parse_transmitted ordered,
    Option.map_some, clone]

theorem clone_transmitted_iff {v w : JsValue} :
    clone (transmitted v) = clone (transmitted w) ↔ jsonText v = jsonText w := by
  rw [data_clone.injective.eq_iff, jsonText_eq_iff]

namespace Dataset

variable (dataset : Dataset)

/-- The copy that the context gets. -/
def copy : HostValue := clone (transmitted (.arr dataset.records))

theorem inject_records : inject (.arr dataset.records) = some dataset.copy :=
  inject_present dataset.ordered (by simp)

/-- The copy has the text that the receipt names. -/
theorem copy_text : jsonText dataset.copy.data = dataset.text := by
  rw [copy, data_clone, jsonText_transmitted, text]

theorem is_copy {v : JsValue} (present : v ≠ .undefined) :
    clone (transmitted v) = dataset.copy ↔ stringify v = some dataset.text := by
  rw [copy, clone_transmitted_iff, stringify_of_ne present, text, Option.some.injEq]

theorem copy_present : dataset.copy ≠ .scalar .undefined := by
  simp [copy, transmitted, clone_arr]

/-- `records` read from any copied value. -/
theorem recordsOf_copy {v : JsValue} (ordered : isOrdered v = true) :
    recordsOf (clone (transmitted v)) = some dataset.copy ↔
      stringify (member (js "records") v) = some dataset.text := by
  have array := dataset.copy_present
  have scalar {n : JsNumber} : clone (transmitted (.num n)) = .scalar (transmitted (.num n)) := by
    cases n <;> rfl
  cases v with
  | undefined | null | bool | str | arr =>
    simp [transmitted, clone, hostValue, toNullPrototype, recordsOf, member, stringify, array.symm]
  | num n =>
    rw [scalar]
    cases n <;> simp [transmitted, recordsOf, member, stringify, array.symm]
  | obj members =>
    obtain ⟨sorted, -⟩ := (isOrdered_obj members).mp ordered
    have once := uniqueKeys_of_ordered
      (transmittedMembers_pairwise (fun a b => precedes a b = true) sorted)
    rw [transmitted, clone_obj, recordsOf, member, Option.some.injEq]
    by_cases absent : property (js "records") members = .undefined
    · rw [absent, stringify]
      refine iff_of_false ?_ (by simp)
      cases found : List.lookup (js "records")
          ((transmittedMembers members).map fun m => (m.1, clone m.2)) with
      | none => exact array.symm
      | some h =>
        obtain ⟨m, within, name⟩ := List.mem_map.mp ((lookup_iff (once.map clone)).mp found)
        obtain ⟨w, present, old, -⟩ := mem_transmittedMembers within
        rw [congrArg Prod.fst name] at old
        exact absurd ((property_of_mem (uniqueKeys_of_ordered sorted) old).symm.trans absent) present
    · have value := property_transmittedMembers absent
      have present := lookup_of_property (value ▸ plain_present (isPlain_transmitted _))
      have found := (lookup_iff (once.map clone)).mpr
        (List.mem_map.mpr ⟨_, (lookup_iff once).mp present, rfl⟩)
      rw [found, Option.getD_some, value]
      exact dataset.is_copy absent

end Dataset

/-! ### The inputs of a run -/

/-- The values that a client's texts can give. -/
def Parsed (inputs : Members) : Prop := ∀ m ∈ inputs, isOrdered m.2 = true ∧ m.2 ≠ .undefined

theorem decryptInputs_parsed {refuses : Members → JsString → Bool} {earlier inputs : Members}
    {plaintexts : Plaintexts} (parsed : Parsed earlier)
    (decrypted : decryptInputs refuses earlier plaintexts = some inputs) : Parsed inputs := by
  induction plaintexts generalizing earlier with
  | nil =>
    cases decrypted
    exact parsed
  | cons plaintext rest ih =>
    obtain ⟨key, text⟩ := plaintext
    obtain ⟨value, read, decrypted⟩ := Option.bind_eq_some_iff.mp decrypted
    split_ifs at decrypted
    apply ih _ decrypted
    intro m member
    rcases List.mem_append.mp member with old | new
    · exact parsed m old
    · obtain rfl := List.mem_singleton.mp new
      exact parseDoubles_value read

theorem decryptedInputs_parsed {refuses : Members → JsString → Bool} {inputs : Members}
    {plaintexts : Plaintexts} (decrypted : decryptedInputs refuses plaintexts = some inputs) :
    Parsed inputs ∧ isOrdered (.obj inputs) = true := by
  obtain ⟨assigned, read, rfl⟩ := Option.map_eq_some_iff.mp decrypted
  have parsed := decryptInputs_parsed (fun m member => absurd member List.not_mem_nil) read
  have each : ∀ e ∈ assigned.filter fun e => e.1 ≠ js "__proto__",
      isOrdered e.2 = true ∧ e.2 ≠ .undefined :=
    fun e member => parsed e (List.mem_of_mem_filter member)
  constructor
  · intro m member
    rcases mem_of_mem_assign member with new | old
    · exact each m new
    · cases old
  · exact assign_ordered (fun e member => (each e member).1) rfl

theorem injectInputs_parsed {inputs : Members} (parsed : Parsed inputs) :
    injectInputs inputs = some (inputs.map fun m => (m.1, clone (transmitted m.2))) := by
  induction inputs with
  | nil => rfl
  | cons m inputs ih =>
    obtain ⟨k, v⟩ := m
    obtain ⟨ordered, present⟩ := parsed (k, v) List.mem_cons_self
    rw [injectInputs, inject_present ordered present,
      ih fun m member => parsed m (List.mem_cons_of_mem _ member)]
    rfl

namespace Dataset

variable (dataset : Dataset)

/-- The globals before the inputs are assigned. -/
def globals (inputs : Members) : List (JsString × HostValue) :=
  setProperty (js "env") (clone (transmitted (.obj (envObject dataset.records inputs))))
    (setProperty (js "records") dataset.copy
      (assign (poisoned.map fun k => (k, .scalar .undefined)) []))

def bindings (inputs : Members) : List (JsString × HostValue) :=
  assign (inputs.map fun m => (m.1, clone (transmitted m.2))) (dataset.globals inputs)

variable {inputs : Members}

theorem env_ordered (parsed : Parsed inputs) :
    isOrdered (.obj (envObject dataset.records inputs)) = true := by
  apply assign_ordered fun m member => (parsed m member).1
  rw [isOrdered_obj]
  refine ⟨List.pairwise_singleton _ _, fun m member => ?_⟩
  obtain rfl := List.mem_singleton.mp member
  exact dataset.ordered

theorem sandboxEnv_bindings (parsed : Parsed inputs) :
    sandboxEnv dataset.records inputs = some (dataset.bindings inputs) := by
  rw [sandboxEnv, dataset.inject_records, inject_present (dataset.env_ordered parsed) (by simp),
    injectInputs_parsed parsed]
  rfl

theorem globals_sorted (inputs : Members) :
    (dataset.globals inputs).Pairwise fun a b => precedes a.1 b.1 = true :=
  setProperty_pairwise _ _ (setProperty_pairwise _ _ (assign_pairwise _ List.Pairwise.nil))

theorem bindings_unique (inputs : Members) : UniqueKeys (dataset.bindings inputs) :=
  (assign_pairwise _ (dataset.globals_sorted inputs)).imp precedes_ne

theorem mem_bindings (ordered : isOrdered (.obj inputs) = true) (b : JsString × HostValue) :
    b ∈ dataset.bindings inputs ↔ (∃ m ∈ inputs, (m.1, clone (transmitted m.2)) = b) ∨
      b ∈ dataset.globals inputs ∧ ∀ m ∈ inputs, b.1 ≠ m.1 := by
  have unique := uniqueKeys_of_ordered ((isOrdered_obj inputs).mp ordered).1
  rw [bindings, mem_assign (unique.map fun v => clone (transmitted v))
    (dataset.globals_sorted inputs)]
  rw [List.mem_map, List.forall_mem_map]

/-- A global is the input of its name. -/
theorem lookup_input (ordered : isOrdered (.obj inputs) = true) {name : JsString} {v : JsValue}
    (input : (name, v) ∈ inputs) :
    (dataset.bindings inputs).lookup name = some (clone (transmitted v)) := by
  apply (lookup_iff (dataset.bindings_unique inputs)).mpr
  exact (dataset.mem_bindings ordered _).mpr (.inl ⟨_, input, rfl⟩)

theorem lookup_global (ordered : isOrdered (.obj inputs) = true) {name : JsString}
    {h : HostValue} (injected : (name, h) ∈ dataset.globals inputs)
    (free : ∀ v, (name, v) ∉ inputs) : (dataset.bindings inputs).lookup name = some h := by
  apply (lookup_iff (dataset.bindings_unique inputs)).mpr
  refine (dataset.mem_bindings ordered _).mpr (.inr ⟨injected, ?_⟩)
  rintro ⟨k, v⟩ member rfl
  exact free v member

theorem bare_records (parsed : Parsed inputs) (ordered : isOrdered (.obj inputs) = true) :
    ∃ bare, (dataset.bindings inputs).lookup (js "records") = some bare ∧
      (bare = dataset.copy ↔
        ∀ v, (js "records", v) ∈ inputs → stringify v = some dataset.text) := by
  have unique := uniqueKeys_of_ordered ((isOrdered_obj inputs).mp ordered).1
  by_cases taken : ∃ v, (js "records", v) ∈ inputs
  · obtain ⟨v, input⟩ := taken
    refine ⟨_, dataset.lookup_input ordered input, ?_⟩
    rw [dataset.is_copy (parsed _ input).2]
    constructor
    · intro same w other
      rwa [(property_of_mem unique other).symm.trans (property_of_mem unique input)]
    · exact fun same => same v input
  · have free := not_exists.mp taken
    have different : js "records" ≠ js "env" := by decide
    have injected : (js "records", dataset.copy) ∈ dataset.globals inputs :=
      mem_setProperty_of_ne _ (mem_setProperty_self _ _ _) different
    refine ⟨_, dataset.lookup_global ordered injected free, ?_⟩
    exact iff_of_true rfl fun v input => absurd input (free v)

theorem property_envObject (ordered : isOrdered (.obj inputs) = true) :
    stringify (property (js "records") (envObject dataset.records inputs)) = some dataset.text ↔
      ∀ v, (js "records", v) ∈ inputs → stringify v = some dataset.text := by
  have unique := uniqueKeys_of_ordered ((isOrdered_obj inputs).mp ordered).1
  have sorted := List.pairwise_singleton (fun a b : JsString × JsValue => precedes a.1 b.1 = true)
    (js "records", JsValue.arr dataset.records)
  have once : UniqueKeys (envObject dataset.records inputs) :=
    uniqueKeys_of_ordered (assign_pairwise inputs sorted)
  by_cases taken : ∃ v, (js "records", v) ∈ inputs
  · obtain ⟨v, input⟩ := taken
    rw [property_of_mem once ((mem_assign unique sorted _).mpr (.inl input))]
    constructor
    · intro same w other
      rwa [(property_of_mem unique other).symm.trans (property_of_mem unique input)]
    · exact fun same => same v input
  · have free := not_exists.mp taken
    have kept : (js "records", .arr dataset.records) ∈ envObject dataset.records inputs := by
      refine (mem_assign unique sorted _).mpr (.inr ⟨List.mem_singleton.mpr rfl, ?_⟩)
      rintro ⟨k, v⟩ member rfl
      exact free v member
    rw [property_of_mem once kept]
    exact iff_of_true rfl fun v input => absurd input (free v)

theorem env_records (parsed : Parsed inputs) (ordered : isOrdered (.obj inputs) = true) :
    ∃ env, (dataset.bindings inputs).lookup (js "env") = some env ∧
      (recordsOf env = some dataset.copy ↔
        (∀ v, (js "env", v) ∈ inputs → stringify (member (js "records") v) = some dataset.text) ∧
        ((∀ v, (js "env", v) ∉ inputs) →
          ∀ v, (js "records", v) ∈ inputs → stringify v = some dataset.text)) := by
  have unique := uniqueKeys_of_ordered ((isOrdered_obj inputs).mp ordered).1
  by_cases taken : ∃ v, (js "env", v) ∈ inputs
  · obtain ⟨v, input⟩ := taken
    refine ⟨_, dataset.lookup_input ordered input, ?_⟩
    rw [dataset.recordsOf_copy (parsed _ input).1]
    constructor
    · intro same
      refine ⟨fun w other => ?_, fun free => absurd input (free v)⟩
      rwa [(property_of_mem unique other).symm.trans (property_of_mem unique input)]
    · exact fun same => same.1 v input
  · have free := not_exists.mp taken
    refine ⟨_, dataset.lookup_global ordered (mem_setProperty_self _ _ _) free, ?_⟩
    rw [dataset.recordsOf_copy (dataset.env_ordered parsed), member,
      dataset.property_envObject ordered]
    constructor
    · exact fun same => ⟨fun v input => absurd input (free v), fun _ => same⟩
    · exact fun same => same.2 free

/-- What the logic of a run finds is the copy of the host's records exactly when no input
stands in for them. -/
theorem bound_iff (refuses : Members → JsString → Bool) (plaintexts : Plaintexts) :
    (∀ observed, observe refuses dataset.records plaintexts = some observed →
        BindsDataset dataset observed) ↔
      ∀ inputs, decryptedInputs refuses plaintexts = some inputs → preludeRuns inputs = true →
        KeepsDataset dataset inputs := by
  rw [observe]
  cases decrypted : decryptedInputs refuses plaintexts with
  | none => simp
  | some inputs =>
    obtain ⟨parsed, ordered⟩ := decryptedInputs_parsed decrypted
    obtain ⟨bare, global, fromGlobal⟩ := dataset.bare_records parsed ordered
    obtain ⟨env, present, fromEnv⟩ := dataset.env_records parsed ordered
    simp only [Option.bind_eq_bind, Option.bind_some, dataset.sandboxEnv_bindings parsed, global,
      present, Option.getD_some, Option.some.injEq, forall_eq']
    cases preludeRuns inputs with
    | false => simp
    | true =>
      simp only [if_true, Option.some.injEq, forall_eq', forall_const, BindsDataset,
        dataset.inject_records, exists_eq_left', fromGlobal, fromEnv]
      constructor
      · exact fun ⟨first, second, _⟩ => ⟨first, second⟩
      · exact fun kept => ⟨kept.records, kept.env, fun _ => kept.records⟩

end Dataset

/-- An input named `records` takes the place of the data set. -/
theorem named_input_replaces_records :
    ¬ ∀ observed, observe (fun _ _ => false) [] [(js "records", utf8 "null".toList)] = some observed →
      BindsDataset ⟨[], rfl⟩ observed := by
  intro claimed
  have kept := (Dataset.bound_iff ⟨[], rfl⟩ _ _).mp claimed
    [(js "records", .null)] rfl (by decide)
  have same := kept.records _ (List.mem_singleton.mpr rfl)
  revert same
  decide

end NeuralMesh.Sandbox
