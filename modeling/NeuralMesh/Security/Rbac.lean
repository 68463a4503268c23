import Mathlib.Data.List.Basic
import NeuralMesh.Js.StringText

/-! Authorisation by scopes. The scopes of a method are looked up in a plain object under a name
that comes from the network, so that names which every object inherits find something else. -/
namespace NeuralMesh.Security

open Js

structure AuthInfo where
  scopes : List JsString

structure AuthorizationResult where
  allowed : Bool
  reason : Option JsString

/-! ### The map -/

def SCOPE_MAP : List (JsString × List JsString) :=
  [("initialize", []), ("notifications/initialized", []), ("notifications/cancelled", []),
    ("ping", []), ("tools/list", ["liop:tools:list"]), ("tools/call", ["liop:tools:call"]),
    ("resources/list", ["liop:resources:read"]), ("resources/read", ["liop:resources:read"]),
    ("prompts/list", ["liop:schema:read"]), ("prompts/get", ["liop:schema:read"])].map
    fun (method, scopes) => (js method, scopes.map js)

/-- The kinds of values that a lookup finds. -/
inductive MapValue where
  | scopes (required : List JsString)
  | function (parameters : Nat)
  | object

/-- What a plain object inherits. -/
def objectMembers : List (JsString × MapValue) :=
  [("constructor", .function 1), ("hasOwnProperty", .function 1), ("isPrototypeOf", .function 1),
    ("propertyIsEnumerable", .function 1), ("toLocaleString", .function 0),
    ("toString", .function 0), ("valueOf", .function 0), ("__defineGetter__", .function 2),
    ("__defineSetter__", .function 2), ("__lookupGetter__", .function 1),
    ("__lookupSetter__", .function 1), ("__proto__", .object)].map
    fun (name, value) => (js name, value)

namespace MapValue

/-- The `length` property. -/
def length : MapValue → Option Nat
  | scopes required => some required.length
  | function parameters => some parameters
  | object => none

/-- The elements that a spread gives; `none` is the `TypeError` of a value that is not iterable. -/
def elements : MapValue → Option (List JsString)
  | scopes required => some required
  | function _ | object => none

end MapValue

/-- `SCOPE_MAP[method]` -/
def methodValue (method : JsString) : Option MapValue :=
  ((SCOPE_MAP.lookup method).map .scopes).or (objectMembers.lookup method)

/-! ### The decision -/

/-- `none` is an exception. -/
def authorizeRequest (method : JsString) (auth : Option AuthInfo)
    (additionalScopes : Option (List JsString)) : Option AuthorizationResult :=
  let methodScopes := methodValue method
  if methodScopes.bind MapValue.length = some 0 then some ⟨true, none⟩
  else
    match auth with
    | none => some ⟨false, some (js "Authentication required for method: " ++ method)⟩
    | some auth =>
      let spread := methodScopes.elim (some []) MapValue.elements
      spread.map fun scopes =>
        let needed := scopes ++ additionalScopes.getD []
        if needed = [] then
          ⟨false, some (js "Unknown method: " ++ method ++ js ". Access denied (fail-closed).")⟩
        else
          let missing := needed.filter fun s => s ∉ auth.scopes
          if missing ≠ [] then
            ⟨false, some (js "Insufficient scopes for " ++ method ++ js ". Missing: " ++
              (js ", ").intercalate missing)⟩
          else ⟨true, none⟩

/-- The answer is there and allows the request under this condition only. -/
def AllowsIff (answer : Option AuthorizationResult) (condition : Prop) : Prop :=
  ∃ result, answer = some result ∧ (result.allowed = true ↔ condition)

/-- Methods with scopes ask for all of them, whatever further scopes a node asks for. -/
theorem authorizeRequest_scopes {method : JsString} {required : List JsString}
    (known : SCOPE_MAP.lookup method = some required) (protected' : required ≠ [])
    (auth : Option AuthInfo) (additionalScopes : Option (List JsString)) :
    AllowsIff (authorizeRequest method auth additionalScopes)
      (∃ info, auth = some info ∧ ∀ s ∈ required ++ additionalScopes.getD [], s ∈ info.scopes) := by
  have value : methodValue method = some (.scopes required) := by
    rw [methodValue, known, Option.map_some, Option.some_or]
  have closed : (some (MapValue.scopes required)).bind MapValue.length ≠ some 0 := by
    intro empty
    exact protected' (List.length_eq_zero_iff.mp (Option.some.inj empty))
  unfold authorizeRequest
  dsimp only
  rw [value, if_neg closed]
  cases auth with
  | none => exact ⟨_, rfl, by simp⟩
  | some info =>
    have needed : required ++ additionalScopes.getD [] ≠ [] :=
      fun empty => protected' (List.append_eq_nil_iff.mp empty).1
    simp only [Option.elim_some, MapValue.elements, Option.map_some, if_neg needed]
    by_cases all : ∀ s ∈ required ++ additionalScopes.getD [], s ∈ info.scopes
    · have none_missing : (required ++ additionalScopes.getD []).filter
          (fun s => decide (s ∉ info.scopes)) = [] :=
        List.filter_eq_nil_iff.mpr fun s member => by simp [all s member]
      rw [if_neg (not_not_intro none_missing)]
      exact ⟨_, rfl, iff_of_true rfl ⟨info, rfl, all⟩⟩
    · have some_missing : (required ++ additionalScopes.getD []).filter
          (fun s => decide (s ∉ info.scopes)) ≠ [] := by
        intro empty
        exact all fun s member => by simpa using List.filter_eq_nil_iff.mp empty s member
      rw [if_pos some_missing]
      refine ⟨_, rfl, iff_of_false nofun ?_⟩
      rintro ⟨_, ⟨⟩, granted⟩
      exact all granted

/-! ### Unknown methods -/

/-- What the engine promises for a method without further scopes. -/
structure FailsClosed (method : JsString) (auth : Option AuthInfo) : Prop where
  unknown : method ∉ SCOPE_MAP.map Prod.fst → AllowsIff (authorizeRequest method auth none) False
  known : ∀ required, SCOPE_MAP.lookup method = some required → required ≠ [] →
    AllowsIff (authorizeRequest method auth none)
      (∃ info, auth = some info ∧ ∀ s ∈ required, s ∈ info.scopes)

/-- The name is not inherited, or there is no auth context and what is inherited is no function
without parameters. -/
def Uninherited (method : JsString) (auth : Option AuthInfo) : Prop :=
  ∀ value, objectMembers.lookup method = some value → auth = none ∧ value.length ≠ some 0

theorem lookup_none {β : Type} {table : List (JsString × β)} {name : JsString} :
    table.lookup name = none ↔ name ∉ table.map Prod.fst := by
  rw [List.lookup_eq_none_iff, List.mem_map]
  simp only [bne_iff_ne, ne_eq, not_exists, not_and]
  exact ⟨fun other p member same => other p member same.symm,
    fun other p member same => other p member same.symm⟩

theorem mem_of_lookup {β : Type} {table : List (JsString × β)} {name : JsString} {value : β}
    (found : table.lookup name = some value) : (name, value) ∈ table := by
  obtain ⟨l₁, l₂, split, -⟩ := List.lookup_eq_some_iff.mp found
  rw [split]
  exact List.mem_append_right _ List.mem_cons_self

/-- No method is named like an inherited member. -/
theorem inherited_unknown {method : JsString} {value : MapValue}
    (inherited : objectMembers.lookup method = some value) : SCOPE_MAP.lookup method = none := by
  have separate : objectMembers.all (fun m => (SCOPE_MAP.lookup m.1).isNone) = true := by
    decide +kernel
  exact Option.isNone_iff_eq_none.mp
    (List.all_eq_true.mp separate _ (mem_of_lookup inherited))

/-- An inherited member gives no scopes. -/
theorem inherited_elements {method : JsString} {value : MapValue}
    (inherited : objectMembers.lookup method = some value) : value.elements = none := by
  have kinds : objectMembers.all (fun m => m.2.elements.isNone) = true := by decide +kernel
  exact Option.isNone_iff_eq_none.mp
    (List.all_eq_true.mp kinds _ (mem_of_lookup inherited))

theorem unknown_denied {method : JsString} (unknown : SCOPE_MAP.lookup method = none)
    (plain : objectMembers.lookup method = none) (auth : Option AuthInfo) :
    AllowsIff (authorizeRequest method auth none) False := by
  have value : methodValue method = none := by
    rw [methodValue, unknown, plain]
    rfl
  unfold authorizeRequest
  dsimp only
  rw [value]
  cases auth with
  | none => exact ⟨_, rfl, iff_of_false nofun id⟩
  | some info => exact ⟨_, rfl, iff_of_false nofun id⟩

theorem inherited_denied_iff {method : JsString} {value : MapValue}
    (inherited : objectMembers.lookup method = some value) (auth : Option AuthInfo) :
    AllowsIff (authorizeRequest method auth none) False ↔ auth = none ∧ value.length ≠ some 0 := by
  have found : methodValue method = some value := by
    rw [methodValue, inherited_unknown inherited, inherited]
    rfl
  unfold authorizeRequest
  dsimp only
  rw [found, Option.bind_some]
  by_cases public' : value.length = some 0
  · rw [if_pos public']
    refine iff_of_false ?_ fun held => held.2 public'
    rintro ⟨_, ⟨⟩, allowed⟩
    exact allowed.mp rfl
  · rw [if_neg public']
    cases auth with
    | none => exact iff_of_true ⟨_, rfl, iff_of_false nofun id⟩ ⟨rfl, public'⟩
    | some info =>
      simp only [Option.elim_some, inherited_elements inherited, Option.map_none]
      refine iff_of_false ?_ nofun
      rintro ⟨_, ⟨⟩, _⟩

/-- The engine fails closed exactly on the names that no object inherits, and without an auth
context on those inherited ones that are no functions without parameters. -/
theorem authorizeRequest_failsClosed_iff (method : JsString) (auth : Option AuthInfo) :
    FailsClosed method auth ↔ Uninherited method auth := by
  cases inherited : objectMembers.lookup method with
  | some value =>
    have absent := inherited_unknown inherited
    constructor
    · intro closed found same
      rw [inherited] at same
      cases same
      exact (inherited_denied_iff inherited auth).mp (closed.unknown (lookup_none.mp absent))
    · intro held
      refine ⟨fun _ => (inherited_denied_iff inherited auth).mpr (held value inherited), ?_⟩
      intro required known
      rw [absent] at known
      cases known
  | none =>
    refine iff_of_true ⟨?_, ?_⟩ fun value same => ?_
    · exact fun unknown => unknown_denied (lookup_none.mpr unknown) inherited auth
    · intro required known protected'
      simpa using authorizeRequest_scopes known protected' auth none
    · rw [inherited] at same
      cases same

/-- The functions without parameters pass for public methods. -/
theorem toString_allowed : (authorizeRequest (js "toString") none none).map
    AuthorizationResult.allowed = some true ∧ ¬ FailsClosed (js "toString") none := by
  refine ⟨by decide +kernel, fun closed => ?_⟩
  have inherited : objectMembers.lookup (js "toString") = some (.function 0) := rfl
  have unknown := lookup_none.mp (inherited_unknown inherited)
  exact ((inherited_denied_iff inherited none).mp (closed.unknown unknown)).2 rfl

end NeuralMesh.Security
