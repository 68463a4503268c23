import NeuralMesh.Security.LogicProgram

/-! Where records may flow. Each variable has a shape: data, a record, an array of records, or
`env`. A program keeps to the shapes when it reads fields of records only through the variables and
the indices that the analyzer recognises. -/
namespace NeuralMesh.Security

open Js

variable {D : Type}

inductive Shape where
  | data | record | records | env
  deriving DecidableEq

/-- Data, or an array of such. -/
inductive IsData : Value D → Prop where
  | data (d : D) : IsData (.data d)
  | array {elements : List (Value D)} (each : ∀ v ∈ elements, IsData v) : IsData (.array elements)

def HasShape (v : Value D) : Shape → Prop
  | .data => IsData v
  | .record => IsData v ∨ ∃ place, v = .record place
  | .records => IsData v ∨
    ∃ elements, v = .array elements ∧ ∀ w ∈ elements, IsData w ∨ ∃ place, w = .record place
  | .env => IsData v ∨ v = .env

theorem IsData.hasShape {v : Value D} (data : IsData v) (s : Shape) : HasShape v s := by
  cases s with
  | data => exact data
  | record | records | env => exact .inl data

/-! ### Shapes that fit -/

namespace Shape

/-- Data may stand wherever another shape is expected. -/
def fits (s t : Shape) : Bool := s = .data || s = t

def join : Shape → Shape → Option Shape
  | .data, t => some t
  | s, .data => some s
  | s, t => if s = t then some s else none

/-- The shape of the elements of an array. -/
def element : Shape → Option Shape
  | .data => some .data
  | .records => some .record
  | _ => none

/-- The shape of an array of such elements. -/
def array : Shape → Option Shape
  | .data => some .data
  | .record => some .records
  | _ => none

/-- The shape of an array that is put together of such parts. -/
def flat : Shape → Option Shape
  | .data => some .data
  | .record | .records => some .records
  | .env => none

end Shape

namespace Shape

@[simp] theorem fits_iff {s t : Shape} : s.fits t = true ↔ s = .data ∨ s = t := by
  simp [fits]

theorem join_fits {s t r : Shape} (joined : s.join t = some r) :
    s.fits r = true ∧ t.fits r = true := by
  cases s <;> cases t <;> cases joined <;> decide

end Shape

theorem HasShape.fits {v : Value D} {s t : Shape} (has : HasShape v s) (fits : s.fits t = true) :
    HasShape v t := by
  rcases Shape.fits_iff.mp fits with rfl | rfl
  · exact IsData.hasShape has t
  · exact has

theorem hasShape_array {elements : List (Value D)} {s t : Shape}
    (each : ∀ v ∈ elements, HasShape v s) (shape : s.array = some t) :
    HasShape (.array elements) t := by
  cases s with
  | data =>
    cases shape
    exact .array each
  | record =>
    cases shape
    exact .inr ⟨elements, rfl, each⟩
  | records | env => cases shape

/-! ### The shapes of expressions -/

/-- A field of such an object is read where the analyzer sees it. -/
def recognised (bound : Names) : Node → Bool
  | .identifier name => name ∈ bound
  | .memberExpression records _ true => isEnvRecordsAccess records
  | _ => false

/-- The shape of a member, by the shape of the object and the name, if the text has one. -/
def memberShape (isRecognised : Bool) : Shape → Option JsString → Option Shape
  | .data, _ => some .data
  | .env, some name => some (if name = js "records" then .records else .data)
  | .records, some name => some (if arrayIndex name = none then .data else .record)
  | .records, none => some .record
  | .record, some name =>
    if isRecognised ∧ name ≠ [] ∧ name ≠ js "length" then some .data else none
  | _, none => none

/-- Operators that give a boolean for any values. -/
def BinaryOperator.isStrict : BinaryOperator → Bool
  | .strictEqual | .strictNotEqual => true
  | _ => false

def Expression.string? : Expression D → Option JsString
  | .string value => some value
  | _ => none

section Shapes

variable (shapes : JsString → Shape) (bound : Names)

def fitsTarget : Target → Shape → Bool
  | .identifier name, s => s.fits (shapes name)
  | .object _ _, s => s = .data

def fitsParams : List Target → List Shape → Bool
  | [], _ => true
  | param :: params, arguments =>
    fitsTarget shapes param (arguments.headD .data) && fitsParams params arguments.tail

/-- The shape of the result of a method: by the shapes of the array, of its elements and of what
the callback returns. -/
def methodShape (array element result : Shape) : ArrayMethod → Option Shape
  | .map => result.array
  | .flatMap => result.flat
  | .filter => some array
  | .find => some element
  | .forEach | .some | .every | .findIndex => some .data

def shapeOf : Expression D → Option Shape
  | .string _ | .literal _ => some .data
  | .identifier name => some (shapes name)
  | .member object name => do
    memberShape (recognised bound object.node) (← shapeOf object) (some name)
  | .index object property => do
    guard (shapeOf property = some .data)
    memberShape (recognised bound object.node) (← shapeOf object) property.string?
  | .binary operator left right => do
    let s ← shapeOf left
    let t ← shapeOf right
    guard (operator.isStrict ∨ s = .data ∧ t = .data)
    pure .data
  | .logical _ left right => do
    (← shapeOf left).join (← shapeOf right)
  | .unary operator argument => do
    let s ← shapeOf argument
    guard (operator = .not ∨ s = .data)
    pure .data
  | .conditional test consequent alternate => do
    let _ ← shapeOf test
    (← shapeOf consequent).join (← shapeOf alternate)
  | .call object method params body => do
    let array ← shapeOf object
    let element ← array.element
    guard (fitsParams shapes params [element, .data, array])
    methodShape array element (← shapeOf body) method
  | .reduce object _ params body => do
    let array ← shapeOf object
    let element ← array.element
    let accumulator ← element.join (← shapeOf body)
    guard (fitsParams shapes params [accumulator, element, .data, array])
    pure accumulator
  | .reduceFrom object _ params body initial => do
    let array ← shapeOf object
    let element ← array.element
    let accumulator ← (← shapeOf initial).join (← shapeOf body)
    guard (fitsParams shapes params [accumulator, element, .data, array])
    pure accumulator

def isData (e : Expression D) : Bool := shapeOf shapes bound e = some .data

mutual

/-- The statement stores in each variable what has its shape, and ends with data. -/
def keepsShapes : Statement D → Bool
  | .declare _ _ none => true
  | .declare _ target (some init) => (shapeOf shapes bound init).any (fitsTarget shapes target)
  | .assign name value => (shapeOf shapes bound value).any (·.fits (shapes name))
  | .update name operator value =>
    (shapeOf shapes bound value).any fun s =>
      operator.isStrict || shapes name = .data && s = .data
  | .evaluate expression => (shapeOf shapes bound expression).isSome
  | .ifThen test consequent => (shapeOf shapes bound test).isSome && keepsShapes consequent
  | .ifElse test consequent alternate =>
    (shapeOf shapes bound test).isSome && keepsShapes consequent && keepsShapes alternate
  | .forOf _ target right body =>
    ((shapeOf shapes bound right).bind Shape.element).any (fitsTarget shapes target) &&
      keepsShapes body
  | .throwing argument => isData shapes bound argument
  | .returning argument => argument.all (isData shapes bound)
  | .block body => allKeepShapes body

def allKeepShapes : List (Statement D) → Bool
  | [] => true
  | statement :: statements => keepsShapes statement && allKeepShapes statements

end

/-- `env` and its records have their shapes, and the statements keep to them. -/
def KeepsShapes (body : List (Statement D)) : Prop :=
  shapes (js "env") = .env ∧ shapes (js "records") = .records ∧ allKeepShapes shapes bound body = true

end Shapes

/-! ### Reading and binding -/

namespace Context

open Traced

variable {c : Context D} {allowed : JsString → Prop} {shapes : JsString → Shape} {bound : Names}

theorem ofData_meets (result : Except D D) :
    Meets allowed IsData (HasShape · .data) (ofData result : Evaluation D (Value D)) := by
  cases result with
  | error e => exact Meets.fail (.data e)
  | ok d => exact Meets.pure (.data d)

/-- A text is its own key. -/
theorem toKey_meets (v : Value D) : Meets allowed IsData
    (fun key => ∀ text, v = .data (c.string text) → key = text) (c.toKey v) := by
  rw [toKey]
  cases converted : c.key v with
  | error e => exact Meets.fail (.data e)
  | ok key =>
    refine Meets.pure fun text same => ?_
    rw [same, c.key_string] at converted
    exact (Except.ok.inj converted).symm

theorem allRecords_shape : HasShape c.allRecords .records := by
  refine .inr ⟨_, rfl, fun v member => ?_⟩
  obtain ⟨place, _, rfl⟩ := List.mem_map.mp member
  exact .inr ⟨place, rfl⟩

theorem element_shape {elements : List (Value D)} {s : Shape}
    (each : ∀ v ∈ elements, HasShape v s) (i : Nat) :
    HasShape (elements[i]?.getD (.data c.undefined)) s := by
  cases found : elements[i]? with
  | none => exact (IsData.data _).hasShape s
  | some v => exact each v (List.mem_of_getElem? found)

theorem array_property_meets {elements : List (Value D)} {s t : Shape} {key : JsString}
    (each : ∀ v ∈ elements, HasShape v s)
    (shape : t = s ∨ t = .data ∧ arrayIndex key = none) :
    Meets allowed IsData (HasShape · t) (c.readProperty (.array elements) key) := by
  rw [readProperty]
  cases index : arrayIndex key with
  | none => exact Meets.pure ((IsData.data _).hasShape t)
  | some i =>
    rcases shape with rfl | ⟨_, absent⟩
    · exact Meets.pure (element_shape each i)
    · cases index.symm.trans absent

theorem data_property_meets {v : Value D} (data : IsData v) (key : JsString) :
    Meets allowed IsData (HasShape · .data) (c.readProperty v key) := by
  cases data with
  | data d => exact ofData_meets _
  | array each => exact array_property_meets (s := .data) each (.inl rfl)

/-- A member has its shape; fields of records are read where they are recognised. -/
theorem readProperty_meets {v : Value D} {s t : Shape} {isRecognised : Bool}
    {name : Option JsString} {key : JsString} (has : HasShape v s)
    (shape : memberShape isRecognised s name = some t) (named : ∀ k ∈ name, k = key)
    (permitted : isRecognised = true → name = some key → key ≠ [] → key ≠ js "length" →
      allowed key) :
    Meets allowed IsData (HasShape · t) (c.readProperty v key) := by
  have any {w : Value D} (data : IsData w) : Meets allowed IsData (HasShape · t) (c.readProperty w key) :=
    (data_property_meets data key).imp fun _ has => IsData.hasShape has t
  cases s with
  | data => exact any has
  | env =>
    rcases has with data | rfl
    · exact any data
    · cases name with
      | none => cases shape
      | some k =>
        obtain rfl := named k rfl
        rw [memberShape, Option.some.injEq] at shape
        rw [readProperty, ← shape]
        refine Meets.pure ?_
        split_ifs
        · exact allRecords_shape
        · exact .data _
  | records =>
    rcases has with data | ⟨elements, rfl, each⟩
    · exact any data
    · cases name with
      | none =>
        cases shape
        exact array_property_meets (s := .record) each (.inl rfl)
      | some k =>
        obtain rfl := named k rfl
        rw [memberShape, Option.some.injEq] at shape
        refine array_property_meets (s := .record) each ?_
        split_ifs at shape with absent
        · exact .inr ⟨shape.symm, absent⟩
        · exact .inl shape.symm
  | record =>
    rcases has with data | ⟨place, rfl⟩
    · exact any data
    · cases name with
      | none => cases shape
      | some k =>
        obtain rfl := named k rfl
        rw [memberShape] at shape
        split_ifs at shape with seen
        cases shape
        rw [readProperty]
        refine (Meets.tell (permitted seen.1 rfl seen.2.1 seen.2.2)).bind fun _ _ => ?_
        exact Meets.pure (.data _)

/-- The values of names have the shapes of the names. -/
def Fit (shapes : JsString → Shape) (values : List (JsString × Value D)) : Prop :=
  ∀ entry ∈ values, HasShape entry.2 (shapes entry.1)

theorem bindTarget_meets {target : Target} {v : Value D} {s : Shape} (has : HasShape v s)
    (fits : fitsTarget shapes target s = true) :
    Meets allowed IsData (Fit shapes) (c.bindTarget target v) := by
  cases target with
  | identifier name =>
    refine Meets.pure fun entry member => ?_
    obtain rfl := List.mem_singleton.mp member
    exact has.fits fits
  | object first rest =>
    obtain rfl : s = .data := by simpa [fitsTarget] using fits
    refine Meets.each fun entry _ => (data_property_meets has entry.1).bind fun w data => ?_
    exact Meets.pure (IsData.hasShape data _)

theorem bindParams_meets {params : List Target} {arguments : List (Value D)} {kinds : List Shape}
    (has : List.Forall₂ HasShape arguments kinds) (fits : fitsParams shapes params kinds = true) :
    Meets allowed IsData (Fit shapes) (c.bindParams params arguments) := by
  induction params generalizing arguments kinds with
  | nil => exact Meets.pure (by rintro _ ⟨⟩)
  | cons param params ih =>
    rw [fitsParams, Bool.and_eq_true] at fits
    have head : HasShape (arguments.headD (.data c.undefined)) (kinds.headD .data) := by
      cases has with
      | nil => exact .data _
      | cons first _ => exact first
    have tail : List.Forall₂ HasShape arguments.tail kinds.tail := by
      cases has with
      | nil => exact .nil
      | cons _ rest => exact rest
    refine (bindTarget_meets head fits.1).bind fun first fit => ?_
    refine (ih tail fits.2).bind fun rest fitRest => ?_
    exact Meets.pure (List.forall_mem_append.mpr ⟨fit, fitRest⟩)

/-! ### Array methods -/

theorem receive_meets {v : Value D} {s t : Shape} (has : HasShape v s)
    (shape : s.element = some t) (method : JsString) :
    Meets allowed IsData (fun elements => ∀ w ∈ elements, HasShape w t) (c.receive v method) := by
  have plain {w : Value D} (data : IsData w) :
      Meets allowed IsData (fun elements => ∀ w ∈ elements, HasShape w t) (c.receive w method) := by
    refine (data_property_meets data method).bind fun _ _ => ?_
    cases data with
    | array each => exact Meets.pure fun w member => (each w member).hasShape t
    | data d =>
      cases found : c.arrayElements d with
      | none =>
        simp only [found]
        exact Meets.fail (.data _)
      | some ds =>
        simp only [found]
        refine Meets.pure fun w member => ?_
        obtain ⟨d, _, rfl⟩ := List.mem_map.mp member
        exact (IsData.data d).hasShape t
  cases s with
  | data => exact plain has
  | record | env => cases shape
  | records =>
    cases shape
    rcases has with data | ⟨elements, rfl, each⟩
    · exact plain data
    · refine (array_property_meets (s := .record) (t := .record) each (.inl rfl)).bind fun _ _ => ?_
      exact Meets.pure each

/-- What a callback of an array method gives. -/
def Returns (allowed : JsString → Prop) (element result : Shape)
    (callback : Value D → Nat → Evaluation D (Value D)) : Prop :=
  ∀ v, HasShape v element → ∀ place, Meets allowed IsData (HasShape · result) (callback v place)

variable {element result : Shape} {callback : Value D → Nat → Evaluation D (Value D)}
  {elements : List (Value D)}

theorem search_meets (returns : Returns allowed element result callback)
    (each : ∀ v ∈ elements, HasShape v element) (wanted : Bool) (place : Nat) :
    Meets allowed IsData (fun found => ∀ entry ∈ found, HasShape entry.1 element)
      (c.search callback wanted elements place) := by
  induction elements generalizing place with
  | nil => exact Meets.pure (by rintro _ ⟨⟩)
  | cons v vs ih =>
    obtain ⟨first, others⟩ := List.forall_mem_cons.mp each
    refine (returns v first place).bind fun w _ => ?_
    split_ifs
    · refine Meets.pure ?_
      rintro _ ⟨⟩
      exact first
    · exact ih others (place + 1)

theorem each_meets {post : Value D → Prop} {f : Value D × Nat → Evaluation D (Value D)}
    (one : ∀ v ∈ elements, ∀ place, Meets allowed IsData post (f (v, place))) :
    Meets allowed IsData (fun results => ∀ w ∈ results, post w) (each f elements.zipIdx) :=
  Meets.each fun entry member => one entry.1 (List.fst_mem_of_mem_zipIdx member) entry.2

theorem flattened_shape {s t : Shape} (shape : s.flat = some t) : ∃ u, u.array = some t ∧
    ∀ v, HasShape v s → ∀ w ∈ c.flattened v, HasShape w u := by
  have plain {v w : Value D} (data : IsData v) (member : w ∈ c.flattened v) : IsData w := by
    cases data with
    | array each => exact each w member
    | data d =>
      rw [flattened] at member
      cases found : c.arrayElements d with
      | none =>
        rw [found] at member
        obtain rfl := List.mem_singleton.mp member
        exact .data d
      | some ds =>
        rw [found] at member
        obtain ⟨e, _, rfl⟩ := List.mem_map.mp member
        exact .data e
  cases s with
  | env => cases shape
  | data =>
    cases shape
    exact ⟨.data, rfl, fun v has w member => plain has member⟩
  | record =>
    cases shape
    refine ⟨.record, rfl, fun v has w member => ?_⟩
    rcases has with data | ⟨place, rfl⟩
    · exact .inl (plain data member)
    · exact .inr ⟨place, List.mem_singleton.mp member⟩
  | records =>
    cases shape
    refine ⟨.record, rfl, fun v has w member => ?_⟩
    rcases has with data | ⟨elements, rfl, each⟩
    · exact .inl (plain data member)
    · exact each w member

theorem callMethod_meets {array s : Shape} (returns : Returns allowed element result callback)
    (each : ∀ v ∈ elements, HasShape v element) (sized : array.element = some element)
    {method : ArrayMethod} (shape : methodShape array element result method = some s) :
    Meets allowed IsData (HasShape · s) (c.callMethod callback elements method) := by
  have all : Meets allowed IsData (fun results => ∀ w ∈ results, HasShape w result)
      (Traced.each (fun entry => callback entry.1 entry.2) elements.zipIdx) :=
    each_meets fun v member place => returns v (each v member) place
  have found := search_meets (c := c) returns each
  cases method with
  | map =>
    refine all.bind fun results have' => Meets.pure ?_
    exact hasShape_array have' shape
  | forEach =>
    cases shape
    exact all.bind fun _ _ => Meets.pure (.data _)
  | filter =>
    cases shape
    have kept : Meets allowed IsData (fun results => ∀ ws ∈ results, ∀ w ∈ ws, HasShape w element)
        (Traced.each (fun entry => do
          let result ← callback entry.1 entry.2
          pure (if c.truthyValue result then [entry.1] else [])) elements.zipIdx) := by
      refine Meets.each fun entry member => ?_
      have first := each entry.1 (List.fst_mem_of_mem_zipIdx member)
      refine (returns entry.1 first entry.2).bind fun w _ => Meets.pure ?_
      split_ifs
      · exact List.forall_mem_singleton.mpr first
      · rintro _ ⟨⟩
    refine kept.bind fun results have' => Meets.pure ?_
    have flat : ∀ w ∈ results.flatten, HasShape w element := by
      intro w member
      obtain ⟨ws, present, member⟩ := List.mem_flatten.mp member
      exact have' ws present w member
    cases array with
    | data =>
      cases sized
      exact .array flat
    | records =>
      cases sized
      exact .inr ⟨_, rfl, flat⟩
    | record | env => cases sized
  | find =>
    cases shape
    refine (found true 0).bind fun entry have' => Meets.pure ?_
    cases entry with
    | none => exact (IsData.data _).hasShape _
    | some entry => exact have' entry rfl
  | some =>
    cases shape
    exact (found true 0).bind fun _ _ => Meets.pure (.data _)
  | every =>
    cases shape
    exact (found false 0).bind fun _ _ => Meets.pure (.data _)
  | flatMap =>
    obtain ⟨u, array', parts⟩ := flattened_shape (c := c) shape
    refine all.bind fun results have' => Meets.pure (hasShape_array (fun w member => ?_) array')
    obtain ⟨v, present, member⟩ := List.mem_flatMap.mp member
    exact parts v (have' v present) w member
  | findIndex =>
    cases shape
    refine (found true 0).bind fun entry _ => ?_
    cases entry with
    | none => exact ofData_meets _
    | some entry => exact Meets.pure (.data _)

theorem fold_meets {accumulator : Shape}
    {callback : Value D → Value D → Nat → Evaluation D (Value D)}
    (returns : ∀ v w place, HasShape v accumulator → HasShape w element →
      Meets allowed IsData (HasShape · accumulator) (callback v w place))
    {entries : List (Value D × Nat)} (each : ∀ entry ∈ entries, HasShape entry.1 element)
    {start : Value D} (has : HasShape start accumulator) :
    Meets allowed IsData (HasShape · accumulator) (fold callback entries start) := by
  induction entries generalizing start with
  | nil => exact Meets.pure has
  | cons entry entries ih =>
    obtain ⟨first, others⟩ := List.forall_mem_cons.mp each
    exact (returns start entry.1 entry.2 has first).bind fun next has => ih others has

theorem inOrder_shape (each : ∀ v ∈ elements, HasShape v element) (method : ReduceMethod) :
    ∀ entry ∈ inOrder elements method, HasShape entry.1 element := by
  intro entry member
  have present : entry ∈ elements.zipIdx := by
    cases method with
    | reduce => exact member
    | reduceRight => exact List.mem_reverse.mp member
  exact each entry.1 (List.fst_mem_of_mem_zipIdx present)

/-! ### Expressions -/

/-- Every variable has a value of its shape. -/
abbrev Typed (shapes : JsString → Shape) : Scopes (Value D) → Prop :=
  Scopes.Holds fun name v => HasShape v (shapes name)

/-- The fields that these nodes are charged for are allowed. -/
abbrev Charged (allowed : JsString → Prop) (bound : Names) (nodes : List Node) : Prop :=
  ∀ node ∈ nodes, ∀ field, queriedField bound node = some field → allowed field

theorem queriedField_recognised {object property : Node} {computed : Bool} {key : JsString}
    (seen : recognised bound object = true) (name : getPropertyName property computed = some key)
    (nonempty : key ≠ []) (other : key ≠ js "length") :
    queriedField bound (.memberExpression object property computed) = some key := by
  have charge : queriedField bound (.memberExpression object property computed) =
      ((propertyName property computed).filter (· ≠ js "length")).filter
        fun _ => recognised bound object := by
    cases object with
    | memberExpression records index computed => cases computed <;> rfl
    | _ => rfl
  have present : propertyName property computed = some key := by
    rw [propertyName, name, Option.filter_some, if_pos (by simpa using nonempty)]
  rw [charge, present, Option.filter_some, if_pos (by simpa using other), Option.filter_some,
    if_pos seen]

theorem guard_some {p : Prop} [Decidable p] {u : Unit} :
    (guard p : Option Unit) = some u ↔ p := by
  by_cases holds : p <;> simp [guard, holds]

theorem lookup_meets {scopes : Scopes (Value D)} (typed : Typed shapes scopes) (name : JsString) :
    Meets allowed IsData (HasShape · (shapes name)) (c.lookup scopes name) := by
  rw [lookup]
  cases found : Scopes.lookup name scopes with
  | none => exact Meets.fail (.data _)
  | some slot =>
    cases present : slot.value with
    | none =>
      simp only [present]
      exact Meets.fail (.data _)
    | some v =>
      simp only [present]
      exact Meets.pure (typed.lookup found present)

theorem applyBinary_meets (operator : BinaryOperator) (v w : Value D) :
    Meets allowed IsData (HasShape · .data) (c.applyBinary operator v w) := by
  cases operator with
  | strictEqual | strictNotEqual => exact Meets.pure (.data _)
  | _ => exact ofData_meets _

theorem applyUnary_meets (operator : UnaryOperator) (v : Value D) :
    Meets allowed IsData (HasShape · .data) (c.applyUnary operator v) := by
  cases operator with
  | not => exact Meets.pure (.data _)
  | _ => exact ofData_meets _

theorem typed_bind {values : List (JsString × Value D)} {scopes : Scopes (Value D)}
    (fit : Fit shapes values) (typed : Typed shapes scopes) :
    Typed shapes (Scopes.bind values ++ scopes) := by
  have inner : Typed shapes (Scopes.bind values) := Scopes.holds_bind fit
  exact inner.append typed

/-- An expression has its shape, and reads allowed fields only. -/
theorem eval_meets {e : Expression D} {s : Shape} {scopes : Scopes (Value D)}
    (typed : Typed shapes scopes) (shape : shapeOf shapes bound e = some s)
    (charged : Charged allowed bound (visited e.node)) :
    Meets allowed IsData (HasShape · s) (c.eval e scopes) := by
  induction e generalizing s scopes with
  | string value =>
    cases shape
    exact Meets.pure (.data _)
  | literal value =>
    cases shape
    exact Meets.pure (.data _)
  | identifier name =>
    cases shape
    exact lookup_meets typed name
  | member object name ih =>
    simp only [shapeOf, Option.bind_eq_bind, Option.bind_eq_some_iff] at shape
    obtain ⟨t, objectShape, shape⟩ := shape
    simp only [Expression.node, visited, List.forall_mem_append, List.forall_mem_singleton]
      at charged
    refine (ih typed objectShape charged.1.1).bind fun v has => ?_
    refine readProperty_meets has shape (by rintro _ ⟨⟩; rfl) fun seen _ nonempty other => ?_
    exact charged.2 name (queriedField_recognised seen rfl nonempty other)
  | index object property ihObject ihProperty =>
    simp only [shapeOf, Option.bind_eq_bind, Option.bind_eq_some_iff, guard_some] at shape
    obtain ⟨_, propertyShape, t, objectShape, shape⟩ := shape
    simp only [Expression.node, visited, List.forall_mem_append, List.forall_mem_singleton,
      if_true] at charged
    refine (ihObject typed objectShape charged.1.1).bind fun v has => ?_
    cases named : property.string? with
    | none =>
      refine (ihProperty typed propertyShape charged.1.2).bind fun w _ => ?_
      refine (toKey_meets w).bind fun key _ => ?_
      rw [named] at shape
      exact readProperty_meets has shape (by rintro _ ⟨⟩) (by rintro _ ⟨⟩)
    | some text =>
      cases property with
      | string value =>
        cases named
        have spelled : Meets allowed IsData (· = .data (c.string text))
            (c.eval (.string text) scopes) := Meets.pure rfl
        refine spelled.bind fun w same => ?_
        refine (toKey_meets w).bind fun key kept => ?_
        rw [kept text same]
        refine readProperty_meets has shape (by rintro _ ⟨⟩; rfl) fun seen _ nonempty other => ?_
        exact charged.2 text (queriedField_recognised seen rfl nonempty other)
      | _ => cases named
  | binary operator left right ihLeft ihRight =>
    simp only [shapeOf, Option.bind_eq_bind, Option.bind_eq_some_iff, guard_some] at shape
    obtain ⟨t, leftShape, u, rightShape, _, _, result⟩ := shape
    cases result
    simp only [Expression.node, visited, List.forall_mem_append] at charged
    refine (ihLeft typed leftShape charged.1.1).bind fun v _ => ?_
    refine (ihRight typed rightShape charged.1.2).bind fun w _ => ?_
    exact applyBinary_meets operator v w
  | logical operator left right ihLeft ihRight =>
    simp only [shapeOf, Option.bind_eq_bind, Option.bind_eq_some_iff] at shape
    obtain ⟨t, leftShape, u, rightShape, joined⟩ := shape
    simp only [Expression.node, visited, List.forall_mem_append] at charged
    obtain ⟨fitsLeft, fitsRight⟩ := Shape.join_fits joined
    refine (ihLeft typed leftShape charged.1.1).bind fun v has => ?_
    split_ifs
    · exact Meets.pure (has.fits fitsLeft)
    · exact (ihRight typed rightShape charged.1.2).imp fun w has => has.fits fitsRight
  | unary operator argument ih =>
    simp only [shapeOf, Option.bind_eq_bind, Option.bind_eq_some_iff, guard_some] at shape
    obtain ⟨t, argumentShape, _, _, result⟩ := shape
    cases result
    simp only [Expression.node, visited, List.forall_mem_append] at charged
    exact (ih typed argumentShape charged.1).bind fun v _ => applyUnary_meets operator v
  | conditional test consequent alternate ihTest ihConsequent ihAlternate =>
    simp only [shapeOf, Option.bind_eq_bind, Option.bind_eq_some_iff] at shape
    obtain ⟨_, testShape, t, consequentShape, u, alternateShape, joined⟩ := shape
    simp only [Expression.node, visited, List.forall_mem_append] at charged
    obtain ⟨fitsConsequent, fitsAlternate⟩ := Shape.join_fits joined
    refine (ihTest typed testShape charged.1.1.1).bind fun v _ => ?_
    split_ifs
    · exact (ihConsequent typed consequentShape charged.1.1.2).imp fun _ has =>
        has.fits fitsConsequent
    · exact (ihAlternate typed alternateShape charged.1.2).imp fun _ has => has.fits fitsAlternate
  | call object method params body ihObject ihBody =>
    simp only [shapeOf, Option.bind_eq_bind, Option.bind_eq_some_iff, guard_some] at shape
    obtain ⟨array, objectShape, element, sized, _, fits, t, bodyShape, shape⟩ := shape
    simp only [Expression.node, arrow, visited, visitedAll, List.forall_mem_append] at charged
    refine (ihObject typed objectShape charged.1.1.1.1).bind fun receiver has => ?_
    refine (receive_meets has sized method.name).bind fun elements each => ?_
    refine callMethod_meets (fun v hasElement place => ?_) each sized shape
    have arguments : List.Forall₂ HasShape [v, .data (c.number place), receiver]
        [element, .data, array] := .cons hasElement (.cons (.data _) (.cons has .nil))
    refine (bindParams_meets arguments fits).bind fun bound fit => ?_
    exact ihBody (typed_bind fit typed) bodyShape charged.1.2.1.1.2
  | reduce object method params body ihObject ihBody =>
    simp only [shapeOf, Option.bind_eq_bind, Option.bind_eq_some_iff, guard_some] at shape
    obtain ⟨array, objectShape, element, sized, t, bodyShape, accumulator, joined, _, fits, result⟩ :=
      shape
    cases result
    simp only [Expression.node, arrow, visited, visitedAll, List.forall_mem_append] at charged
    obtain ⟨fitsElement, fitsBody⟩ := Shape.join_fits joined
    refine (ihObject typed objectShape charged.1.1.1.1).bind fun receiver has => ?_
    refine (receive_meets has sized method.name).bind fun elements each => ?_
    have ordered := inOrder_shape each method
    cases entries : inOrder elements method with
    | nil => exact Meets.fail (.data _)
    | cons entry rest =>
      rw [entries, List.forall_mem_cons] at ordered
      refine fold_meets (fun v w place hasAccumulator hasElement => ?_) ordered.2
        (ordered.1.fits fitsElement)
      have arguments : List.Forall₂ HasShape [v, w, .data (c.number place), receiver]
          [s, element, .data, array] :=
        .cons hasAccumulator (.cons hasElement (.cons (.data _) (.cons has .nil)))
      refine (bindParams_meets arguments fits).bind fun bound fit => ?_
      exact (ihBody (typed_bind fit typed) bodyShape charged.1.2.1.1.2).imp fun _ has =>
        has.fits fitsBody
  | reduceFrom object method params body initial ihObject ihBody ihInitial =>
    simp only [shapeOf, Option.bind_eq_bind, Option.bind_eq_some_iff, guard_some] at shape
    obtain ⟨array, objectShape, element, sized, u, initialShape, t, bodyShape, accumulator, joined,
      _, fits, result⟩ := shape
    cases result
    simp only [Expression.node, arrow, visited, visitedAll, List.forall_mem_append] at charged
    obtain ⟨fitsInitial, fitsBody⟩ := Shape.join_fits joined
    refine (ihObject typed objectShape charged.1.1.1.1).bind fun receiver has => ?_
    refine (ihInitial typed initialShape charged.1.2.2.1).bind fun start hasStart => ?_
    refine (receive_meets has sized method.name).bind fun elements each => ?_
    refine fold_meets (fun v w place hasAccumulator hasElement => ?_) (inOrder_shape each method)
      (hasStart.fits fitsInitial)
    have arguments : List.Forall₂ HasShape [v, w, .data (c.number place), receiver]
        [s, element, .data, array] :=
      .cons hasAccumulator (.cons hasElement (.cons (.data _) (.cons has .nil)))
    refine (bindParams_meets arguments fits).bind fun bound fit => ?_
    exact (ihBody (typed_bind fit typed) bodyShape charged.1.2.1.1.2).imp fun _ has =>
      has.fits fitsBody

/-! ### Statements -/

/-- The variables keep their shapes, and a returned value is data. -/
structure Finishes (shapes : JsString → Shape) (completion : Completion D) : Prop where
  typed : Typed shapes completion.1
  returned : ∀ v ∈ completion.2, HasShape v .data

theorem Finishes.normal {scopes : Scopes (Value D)} (typed : Typed shapes scopes) :
    Finishes shapes (scopes, none) :=
  ⟨typed, by rintro _ ⟨⟩⟩

theorem assignTo_meets {scopes : Scopes (Value D)} (typed : Typed shapes scopes) {name : JsString}
    {v : Value D} (has : HasShape v (shapes name)) :
    Meets allowed IsData (Finishes shapes) (c.assignTo scopes name v) := by
  rw [assignTo]
  cases Scopes.lookup name scopes with
  | none => exact Meets.fail (.data _)
  | some slot =>
    simp only
    split_ifs
    · exact Meets.fail (.data _)
    · exact Meets.fail (.data _)
    · exact Meets.pure (.normal (typed.store has))

theorem iterate_meets {v : Value D} {s t : Shape} (has : HasShape v s)
    (shape : s.element = some t) :
    Meets allowed IsData (fun elements => ∀ w ∈ elements, HasShape w t) (c.iterate v) := by
  have plain {w : Value D} (data : IsData w) :
      Meets allowed IsData (fun elements => ∀ w ∈ elements, HasShape w t) (c.iterate w) := by
    cases data with
    | array each => exact Meets.pure fun w member => (each w member).hasShape t
    | data d =>
      rw [iterate]
      cases c.iterated d with
      | none => exact Meets.fail (.data _)
      | some ds =>
        refine Meets.pure fun w member => ?_
        obtain ⟨d, _, rfl⟩ := List.mem_map.mp member
        exact (IsData.data d).hasShape t
  cases s with
  | data => exact plain has
  | record | env => cases shape
  | records =>
    cases shape
    rcases has with data | ⟨elements, rfl, each⟩
    · exact plain data
    · exact Meets.pure each

theorem loop_meets {s : Shape}
    {body : Value D → Scopes (Value D) → Evaluation D (Completion D)}
    (one : ∀ v scopes, HasShape v s → Typed shapes scopes →
      Meets allowed IsData (Finishes shapes) (body v scopes))
    {elements : List (Value D)} (each : ∀ v ∈ elements, HasShape v s)
    {scopes : Scopes (Value D)} (typed : Typed shapes scopes) :
    Meets allowed IsData (Finishes shapes) (loop body elements scopes) := by
  induction elements generalizing scopes with
  | nil => exact Meets.pure (.normal typed)
  | cons v vs ih =>
    obtain ⟨first, others⟩ := List.forall_mem_cons.mp each
    refine (one v scopes first typed).bind fun completion finishes => ?_
    obtain ⟨after, returned⟩ := completion
    cases returned with
    | none => exact ih others finishes.typed
    | some result => exact Meets.pure finishes

theorem typed_slots {slots scopes : Scopes (Value D)} (empty : ∀ slot ∈ slots, slot.value = none)
    (typed : Typed shapes scopes) : Typed shapes (slots ++ scopes) := by
  refine Scopes.Holds.append (fun slot member v present => ?_) typed
  cases (empty slot member).symm.trans present

theorem declaredSlots_empty (kind : DeclarationKind) (target : Target) :
    ∀ slot ∈ (declaredSlots kind target : Scopes (Value D)), slot.value = none := by
  intro slot member
  rw [declaredSlots] at member
  split_ifs at member
  · cases member
  · obtain ⟨name, _, rfl⟩ := List.mem_map.mp member
    rfl

theorem lexicalSlots_empty (body : List (Statement D)) :
    ∀ slot ∈ body.flatMap lexicalSlots, slot.value = none := by
  intro slot member
  obtain ⟨statement, _, member⟩ := List.mem_flatMap.mp member
  cases statement with
  | declare kind target init => exact declaredSlots_empty kind target slot member
  | _ => cases member

mutual

theorem exec_meets (statement : Statement D) {scopes : Scopes (Value D)}
    (typed : Typed shapes scopes) (keeps : keepsShapes shapes bound statement = true)
    (charged : Charged allowed bound (visited statement.node)) :
    Meets allowed IsData (Finishes shapes) (c.exec statement scopes) := by
  cases statement with
  | declare kind target init =>
    cases init with
    | none =>
      rw [exec]
      refine Meets.pure (.normal ?_)
      split_ifs
      · exact typed
      · refine typed.storeAll fun entry member => ?_
        obtain ⟨name, _, rfl⟩ := List.mem_map.mp member
        exact (IsData.data _).hasShape _
    | some init =>
      obtain ⟨s, shape, fits⟩ := (Option.any_eq_true _ _).mp keeps
      simp only [Statement.node, Option.map_some, visited, visitedAll, visitedOption,
        List.forall_mem_append] at charged
      rw [exec]
      refine (eval_meets typed shape charged.1.1.1.2).bind fun v has => ?_
      refine (bindTarget_meets has fits).bind fun values fit => ?_
      exact Meets.pure (.normal (typed.storeAll fit))
  | assign name value =>
    obtain ⟨s, shape, fits⟩ := (Option.any_eq_true _ _).mp keeps
    simp only [Statement.node, visited, visitedAll, List.forall_mem_append] at charged
    rw [exec]
    exact (eval_meets typed shape charged.1.1.1.2).bind fun v has =>
      assignTo_meets typed (has.fits fits)
  | update name operator value =>
    obtain ⟨s, shape, _⟩ := (Option.any_eq_true _ _).mp keeps
    simp only [Statement.node, visited, visitedAll, List.forall_mem_append] at charged
    rw [exec]
    refine (lookup_meets typed name).bind fun v _ => ?_
    refine (eval_meets typed shape charged.1.1.1.2).bind fun w _ => ?_
    refine (applyBinary_meets operator v w).bind fun result data => ?_
    exact assignTo_meets typed (IsData.hasShape data _)
  | evaluate expression =>
    obtain ⟨s, shape⟩ := Option.isSome_iff_exists.mp keeps
    simp only [Statement.node, visited, visitedAll, List.forall_mem_append] at charged
    rw [exec]
    exact (eval_meets typed shape charged.1.1).bind fun _ _ => Meets.pure (.normal typed)
  | ifThen test consequent =>
    simp only [keepsShapes, Bool.and_eq_true, Option.isSome_iff_exists] at keeps
    obtain ⟨⟨s, shape⟩, keeps⟩ := keeps
    simp only [Statement.node, visited, visitedAll, List.forall_mem_append] at charged
    rw [exec]
    refine (eval_meets typed shape charged.1.1).bind fun v _ => ?_
    split_ifs
    · exact exec_meets consequent typed keeps charged.1.2.1
    · exact Meets.pure (.normal typed)
  | ifElse test consequent alternate =>
    simp only [keepsShapes, Bool.and_eq_true, Option.isSome_iff_exists] at keeps
    obtain ⟨⟨⟨s, shape⟩, keepsConsequent⟩, keepsAlternate⟩ := keeps
    simp only [Statement.node, visited, visitedAll, List.forall_mem_append] at charged
    rw [exec]
    refine (eval_meets typed shape charged.1.1).bind fun v _ => ?_
    split_ifs
    · exact exec_meets consequent typed keepsConsequent charged.1.2.1
    · exact exec_meets alternate typed keepsAlternate charged.1.2.2.1
  | forOf kind target right body =>
    simp only [keepsShapes, Bool.and_eq_true, Option.any_eq_true, Option.bind_eq_some_iff] at keeps
    obtain ⟨⟨element, ⟨s, shape, sized⟩, fits⟩, keeps⟩ := keeps
    simp only [Statement.node, visited, visitedAll, List.forall_mem_append] at charged
    have inner {scopes : Scopes (Value D)} (typed : Typed shapes scopes) :
        Typed shapes (declaredSlots kind target ++ scopes) :=
      typed_slots (declaredSlots_empty kind target) typed
    rw [exec]
    refine (eval_meets (inner typed) shape charged.1.1.2).bind fun v has => ?_
    refine (iterate_meets has sized).bind fun elements each => ?_
    refine loop_meets (fun w scopes has typed => ?_) each typed
    refine (bindTarget_meets has fits).bind fun values fit => ?_
    refine (exec_meets body ((inner typed).storeAll fit) keeps charged.1.2).bind
      fun completion finishes => ?_
    exact Meets.pure ⟨finishes.typed.drop _, finishes.returned⟩
  | throwing argument =>
    have shape : shapeOf shapes bound argument = some .data := of_decide_eq_true keeps
    simp only [Statement.node, visited, visitedAll, List.forall_mem_append] at charged
    rw [exec]
    exact (eval_meets typed shape charged.1.1).bind fun v data => Meets.fail data
  | returning argument =>
    rw [exec]
    cases argument with
    | none => exact Meets.pure ⟨typed, by rintro _ ⟨⟩; exact .data _⟩
    | some argument =>
      have shape : shapeOf shapes bound argument = some .data := of_decide_eq_true keeps
      simp only [Statement.node, Option.map_some, visited, visitedOption,
        List.forall_mem_append] at charged
      exact (eval_meets typed shape charged.1).bind fun v data =>
        Meets.pure ⟨typed, by rintro _ ⟨⟩; exact data⟩
  | block body =>
    simp only [Statement.node, visited, List.forall_mem_append] at charged
    rw [exec]
    refine (execAll_meets body (typed_slots (lexicalSlots_empty body) typed) keeps charged.1).bind
      fun completion finishes => ?_
    exact Meets.pure ⟨finishes.typed.drop _, finishes.returned⟩

theorem execAll_meets (statements : List (Statement D)) {scopes : Scopes (Value D)}
    (typed : Typed shapes scopes) (keeps : allKeepShapes shapes bound statements = true)
    (charged : Charged allowed bound (visitedAll (statementNodes statements))) :
    Meets allowed IsData (Finishes shapes) (c.execAll statements scopes) := by
  cases statements with
  | nil => exact Meets.pure (.normal typed)
  | cons statement statements =>
    rw [allKeepShapes, Bool.and_eq_true] at keeps
    simp only [statementNodes, visitedAll, List.forall_mem_append] at charged
    rw [execAll]
    refine (exec_meets statement typed keeps.1 charged.1).bind fun completion finishes => ?_
    obtain ⟨after, returned⟩ := completion
    cases returned with
    | none => exact execAll_meets statements finishes.typed keeps.2 charged.2
    | some result => exact Meets.pure finishes

end

end Context

end NeuralMesh.Security
