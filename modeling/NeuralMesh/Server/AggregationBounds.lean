import NeuralMesh.Server.AggregationPolicy

/-! What an accepted value contains. JSON texts count as the values they parse to; the check does
not look at the strings of an array without objects, and does not count the objects of an array
with other elements. -/
namespace NeuralMesh.Server

open Js

/-- The value with the JSON texts in it parsed, at every depth. -/
def decoded : JsValue → JsValue
  | .str s =>
    match _found : jsonDocument s with
    | some document => decoded document
    | none => .str s
  | .arr elements => .arr (elements.attach.map fun v => decoded v.1)
  | .obj members => .obj (members.attach.map fun m => (m.1.1, decoded m.1.2))
  | v => v
termination_by v => weight v
decreasing_by
  · exact jsonDocument_weight _found
  · have bound := weight_le_of_mem v.2
    rw [weight]
    omega
  · have bound := weight_le_of_mem_members m.2
    rw [weight]
    omega

theorem decoded_document {s : JsString} {document : JsValue}
    (found : jsonDocument s = some document) : decoded (.str s) = decoded document := by
  rw [decoded]
  split
  · next parsed same =>
    rw [found, Option.some.injEq] at same
    rw [same]
  · next absent => cases found.symm.trans absent

theorem decoded_text {s : JsString} (absent : jsonDocument s = none) :
    decoded (.str s) = .str s := by
  rw [decoded]
  split
  · next found => cases absent.symm.trans found
  · rfl

@[simp] theorem decoded_arr (elements : List JsValue) :
    decoded (.arr elements) = .arr (elements.map decoded) := by
  rw [decoded]
  simp only [List.map_subtype, List.unattach_attach]

@[simp] theorem decoded_obj (members : Members) :
    decoded (.obj members) = .obj (members.map fun m => (m.1, decoded m.2)) := by
  rw [decoded]
  simp only [List.map_subtype, List.unattach_attach]

theorem decoded_parseUnknownJson (v : JsValue) : decoded (parseUnknownJson v) = decoded v := by
  cases v with
  | str s =>
    rw [parseUnknownJson]
    cases found : jsonDocument s with
    | none => rfl
    | some document => exact (decoded_document found).symm
  | _ => rfl

/-! ### Bounds -/

section Policy

variable (policyObj : Option AggregationFirst)

/-- What the policy says about one array or object. -/
def isBounded : JsValue → Bool
  | .arr elements =>
    !exceeds (elements.countP isContainer) (AggregationFirst.maxRows policyObj) &&
      (AggregationFirst.allowPrimitives policyObj || elements.all isContainer)
  | .obj members => !exceeds members.length (AggregationFirst.maxRows policyObj)
  | _ => true

def Bounded (v : JsValue) : Prop := ∀ p, Inner p v → isBounded policyObj p = true

theorem bounded_arr {elements : List JsValue} : Bounded policyObj (.arr elements) ↔
    isBounded policyObj (.arr elements) = true ∧ ∀ v ∈ elements, Bounded policyObj v := by
  constructor
  · intro bounded
    exact ⟨bounded _ .self, fun v member p inner => bounded p (.element member inner)⟩
  · rintro ⟨here, below⟩ p inner
    cases inner with
    | self => exact here
    | element member inner => exact below _ member p inner

theorem bounded_obj {members : Members} : Bounded policyObj (.obj members) ↔
    isBounded policyObj (.obj members) = true ∧ ∀ m ∈ members, Bounded policyObj m.2 := by
  constructor
  · intro bounded
    exact ⟨bounded _ .self, fun m member p inner => bounded p (.member member inner)⟩
  · rintro ⟨here, below⟩ p inner
    cases inner with
    | self => exact here
    | member member inner => exact below _ member p inner

/-! ### What the check comes to -/

variable (recordsCount : Nat)

/-- `Reached p v`: the check of `v` comes to `p`. -/
inductive Reached (p : JsValue) : JsValue → Prop where
  | self : Reached p p
  | document {s : JsString} {v : JsValue} : jsonDocument s = some v → Reached p v →
      Reached p (.str s)
  | element {v : JsValue} {elements : List JsValue} :
      v ∈ elements → elements.any isContainer = true → Reached p v → Reached p (.arr elements)
  | member {m : JsString × JsValue} {members : Members} :
      m ∈ members → Reached p m.2 → Reached p (.obj members)

/-- What the check objects to in one array or object. -/
def isFlagged : JsValue → Bool
  | .arr elements =>
    if elements.any isContainer then
      elements.all isContainer && exceeds elements.length (AggregationFirst.maxRows policyObj)
    else !elements.isEmpty && !AggregationFirst.allowPrimitives policyObj
  | .obj members =>
    (0 < recordsCount && recordsCount < 10 &&
        (3 < members.length || members.any fun m => isContainer m.2)) ||
      exceeds members.length (AggregationFirst.maxRows policyObj)
  | _ => false

def Flagged (v : JsValue) : Prop :=
  ∃ p, Reached p v ∧ isFlagged policyObj recordsCount p = true

/-- What the check passes over in an array: the count of objects and the primitives beside them,
or all that is in the strings of an array without objects. -/
def Overlooked : JsValue → Prop
  | .arr elements =>
    if elements.any isContainer then isBounded policyObj (.arr (elements.map decoded)) = false
    else ¬ Bounded policyObj (.arr (elements.map decoded))
  | _ => False

end Policy

variable {policyObj : Option AggregationFirst} {recordsCount : Nat} {v : JsValue}

theorem exportsRows_flagged_arr (elements : List JsValue) :
    exportsRows policyObj recordsCount (.arr elements) =
      (isFlagged policyObj recordsCount (.arr elements) ||
        elements.any isContainer && elements.any (exportsRows policyObj recordsCount)) := by
  have primitive : elements.all (!isContainer ·) = !elements.any isContainer :=
    List.not_any_eq_all_not.symm
  cases elements with
  | nil => simp [exportsRows_arr, isFlagged]
  | cons v vs =>
    rw [exportsRows_arr, primitive, isFlagged]
    cases mixed : (v :: vs).any isContainer with
    | true => cases (v :: vs).all isContainer <;> simp
    | false =>
      have other : (v :: vs).all isContainer = false := by
        rw [List.any_cons, Bool.or_eq_false_iff] at mixed
        rw [List.all_cons, mixed.1, Bool.false_and]
      simp [other]

theorem exportsRows_flagged_obj (members : Members) :
    exportsRows policyObj recordsCount (.obj members) =
      (isFlagged policyObj recordsCount (.obj members) ||
        members.any fun m => exportsRows policyObj recordsCount m.2) :=
  exportsRows_obj members

/-- The check objects to a value where it objects to something that it comes to. -/
theorem exportsRows_iff (v : JsValue) :
    exportsRows policyObj recordsCount v = true ↔ Flagged policyObj recordsCount v := by
  constructor
  · intro violates
    induction v using induct_documents with
    | document s document found ih =>
      rw [exportsRows_str, found] at violates
      obtain ⟨p, reached, flagged⟩ := ih violates
      exact ⟨p, .document found reached, flagged⟩
    | text s absent =>
      rw [exportsRows_str, absent] at violates
      cases violates
    | arr elements ih =>
      rw [exportsRows_flagged_arr, Bool.or_eq_true, Bool.and_eq_true] at violates
      rcases violates with here | ⟨mixed, below⟩
      · exact ⟨_, .self, here⟩
      · obtain ⟨v, member, below⟩ := List.any_eq_true.mp below
        obtain ⟨p, reached, flagged⟩ := ih v member below
        exact ⟨p, .element member mixed reached, flagged⟩
    | obj members ih =>
      rw [exportsRows_flagged_obj, Bool.or_eq_true, List.any_eq_true] at violates
      rcases violates with here | ⟨m, member, below⟩
      · exact ⟨_, .self, here⟩
      · obtain ⟨p, reached, flagged⟩ := ih m member below
        exact ⟨p, .member member reached, flagged⟩
    | _ => simp [exportsRows] at violates
  · rintro ⟨p, reached, flagged⟩
    induction reached with
    | self =>
      cases p with
      | arr elements => rw [exportsRows_flagged_arr, flagged, Bool.true_or]
      | obj members => rw [exportsRows_flagged_obj, flagged, Bool.true_or]
      | _ => cases flagged
    | document found _ ih => rwa [exportsRows_str, found]
    | element member mixed _ ih =>
      rw [exportsRows_flagged_arr, mixed, List.any_eq_true.mpr ⟨_, member, ih⟩, Bool.and_self,
        Bool.or_true]
    | member member _ ih =>
      rw [exportsRows_flagged_obj, List.any_eq_true.mpr ⟨_, member, ih⟩, Bool.or_true]

/-! ### Accepted values -/

theorem bounded_scalar {v : JsValue} (scalar : isContainer v = false) : Bounded policyObj v := by
  intro p inner
  cases inner with
  | self =>
    cases v with
    | arr | obj => cases scalar
    | _ => rfl
  | element | member => cases scalar

/-- The bounds of a value are those of what the check comes to. -/
theorem bounded_reached {p v : JsValue} (reached : Reached p v)
    (bounded : Bounded policyObj (decoded v)) : Bounded policyObj (decoded p) := by
  induction reached with
  | self => exact bounded
  | document found _ ih =>
    rw [decoded_document found] at bounded
    exact ih bounded
  | element member _ _ ih =>
    rw [decoded_arr, bounded_arr] at bounded
    exact ih (bounded.2 _ (List.mem_map_of_mem member))
  | @member m members member _ ih =>
    rw [decoded_obj, bounded_obj] at bounded
    exact ih (bounded.2 _ (List.mem_map_of_mem (f := fun m => (m.1, decoded m.2)) member))

theorem overlooked_unbounded {p : JsValue} (overlooked : Overlooked policyObj p) :
    ¬ Bounded policyObj (decoded p) := by
  cases p with
  | arr elements =>
    rw [decoded_arr]
    intro bounded
    rw [Overlooked] at overlooked
    split_ifs at overlooked
    · exact Bool.false_ne_true (overlooked.symm.trans (bounded _ .self))
    · exact overlooked bounded
  | _ => exact overlooked.elim

/-- A value that is not objected to is within the bounds if nothing in it is overlooked. -/
theorem bounded_of_seen {v : JsValue} (clean : ¬ Flagged policyObj recordsCount v)
    (seen : ∀ p, Reached p v → ¬ Overlooked policyObj p) : Bounded policyObj (decoded v) := by
  induction v using induct_documents with
  | document s document found ih =>
    rw [decoded_document found]
    apply ih
    · rintro ⟨p, reached, flagged⟩
      exact clean ⟨p, .document found reached, flagged⟩
    · exact fun p reached => seen p (.document found reached)
  | text s absent =>
    rw [decoded_text absent]
    exact bounded_scalar rfl
  | arr elements ih =>
    have here := seen _ .self
    rw [decoded_arr]
    rw [Overlooked] at here
    split_ifs at here with mixed
    · refine (bounded_arr policyObj).mpr ⟨(Bool.not_eq_false _).mp here, ?_⟩
      rintro _ mapped
      obtain ⟨v, member, rfl⟩ := List.mem_map.mp mapped
      apply ih v member
      · rintro ⟨p, reached, flagged⟩
        exact clean ⟨p, .element member mixed reached, flagged⟩
      · exact fun p reached => seen p (.element member mixed reached)
    · exact not_not.mp here
  | obj members ih =>
    rw [decoded_obj]
    refine (bounded_obj policyObj).mpr ⟨?_, ?_⟩
    · have few : exceeds members.length (AggregationFirst.maxRows policyObj) = false := by
        by_contra many
        refine clean ⟨_, .self, ?_⟩
        rw [isFlagged, (Bool.not_eq_false _).mp many, Bool.or_true]
      rw [isBounded, List.length_map, few]
      rfl
    · rintro _ mapped
      obtain ⟨m, member, rfl⟩ := List.mem_map.mp mapped
      apply ih m member
      · rintro ⟨p, reached, flagged⟩
        exact clean ⟨p, .member member reached, flagged⟩
      · exact fun p reached => seen p (.member member reached)
  | _ => exact bounded_scalar (by rw [decoded] <;> simp [isContainer])

theorem violates_iff (enforced : AggregationFirst.isEnforced policyObj = true) :
    violatesAggregationFirstPolicy policyObj recordsCount v = false ↔
      ¬ Flagged policyObj recordsCount v := by
  rw [violatesAggregationFirstPolicy, enforced, Bool.true_and, ← exportsRows_iff,
    Bool.not_eq_true]

/-- An accepted value is within the bounds exactly if nothing in it is overlooked. -/
theorem accepted_bounded_iff (enforced : AggregationFirst.isEnforced policyObj = true) :
    (violatesAggregationFirstPolicy policyObj recordsCount v = false →
        Bounded policyObj (decoded v)) ↔
      Flagged policyObj recordsCount v ∨ ∀ p, Reached p v → ¬ Overlooked policyObj p := by
  rw [violates_iff enforced]
  constructor
  · intro accepted
    by_cases flagged : Flagged policyObj recordsCount v
    · exact .inl flagged
    · refine .inr fun p reached overlooked => ?_
      exact overlooked_unbounded overlooked (bounded_reached reached (accepted flagged))
  · rintro (flagged | seen) clean
    · exact absurd flagged clean
    · exact bounded_of_seen clean seen

def countSummary : JsValue := .obj [(js "count", .num (.finite (Decimal.normalize 12 0)))]

theorem countSummary_bounded : Bounded (some (.flag true)) (decoded countSummary) := by
  have seen : ∀ p, Reached p countSummary → ¬ Overlooked (some (.flag true)) p := by
    intro p reached overlooked
    cases reached with
    | self => exact overlooked
    | member member reached =>
      obtain rfl := List.mem_singleton.mp member
      cases reached
      exact overlooked
  have accepted : violatesAggregationFirstPolicy (some (.flag true)) 12 countSummary = false := by
    have few : exceeds 1 (AggregationFirst.maxRows (some (.flag true))) = false := by decide
    rw [violatesAggregationFirstPolicy, countSummary, exportsRows_obj]
    simp [exportsRows, few]
  exact (accepted_bounded_iff rfl).mpr (.inr seen) accepted

/-- Eleven rows beside `null`. -/
def mixedRows : JsValue := .arr (.null :: List.replicate 11 (.obj []))

theorem mixedRows_unbounded : ¬ (violatesAggregationFirstPolicy (some (.flag true)) 12 mixedRows =
    false → Bounded (some (.flag true)) (decoded mixedRows)) := by
  intro bounded
  have accepted : violatesAggregationFirstPolicy (some (.flag true)) 12 mixedRows = false := by
    have none : exceeds 0 (AggregationFirst.maxRows (some (.flag true))) = false := by decide
    have row : exportsRows (some (.flag true)) 12 (.obj []) = false := by
      simp [exportsRows_obj, none]
    rw [violatesAggregationFirstPolicy, mixedRows, exportsRows_arr]
    simp [isContainer, exportsRows, row]
  have rows := bounded accepted _ .self
  rw [mixedRows, decoded_arr, List.map_cons, List.map_replicate, decoded_obj, decoded] at rows
  · exact absurd rows (by decide)
  all_goals simp

/-! ### Small data sets -/

/-- A scalar, or an object of at most three scalars. -/
def isFlat : JsValue → Bool
  | .arr _ => false
  | .obj members => members.length ≤ 3 && members.all (!isContainer ·.2)
  | _ => true

def isJsonText : JsValue → Bool
  | .str s => (jsonDocument s).isSome
  | _ => false

/-- No array, and no object with a JSON text for a member. -/
def isShallow : JsValue → Bool
  | .arr _ => false
  | .obj members => members.all (!isJsonText ·.2)
  | _ => true

theorem isContainer_decoded (v : JsValue) :
    isContainer (decoded v) = (isContainer v || isJsonText v) := by
  cases v with
  | str s =>
    rw [isJsonText, show isContainer (.str s) = false from rfl, Bool.false_or]
    cases found : jsonDocument s with
    | none =>
      rw [decoded_text found]
      rfl
    | some document =>
      have container := jsonDocument_container found
      rw [decoded_document found]
      cases document with
      | arr elements =>
        rw [decoded_arr]
        rfl
      | obj members =>
        rw [decoded_obj]
        rfl
      | _ => cases container
  | arr elements =>
    rw [decoded_arr]
    rfl
  | obj members =>
    rw [decoded_obj]
    rfl
  | _ => rw [decoded] <;> simp [isContainer, isJsonText]

theorem isJsonText_parseUnknownJson (v : JsValue) : isJsonText (parseUnknownJson v) = false := by
  cases v with
  | str s =>
    rw [parseUnknownJson]
    cases found : jsonDocument s with
    | none =>
      rw [Option.getD_none, isJsonText, found]
      rfl
    | some document =>
      have container := jsonDocument_container found
      rw [Option.getD_some]
      cases document with
      | arr | obj => rfl
      | _ => cases container
  | _ => rfl

theorem isFlat_decoded_obj {members : Members} (flat : isFlat (.obj members) = true) :
    isFlat (decoded (.obj members)) = isShallow (.obj members) := by
  rw [isFlat, Bool.and_eq_true, List.all_eq_true] at flat
  rw [decoded_obj, isFlat, isShallow, List.length_map, flat.1, Bool.true_and, List.all_map,
    Bool.eq_iff_iff, List.all_eq_true, List.all_eq_true]
  refine forall₂_congr fun m member => ?_
  have scalar := Bool.not_eq_true' _ ▸ flat.2 m member
  rw [Function.comp_apply, isContainer_decoded, scalar, Bool.false_or]

/-- The check objects to an object that is not flat. -/
theorem isFlagged_of_not_flat (positive : 0 < recordsCount) (few : recordsCount < 10)
    {members : Members} (nested : isFlat (.obj members) = false) :
    isFlagged policyObj recordsCount (.obj members) = true := by
  have blocked : (decide (3 < members.length) || members.any fun m => isContainer m.2) = true := by
    rw [isFlat, Bool.and_eq_false_iff, decide_eq_false_iff_not, Nat.not_le] at nested
    rcases nested with many | container
    · rw [decide_eq_true many, Bool.true_or]
    · obtain ⟨m, member, container⟩ := List.all_eq_false.mp container
      have inside : isContainer m.2 = true := by simpa using container
      rw [List.any_eq_true.mpr ⟨m, member, inside⟩, Bool.or_true]
  rw [isFlagged, decide_eq_true positive, decide_eq_true few, blocked]
  rfl

/-- Of a small data set an accepted value is flat exactly if it is neither an array nor holds a
JSON text. -/
theorem accepted_flat_iff (enforced : AggregationFirst.isEnforced policyObj = true)
    (positive : 0 < recordsCount) (few : recordsCount < 10) :
    (violatesAggregationFirstPolicy policyObj recordsCount v = false → isFlat (decoded v) = true) ↔
      Flagged policyObj recordsCount v ∨ isShallow (parseUnknownJson v) = true := by
  have settled := isJsonText_parseUnknownJson v
  rw [violates_iff enforced, ← exportsRows_iff, ← exportsRows_parseUnknownJson,
    ← decoded_parseUnknownJson]
  generalize parseUnknownJson v = w at settled
  rw [or_iff_not_imp_left]
  refine imp_congr_right fun accepted => ?_
  cases w with
  | arr elements => rw [decoded_arr, isFlat, isShallow]
  | obj members =>
    cases flat : isFlat (.obj members) with
    | true => rw [isFlat_decoded_obj flat]
    | false =>
      refine absurd ?_ accepted
      rw [exportsRows_flagged_obj, isFlagged_of_not_flat positive few flat, Bool.true_or]
  | str s =>
    rw [isJsonText, Option.isSome_eq_false_iff, Option.isNone_iff_eq_none] at settled
    rw [decoded_text settled, isFlat, isShallow] <;> simp
  | _ => rw [decoded] <;> simp [isFlat, isShallow]

theorem countSummary_flat : isFlat (decoded countSummary) = true := by
  have few : exceeds 1 (AggregationFirst.maxRows (some (.flag true))) = false := by decide
  have accepted : violatesAggregationFirstPolicy (some (.flag true)) 3 countSummary = false := by
    rw [violatesAggregationFirstPolicy, countSummary, exportsRows_obj]
    simp [exportsRows, few, isContainer]
  exact (accepted_flat_iff rfl (by decide) (by decide)).mpr (.inr rfl) accepted

/-- An array of scalars passes the check of a small data set. -/
theorem scalars_not_flat : ¬ (violatesAggregationFirstPolicy (some (.flag true)) 3
    (.arr [.bool true, .bool false]) = false → isFlat (decoded (.arr [.bool true, .bool false])) =
      true) := by
  intro flat
  have accepted : violatesAggregationFirstPolicy (some (.flag true)) 3
      (.arr [.bool true, .bool false]) = false := by
    rw [violatesAggregationFirstPolicy, exportsRows_arr]
    rfl
  have shape := flat accepted
  rw [decoded_arr, isFlat] at shape
  cases shape

end NeuralMesh.Server
