import NeuralMesh.Js.Document

/-! The aggregation check: what may leave the server is a flat summary, no export of
rows. The check looks through arrays, objects and JSON strings; an envelope around the
business value is taken off before. -/
namespace NeuralMesh.Server

open Js

structure AggregationPolicy where
  maxOutputRows : Option JsNumber
  allowPrimitiveArrays : Option Bool
  minMaxBlockThreshold : Option JsNumber

/-- `boolean | AggregationPolicy` -/
inductive AggregationFirst where
  | flag (value : Bool)
  | policy (value : AggregationPolicy)

namespace AggregationFirst

def isEnforced : Option AggregationFirst → Bool
  | none => false
  | some (flag b) => b
  | some (policy _) => true

def maxRows : Option AggregationFirst → JsNumber
  | some (policy p) => p.maxOutputRows.getD (.finite (Decimal.normalize 10 0))
  | _ => .finite (Decimal.normalize 10 0)

def allowPrimitives : Option AggregationFirst → Bool
  | some (policy p) => p.allowPrimitiveArrays.getD true
  | _ => true

end AggregationFirst

/-- `count > limit` -/
def exceeds (count : Nat) : JsNumber → Bool
  | .finite d =>
    if 0 ≤ d.exponent then d.coefficient * 10 ^ d.exponent.toNat < (count : Int)
    else d.coefficient < (count * 10 ^ (-d.exponent).toNat : Int)
  | .nan => false
  | .infinite negative => negative

def parseUnknownJson : JsValue → JsValue
  | .str s => (jsonDocument s).getD (.str s)
  | v => v

/-- Some object in the value, or some array of objects, exceeds the policy. -/
def exportsRows (policyObj : Option AggregationFirst) (recordsCount : Nat) : JsValue → Bool
  | .str s =>
    match _found : jsonDocument s with
    | some document => exportsRows policyObj recordsCount document
    | none => false
  | .arr elements =>
    let some' := elements.attach.any fun v => exportsRows policyObj recordsCount v.1
    if elements ≠ [] ∧ elements.all isContainer then
      exceeds elements.length (AggregationFirst.maxRows policyObj) || some'
    else if elements ≠ [] ∧ elements.all (!isContainer ·) then
      !AggregationFirst.allowPrimitives policyObj
    else some'
  | .obj members =>
    -- k-anonymity: a small data set allows three flat statistics
    (0 < recordsCount && recordsCount < 10 &&
        (3 < members.length || members.any fun m => isContainer m.2)) ||
      exceeds members.length (AggregationFirst.maxRows policyObj) ||
      members.attach.any fun m => exportsRows policyObj recordsCount m.1.2
  | _ => false
termination_by v => weight v
decreasing_by
  · exact jsonDocument_weight _found
  · have bound := weight_le_of_mem v.2
    rw [weight]
    omega
  · have bound := weight_le_of_mem_members m.2
    rw [weight]
    omega

def violatesAggregationFirstPolicy (policyObj : Option AggregationFirst) (recordsCount : Nat)
    (input : JsValue) : Bool :=
  AggregationFirst.isEnforced policyObj && exportsRows policyObj recordsCount input

/-! ### Envelopes -/

def partText : JsValue → Option JsString
  | .obj ms =>
    match property (js "text") ms with
    | .str t => some t
    | _ => none
  | _ => none

/-- The texts of an MCP `content` array. -/
def contentTexts : JsValue → List JsString
  | .arr parts => parts.filterMap partText
  | _ => []

/-- `texts.join("\n")` -/
def joinLines : List JsString → JsString
  | [] => []
  | [t] => t
  | t :: ts => t ++ 0x0A :: joinLines ts

theorem width_joinLines {ts : List JsString} (nonempty : ts ≠ []) :
    width (joinLines ts) + 1 ≤ (ts.map fun t => width t + 1).sum := by
  induction ts with
  | nil => exact absurd rfl nonempty
  | cons t ts ih =>
    cases ts with
    | nil => simp [joinLines]
    | cons u us =>
      have rest := ih (by simp)
      have joined := width_append_le t (0x0A :: joinLines (u :: us))
      have line := width_of_not_high (u := 0x0A) (by decide) (joinLines (u :: us))
      have one : unitWidth 0x0A = 1 := by decide
      rw [joinLines, List.map_cons, List.sum_cons]
      · omega
      · simp

theorem contentTexts_weight {content : JsValue} (nonempty : contentTexts content ≠ []) :
    weight (.str (joinLines (contentTexts content))) < weight content := by
  have part {v : JsValue} {t : JsString} (text : partText v = some t) : width t + 1 ≤ weight v := by
    unfold partText at text
    split at text
    · next ms =>
      split at text
      · next found =>
        obtain rfl := Option.some.inj text
        have bound : weight (property (js "text") ms) ≤ memberWeights ms :=
          weight_property (by rw [found]; simp)
        rw [found, weight] at bound
        rw [weight]
        omega
      · cases text
    · cases text
  have parts (vs : List JsValue) :
      ((vs.filterMap partText).map fun t => width t + 1).sum ≤ weights vs := by
    induction vs with
    | nil => exact Nat.le_refl _
    | cons v vs ih =>
      rw [weights]
      cases text : partText v with
      | none =>
        rw [List.filterMap_cons_none text]
        omega
      | some t =>
        have bound := part text
        rw [List.filterMap_cons_some text, List.map_cons, List.sum_cons]
        omega
  cases content with
  | arr elements =>
    have joined := width_joinLines nonempty
    have bound := parts elements
    rw [contentTexts] at joined ⊢
    rw [weight, weight]
    omega
  | _ => exact absurd rfl nonempty

/-- The business value inside LIOP and MCP envelopes. -/
def unwrapForAggregationPolicyScan : JsValue → JsValue
  | .str s =>
    match _found : jsonDocument s with
    | some document => unwrapForAggregationPolicyScan document
    | none => .str s
  | .obj rec =>
    if _inner : isUndefined (property (js "computation_result") rec) then
      if _texts : contentTexts (property (js "content") rec) = [] then .obj rec
      else unwrapForAggregationPolicyScan
        (.str (joinLines (contentTexts (property (js "content") rec))))
    else unwrapForAggregationPolicyScan (property (js "computation_result") rec)
  | v => v
termination_by v => weight v
decreasing_by
  · exact jsonDocument_weight _found
  · have bound := contentTexts_weight _texts
    have present : property (js "content") rec ≠ .undefined := by
      intro missing
      rw [missing] at _texts
      exact _texts rfl
    have inside := weight_property present
    rw [weight.eq_3]
    omega
  · have present : property (js "computation_result") rec ≠ .undefined := by
      intro missing
      rw [missing] at _inner
      exact _inner rfl
    have inside := weight_property present
    rw [weight]
    omega

/-! ### Laws -/

variable {policyObj : Option AggregationFirst} {recordsCount : Nat}

theorem exportsRows_str (s : JsString) : exportsRows policyObj recordsCount (.str s) =
    ((jsonDocument s).map (exportsRows policyObj recordsCount)).getD false := by
  rw [exportsRows]
  split <;> simp_all

theorem exportsRows_arr (elements : List JsValue) :
    exportsRows policyObj recordsCount (.arr elements) =
      if elements ≠ [] ∧ elements.all isContainer then
        exceeds elements.length (AggregationFirst.maxRows policyObj) ||
          elements.any (exportsRows policyObj recordsCount)
      else if elements ≠ [] ∧ elements.all (!isContainer ·) then
        !AggregationFirst.allowPrimitives policyObj
      else elements.any (exportsRows policyObj recordsCount) := by
  rw [exportsRows]
  simp only [List.any_subtype, List.unattach_attach]

theorem exportsRows_obj (members : Members) :
    exportsRows policyObj recordsCount (.obj members) =
      ((0 < recordsCount && recordsCount < 10 &&
          (3 < members.length || members.any fun m => isContainer m.2)) ||
        exceeds members.length (AggregationFirst.maxRows policyObj) ||
        members.any fun m => exportsRows policyObj recordsCount m.2) := by
  rw [exportsRows]
  simp only [List.any_subtype, List.unattach_attach]

theorem unwrap_str (s : JsString) : unwrapForAggregationPolicyScan (.str s) =
    ((jsonDocument s).map unwrapForAggregationPolicyScan).getD (.str s) := by
  rw [unwrapForAggregationPolicyScan]
  split <;> simp_all

theorem unwrap_obj (rec : Members) : unwrapForAggregationPolicyScan (.obj rec) =
    if isUndefined (property (js "computation_result") rec) then
      if contentTexts (property (js "content") rec) = [] then .obj rec
      else unwrapForAggregationPolicyScan
        (.str (joinLines (contentTexts (property (js "content") rec))))
    else unwrapForAggregationPolicyScan (property (js "computation_result") rec) := by
  conv_lhs => rw [unwrapForAggregationPolicyScan]
  split_ifs <;> rfl

/-- The check reads a string like the document in it. -/
@[simp] theorem exportsRows_parseUnknownJson (v : JsValue) :
    exportsRows policyObj recordsCount (parseUnknownJson v) =
      exportsRows policyObj recordsCount v := by
  cases v with
  | str s =>
    rw [exportsRows_str, parseUnknownJson]
    cases found : jsonDocument s with
    | none =>
      rw [Option.getD_none, exportsRows_str, found]
    | some document => rfl
  | _ => rfl

@[simp] theorem unwrap_parseUnknownJson (v : JsValue) :
    unwrapForAggregationPolicyScan (parseUnknownJson v) = unwrapForAggregationPolicyScan v := by
  cases v with
  | str s =>
    rw [unwrap_str, parseUnknownJson]
    cases found : jsonDocument s with
    | none =>
      rw [Option.getD_none, unwrap_str, found]
    | some document => rfl
  | _ => rfl

/-- What is unwrapped is no document and no envelope any more. -/
theorem unwrap_settled (v : JsValue) :
    parseUnknownJson (unwrapForAggregationPolicyScan v) = unwrapForAggregationPolicyScan v ∧
      unwrapForAggregationPolicyScan (unwrapForAggregationPolicyScan v) =
        unwrapForAggregationPolicyScan v := by
  induction v using unwrapForAggregationPolicyScan.induct with
  | case1 s document found ih => rwa [unwrap_str, found, Option.map_some, Option.getD_some]
  | case2 s absent =>
    have same : unwrapForAggregationPolicyScan (.str s) = .str s := by
      rw [unwrap_str, absent, Option.map_none, Option.getD_none]
    rw [same, parseUnknownJson, absent, Option.getD_none, same]
    exact ⟨rfl, rfl⟩
  | case3 rec inner texts =>
    have same : unwrapForAggregationPolicyScan (.obj rec) = .obj rec := by
      rw [unwrap_obj, if_pos inner, if_pos texts]
    rw [same, same]
    exact ⟨rfl, rfl⟩
  | case4 rec inner texts ih => rwa [unwrap_obj, if_pos inner, if_neg texts]
  | case5 rec inner ih => rwa [unwrap_obj, if_neg inner]
  | case6 v string object =>
    cases v with
    | str s => exact absurd rfl (string s)
    | obj rec => exact absurd rfl (object rec)
    | _ => exact ⟨by simp [unwrapForAggregationPolicyScan, parseUnknownJson],
        by simp [unwrapForAggregationPolicyScan]⟩

/-- An object that the unwrapping takes for an envelope. -/
def isEnvelope : JsValue → Bool
  | .obj rec => !isUndefined (property (js "computation_result") rec) ||
    contentTexts (property (js "content") rec) != []
  | _ => false

theorem unwrap_of_not_envelope {v : JsValue} (bare : isEnvelope v = false)
    (container : isContainer v = true) : unwrapForAggregationPolicyScan v = v := by
  cases v with
  | arr elements => rw [unwrapForAggregationPolicyScan] <;> simp
  | obj rec =>
    simp only [isEnvelope, Bool.or_eq_false_iff, Bool.not_eq_false', bne_eq_false_iff_eq] at bare
    rw [unwrap_obj, if_pos bare.1, if_pos bare.2]
  | _ => cases container

/-- Without an envelope the check on the unwrapped value is the check on the value. -/
theorem exportsRows_unwrap {v : JsValue} (bare : isEnvelope (parseUnknownJson v) = false) :
    exportsRows policyObj recordsCount (unwrapForAggregationPolicyScan v) =
      exportsRows policyObj recordsCount v := by
  rw [← unwrap_parseUnknownJson, ← exportsRows_parseUnknownJson v]
  by_cases container : isContainer (parseUnknownJson v) = true
  · rw [unwrap_of_not_envelope bare container]
  · cases v with
    | str s =>
      rw [parseUnknownJson] at container ⊢
      cases found : jsonDocument s with
      | none => rw [Option.getD_none, unwrap_str, found, Option.map_none, Option.getD_none]
      | some document =>
        rw [found] at container
        exact absurd (jsonDocument_container found) container
    | arr | obj => exact absurd rfl container
    | _ => rw [parseUnknownJson, unwrapForAggregationPolicyScan] <;> simp

end NeuralMesh.Server
