import NeuralMesh.Js.Document

/-! The PII scan of a value. The rules for keys (exact and fuzzy) and for texts (patterns
with their validators, names of persons) are configured; the walk over arrays, objects
and JSON strings is the scanner's. -/
namespace NeuralMesh.Server

open Js

structure PiiScanner where
  checkKey : JsString → Option JsString
  checkString : JsString → Option JsString

/-- The first violation; `none` is the result `null`. -/
def PiiScanner.scan (scanner : PiiScanner) : JsValue → Option JsString
  | .str s =>
    match _found : jsonDocument s with
    | some parsed => (scanner.scan parsed).or (scanner.checkString s)
    | none => scanner.checkString s
  | .arr elements => elements.attach.findSome? fun v => scanner.scan v.1
  | .obj members => members.attach.findSome? fun m =>
      (scanner.checkKey m.1.1).or (scanner.scan m.1.2)
  | _ => none
termination_by v => weight v
decreasing_by
  · exact jsonDocument_weight _found
  · have bound := weight_le_of_mem v.2
    rw [weight]
    omega
  · have bound := weight_le_of_mem_members m.2
    rw [weight]
    omega

theorem scan_document (scanner : PiiScanner) {s : JsString} {document : JsValue}
    (found : jsonDocument s = some document) :
    scanner.scan (.str s) = (scanner.scan document).or (scanner.checkString s) := by
  rw [PiiScanner.scan]
  split
  · next parsed same =>
    rw [found, Option.some.injEq] at same
    rw [same]
  · next absent => cases found.symm.trans absent

theorem scan_text (scanner : PiiScanner) {s : JsString} (absent : jsonDocument s = none) :
    scanner.scan (.str s) = scanner.checkString s := by
  rw [PiiScanner.scan]
  split
  · next found => cases absent.symm.trans found
  · rfl

theorem scan_arr (scanner : PiiScanner) (elements : List JsValue) :
    scanner.scan (.arr elements) = elements.findSome? scanner.scan := by
  rw [PiiScanner.scan]
  simp only [List.findSome?_subtype, List.unattach_attach]

theorem scan_obj (scanner : PiiScanner) (members : Members) :
    scanner.scan (.obj members) =
      members.findSome? fun m => (scanner.checkKey m.1).or (scanner.scan m.2) := by
  rw [PiiScanner.scan]
  simp only [List.findSome?_subtype, List.unattach_attach]

/-- `Part p v`: the value `p` is in `v`, through arrays, objects and JSON strings. -/
inductive Part (p : JsValue) : JsValue → Prop where
  | self : Part p p
  | document {s : JsString} {v : JsValue} : jsonDocument s = some v → Part p v → Part p (.str s)
  | element {v : JsValue} {elements : List JsValue} :
      v ∈ elements → Part p v → Part p (.arr elements)
  | member {m : JsString × JsValue} {members : Members} :
      m ∈ members → Part p m.2 → Part p (.obj members)

/-- A clean value has clean parts. -/
theorem scan_part {scanner : PiiScanner} {p v : JsValue} (part : Part p v)
    (clean : scanner.scan v = none) : scanner.scan p = none := by
  induction part with
  | self => exact clean
  | @document s v found _ ih =>
    rw [scan_document scanner found, Option.or_eq_none_iff] at clean
    exact ih clean.1
  | @element v elements member _ ih =>
    rw [scan_arr, List.findSome?_eq_none_iff] at clean
    exact ih (clean v member)
  | @member m members member _ ih =>
    rw [scan_obj, List.findSome?_eq_none_iff] at clean
    exact ih (Option.or_eq_none_iff.mp (clean m member)).2

end NeuralMesh.Server
