import NeuralMesh.Js.Encoding
import NeuralMesh.Server.PiiScanner

/-! The forbidden keys of a scanner, and JSON text that is encoded again. The scan reads the text
of an array or object; a text that is encoded once more is a quoted string, and is only compared
with the patterns. -/
namespace NeuralMesh.Server

open Js

/-- Built-in functions of strings, and `new RegExp(source).test(text)`. -/
structure TextFunctions where
  toLowerCase : JsString → JsString
  toUpperCase : JsString → JsString
  test : (source text : JsString) → Bool

def KEY_SAFELIST : List JsString :=
  ["grid", "video", "android", "identity", "provide", "override", "validate", "hidden", "widget",
    "guidelines", "beside", "guideline", "outside", "inside", "collide", "decide", "divide",
    "aside", "ride", "side", "wide", "hide", "tide", "pride", "bride", "slide", "guide", "stride",
    "oxide", "dioxide", "suicide", "homicide", "pesticide", "valid", "invalid", "void", "avoid",
    "diagnosis", "medication", "namespace", "namesake", "rename", "filename", "hostname",
    "typename", "unnamed", "renamed", "phonetic", "phoneme", "microphone", "headphone",
    "telephone", "saxophone", "smartphone", "streetview", "addressable", "addressing",
    "cityscape", "electricity", "capacity", "velocity", "opacity", "timestamp", "timezone",
    "image_id", "computation_result", "zk_receipt", "testid", "toolid", "sessionid", "peerid",
    "nodeid", "requestid", "correlationid", "traceid", "spanid"].map js

namespace TextFunctions

variable (text : TextFunctions)

/-- `[iI][dD]` for `id` -/
def ciPattern (token : JsString) : JsString :=
  token.flatMap fun c => js "[" ++ text.toLowerCase [c] ++ text.toUpperCase [c] ++ js "]"

def camelPattern (token : JsString) : JsString :=
  js "[a-z]" ++ text.toUpperCase (token.take 1) ++ token.drop 1

/-- After a snake or kebab boundary, with a capital after a small letter, or the whole key. -/
def boundaryPattern (token : JsString) : JsString :=
  js "(?:^|[_-])" ++ text.ciPattern token ++ js "(?:$|[_-])|" ++
    text.camelPattern token ++ js "(?:$|[A-Z_-])|" ++ js "^" ++ text.ciPattern token ++ js "$"

def forbiddenKeysSet (forbiddenKeys : List JsString) : List JsString :=
  (forbiddenKeys.map text.toLowerCase).foldl setAdd []

def checkKeyFuzzy (forbiddenKeys : List JsString) (key : JsString) : Option JsString :=
  let tokens := text.forbiddenKeysSet forbiddenKeys
  let normalized := text.toLowerCase key
  if normalized ∈ KEY_SAFELIST then none
  else
    match (tokens.filter (·.length < 4)).find? fun token =>
        text.test (text.boundaryPattern token) key with
    | some token => some (js "Forbidden Key (fuzzy): " ++ key ++ js " matches boundary pattern \"" ++
        token ++ js "\"")
    | none =>
      match (tokens.filter (4 ≤ ·.length)).find? fun token => decide (token <:+: normalized) with
      | some token => some (js "Forbidden Key (fuzzy): " ++ key ++
          js " contains restricted token \"" ++ token ++ js "\"")
      | none => none

/-- The exact check comes first, and knows no safelist. -/
def checkKey (forbiddenKeys : List JsString) (key : JsString) : Option JsString :=
  if text.toLowerCase key ∈ text.forbiddenKeysSet forbiddenKeys then
    some (js "Forbidden Key: " ++ key)
  else text.checkKeyFuzzy forbiddenKeys key

/-- A scanner without a scanner for names. A violation with an empty name counts as none. -/
def piiScanner (forbiddenKeys : List JsString) (checkString : JsString → Option JsString) :
    PiiScanner where
  checkKey := text.checkKey forbiddenKeys
  checkString s := (checkString s).filter (!·.isEmpty)

theorem checkString_ne_none {forbiddenKeys : List JsString}
    {checkString : JsString → Option JsString} {s : JsString} :
    (text.piiScanner forbiddenKeys checkString).checkString s ≠ none ↔
      ∃ name ≠ [], checkString s = some name := by
  rw [piiScanner, Option.ne_none_iff_exists']
  refine exists_congr fun name => ?_
  rw [Option.filter_eq_some_iff, and_comm]
  simp

end TextFunctions

/-! ### The scan of a copy -/

theorem findSome_congr {α β : Type} {f g : α → Option β} {l : List α}
    (same : ∀ x ∈ l, f x = g x) : l.findSome? f = l.findSome? g := by
  induction l with
  | nil => rfl
  | cons x l ih =>
    rw [List.findSome?_cons, List.findSome?_cons, same x List.mem_cons_self,
      ih fun y member => same y (List.mem_cons_of_mem _ member)]

/-- Numbers are no violations. -/
theorem scan_asDoubles (scanner : PiiScanner) (v : JsValue) :
    scanner.scan (asDoubles v) = scanner.scan v := by
  induction v with
  | num n => cases n <;> rw [asDoubles] <;> simp [PiiScanner.scan]
  | arr elements ih =>
    rw [asDoubles, asDoublesAll_eq, scan_arr, scan_arr, List.findSome?_map]
    exact findSome_congr ih
  | obj members ih =>
    rw [asDoubles, asDoublesMembers_eq, scan_obj, scan_obj, List.findSome?_map]
    refine findSome_congr fun m member => ?_
    rw [Function.comp_apply, ih m member]
  | _ => rfl

/-! ### Encoded values -/

/-- An object in the value has a forbidden key. -/
def HasForbiddenKey (scanner : PiiScanner) (v : JsValue) : Prop :=
  ∃ members, Inner (.obj members) v ∧ ∃ m ∈ members, scanner.checkKey m.1 ≠ none

/-- `JSON.stringify`, as often as told. -/
def encoded (v : JsValue) : Nat → JsValue
  | 0 => v
  | k + 1 => .str (jsonString (encoded v k))

theorem scan_forbidden {scanner : PiiScanner} {v : JsValue} (has : HasForbiddenKey scanner v) :
    scanner.scan v ≠ none := by
  obtain ⟨members, inner, m, member, forbidden⟩ := has
  have part : Part (.obj members) v := by
    induction inner with
    | self => exact .self
    | element member _ ih => exact .element member ih
    | member member _ ih => exact .member member ih
  intro clean
  have here := scan_part part clean
  rw [scan_obj, List.findSome?_eq_none_iff] at here
  exact forbidden (Option.or_eq_none_iff.mp (here m member)).1

theorem isContainer_of_forbidden {scanner : PiiScanner} {v : JsValue}
    (has : HasForbiddenKey scanner v) : isContainer v = true := by
  obtain ⟨members, inner, -⟩ := has
  cases inner <;> rfl

/-- One encoding is seen through; what is encoded again is only compared with the patterns. -/
theorem scan_encoded_iff (text : TextFunctions) (forbiddenKeys : List JsString)
    (checkString : JsString → Option JsString) (v : Json) (k : Nat)
    (has : HasForbiddenKey (text.piiScanner forbiddenKeys checkString) v.value) :
    (text.piiScanner forbiddenKeys checkString).scan (encoded v.value k) ≠ none ↔
      k ≤ 1 ∨ ∃ name ≠ [], checkString (jsonString (encoded v.value (k - 1))) = some name := by
  have seen := scan_forbidden has
  match k with
  | 0 => exact iff_of_true seen (.inl (Nat.zero_le 1))
  | 1 =>
    refine iff_of_true ?_ (.inl (Nat.le_refl 1))
    have document := jsonDocument_jsonString v.plain v.ordered (isContainer_of_forbidden has)
    intro clean
    rw [encoded, encoded, scan_document _ document, scan_asDoubles] at clean
    exact seen (Option.or_eq_none_iff.mp clean).1
  | k + 2 =>
    have quoted : jsonDocument (jsonString (encoded v.value (k + 1))) = none := jsonDocument_quote _
    have many : ¬ k + 2 ≤ 1 := by omega
    rw [encoded, scan_text _ quoted, or_iff_right many]
    exact text.checkString_ne_none

/-- The functions on ASCII, without regular expressions. -/
def asciiText : TextFunctions where
  toLowerCase := List.map fun u => if 0x41 ≤ u ∧ u ≤ 0x5A then u + 0x20 else u
  toUpperCase := List.map fun u => if 0x61 ≤ u ∧ u ≤ 0x7A then u - 0x20 else u
  test _ _ := false

def idRecord : Json := ⟨.obj [(js "id", .str (js "P001"))], by decide, by decide⟩

theorem idRecord_forbidden :
    HasForbiddenKey (asciiText.piiScanner [js "id"] fun _ => none) idRecord.value := by
  refine ⟨_, .self, _, List.mem_cons_self, ?_⟩
  decide

theorem idRecord_encoded_once :
    (asciiText.piiScanner [js "id"] fun _ => none).scan (encoded idRecord.value 1) ≠ none :=
  (scan_encoded_iff asciiText _ _ idRecord 1 idRecord_forbidden).mpr (.inl (Nat.le_refl 1))

theorem idRecord_encoded_twice :
    ¬ (HasForbiddenKey (asciiText.piiScanner [js "id"] fun _ => none) idRecord.value →
      (asciiText.piiScanner [js "id"] fun _ => none).scan (encoded idRecord.value 2) ≠ none) := by
  intro found
  refine found idRecord_forbidden ?_
  rw [encoded, encoded, scan_text _ (jsonDocument_quote _)]
  rfl

end NeuralMesh.Server
