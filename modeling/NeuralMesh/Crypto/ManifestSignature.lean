import NeuralMesh.Crypto.Dilithium

/-! What a manifest signature fixes. The canonical text of a JSON value is the
text of the value with sorted keys, which has a single reading. -/
namespace NeuralMesh.Crypto

open Js Codec

/-! ### The signature library -/

/-- ML-DSA is correct for one message: sizes as in the standard, and the
signature verifies on exactly that message. -/
structure Attests (lib : Library) (message secretKey publicKey : Bytes) : Prop where
  secretKeyLength : secretKey.length = SECRET_KEY_BYTES
  publicKeyLength : publicKey.length = PUBLIC_KEY_BYTES
  signatureLength : (lib.sign message secretKey DEFAULT_CONTEXT).length = SIGNATURE_BYTES
  exact : ∀ other, lib.verify (lib.sign message secretKey DEFAULT_CONTEXT) other publicKey
    DEFAULT_CONTEXT = some true ↔ other = message

/-- A library that is correct for one message. -/
def attestingLibrary (message : Bytes) : Library where
  sign _ _ _ := List.replicate SIGNATURE_BYTES 0
  verify _ other _ _ := some (other == message)
  bufferFrom _ := none

theorem attestingLibrary_attests (message : Bytes) : Attests (attestingLibrary message) message
    (List.replicate SECRET_KEY_BYTES 0) (List.replicate PUBLIC_KEY_BYTES 0) where
  secretKeyLength := List.length_replicate
  publicKeyLength := List.length_replicate
  signatureLength := List.length_replicate
  exact other := by simp [attestingLibrary]

/-! ### Values without `undefined` -/

mutual

/-- `undefined` occurs nowhere in the value. -/
def isDefined : JsValue → Bool
  | .undefined => false
  | .arr elements => allDefined elements
  | .obj members => allMembersDefined members
  | _ => true

def allDefined : List JsValue → Bool
  | [] => true
  | v :: vs => isDefined v && allDefined vs

def allMembersDefined : Members → Bool
  | [] => true
  | (_, v) :: ms => isDefined v && allMembersDefined ms

end

@[simp] theorem allDefined_iff (vs : List JsValue) :
    allDefined vs = true ↔ ∀ v ∈ vs, isDefined v = true := by
  induction vs with
  | nil => simp [allDefined]
  | cons v vs ih => simp [allDefined, ih]

@[simp] theorem allMembersDefined_iff (ms : Members) :
    allMembersDefined ms = true ↔ ∀ m ∈ ms, isDefined m.2 = true := by
  induction ms with
  | nil => simp [allMembersDefined]
  | cons m ms ih => simp [allMembersDefined, ih]

theorem defined_present {v : JsValue} (defined : isDefined v = true) : v ≠ .undefined := by
  rintro rfl
  simp [isDefined] at defined

theorem isDefined_of_plain {v : JsValue} (plain : isPlain v = true) : isDefined v = true := by
  induction v with
  | undefined => simp [isPlain] at plain
  | null | bool | num | str => rfl
  | arr elements ih =>
    simp only [isPlain, allPlain_iff] at plain
    simp only [isDefined, allDefined_iff]
    exact fun v member => ih v member (plain v member)
  | obj members ih =>
    simp only [isPlain, allMembersPlain_iff] at plain
    simp only [isDefined, allMembersDefined_iff]
    exact fun m member => ih m member (plain m member)

/-! ### Canonical text -/

@[simp] theorem canonicalElements_eq (vs : List JsValue) :
    canonicalElements vs = vs.map fun v => (canonicalizeJson v).getD [] := by
  induction vs with
  | nil => rfl
  | cons v vs ih => rw [canonicalElements, ih, List.map_cons]

@[simp] theorem canonicalMembers_eq (ms : Members) :
    canonicalMembers ms = ms.map fun m => (m.1, (canonicalizeJson m.2).getD undefinedText) := by
  induction ms with
  | nil => rfl
  | cons m ms ih => rw [canonicalMembers, ih, List.map_cons]

/-- Sorting the members first gives the entries in the same order. -/
theorem canonicalizeJson_obj (ms : Members) : canonicalizeJson (.obj ms) =
    some ('\x7b' :: (commaJoin ((sortKeys ms).map fun m =>
      quote m.1 ++ ':' :: (canonicalizeJson m.2).getD undefinedText) ++ ['\x7d'])) := by
  rw [canonicalizeJson, canonicalMembers_eq,
    ← sortKeys_map (fun v => (canonicalizeJson v).getD undefinedText)]
  simp only [List.map_map]
  rfl

/-- The canonical text of a value without `undefined` is the text of the value
with sorted keys. -/
theorem canonicalizeJson_defined {v : JsValue} (defined : isDefined v = true) :
    canonicalizeJson v = some (jsonText (sortValue v)) := by
  induction v with
  | undefined => simp [isDefined] at defined
  | null | bool | num | str => rfl
  | arr elements ih =>
    simp only [isDefined, allDefined_iff] at defined
    have texts : elements.map (fun v => (canonicalizeJson v).getD []) =
        elements.map (jsonText ∘ sortValue) :=
      List.map_congr_left fun v member => by rw [ih v member (defined v member)]; rfl
    simp only [canonicalizeJson, canonicalElements_eq, texts, sortValue, sortElements_eq, jsonText,
      elementTexts_eq, List.map_map]
  | obj members ih =>
    simp only [isDefined, allMembersDefined_iff] at defined
    have sorted : ∀ m ∈ sortKeys members, isDefined m.2 = true := fun m member =>
      defined m ((sortKeys_perm members).mem_iff.mp member)
    have present : ∀ m ∈ (sortKeys members).map (fun m => (m.1, sortValue m.2)),
        m.2 ≠ .undefined := by
      rintro _ mapped
      obtain ⟨m, member, rfl⟩ := List.mem_map.mp mapped
      exact fun absent => defined_present (sorted m member) (sortValue_undefined.mp absent)
    have entries : (sortKeys members).map (fun m =>
        quote m.1 ++ ':' :: (canonicalizeJson m.2).getD undefinedText) =
          (sortKeys members).map fun m => quote m.1 ++ ':' :: jsonText (sortValue m.2) :=
      List.map_congr_left fun m member => by
        rw [ih m ((sortKeys_perm members).mem_iff.mp member) (sorted m member), Option.getD_some]
    rw [canonicalizeJson_obj, entries, sortValue_obj, jsonText, memberTexts_present present,
      List.map_map]
    rfl

theorem canonicalizeJson_injective {v w : JsValue} (left : isPlain v = true)
    (right : isPlain w = true) :
    canonicalizeJson v = canonicalizeJson w ↔ sortValue v = sortValue w := by
  rw [canonicalizeJson_defined (isDefined_of_plain left),
    canonicalizeJson_defined (isDefined_of_plain right), Option.some.injEq]
  constructor
  · exact jsonText_injective (isPlain_sortValue left) (isPlain_sortValue right)
  · exact congrArg jsonText

theorem canonicalizeJson_sameData {v w : JsValue} (left : isPlain v = true)
    (right : isPlain w = true) (leftOrdered : isOrdered v = true)
    (rightOrdered : isOrdered w = true) :
    canonicalizeJson v = canonicalizeJson w ↔ SameData v w :=
  (canonicalizeJson_injective left right).trans
    (sortValue_eq_iff (hasUniqueKeys_of_ordered leftOrdered)
      (hasUniqueKeys_of_ordered rightOrdered))

theorem signedMessage_sameData (m n : JsonObject) :
    signedMessage m.members = signedMessage n.members ↔
      SameData (.obj (unsigned m.members)) (.obj (unsigned n.members)) := by
  have left := without_plain [pqcSignature, pqcPublicKey] m.plain
  have right := without_plain [pqcSignature, pqcPublicKey] n.plain
  have same := canonicalizeJson_sameData left right (without_ordered _ m.ordered)
    (without_ordered _ n.ordered)
  rw [unsigned, unsigned, ← same]
  simp only [signedMessage, unsigned, canonicalizeJson_defined (isDefined_of_plain left),
    canonicalizeJson_defined (isDefined_of_plain right), Option.getD_some, Option.some.injEq]
  exact utf8_injective.eq_iff

/-- The canonical text determines a JSON value up to the order of object keys;
so the signed message determines everything outside the attestation, and the
verdict of a signature does not depend on the order of keys. -/
theorem signature_fixes_manifest :
    (∀ a b : Json,
      canonicalizeJson a.value = canonicalizeJson b.value ↔ SameData a.value b.value) ∧
    (∀ m n : JsonObject, signedMessage m.members = signedMessage n.members ↔
      SameData (.obj (unsigned m.members)) (.obj (unsigned n.members))) ∧
    (∀ (lib : Library) (m n : JsonObject) (signature publicKey : JsValue),
      SameData (.obj m.members) (.obj n.members) →
        verifyManifest lib m.members signature publicKey =
          verifyManifest lib n.members signature publicKey) := by
  refine ⟨fun a b => canonicalizeJson_sameData a.plain b.plain a.ordered b.ordered,
    signedMessage_sameData, ?_⟩
  intro lib m n signature publicKey same
  have message : signedMessage m.members = signedMessage n.members :=
    (signedMessage_sameData m n).mpr (without_sameData _ same)
  simp only [verifyManifest, message]

theorem signature_fixes_reordered : verifyManifest (attestingLibrary [])
      [(js "a", .null), (js "b", .obj [])] (.str []) (.str []) =
    verifyManifest (attestingLibrary []) [(js "b", .obj []), (js "a", .null)] (.str []) (.str []) :=
  signature_fixes_manifest.2.2 (attestingLibrary [])
    ⟨⟨[(js "a", .null), (js "b", .obj [])], by decide⟩, by decide⟩
    ⟨⟨[(js "b", .obj []), (js "a", .null)], by decide⟩, by decide⟩ (.str []) (.str [])
    ⟨_, [(js "a", .null), (js "b", .obj [])], rfl, List.Perm.swap _ _ _, .null, _, rfl, rfl,
      .obj [], _, rfl, ⟨[], [], rfl, List.Perm.nil, rfl⟩, rfl⟩

end NeuralMesh.Crypto
