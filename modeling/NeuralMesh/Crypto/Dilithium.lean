import NeuralMesh.Codec.Utf8
import NeuralMesh.Js.Object

/-! Manifest attestation: canonical JSON, and the ML-DSA-65 wrapper around a
signature library. The library itself is a parameter. -/
namespace NeuralMesh.Crypto

open Js Codec

/-! ### Canonical JSON -/

def undefinedText : Text := "undefined".toList

mutual

/-- `none` is the value `undefined`, which `join` prints as nothing and a
template literal as a word. -/
def canonicalizeJson : JsValue → Option Text
  | .arr elements => some ('[' :: (commaJoin (canonicalElements elements) ++ [']']))
  | .obj members =>
    -- the keys are distinct, so sorting the entries sorts the keys
    let entries := sortKeys (canonicalMembers members)
    some ('\x7b' :: (commaJoin (entries.map fun e => quote e.1 ++ ':' :: e.2) ++ ['\x7d']))
  | v => stringify v

def canonicalElements : List JsValue → List Text
  | [] => []
  | v :: vs => (canonicalizeJson v).getD [] :: canonicalElements vs

def canonicalMembers : Members → List (JsString × Text)
  | [] => []
  | (k, v) :: ms => (k, (canonicalizeJson v).getD undefinedText) :: canonicalMembers ms

end

/-! ### The wrapper -/

def PUBLIC_KEY_BYTES : Nat := 1952
def SECRET_KEY_BYTES : Nat := 4032
def SIGNATURE_BYTES : Nat := 3309
def DEFAULT_CONTEXT : Bytes := utf8 "LIOP-FIPS204-ML-DSA-65".toList

/-- The signature library, and `Buffer.from` on values that are not strings;
`none` is an exception. -/
structure Library where
  sign : (message secretKey context : Bytes) → Bytes
  verify : (signature message publicKey context : Bytes) → Option Bool
  bufferFrom : JsValue → Option Bytes

namespace Library

variable (lib : Library)

def signMessage (message secretKey : Bytes) : Except String Bytes :=
  if secretKey.length ≠ SECRET_KEY_BYTES then
    .error ("ML-DSA-65 Secret Key must be exactly " ++ toString SECRET_KEY_BYTES ++
      " bytes (Received: " ++ toString secretKey.length ++ ")")
  else .ok (lib.sign message secretKey DEFAULT_CONTEXT)

def verifyMessage (signature message publicKey : Bytes) : Bool :=
  if signature.length ≠ SIGNATURE_BYTES then false
  else if publicKey.length ≠ PUBLIC_KEY_BYTES then false
  else (lib.verify signature message publicKey DEFAULT_CONTEXT).getD false

/-- `Buffer.from(value, "base64")`. -/
def fromBase64 : JsValue → Option Bytes
  | .str s => some (base64Bytes (s.map fun u => Char.ofNat u.toNat))
  | v => lib.bufferFrom v

end Library

def toBase64 (bytes : Bytes) : JsString := ofText (base64Text bytes)

def pqcSignature : JsString := js "pqcSignature"
def pqcPublicKey : JsString := js "pqcPublicKey"

/-- `const { pqcSignature, pqcPublicKey, ...unsigned } = manifest` -/
def unsigned (manifest : Members) : Members := without [pqcSignature, pqcPublicKey] manifest

/-- The bytes that are signed; the canonical text of an object is a string. -/
def signedMessage (manifest : Members) : Bytes :=
  utf8 ((canonicalizeJson (.obj (unsigned manifest))).getD undefinedText)

structure Attestation where
  signature : JsString
  publicKey : JsString

def signManifest (lib : Library) (manifest : Members) (secretKey publicKey : Bytes) :
    Except String Attestation := do
  let sig ← lib.signMessage (signedMessage manifest) secretKey
  return ⟨toBase64 sig, toBase64 publicKey⟩

def verifyManifest (lib : Library) (manifest : Members)
    (signatureBase64 publicKeyBase64 : JsValue) : Bool :=
  match lib.fromBase64 signatureBase64, lib.fromBase64 publicKeyBase64 with
  | some sig, some pub => lib.verifyMessage sig (signedMessage manifest) pub
  | _, _ => false

/-- `{ ...manifest, pqcSignature, pqcPublicKey }` -/
def attach (manifest : Members) (attestation : Attestation) : Members :=
  setProperty pqcPublicKey (.str attestation.publicKey)
    (setProperty pqcSignature (.str attestation.signature) manifest)

/-- The check of a received manifest against the attestation it carries. -/
def verifyReceived (lib : Library) : JsValue → Bool
  | .obj manifest =>
    verifyManifest lib manifest (property pqcSignature manifest) (property pqcPublicKey manifest)
  | _ => false

/-! ### Lemmas of the wrapper -/

theorem ofText_units {text : Text} (ascii : ∀ c ∈ text, c.toNat < 128) :
    (ofText text).map (fun u => Char.ofNat u.toNat) = text := by
  induction text with
  | nil => rfl
  | cons c text ih =>
    have small := ascii c List.mem_cons_self
    have value : (UInt16.ofNat c.toNat).toNat = c.toNat := unit_ofNat (by omega)
    rw [ofText, List.flatMap_cons, List.map_append, ← ofText,
      ih fun d member => ascii d (List.mem_cons_of_mem _ member), utf16, if_pos (by omega)]
    simp only [List.map_cons, List.map_nil, value, Char.ofNat_toNat, List.singleton_append]

@[simp] theorem fromBase64_toBase64 (lib : Library) (bytes : Bytes) :
    lib.fromBase64 (.str (toBase64 bytes)) = some bytes := by
  rw [Library.fromBase64, toBase64, ofText_units (base64Text_ascii bytes),
    base64Bytes_base64Text]

theorem unsigned_attach (manifest : Members) (attestation : Attestation) :
    unsigned (attach manifest attestation) = unsigned manifest := by
  rw [unsigned, attach, without_setProperty (by simp), without_setProperty (by simp), unsigned]

theorem signedMessage_attach (manifest : Members) (attestation : Attestation) :
    signedMessage (attach manifest attestation) = signedMessage manifest := by
  rw [signedMessage, signedMessage, unsigned_attach]

theorem unsigned_transmitted (manifest : Members) :
    unsigned (transmittedMembers manifest) = transmittedMembers (unsigned manifest) :=
  without_transmittedMembers _ manifest

theorem property_attach (manifest : Members) (attestation : Attestation) :
    property pqcSignature (attach manifest attestation) = .str attestation.signature ∧
      property pqcPublicKey (attach manifest attestation) = .str attestation.publicKey := by
  have different : pqcSignature ≠ pqcPublicKey := by decide
  rw [attach, property_setProperty_ne different, property_setProperty, property_setProperty]
  exact ⟨rfl, rfl⟩

theorem attach_ordered {manifest : Members} (ordered : isOrdered (.obj manifest) = true)
    (attestation : Attestation) : isOrdered (.obj (attach manifest attestation)) = true :=
  setProperty_ordered _ rfl (setProperty_ordered _ rfl ordered)

end NeuralMesh.Crypto
