import NeuralMesh.Crypto.ManifestSignature
import NeuralMesh.Server.ManifestProvider

/-! Which signed manifests survive a JSON round trip. The canonical text is
compared with the text of the transmitted value: an absent member or element is
printed by one and not by the other. -/
namespace NeuralMesh.Server

open Js Codec Crypto

/-- Dropping absent members and sorting the keys commute. -/
theorem sortKeys_transmittedMembers {ms : Members} (unique : UniqueKeys ms) :
    sortKeys (transmittedMembers ms) = transmittedMembers (sortKeys ms) := by
  have perm : (transmittedMembers ms).Perm (transmittedMembers (sortKeys ms)) := by
    rw [transmittedMembers_eq, transmittedMembers_eq]
    exact (sortKeys_perm ms).symm.filterMap _
  have sorted := transmittedMembers_pairwise (fun a b => keyLe a b = true) (sortKeys_sorted ms)
  rw [sortKeys_eq_of_perm (transmittedMembers_pairwise (· ≠ ·) unique) perm,
    sortKeys_of_sorted sorted]

theorem transmittedMembers_sorted {ms : Members}
    (each : ∀ m ∈ ms, sortValue (transmitted m.2) = transmitted (sortValue m.2)) :
    (transmittedMembers ms).map (fun m => (m.1, sortValue m.2)) =
      transmittedMembers (ms.map fun m => (m.1, sortValue m.2)) := by
  induction ms with
  | nil => rfl
  | cons m ms ih =>
    obtain ⟨k, v⟩ := m
    have value : sortValue (transmitted v) = transmitted (sortValue v) :=
      each (k, v) List.mem_cons_self
    have rest := ih fun m member => each m (List.mem_cons_of_mem _ member)
    by_cases absent : v = .undefined
    · subst absent
      exact rest
    · rw [List.map_cons, transmittedMembers_cons k ms absent,
        transmittedMembers_cons k _ (fun h => absent (sortValue_undefined.mp h)), List.map_cons,
        value, rest]

theorem sortValue_transmitted {v : JsValue} (unique : hasUniqueKeys v) :
    sortValue (transmitted v) = transmitted (sortValue v) := by
  induction v with
  | undefined | null | bool | str => rfl
  | num n => cases n <;> rfl
  | arr elements ih =>
    simp only [hasUniqueKeys, allUniqueKeys_iff] at unique
    simp only [transmitted, transmittedAll_eq, sortValue, sortElements_eq, List.map_map]
    exact congrArg JsValue.arr (List.map_congr_left fun v member => ih v member (unique v member))
  | obj members ih =>
    simp only [hasUniqueKeys, allMembersUniqueKeys_iff] at unique
    obtain ⟨keys, unique⟩ := unique
    rw [transmitted, sortValue_obj, sortValue_obj, transmitted, sortKeys_transmittedMembers keys,
      transmittedMembers_sorted fun m member =>
        have old := (sortKeys_perm members).mem_iff.mp member
        ih m old (unique m old)]

/-- The text the verifier compares with, for a value the provider signed. -/
theorem canonicalizeJson_transmitted {v : JsValue} (unique : hasUniqueKeys v) :
    canonicalizeJson (transmitted v) = some (jsonText (sortValue v)) := by
  rw [canonicalizeJson_defined (isDefined_of_plain (isPlain_transmitted v)),
    sortValue_transmitted unique, jsonText_transmitted]

/-- The canonical text of `v` is followed as far as the text of the key-sorted
value; agreeing that far means that nothing in `v` is `undefined`. -/
def AgreesOnlyDefined (v : JsValue) : Prop :=
  ∀ r s, (canonicalizeJson v).getD [] ++ r = jsonText (sortValue v) ++ s → isDefined v = true

theorem elements_agree {vs : List JsValue}
    (each : ∀ v ∈ vs, v ≠ .undefined → AgreesOnlyDefined v) (r s : Text)
    (same : commaTail (vs.map fun v => (canonicalizeJson v).getD []) ++ ']' :: r =
      commaTail (vs.map (jsonText ∘ sortValue)) ++ ']' :: s) :
    ∀ v ∈ vs, isDefined v = true := by
  induction vs with
  | nil => simp
  | cons v vs ih =>
    simp only [List.map_cons, commaTail_cons, List.cons_append, List.append_assoc,
      Function.comp_apply, List.cons.injEq, true_and] at same
    by_cases absent : v = .undefined
    · -- an absent element prints as nothing, where the other text has `null`
      subst absent
      cases vs <;> simp [canonicalizeJson, stringify, sortValue, jsonText, nullText] at same
    · have first := each v List.mem_cons_self absent _ _ same
      rw [canonicalizeJson_defined first, Option.getD_some] at same
      have rest := ih (fun w member => each w (List.mem_cons_of_mem _ member))
        (List.append_cancel_left same)
      exact List.forall_mem_cons.mpr ⟨first, rest⟩

theorem canonicalMember_present {v : JsValue} (present : v ≠ .undefined) (other : Text) :
    (canonicalizeJson v).getD other = (canonicalizeJson v).getD [] := by
  cases v <;> first | rfl | exact absurd rfl present

theorem memberTexts_keys {k : JsString} {t : Text} {ts : List Text} {ms : Members}
    (texts : memberTexts ms = t :: ts) (fresh : ∀ m ∈ ms, k ≠ m.1) (r s : Text) :
    quote k ++ r ≠ t ++ s := by
  induction ms with
  | nil => cases texts
  | cons m ms ih =>
    obtain ⟨l, v⟩ := m
    by_cases absent : v = .undefined
    · subst absent
      exact ih texts fun m member => fresh m (List.mem_cons_of_mem _ member)
    · rw [memberTexts_cons l ms absent] at texts
      obtain ⟨rfl, rfl⟩ := List.cons.inj texts
      intro same
      rw [List.append_assoc] at same
      exact fresh (l, v) List.mem_cons_self (quote_injective _ _ _ _ same).1

theorem members_agree {ms : Members} (unique : UniqueKeys ms)
    (each : ∀ m ∈ ms, m.2 ≠ .undefined → AgreesOnlyDefined m.2) (r s : Text)
    (same : commaTail (ms.map fun m =>
        quote m.1 ++ ':' :: (canonicalizeJson m.2).getD undefinedText) ++ '\x7d' :: r =
      commaTail (memberTexts (ms.map fun m => (m.1, sortValue m.2))) ++ '\x7d' :: s) :
    ∀ m ∈ ms, isDefined m.2 = true := by
  induction ms with
  | nil => simp
  | cons m ms ih =>
    obtain ⟨k, v⟩ := m
    obtain ⟨fresh, unique⟩ := List.pairwise_cons.mp unique
    by_cases absent : v = .undefined
    · -- the member is printed on one side; the other goes on with another key
      exfalso
      subst absent
      have dropped : memberTexts (((k, .undefined) :: ms).map fun m => (m.1, sortValue m.2)) =
        memberTexts (ms.map fun m => (m.1, sortValue m.2)) := rfl
      rw [dropped] at same
      simp only [List.map_cons, commaTail_cons, List.cons_append,
        List.append_assoc] at same
      cases texts : memberTexts (ms.map fun m => (m.1, sortValue m.2)) with
      | nil => simp [texts] at same
      | cons t ts =>
        simp only [texts, commaTail_cons, List.cons_append, List.append_assoc, List.cons.injEq,
          true_and] at same
        refine memberTexts_keys texts (k := k) ?_ _ _ same
        rintro _ mapped
        obtain ⟨m, member, rfl⟩ := List.mem_map.mp mapped
        exact fresh m member
    · rw [List.map_cons, List.map_cons, memberTexts_cons k _
        (fun h => absent (sortValue_undefined.mp h)), canonicalMember_present absent] at same
      simp only [commaTail_cons, List.cons_append, List.append_assoc,
        List.cons.injEq, true_and, List.append_cancel_left_eq] at same
      have first := each (k, v) List.mem_cons_self absent _ _ same
      rw [canonicalizeJson_defined first, Option.getD_some] at same
      have rest := ih unique (fun w member => each w (List.mem_cons_of_mem _ member))
        (List.append_cancel_left same)
      exact List.forall_mem_cons.mpr ⟨first, rest⟩

theorem agreesOnlyDefined {v : JsValue} (present : v ≠ .undefined) (unique : hasUniqueKeys v) :
    AgreesOnlyDefined v := by
  induction v with
  | undefined => exact absurd rfl present
  | null | bool | num | str => exact fun _ _ _ => rfl
  | arr elements ih =>
    intro r s same
    simp only [hasUniqueKeys, allUniqueKeys_iff] at unique
    simp only [isDefined, allDefined_iff]
    cases elements with
    | nil => simp
    | cons v vs =>
      simp only [canonicalizeJson, canonicalElements_eq, Option.getD_some, List.cons_append,
        List.append_assoc, sortValue, sortElements_eq, jsonText, elementTexts_eq, List.map_map,
        List.cons.injEq, true_and] at same
      refine elements_agree (fun w member absent => ih w member absent (unique w member)) r s ?_
      simpa only [List.map_cons, commaJoin_cons, commaTail_cons, List.cons_append,
        List.nil_append, List.cons.injEq, true_and] using same
  | obj members ih =>
    intro r s same
    simp only [hasUniqueKeys, allMembersUniqueKeys_iff] at unique
    obtain ⟨keys, unique⟩ := unique
    have old {m : JsString × JsValue} (member : m ∈ sortKeys members) : m ∈ members :=
      (sortKeys_perm members).mem_iff.mp member
    have sorted : ∀ m ∈ sortKeys members, isDefined m.2 = true := by
      rw [canonicalizeJson_obj, sortValue_obj, jsonText] at same
      cases entries : sortKeys members with
      | nil => simp
      | cons m ms =>
        rw [entries] at same
        refine members_agree (entries ▸ keys.perm (sortKeys_perm members).symm)
          (fun n member absent =>
            have before := old (entries ▸ member)
            ih n before absent (unique n before)) r s ?_
        cases texts : memberTexts ((m :: ms).map fun m => (m.1, sortValue m.2)) with
        | nil =>
          rw [texts] at same
          simp [commaJoin_cons, quote, commaJoin] at same
        | cons t ts =>
          rw [texts] at same
          simpa only [Option.getD_some, List.map_cons, commaJoin_cons, commaTail_cons,
            List.cons_append, List.append_assoc, List.nil_append, List.cons.injEq,
            true_and] using same
    simp only [isDefined, allMembersDefined_iff]
    exact fun m member => sorted m ((sortKeys_perm members).mem_iff.mpr member)

/-- Signing, attaching the attestation, a JSON round trip and the check. -/
def SurvivesTransport (lib : Library) (manifest : Members) (secretKey publicKey : Bytes) : Prop :=
  ∃ attestation received, signManifest lib manifest secretKey publicKey = .ok attestation ∧
    parse (jsonText (.obj (attach manifest attestation))) = some received ∧
    verifyReceived lib received = true

theorem verifyMessage_attests {lib : Library} {message secretKey publicKey : Bytes}
    (correct : Attests lib message secretKey publicKey) (other : Bytes) :
    lib.verifyMessage (lib.sign message secretKey DEFAULT_CONTEXT) other publicKey = true ↔
      other = message := by
  rw [Library.verifyMessage, if_neg (not_not.mpr correct.signatureLength),
    if_neg (not_not.mpr correct.publicKeyLength), ← correct.exact other]
  cases lib.verify (lib.sign message secretKey DEFAULT_CONTEXT) other publicKey DEFAULT_CONTEXT <;>
    simp

theorem signManifest_attests {lib : Library} {manifest : Members} {secretKey publicKey : Bytes}
    (correct : Attests lib (signedMessage manifest) secretKey publicKey) :
    signManifest lib manifest secretKey publicKey =
      .ok ⟨toBase64 (lib.sign (signedMessage manifest) secretKey DEFAULT_CONTEXT),
        toBase64 publicKey⟩ := by
  rw [signManifest, Library.signMessage, if_neg (not_not.mpr correct.secretKeyLength)]
  rfl

/-- A freshly attested manifest passes the check. -/
theorem verifyReceived_attach {lib : Library} {manifest : Members} {secretKey publicKey : Bytes}
    (correct : Attests lib (signedMessage manifest) secretKey publicKey) :
    verifyReceived lib (.obj (attach manifest
      ⟨toBase64 (lib.sign (signedMessage manifest) secretKey DEFAULT_CONTEXT),
        toBase64 publicKey⟩)) = true := by
  obtain ⟨signature, key⟩ := property_attach manifest
    ⟨toBase64 (lib.sign (signedMessage manifest) secretKey DEFAULT_CONTEXT), toBase64 publicKey⟩
  rw [verifyReceived, signature, key, verifyManifest]
  simp only [fromBase64_toBase64]
  rw [signedMessage_attach, verifyMessage_attests correct]

/-- The attestation does not change what the verifier takes as the message. -/
theorem signedMessage_received (manifest : Members) (attestation : Attestation) :
    signedMessage (transmittedMembers (attach manifest attestation)) =
      signedMessage (transmittedMembers manifest) := by
  simp only [signedMessage, unsigned_transmitted, unsigned_attach]

theorem survivesTransport_iff_message {lib : Library} (manifest : JsObject)
    {secretKey publicKey : Bytes}
    (correct : Attests lib (signedMessage manifest.members) secretKey publicKey) :
    SurvivesTransport lib manifest.members secretKey publicKey ↔
      signedMessage (transmittedMembers manifest.members) =
        signedMessage manifest.members := by
  have signed := signManifest_attests correct
  generalize made : (⟨_, _⟩ : Attestation) = attestation at signed
  have received := parse_transmitted (attach_ordered manifest.ordered attestation)
  obtain ⟨signature, publicKeyText⟩ := property_attach manifest.members attestation
  have read (key : JsString) {text : JsString}
      (value : property key (attach manifest.members attestation) = .str text) :
      property key (transmittedMembers (attach manifest.members attestation)) = .str text := by
    rw [property_transmittedMembers (by simp [value]), value, transmitted]
  have verdict : verifyReceived lib (.obj (transmittedMembers (attach manifest.members attestation)))
      = true ↔ signedMessage (transmittedMembers manifest.members) =
        signedMessage manifest.members := by
    rw [verifyReceived, read _ signature, read _ publicKeyText, verifyManifest, ← made]
    simp only [fromBase64_toBase64]
    rw [made, signedMessage_received, verifyMessage_attests correct]
  constructor
  · rintro ⟨_, _, ok, parsed, valid⟩
    rw [signed] at ok
    cases ok
    rw [received] at parsed
    cases parsed
    exact verdict.mp valid
  · exact fun same => ⟨attestation, _, signed, received, verdict.mpr same⟩

theorem signedMessage_transmitted (manifest : JsObject) :
    signedMessage (transmittedMembers manifest.members) = signedMessage manifest.members ↔
      isDefined (.obj (unsigned manifest.members)) = true := by
  have present : JsValue.obj (unsigned manifest.members) ≠ .undefined := by simp
  have unique : hasUniqueKeys (.obj (unsigned manifest.members)) :=
    hasUniqueKeys_of_ordered (without_ordered _ manifest.ordered)
  have received := canonicalizeJson_transmitted unique
  rw [transmitted] at received
  rw [signedMessage, signedMessage, unsigned_transmitted, received,
    canonicalMember_present present, Option.getD_some, utf8_injective.eq_iff]
  constructor
  · intro same
    exact agreesOnlyDefined present unique [] [] (by rw [same])
  · intro defined
    rw [canonicalizeJson_defined defined, Option.getD_some]

/-- A signed manifest verifies after a JSON round trip exactly when no property
or element outside the attestation is `undefined`. -/
theorem survivesTransport_iff (lib : Library) (manifest : JsObject) (secretKey publicKey : Bytes)
    (correct : Attests lib (signedMessage manifest.members) secretKey publicKey) :
    SurvivesTransport lib manifest.members secretKey publicKey ↔
      isDefined (.obj (unsigned manifest.members)) = true :=
  (survivesTransport_iff_message manifest correct).trans (signedMessage_transmitted manifest)

/-- A provider with every optional field configured. -/
def configuredProvider : ProviderConfig where
  peerId := js "p"
  grpcPort := Decimal.normalize 50051 0
  tools := []
  resources := []
  serverInfo := ⟨[(js "name", .str (js "s")), (js "version", .str (js "1"))], by decide⟩
  authRequired := false
  tokenSlug := some (js "BANK")
  taxonomy := some ⟨some (js "d"), some 0, some []⟩

theorem configuredProvider_survives :
    let manifest := (providerManifest configuredProvider).members
    Attests (attestingLibrary (signedMessage manifest)) (signedMessage manifest)
      (List.replicate SECRET_KEY_BYTES 0) (List.replicate PUBLIC_KEY_BYTES 0) ∧
    SurvivesTransport (attestingLibrary (signedMessage manifest)) manifest
      (List.replicate SECRET_KEY_BYTES 0) (List.replicate PUBLIC_KEY_BYTES 0) :=
  ⟨attestingLibrary_attests _,
    (survivesTransport_iff _ (providerManifest configuredProvider) _ _
      (attestingLibrary_attests _)).mpr (by decide)⟩

/-- The same provider without a token slug. -/
def sluglessProvider : ProviderConfig := { configuredProvider with tokenSlug := none }

theorem sluglessProvider_rejected :
    let manifest := (providerManifest sluglessProvider).members
    Attests (attestingLibrary (signedMessage manifest)) (signedMessage manifest)
      (List.replicate SECRET_KEY_BYTES 0) (List.replicate PUBLIC_KEY_BYTES 0) ∧
    ¬ SurvivesTransport (attestingLibrary (signedMessage manifest)) manifest
      (List.replicate SECRET_KEY_BYTES 0) (List.replicate PUBLIC_KEY_BYTES 0) := by
  refine ⟨attestingLibrary_attests _, fun survives => ?_⟩
  have message := (survivesTransport_iff_message _ (attestingLibrary_attests _)).mp survives
  have defined := (signedMessage_transmitted (providerManifest sluglessProvider)).mp message
  revert defined
  decide

end NeuralMesh.Server
