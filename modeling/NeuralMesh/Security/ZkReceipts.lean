import NeuralMesh.Gateway.ProxiedCall
import NeuralMesh.Js.TextLength

/-! The verifier of receipts that throws, and the worker's: they accept the same receipts, and the
receipts that the worker encodes. -/
namespace NeuralMesh.Security

open Js Codec Crypto Worker Gateway

structure ZkReceipt where
  proof : Bytes
  journal : Bytes
  imageId : Bytes

def zkVerificationError (message : JsString) : Refusal :=
  .thrown (js "ZK Verification Failed: " ++ message)

/-- What is thrown inside the block that reads the journal is caught there. -/
def journalNames (imageId journal : Bytes) : Bool :=
  match parseDoubles (decodeUtf8 journal) with
  | none | some .null => false
  | some journalData => isString (ofText (hexText imageId)) (member (js "image_id") journalData)

section Verifiers

variable (host : Host)

def verifySeal (sessionSecret : Option Bytes) (journal hmacSeal : Bytes) : Except Refusal Unit :=
  match sessionSecret with
  | none | some [] => .ok ()
  | some secret => do
    let equal ← Host.timingSafeEqual hmacSeal (host.hmac secret journal)
    require equal (zkVerificationError (js "Invalid seal: HMAC verification failed."))

def verify (receipt : ZkReceipt) (expectedImageId : Bytes) (sessionSecret : Option Bytes) :
    Except Refusal Bool := do
  require (receipt.imageId == expectedImageId) (zkVerificationError
    (js "ImageID mismatch. The remote origin executed a different WASM payload."))
  require (receipt.proof.length != 0)
    (zkVerificationError (js "Empty or malformed zero-knowledge proof array."))
  require (35 ≤ receipt.proof.length && receipt.proof.getD 0 0 == 0x01)
    (zkVerificationError (js "Malformed receipt: invalid header or length."))
  let journalLen := (receipt.proof.getD 1 0).toNat * 256 + (receipt.proof.getD 2 0).toNat
  let journal := (receipt.proof.drop 3).take journalLen
  let hmacSeal := receipt.proof.drop (3 + journalLen)
  require (hmacSeal.length == 32)
    (zkVerificationError (js "Invalid seal: expected 32-byte HMAC-SHA256."))
  require (journalNames receipt.imageId journal)
    (zkVerificationError (js "Failed to parse journal data."))
  verifySeal host sessionSecret journal hmacSeal
  return true

/-- The worker is given the logic, and the receipt with the image id in its header. -/
def workerTask (logicPayload imageId proof : Bytes) (sessionSecret : Option Bytes) :
    ZkVerificationPayload where
  logicPayload := some logicPayload
  remoteImageIdHex := some (ofText (hexText imageId))
  zkReceipt := some proof
  sessionSecret := sessionSecret
  expectedOutput := .undefined

/-- A receipt that names the image id, with a seal of the secret if there is one. -/
structure Sealed (imageId proof : Bytes) (sessionSecret : Option Bytes) (receipt : Host.Receipt) :
    Prop where
  unpacked : Host.readReceipt proof = .ok receipt
  named : journalNames imageId receipt.journal = true
  intact : host.checkSeal sessionSecret receipt = .ok ()

/-! ### Both verifiers check the same -/

variable {host : Host}

theorem require_then {α : Type} {condition : Bool} {refusal : Refusal}
    {next : Unit → Except Refusal α} {result : α} :
    (require condition refusal >>= next) = .ok result ↔
      condition = true ∧ next () = .ok result := by
  cases condition with
  | true => exact ⟨fun done => ⟨rfl, done⟩, fun done => done.2⟩
  | false => exact ⟨fun failed => (nomatch failed), fun failed => (nomatch failed.1)⟩

theorem readReceipt_ok {proof : Bytes} {receipt : Host.Receipt} :
    Host.readReceipt proof = .ok receipt ↔
      (35 ≤ proof.length ∧ proof.getD 0 0 = 0x01) ∧ receipt.hmacSeal.length = 32 ∧
        receipt.journal = (proof.drop 3).take
          ((proof.getD 1 0).toNat * 256 + (proof.getD 2 0).toNat) ∧
        receipt.hmacSeal = proof.drop
          (3 + ((proof.getD 1 0).toNat * 256 + (proof.getD 2 0).toNat)) := by
  rw [Host.readReceipt]
  simp only [require_then, decide_eq_true_eq, beq_iff_eq]
  constructor
  · rintro ⟨long, version, size, same⟩
    cases same
    exact ⟨⟨long, version⟩, size, rfl, rfl⟩
  · rintro ⟨⟨long, version⟩, size, journal, hmacSeal⟩
    refine ⟨long, version, hmacSeal ▸ size, ?_⟩
    obtain ⟨_, _⟩ := receipt
    cases journal
    cases hmacSeal
    rfl

theorem verifySeal_ok {sessionSecret : Option Bytes} {receipt : Host.Receipt} :
    verifySeal host sessionSecret receipt.journal receipt.hmacSeal = .ok () ↔
      host.checkSeal sessionSecret receipt = .ok () := by
  cases sessionSecret with
  | none => exact Iff.rfl
  | some secret =>
    cases secret with
    | nil => exact Iff.rfl
    | cons => simp only [verifySeal, Host.checkSeal, bind_ok, require_ok]

theorem verify_ok {imageId proof journal : Bytes} {sessionSecret : Option Bytes} :
    verify host ⟨proof, journal, imageId⟩ imageId sessionSecret = .ok true ↔
      ∃ receipt, Sealed host imageId proof sessionSecret receipt := by
  rw [verify]
  simp only [require_then, bne_iff_ne, beq_iff_eq, Bool.and_eq_true, decide_eq_true_eq]
  simp only [bind_ok]
  constructor
  · rintro ⟨-, -, header, size, named, _, intact, -⟩
    exact ⟨⟨_, _⟩, readReceipt_ok.mpr ⟨header, size, rfl, rfl⟩, named, verifySeal_ok.mp intact⟩
  · rintro ⟨receipt, unpacked, named, intact⟩
    obtain ⟨header, size, journal, hmacSeal⟩ := readReceipt_ok.mp unpacked
    have sealed := verifySeal_ok.mpr intact
    rw [journal] at named sealed
    rw [hmacSeal] at size sealed
    exact ⟨trivial, by omega, header, size, named, (), sealed, rfl⟩

/-- The mismatch is refused, whether or not it can be printed. -/
theorem readJournal_named {imageId journal : Bytes} :
    (∃ journalData, host.readJournal (ofText (hexText imageId)) journal = .ok journalData) ↔
      journalNames imageId journal = true := by
  have compared {named : Bool} {journalData : JsValue} {mismatch : Except Refusal JsValue}
      (fails : ∀ read, mismatch ≠ .ok read) :
      (∃ read, (if named then .ok journalData else mismatch) = .ok read) ↔ named = true := by
    cases named with
    | true => exact ⟨fun _ => rfl, fun _ => ⟨_, rfl⟩⟩
    | false =>
      refine iff_of_false ?_ Bool.false_ne_true
      rintro ⟨read, same⟩
      exact fails read same
  rw [Host.readJournal, journalNames]
  cases parseDoubles (decodeUtf8 journal) with
  | none => simp
  | some journalData =>
    cases journalData with
    | null => simp
    | _ =>
      refine compared fun read same => ?_
      generalize host.slice8 _ = shown at same
      cases shown <;> cases same

/-- What both verifiers rely on the hash functions for. -/
structure DigestSizes (host : Host) : Prop where
  sha256 : ∀ bytes, (host.sha256 bytes).length = 32
  hmac : ∀ key message, (host.hmac key message).length = 32

theorem imageId_named (sizes : DigestSizes host) (logicPayload : Bytes) :
    host.deriveImageId logicPayload ≠ [] := by
  have image : (deriveLogicImageDigest host.sha256 logicPayload).length = 32 := by
    rw [deriveLogicImageDigest]
    split_ifs
    · exact sizes.sha256 _
    · exact sizes.sha256 _
  intro empty
  have none := @ofText_injective _ [] empty
  have length := hexText_length (deriveLogicImageDigest host.sha256 logicPayload)
  rw [none, image] at length
  cases length

theorem worker_ok (sizes : DigestSizes host) {logicPayload imageId proof : Bytes}
    {sessionSecret : Option Bytes}
    (derived : deriveLogicImageDigest host.sha256 logicPayload = imageId) :
    (host.workerHandler
      (.verifyReceipt (workerTask logicPayload imageId proof sessionSecret))).verified = true ↔
      ∃ receipt, Sealed host imageId proof sessionSecret receipt := by
  subst derived
  have fields : Host.readFields (workerTask logicPayload
      (deriveLogicImageDigest host.sha256 logicPayload) proof sessionSecret) =
      .ok (logicPayload, host.deriveImageId logicPayload, proof) :=
    if_neg (imageId_named sizes logicPayload)
  rw [Host.verified_iff, Host.verifyZkReceipt, fields]
  simp only [bind_ok]
  constructor
  · rintro ⟨_, same, _, -, receipt, unpacked, journalData, read, _, intact, -⟩
    cases same
    exact ⟨receipt, unpacked, readJournal_named.mp ⟨journalData, read⟩, intact⟩
  · rintro ⟨receipt, unpacked, named, intact⟩
    obtain ⟨journalData, read⟩ := readJournal_named.mpr named
    exact ⟨_, rfl, (), require_ok.mpr (beq_self_eq_true _), receipt, unpacked, journalData, read,
      (), intact, rfl⟩

end Verifiers

/-! ### The receipts of the worker -/

abbrev Digest := { bytes : Bytes // bytes.length = 32 }

abbrev Double := { n : JsNumber // IsDouble n }

def journalMembers (imageId datasetHash outputHash : Digest) (fuel ts : Double) : Members :=
  [(js "image_id", .str (ofText (hexText imageId))),
    (js "dataset_hash", .str (ofText (hexText datasetHash))),
    (js "output_hash", .str (ofText (hexText outputHash))),
    (js "fuel", .num fuel),
    (js "ts", .num ts)]

def encodeJournal (imageId datasetHash outputHash : Digest) (fuel ts : Double) : Bytes :=
  utf8 (jsonText (.obj (journalMembers imageId datasetHash outputHash fuel ts)))

/-- `none` is the `RangeError` for a journal that is too long. -/
def encodeReceipt (host : Host) (sessionSecret : Bytes) (imageId datasetHash outputHash : Digest)
    (fuel ts : Double) : Option JsString :=
  (sealReceipt host sessionSecret (encodeJournal imageId datasetHash outputHash fuel ts)).map
    fun receiptBuf => ofText (base64Text receiptBuf)

/-- The journal of a run is such a journal. -/
theorem journal_encodes {sha256 : Bytes → Bytes} (sizes : ∀ bytes, (sha256 bytes).length = 32)
    (e : Execution) (committed : JsString) (fuel : IsDouble (.finite e.fuel)) (ts : IsDouble (.finite e.ts)) :
    ∃ imageId datasetHash outputHash : Digest,
      imageId = Worker.imageId sha256 e.logic ∧ e.journal sha256 committed =
        encodeJournal imageId datasetHash outputHash ⟨_, fuel⟩ ⟨_, ts⟩ := by
  have image : (Worker.imageId sha256 e.logic).length = 32 := by
    rw [imageId_eq]
    split_ifs
    · exact sizes _
    · exact sizes _
  exact ⟨⟨_, image⟩, ⟨_, sizes _⟩, ⟨_, sizes _⟩, rfl, rfl⟩

section Encoder

variable (imageId datasetHash outputHash : Digest) (fuel ts : Double)

theorem encodeJournal_length :
    (encodeJournal imageId datasetHash outputHash fuel ts).length < 65536 := by
  have hash (digest : Digest) : (quote (ofText (hexText digest))).length ≤ 12 * 64 + 2 := by
    have size := quote_length (hexText digest)
    rw [hexText_length, digest.2] at size
    exact size
  have image := hash imageId
  have dataset := hash datasetHash
  have output := hash outputHash
  have number := double_length fuel.2
  have time := double_length ts.2
  have text : (jsonText (.obj (journalMembers imageId datasetHash outputHash fuel ts))).length ≤
      3 * (12 * 64 + 2) + 2 * 5500 + 100 := by
    simp only [jsonText, journalMembers, memberTexts, commaJoin_cons, commaTail_cons, commaTail_nil,
      List.length_cons, List.length_append, List.length_nil]
    have names : (quote (js "image_id")).length + (quote (js "dataset_hash")).length +
        (quote (js "output_hash")).length + (quote (js "fuel")).length +
        (quote (js "ts")).length = 47 := by
      decide
    omega
  have bytes := utf8_length (jsonText (.obj (journalMembers imageId datasetHash outputHash fuel ts)))
  rw [encodeJournal]
  omega

theorem encodeJournal_names :
    journalNames imageId (encodeJournal imageId datasetHash outputHash fuel ts) = true := by
  have keys : ((journalMembers imageId datasetHash outputHash fuel ts).map Prod.fst).Pairwise
      fun a b => precedes a b = true := by
    simp only [journalMembers, List.map_cons, List.map_nil]
    decide
  have ordered : isOrdered (.obj (journalMembers imageId datasetHash outputHash fuel ts)) = true := by
    refine (isOrdered_obj _).mpr ⟨List.pairwise_map.mp keys, ?_⟩
    simp [journalMembers, isOrdered]
  have recorded : property (js "image_id") (transmittedMembers
      (journalMembers imageId datasetHash outputHash fuel ts)) = .str (ofText (hexText imageId)) :=
    rfl
  rw [journalNames, encodeJournal, decodeUtf8_utf8, parseDoubles, parse_transmitted ordered,
    transmitted, Option.map_some]
  have named := member_asDoubles (js "image_id") (transmittedMembers
    (journalMembers imageId datasetHash outputHash fuel ts))
  rw [recorded] at named
  exact Host.isString_iff.mpr named

theorem encoded_sealed {host : Host} (sizes : DigestSizes host) (sessionSecret : Bytes) : ∃ zkReceipt,
    encodeReceipt host sessionSecret imageId datasetHash outputHash fuel ts = some zkReceipt ∧
      ∃ receipt, Sealed host imageId (base64Bytes (wellFormed zkReceipt)) (some sessionSecret)
        receipt := by
  obtain ⟨receiptBuf, made⟩ := sealReceipt_fits host sessionSecret
    (encodeJournal_length imageId datasetHash outputHash fuel ts)
  refine ⟨ofText (base64Text receiptBuf), by rw [encodeReceipt, made, Option.map_some], ?_⟩
  rw [wellFormed_ofText, base64Bytes_base64Text]
  refine ⟨_, readReceipt_sealed sizes.hmac made, encodeJournal_names .., ?_⟩
  cases sessionSecret with
  | nil => rfl
  | cons => simp [Host.checkSeal, Host.timingSafeEqual, require, bind, Except.bind]

end Encoder

/-- The two verifiers accept the same receipts, and both accept a receipt of the worker. -/
theorem verifiers_agree {host : Host} (sizes : DigestSizes host) :
    (∀ (proof journal imageId logicPayload : Bytes) (sessionSecret : Option Bytes),
      deriveLogicImageDigest host.sha256 logicPayload = imageId →
      (verify host ⟨proof, journal, imageId⟩ imageId sessionSecret = .ok true ↔
        (host.workerHandler
          (.verifyReceipt (workerTask logicPayload imageId proof sessionSecret))).verified = true)) ∧
    ∀ (imageId datasetHash outputHash : Digest) (fuel ts : Double) (sessionSecret : Bytes),
      ∃ zkReceipt,
        encodeReceipt host sessionSecret imageId datasetHash outputHash fuel ts = some zkReceipt ∧
        (∀ journal, verify host ⟨base64Bytes (wellFormed zkReceipt), journal, imageId⟩ imageId
          (some sessionSecret) = .ok true) ∧
        ∀ logicPayload, deriveLogicImageDigest host.sha256 logicPayload = imageId →
          (host.workerHandler (.verifyReceipt (workerTask logicPayload imageId
            (base64Bytes (wellFormed zkReceipt)) (some sessionSecret)))).verified = true := by
  constructor
  · intro proof journal imageId logicPayload sessionSecret derived
    rw [verify_ok, worker_ok sizes derived]
  · intro imageId datasetHash outputHash fuel ts sessionSecret
    obtain ⟨zkReceipt, encoded, accepted⟩ :=
      encoded_sealed imageId datasetHash outputHash fuel ts sizes sessionSecret
    refine ⟨zkReceipt, encoded, ?_, ?_⟩
    · intro journal
      exact verify_ok.mpr accepted
    · intro logicPayload derived
      exact (worker_ok sizes derived).mpr accepted

/-- Every digest of this host is zero. -/
def zeroHost : Host :=
  ⟨fun _ => List.replicate 32 0, fun _ _ => List.replicate 32 0, fun _ => .error []⟩

def zeroDigest : Digest := ⟨List.replicate 32 0, rfl⟩

/-- No fuel and no time are `null` in the journal. -/
def noNumber : Double := ⟨.nan, trivial⟩

theorem zeroHost_agrees :
    (verify zeroHost ⟨[0x01], [], zeroDigest⟩ zeroDigest none = .ok true ↔
      (zeroHost.workerHandler
        (.verifyReceipt (workerTask [] zeroDigest [0x01] none))).verified = true) ∧
    ∃ zkReceipt, encodeReceipt zeroHost [7] zeroDigest zeroDigest zeroDigest noNumber noNumber =
        some zkReceipt ∧
      verify zeroHost ⟨base64Bytes (wellFormed zkReceipt), [], zeroDigest⟩ zeroDigest (some [7]) =
        .ok true ∧
      (zeroHost.workerHandler (.verifyReceipt (workerTask [] zeroDigest
        (base64Bytes (wellFormed zkReceipt)) (some [7])))).verified = true := by
  obtain ⟨agree, accepted⟩ := @verifiers_agree zeroHost ⟨fun _ => rfl, fun _ _ => rfl⟩
  refine ⟨agree [0x01] [] zeroDigest [] none rfl, ?_⟩
  obtain ⟨zkReceipt, encoded, thrown, returned⟩ :=
    accepted zeroDigest zeroDigest zeroDigest noNumber noNumber [7]
  exact ⟨zkReceipt, encoded, thrown [], returned [] rfl⟩

end NeuralMesh.Security
