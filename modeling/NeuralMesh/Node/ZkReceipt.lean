import NeuralMesh.Worker.ZkVerifier

/-! The receipts of the node, written as bincode, and the client that reads them as versioned
receipts: the two formats meet in no response. -/
namespace NeuralMesh.Node

open Js Codec Worker

/-! ### The node -/

structure LiopZkReceipt where
  journal : Bytes
  hmacSeal : Bytes

/-- A length in eight bytes, the lowest first. -/
def lengthBytes (n : Nat) : Bytes := (List.range 8).map fun i => UInt8.ofNat (n / 256 ^ i)

/-- `bincode::serialize` of a vector of bytes. -/
def serializeBytes (bytes : Bytes) : Bytes := lengthBytes bytes.length ++ bytes

def LiopZkReceipt.serialize (receipt : LiopZkReceipt) : Bytes :=
  serializeBytes receipt.journal ++ serializeBytes receipt.hmacSeal

structure ZkExecutionResult where
  output : Text
  is_valid : Bool

def liopReceipt (sha256 : Bytes → Bytes) (wasm_logic input_data : Bytes) : LiopZkReceipt :=
  let journal_hash := sha256 wasm_logic
  let seal_hash := sha256 (journal_hash ++ input_data ++ utf8 "ZK_SNARK_STUB_SEAL".toList)
  ⟨journal_hash, seal_hash⟩

def proveWasmExecution (sha256 : Bytes → Bytes) (wasm_logic input_data : Bytes) :
    ZkExecutionResult × Bytes :=
  (⟨"ZK_PROVED_RESULT".toList, true⟩, (liopReceipt sha256 wasm_logic input_data).serialize)

structure LogicResponse where
  semantic_evidence : Text
  cryptographic_proof : Bytes
  zk_receipt : Bytes
  is_error : Bool

/-- How the sandboxed module ends. -/
inductive SandboxOutcome where
  | completed
  | fuelConsumed
  | failed (error : Text)

/-- The bytes that the module pushes, and how it ends. -/
structure SandboxRun where
  pushed : List Bytes
  outcome : SandboxOutcome

/-- `std::str::from_utf8` with a replacement for other bytes. -/
def pushedText (data : Bytes) : Text :=
  if utf8 (decodeUtf8 data) = data then decodeUtf8 data else "BAD_UTF8".toList

def pushEvent (data : Bytes) : LogicResponse :=
  ⟨"[WATCHDOG PUSH ALERT]: ".toList ++ pushedText data, [], [], false⟩

def fuelHalt : LogicResponse :=
  ⟨"[AST Sandbox Halt]: Execution Exceeded Computational Fuel Threshold".toList, [], [], true⟩

def capabilityViolation (error : Text) : LogicResponse :=
  ⟨"Capability Violation: ".toList ++ error, [], [], true⟩

def completion (sha256 : Bytes → Bytes) (wasm_binary : Bytes) : LogicResponse where
  semantic_evidence := "Execution Completed successfully.".toList
  cryptographic_proof := [0, 1, 2, 3]
  zk_receipt := (proveWasmExecution sha256 wasm_binary []).2
  is_error := false

/-- The stream that answers a decrypted module. A module that ran out of fuel is completed as
well. -/
def executeLogic (sha256 : Bytes → Bytes) (wasm_binary : Bytes) (run : SandboxRun) :
    List LogicResponse :=
  run.pushed.map pushEvent ++
    match run.outcome with
    | .completed => [completion sha256 wasm_binary]
    | .fuelConsumed => [fuelHalt, completion sha256 wasm_binary]
    | .failed error => [capabilityViolation error]

/-! ### The client -/

/-- What the client gives to the verifier for a response. -/
def verificationTask (safePayload sharedSecret : Bytes) (response : LogicResponse) :
    ZkVerificationPayload where
  logicPayload := some safePayload
  remoteImageIdHex := some (ofText (hexText response.cryptographic_proof))
  zkReceipt := some response.zk_receipt
  sessionSecret := some sharedSecret
  expectedOutput := .str (ofText response.semantic_evidence)

/-! ### No response verifies -/

section Formats

variable {host : Host} {safePayload sharedSecret : Bytes}

/-- Without a proof a field is missing. -/
theorem unproved_refused {response : LogicResponse} (unproved : response.cryptographic_proof = []) :
    (host.workerHandler (.verifyReceipt
      (verificationTask safePayload sharedSecret response))).verified = false := by
  rw [← Bool.not_eq_true, Host.verified_iff, Host.verifyZkReceipt, Host.readFields, verificationTask,
    unproved]
  intro verified
  cases verified

/-- The first byte of a serialized receipt is the length of its journal. -/
theorem serialize_head (receipt : LiopZkReceipt) :
    receipt.serialize.getD 0 0 = UInt8.ofNat receipt.journal.length := by
  rw [LiopZkReceipt.serialize, serializeBytes, lengthBytes]
  simp [List.range_succ_eq_map]

theorem serialize_length (receipt : LiopZkReceipt) :
    receipt.serialize.length = 16 + receipt.journal.length + receipt.hmacSeal.length := by
  simp only [LiopZkReceipt.serialize, serializeBytes, lengthBytes, List.length_append,
    List.length_map, List.length_range]
  omega

/-- The client takes the length of the journal for the version of the receipt. -/
theorem readReceipt_serialize (receipt : LiopZkReceipt) (journal : receipt.journal.length = 32) :
    Host.readReceipt receipt.serialize =
      .error (.rejected (js "Unknown receipt version: 32")) := by
  have long : 35 ≤ receipt.serialize.length := by
    rw [serialize_length, journal]
    omega
  rw [Host.readReceipt, decide_eq_true long, serialize_head, journal]
  rfl

/-- A verified task has a readable receipt. -/
theorem readReceipt_of_verified {task : ZkVerificationPayload} {zkReceipt : Bytes}
    (received : task.zkReceipt = some zkReceipt) (verified : host.verifyZkReceipt task = .ok ()) :
    ∃ receipt, Host.readReceipt zkReceipt = .ok receipt := by
  rw [Host.verifyZkReceipt] at verified
  obtain ⟨fields, read, verified⟩ := bind_ok.mp verified
  obtain ⟨-, same, verified⟩ := bind_ok.mp verified
  obtain ⟨receipt, readable, -⟩ := bind_ok.mp verified
  cases received.symm.trans (Host.readFields_ok read).2
  exact ⟨receipt, readable⟩

variable (digest : ∀ bytes, (host.sha256 bytes).length = 32)
include digest

theorem completion_unreadable (wasm_binary : Bytes) :
    Host.readReceipt (completion host.sha256 wasm_binary).zk_receipt =
      .error (.rejected (js "Unknown receipt version: 32")) := by
  exact readReceipt_serialize (liopReceipt host.sha256 wasm_binary []) (digest wasm_binary)

/-- The receipt of a completion is refused whatever image id comes with it. -/
theorem completion_refused {task : ZkVerificationPayload} {wasm_binary : Bytes}
    (received : task.zkReceipt = some (completion host.sha256 wasm_binary).zk_receipt) :
    (host.workerHandler (.verifyReceipt task)).verified = false := by
  rw [← Bool.not_eq_true, Host.verified_iff]
  intro verified
  obtain ⟨receipt, readable⟩ := readReceipt_of_verified received verified
  rw [completion_unreadable digest] at readable
  cases readable

/-- Nor is the proof the image id of any payload. -/
theorem imageId_ne_proof (wasm_binary payload : Bytes) : host.deriveImageId payload ≠
    ofText (hexText (completion host.sha256 wasm_binary).cryptographic_proof) := by
  intro same
  rw [Host.deriveImageId] at same
  have texts := ofText_injective same
  have image : (Crypto.deriveLogicImageDigest host.sha256 payload).length = 32 := by
    rw [Crypto.deriveLogicImageDigest]
    split_ifs
    · exact digest _
    · exact digest _
  have lengths := congrArg List.length texts
  rw [hexText_length, hexText_length, image] at lengths
  cases lengths

end Formats

/-! ### One module -/

def constantHost : Host where
  sha256 _ := List.replicate 32 0
  hmac _ _ := List.replicate 32 0
  slice _ := .ok []

/-- The header of a module. -/
def emptyModule : Bytes := [0x00, 0x61, 0x73, 0x6D, 0x01, 0x00, 0x00, 0x00]

end NeuralMesh.Node
