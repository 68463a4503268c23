import NeuralMesh.Gateway.ProxyExtraction
import NeuralMesh.Sandbox.DatasetBinding

/-! The request that the client seals and the worker opens. Two framings are cut with negative
indices; the names of the inputs are the client's, and the worker's prototypes are frozen. -/
namespace NeuralMesh.Client

open Js Codec Sandbox Gateway

/-! ### Cryptography -/

abbrev Nonce := { bytes : Bytes // bytes.length = 12 }

/-- AES-256-GCM, which opens what it has sealed. -/
structure AesGcm where
  encrypt : (key nonce plaintext : Bytes) → Bytes × Bytes
  decrypt : (key nonce ciphertext authTag : Bytes) → Option Bytes
  tag_length : ∀ key nonce plaintext, (encrypt key nonce plaintext).2.length = 16
  opens : ∀ {key : Bytes}, key.length = 32 → ∀ (nonce : Nonce) (plaintext : Bytes),
    decrypt key nonce (encrypt key nonce plaintext).1 (encrypt key nonce plaintext).2 =
      some plaintext

/-- ML-KEM-768; the seeds are the random bytes. -/
structure MlKem where
  generateKeyPair : (seed : Bytes) → Bytes × Bytes
  encap : (publicKey seed : Bytes) → Bytes × Bytes
  decap : (ciphertext secretKey : Bytes) → Bytes
  publicKey_length : ∀ seed, (generateKeyPair seed).1.length = 1184
  secret_length : ∀ publicKey seed, (encap publicKey seed).2.length = 32
  agrees : ∀ keySeed seed,
    decap (encap (generateKeyPair keySeed).1 seed).1 (generateKeyPair keySeed).2 =
      (encap (generateKeyPair keySeed).1 seed).2

/-! ### `subarray` -/

/-- A negative index counts from the end. -/
def relativeIndex (length : Nat) (index : Int) : Nat :=
  if index < 0 then (length + index).toNat else min index.toNat length

def subarray (bytes : Bytes) (start : Int) (stop : Option Int) : Bytes :=
  (bytes.take ((stop.map (relativeIndex bytes.length)).getD bytes.length)).drop
    (relativeIndex bytes.length start)

section Framing

variable {body tag : Bytes} (size : tag.length = 16)
include size

theorem subarray_tag : subarray (body ++ tag) (-16) none = tag := by
  have start : relativeIndex (body ++ tag).length (-16) = body.length := by
    rw [relativeIndex, List.length_append, if_pos (by decide)]
    omega
  rw [subarray, start, Option.map_none, Option.getD_none, List.take_length, List.drop_left]

theorem subarray_body : subarray (body ++ tag) 0 (some (-16)) = body := by
  have stop : relativeIndex (body ++ tag).length (-16) = body.length := by
    rw [relativeIndex, List.length_append, if_pos (by decide)]
    omega
  rw [subarray, Option.map_some, Option.getD_some, stop, List.take_left]
  rfl

theorem subarray_inner {nonce : Bytes} (short : nonce.length = 12) :
    subarray (nonce ++ body ++ tag) 12 (some (-16)) = body := by
  have start : relativeIndex (nonce ++ body ++ tag).length 12 = nonce.length := by
    rw [relativeIndex, List.length_append, List.length_append, if_neg (by decide)]
    omega
  have stop : relativeIndex (nonce ++ body ++ tag).length (-16) = (nonce ++ body).length := by
    rw [relativeIndex, List.length_append, if_pos (by decide)]
    omega
  rw [subarray, Option.map_some, Option.getD_some, stop, start, List.take_left, List.drop_left]

end Framing

theorem subarray_nonce {nonce rest : Bytes} (short : nonce.length = 12) :
    subarray (nonce ++ rest) 0 (some 12) = nonce := by
  have stop : relativeIndex (nonce ++ rest).length 12 = nonce.length := by
    rw [relativeIndex, List.length_append, if_neg (by decide)]
    omega
  rw [subarray, Option.map_some, Option.getD_some, stop, List.take_left]
  rfl

/-! ### The client -/

/-- The random bytes of a call. -/
structure Draws where
  encapSeed : Bytes
  aesNonce : Nonce
  inputNonce : Nat → Nonce

structure LogicRequest where
  session_token : JsString
  wasm_binary : Bytes
  inputs : List (JsString × Bytes)
  pqc_ciphertext : Bytes
  aes_nonce : Bytes

section Sealing

variable (kem : MlKem) (aes : AesGcm)

/-- `none` is an exception, here and below. -/
def encapsulateAsymmetric (publicKey seed : Bytes) : Option (Bytes × Bytes) :=
  if publicKey.length = 1184 then some (kem.encap publicKey seed) else none

def encryptPayload (payload sharedSecret : Bytes) (nonce : Nonce) : Option (Bytes × Bytes) :=
  if sharedSecret.length = 32 then
    let (encrypted, authTag) := aes.encrypt sharedSecret nonce payload
    some (encrypted ++ authTag, nonce)
  else none

def sealInput (sharedSecret : Bytes) (inputNonce : Nonce) (text : Bytes) : Bytes :=
  let (encrypted, authTag) := aes.encrypt sharedSecret inputNonce text
  inputNonce ++ encrypted ++ authTag

/-- The assignments to `encryptedInputs`, with the nonces from this one on. -/
def encryptInputs (sharedSecret : Bytes) (inputNonce : Nat → Nonce) :
    Nat → Members → Option (List (JsString × Bytes))
  | _, [] => some []
  | next, (key, value) :: rest => do
    let text ← stringify value
    let later ← encryptInputs sharedSecret inputNonce (next + 1) rest
    return (key, sealInput aes sharedSecret (inputNonce next) (utf8 text)) :: later

/-- The own properties: an assignment to `__proto__` creates none. -/
def encryptedInputs (sharedSecret : Bytes) (inputNonce : Nat → Nonce) (arguments : Members) :
    Option (List (JsString × Bytes)) :=
  (encryptInputs aes sharedSecret inputNonce 0 arguments).map fun assigned =>
    assign (assigned.filter fun e => e.1 ≠ js "__proto__") []

def sealRequest (draws : Draws) (publicKey : Bytes) (sessionToken : JsString)
    (wasmPayload : Option Bytes) (arguments : Members) : Option LogicRequest := do
  let (kyberCiphertext, sharedSecret) ← encapsulateAsymmetric kem publicKey draws.encapSeed
  let safePayload := wasmPayload.getD []
  let (encryptedWasm, aesNonce) ← encryptPayload aes safePayload sharedSecret draws.aesNonce
  let inputs ← encryptedInputs aes sharedSecret draws.inputNonce arguments
  return ⟨sessionToken, encryptedWasm, inputs, kyberCiphertext, aesNonce⟩

end Sealing

/-! ### The worker -/

structure WorkerData where
  ciphertext : Bytes
  secretKeyObj : Bytes
  wasmBinary : Bytes
  inputs : List (JsString × Bytes)
  aesNonce : Option Bytes

def workerData (kyber_sk : Bytes) (request : LogicRequest) : WorkerData where
  ciphertext := request.pqc_ciphertext
  secretKeyObj := kyber_sk
  wasmBinary := request.wasm_binary
  inputs := request.inputs
  aesNonce := some request.aes_nonce

/-- The properties of `Object.prototype`, other than the accessor `__proto__`. -/
def objectPrototypeNames : List JsString :=
  ["constructor", "toString", "toLocaleString", "valueOf", "hasOwnProperty", "isPrototypeOf",
    "propertyIsEnumerable", "__defineGetter__", "__defineSetter__", "__lookupGetter__",
    "__lookupSetter__"].map js

/-- `Object.prototype` is frozen, and stays the prototype as long as no input is named
`__proto__`. -/
def frozenPrototype (_earlier : Members) (key : JsString) : Bool := key ∈ objectPrototypeNames

section Opening

variable (kem : MlKem) (aes : AesGcm)

def decryptInput (aesKey valBuffer : Bytes) : Option Bytes :=
  let inputNonce := subarray valBuffer 0 (some 12)
  let valTag := subarray valBuffer (-16) none
  let valData := subarray valBuffer 12 (some (-16))
  aes.decrypt aesKey inputNonce valData valTag

def decryptTexts (aesKey : Bytes) : List (JsString × Bytes) → Option Plaintexts
  | [] => some []
  | (key, encValue) :: rest => do
    let text ← decryptInput aes aesKey encValue
    let later ← decryptTexts aesKey rest
    return (key, text) :: later

/-- The payload and the inputs. -/
def decryptRequest (data : WorkerData) : Option (Bytes × Members) := do
  let aesKey := kem.decap data.ciphertext data.secretKeyObj
  let authTag := subarray data.wasmBinary (-16) none
  let encryptedData := subarray data.wasmBinary 0 (some (-16))
  let nonce := data.aesNonce.getD (List.replicate 12 0)
  let decryptedPayload ← aes.decrypt aesKey nonce encryptedData authTag
  let plaintexts ← decryptTexts aes aesKey data.inputs
  let inputs ← decryptedInputs frozenPrototype plaintexts
  return (decryptedPayload, inputs)

/-- What the worker gets out of a request that is sealed for its key. -/
def deliver (keySeed : Bytes) (draws : Draws) (sessionToken : JsString) (payload : Bytes)
    (arguments : Members) : Option (Bytes × Members) :=
  let (publicKey, kyber_sk) := kem.generateKeyPair keySeed
  (sealRequest kem aes draws publicKey sessionToken (some payload) arguments).bind fun request =>
    decryptRequest kem aes (workerData kyber_sk request)

end Opening

/-! ### Delivery -/

section Delivery

variable {aes : AesGcm} {sharedSecret : Bytes} (sized : sharedSecret.length = 32)
include sized

theorem decryptInput_sealInput (nonce : Nonce) (text : Bytes) :
    decryptInput aes sharedSecret (sealInput aes sharedSecret nonce text) = some text := by
  have tag := aes.tag_length sharedSecret nonce text
  rw [decryptInput, sealInput]
  dsimp only
  rw [subarray_tag tag, subarray_inner tag nonce.2, List.append_assoc, subarray_nonce nonce.2]
  exact aes.opens sized nonce text

/-- The texts of the arguments come out under their names, whatever the nonces are. -/
theorem decryptTexts_encryptInputs (inputNonce : Nat → Nonce) (next : Nat) {arguments : Members}
    (plain : ∀ m ∈ arguments, isPlain m.2 = true) :
    ∃ assigned, encryptInputs aes sharedSecret inputNonce next arguments = some assigned ∧
      assigned.map Prod.fst = arguments.map Prod.fst ∧
      decryptTexts aes sharedSecret assigned =
        some (arguments.map fun m => (m.1, utf8 (jsonText m.2))) := by
  induction arguments generalizing next with
  | nil => exact ⟨[], rfl, rfl, rfl⟩
  | cons m rest ih =>
    obtain ⟨key, value⟩ := m
    obtain ⟨value_plain, rest_plain⟩ := List.forall_mem_cons.mp plain
    obtain ⟨later, encrypted, names, decrypted⟩ := ih (next + 1) rest_plain
    refine ⟨(key, sealInput aes sharedSecret (inputNonce next) (utf8 (jsonText value))) :: later,
      ?_, ?_, ?_⟩
    · rw [encryptInputs, stringify_of_ne (plain_present value_plain), encrypted]
      rfl
    · rw [List.map_cons, names, List.map_cons]
    · rw [decryptTexts, decryptInput_sealInput sized, decrypted]
      rfl

end Delivery

/-- No argument has the name of a frozen property. -/
def Assignable (arguments : Members) : Prop := ∀ m ∈ arguments, m.1 ∉ objectPrototypeNames

instance (arguments : Members) : Decidable (Assignable arguments) :=
  inferInstanceAs (Decidable (∀ m ∈ arguments, m.1 ∉ objectPrototypeNames))

theorem assignable_cons {m : JsString × JsValue} {rest : Members} :
    Assignable (m :: rest) ↔ m.1 ∉ objectPrototypeNames ∧ Assignable rest :=
  List.forall_mem_cons

/-- Every assignment goes through unless its name is that of a frozen property. -/
theorem decryptInputs_texts (earlier : Members) {arguments : Members}
    (values : ∀ m ∈ arguments, parseDoubles (jsonText m.2) = some m.2) :
    decryptInputs frozenPrototype earlier (arguments.map fun m => (m.1, utf8 (jsonText m.2))) =
      if Assignable arguments then some (earlier ++ arguments) else none := by
  induction arguments generalizing earlier with
  | nil => simp [decryptInputs, Assignable]
  | cons m rest ih =>
    obtain ⟨key, value⟩ := m
    obtain ⟨parsed, values⟩ := List.forall_mem_cons.mp values
    rw [List.map_cons, decryptInputs, decodeUtf8_utf8, parsed]
    dsimp only [Option.bind_eq_bind, Option.bind_some]
    rw [ih (earlier ++ [(key, value)]) values]
    by_cases named : key ∈ objectPrototypeNames
    · have refused : frozenPrototype earlier key = true := decide_eq_true named
      rw [if_pos refused, if_neg fun assignable => (assignable_cons.mp assignable).1 named]
    · have taken : ¬ frozenPrototype earlier key = true := by simpa [frozenPrototype] using named
      rw [if_neg taken, List.append_assoc, List.singleton_append]
      exact if_congr (assignable_cons.trans (and_iff_right named)).symm rfl rfl

/-- The names of the arguments. -/
def names (args : Arguments) : List JsString := args.members.map Prod.fst

section Arguments

variable (args : Arguments)

theorem arguments_sorted : args.members.Pairwise fun a b => precedes a.1 b.1 = true :=
  ((isOrdered_obj args.members).mp args.ordered).1

theorem asDoubles_member {ms : Members} (doubles : asDoublesMembers ms = ms) :
    ∀ m ∈ ms, asDoubles m.2 = m.2 := by
  induction ms with
  | nil => exact fun m member => absurd member List.not_mem_nil
  | cons m ms ih =>
    obtain ⟨k, v⟩ := m
    rw [asDoublesMembers, List.cons.injEq, Prod.mk.injEq] at doubles
    exact List.forall_mem_cons.mpr ⟨doubles.1.2, ih doubles.2⟩

/-- Each argument is read back from its text. -/
theorem arguments_values : ∀ m ∈ args.members,
    isPlain m.2 = true ∧ parseDoubles (jsonText m.2) = some m.2 := by
  intro m member
  have plain : isPlain m.2 = true := by
    have all := args.plain
    rw [isPlain, allMembersPlain_iff] at all
    exact all m member
  have ordered := ((isOrdered_obj args.members).mp args.ordered).2 m member
  have double : asDoubles m.2 = m.2 := by
    have doubles := args.doubles
    rw [asDoubles, JsValue.obj.injEq] at doubles
    exact asDoubles_member doubles m member
  exact ⟨plain, by rw [parseDoubles, parse_jsonText plain ordered, Option.map_some, double]⟩

/-- An object of these names is kept by assigning its properties. -/
theorem assign_arguments (own : js "__proto__" ∉ names args) {entries : List (JsString × β)}
    (same : entries.map Prod.fst = names args) :
    assign (entries.filter fun e => e.1 ≠ js "__proto__") [] = entries := by
  have kept : (entries.filter fun e => e.1 ≠ js "__proto__") = entries := by
    rw [List.filter_eq_self]
    intro e member
    have name : e.1 ∈ names args := same ▸ List.mem_map_of_mem member
    exact decide_eq_true fun proto => own (proto ▸ name)
  rw [kept]
  apply assign_sorted
  have sorted : (entries.map Prod.fst).Pairwise fun a b => precedes a b = true := by
    rw [same, names, List.pairwise_map]
    exact arguments_sorted args
  exact List.pairwise_map.mp sorted

end Arguments

section Calls

variable (kem : MlKem) (aes : AesGcm) (keySeed : Bytes) (draws : Draws) (sessionToken : JsString)
  (payload : Bytes) (args : Arguments)

/-- The secret that the client and the worker share. -/
def secretOf : Bytes := (kem.encap (kem.generateKeyPair keySeed).1 draws.encapSeed).2

theorem secretOf_length : (secretOf kem keySeed draws).length = 32 := kem.secret_length _ _

/-- The request of a call, with these inputs. -/
def requestWith (assigned : List (JsString × Bytes)) : LogicRequest where
  session_token := sessionToken
  wasm_binary := (aes.encrypt (secretOf kem keySeed draws) draws.aesNonce payload).1 ++
    (aes.encrypt (secretOf kem keySeed draws) draws.aesNonce payload).2
  inputs := assigned
  pqc_ciphertext := (kem.encap (kem.generateKeyPair keySeed).1 draws.encapSeed).1
  aes_nonce := draws.aesNonce

variable {kem aes keySeed draws sessionToken payload}

theorem sealRequest_eq {assigned : List (JsString × Bytes)} {arguments : Members}
    (encrypted : encryptedInputs aes (secretOf kem keySeed draws) draws.inputNonce arguments =
      some assigned) :
    sealRequest kem aes draws (kem.generateKeyPair keySeed).1 sessionToken (some payload) arguments =
      some (requestWith kem aes keySeed draws sessionToken payload assigned) := by
  have sized := secretOf_length kem keySeed draws
  rw [secretOf] at encrypted sized
  simp only [sealRequest, encapsulateAsymmetric, if_pos (kem.publicKey_length keySeed),
    encryptPayload, if_pos sized, encrypted, Option.bind_eq_bind, Option.bind_some,
    Option.getD_some, pure, requestWith, secretOf]

/-- The worker opens the payload, and goes on with the inputs. -/
theorem decryptRequest_requestWith (assigned : List (JsString × Bytes)) :
    decryptRequest kem aes (workerData (kem.generateKeyPair keySeed).2
      (requestWith kem aes keySeed draws sessionToken payload assigned)) =
      (decryptTexts aes (secretOf kem keySeed draws) assigned).bind fun plaintexts =>
        (decryptedInputs frozenPrototype plaintexts).map fun inputs => (payload, inputs) := by
  have tag := aes.tag_length (secretOf kem keySeed draws) draws.aesNonce payload
  have opened := aes.opens (secretOf_length kem keySeed draws) draws.aesNonce payload
  rw [decryptRequest, workerData, requestWith]
  dsimp only [Option.getD_some]
  rw [subarray_tag tag, subarray_body tag, kem.agrees, ← secretOf, opened]
  dsimp only [Option.bind_eq_bind, Option.bind_some]
  simp only [Option.map_eq_bind, Function.comp_def, pure]

/-- Payload and arguments come out as they went in, unless a name is that of a frozen property;
then nothing comes out. -/
theorem deliver_eq (own : js "__proto__" ∉ names args) :
    deliver kem aes keySeed draws sessionToken payload args.members =
      if Assignable args.members then some (payload, args.members) else none := by
  have values := arguments_values args
  obtain ⟨assigned, encrypted, same, texts⟩ := @decryptTexts_encryptInputs aes
    (secretOf kem keySeed draws) (secretOf_length kem keySeed draws) draws.inputNonce 0
    args.members fun m member => (values m member).1
  have created : encryptedInputs aes (secretOf kem keySeed draws) draws.inputNonce args.members =
      some assigned := by
    rw [encryptedInputs, encrypted, Option.map_some, assign_arguments args own same]
  have read := decryptInputs_texts [] fun m member => (values m member).2
  rw [List.nil_append] at read
  unfold deliver
  dsimp only
  rw [sealRequest_eq created, Option.bind_some, decryptRequest_requestWith, texts, Option.bind_some,
    decryptedInputs, read]
  split_ifs
  · rw [Option.map_some, assign_arguments args own rfl, Option.map_some]
  · rfl

/-- Payload and arguments come out as they went in if and only if no argument has the name of a
frozen property. -/
theorem delivered_iff (own : js "__proto__" ∉ names args) :
    deliver kem aes keySeed draws sessionToken payload args.members =
      some (payload, args.members) ↔ Assignable args.members := by
  rw [deliver_eq args own]
  constructor
  · intro delivered
    by_contra refused
    rw [if_neg refused] at delivered
    cases delivered
  · intro assignable
    rw [if_pos assignable]

end Calls

/-! ### Two calls -/

/-- Ciphers for the examples, with a plain text for the ciphertext. -/
def plainAes : AesGcm where
  encrypt _ _ plaintext := (plaintext, List.replicate 16 0)
  decrypt _ _ ciphertext _ := some ciphertext
  tag_length _ _ _ := rfl
  opens _ _ _ := rfl

def constantKem : MlKem where
  generateKeyPair _ := (List.replicate 1184 0, [])
  encap _ seed := (seed, List.replicate 32 0)
  decap _ _ := List.replicate 32 0
  publicKey_length _ := List.length_replicate
  secret_length _ _ := rfl
  agrees _ _ := rfl

def zeroDraws : Draws := ⟨[], ⟨List.replicate 12 0, rfl⟩, fun _ => ⟨List.replicate 12 0, rfl⟩⟩

/-- One argument with this name. -/
def oneArgument (name : JsString) : Arguments where
  members := [(name, .bool true)]
  ordered := by simp [isOrdered]
  plain := rfl
  doubles := rfl

theorem query_delivered : deliver constantKem plainAes [] zeroDraws [] []
    (oneArgument (js "query")).members = some ([], (oneArgument (js "query")).members) := by
  refine (delivered_iff (oneArgument (js "query")) (by decide)).mpr ?_
  decide

/-- An argument named `constructor` makes the worker throw. -/
theorem constructor_not_delivered : js "__proto__" ∉ names (oneArgument (js "constructor")) ∧
    deliver constantKem plainAes [] zeroDraws [] [] (oneArgument (js "constructor")).members ≠
      some ([], (oneArgument (js "constructor")).members) := by
  have own : js "__proto__" ∉ names (oneArgument (js "constructor")) := by decide
  refine ⟨own, ?_⟩
  rw [deliver_eq _ own, if_neg (by decide)]
  intro delivered
  cases delivered

end NeuralMesh.Client
