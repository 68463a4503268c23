import NeuralMesh.Gateway.ProxyName
import NeuralMesh.Server.Egress
import NeuralMesh.Worker.LiteralOutput
import NeuralMesh.Worker.SeededNoise

/-! A tool call from the gateway to a provider. The provider runs the logic, seals the
output, and calls the tool that the output names; the gateway checks the receipt. -/
namespace NeuralMesh.Gateway

open Js Codec Crypto Worker Server

/-- The parameters of a `tools/call` request. -/
def callParams (name : JsString) (args : Arguments) : JsValue :=
  .obj [(js "name", .str name), (js "arguments", args.value)]

def callLogic (name : JsString) (args : Arguments) : JsString := proxyLogic name (callParams name args)

/-! ### The provider -/

/-- A provider, and what a run is given besides the logic. -/
structure Provider where
  env : EgressEnv
  /-- What the sandbox returns for a source; `none` is an exception. -/
  execute : Text → Option Node
  /-- JSON is a part of the language, and so is a name that needs no escapes. -/
  evaluates : ∀ {name : Text} {args : Arguments} {output : Node}, name ≠ [] →
    (∀ c ∈ name, IsPlainChar c) → execute (proxySource name args.text) = some output →
      output = literalNode (proxyRequest (ofText name) args.value)
  noise : Noise
  dpConfig : Option DpConfig
  readOnly : JsString → Bool
  records : List JsValue
  fuel : Decimal
  ts : Decimal

/-- The receipt of a journal; `none` is the `RangeError` for a journal that is too long. -/
def sealReceipt (host : Host) (sessionSecret journal : Bytes) : Option Bytes :=
  if journal.length < 65536 then
    some ([0x01, UInt8.ofNat (journal.length / 256), UInt8.ofNat (journal.length % 256)] ++ journal ++
      host.hmac sessionSecret journal)
  else none

namespace Provider

variable (provider : Provider) (host : Host) (sessionSecret : Bytes)

/-- The sandbox is given the source in the logic and returns the output. -/
def Executes (logic : Bytes) (output : Node) : Prop :=
  ∃ source, decryptedPayload logic = .source source ∧ provider.execute source = some output

def execution (logic : Bytes) (output : Node) : Execution :=
  ⟨logic, provider.records, output, provider.fuel, provider.ts⟩

/-- What the worker does with the output of the sandbox; `none` is an exception. -/
def workerResponse (logic : Bytes) (output : Node) : Option EgressEnv.PoolResponse :=
  let e := provider.execution logic output
  (processLogicExecution host.sha256 provider.noise provider.dpConfig provider.readOnly e).bind
    fun result => (sealReceipt host sessionSecret result.journal).map fun receiptBuf =>
      ⟨result.output, ofText (e.imageIdHex host.sha256), ofText (base64Text receiptBuf)⟩

/-- The journal of the run has room in a receipt. -/
def JournalFits (logic : Bytes) (output : Node) : Prop :=
  ∀ result, processLogicExecution host.sha256 provider.noise provider.dpConfig provider.readOnly
    (provider.execution logic output) = some result → result.journal.length < 65536

/-- The call of a tool that the server makes for the output of the worker. -/
def toolCall (output : Node) : Option EgressEnv.ToolRequest :=
  match finalOutput provider.env.display (sanitizeOutput output).value with
  | .direct _ => none
  | .proxied decoded => some (EgressEnv.toolRequest decoded)

/-- The tool is called with the request; its result is answered. -/
theorem executeLogicEgress_toolCall {output : Node} {request : EgressEnv.ToolRequest}
    (call : provider.toolCall output = some request) (toolName : JsString)
    (toolPolicy : Option LogicExecutionPolicy) (callTool : EgressEnv.ToolRequest → Option Node) :
    provider.env.executeLogicEgress toolName toolPolicy callTool output =
      EgressEnv.answerProxied (provider.env.grpcEgress toolName toolPolicy)
        (sanitizeOutput output).value (callTool request) := by
  obtain ⟨decoded, proxied, rfl⟩ : ∃ decoded, finalOutput provider.env.display
      (sanitizeOutput output).value = .proxied decoded ∧ EgressEnv.toolRequest decoded = request := by
    unfold toolCall at call
    split at call
    · cases call
    · next decoded proxied => exact ⟨decoded, proxied, Option.some.inj call⟩
  rw [EgressEnv.executeLogicEgress, proxied]

end Provider

/-- The response of `executeLogic` that carries a text. -/
def evidenceResponse (workerResponse : EgressEnv.PoolResponse) (finalOutput : JsString) :
    LogicResponse where
  semanticEvidence := finalOutput
  cryptographicProof := hexBytes (wellFormed workerResponse.image_id)
  zkReceipt := base64Bytes (wellFormed workerResponse.zk_receipt)
  isError := false

/-- The proxied call comes through: the verifier reads the request off the logic, the run
ends, the provider calls that tool with these arguments, and the receipt verifies. -/
structure RoundTrips (host : Host) (provider : Provider) (sessionSecret : Bytes) (name : JsString)
    (args : Arguments) (output : Node) : Prop where
  extracted : tryExtractProxyOutput (stringBytes (callLogic name args)) =
    some (proxyRequest name args.value)
  executed : ∃ response,
    provider.workerResponse host sessionSecret (stringBytes (callLogic name args)) output =
      some response ∧
    provider.toolCall response.output = some ⟨.str name, args.value⟩ ∧
    ∀ body, host.Verifies (verificationTask ⟨callLogic name args, sessionSecret⟩
      (evidenceResponse response body) body) (.str body)

/-! ### When a call comes through -/

/-- The name stands in a JSON text as it is. -/
def PlainName (name : JsString) : Prop :=
  name ≠ [] ∧ ofText (wellFormed name) = name ∧ ∀ c ∈ wellFormed name, IsPlainChar c

theorem PlainName.text {name : JsString} (plain : PlainName name) : wellFormed name ≠ [] := by
  obtain ⟨nonempty, same, -⟩ := plain
  intro empty
  rw [empty] at same
  exact nonempty same.symm

namespace Provider

variable (provider : Provider)

/-- Small data sets get noise if the tool has a policy. -/
def addsNoise : Bool :=
  match provider.dpConfig with
  | none => false
  | some config => !reaches provider.records.length config.smallDatasetThreshold

/-- The noise of the run. -/
def noisy : Option JsString → Decimal → Nat → JsNumber × Nat :=
  match provider.dpConfig with
  | none => silent
  | some config =>
    if reaches provider.records.length config.smallDatasetThreshold then silent
    else provider.noise config provider.records.length

/-- The run gives every number of the request back. Without noise, rounding leaves them as
they are; with noise, rounding takes it off, and reading the rounded number again. -/
def KeepsNumbers (name : JsString) (args : Arguments) : Prop :=
  if provider.addsNoise then
    Undone provider.noisy none 0 (literalNode (proxyRequest name args.value)) ∧
      ∀ n ∈ numbers args.value, ReadsBack n
  else ∀ n ∈ numbers args.value, IsRounded n

/-- The run leaves the request as it is. -/
structure Keeps (name : JsString) (args : Arguments) : Prop where
  assignable : ∀ k ∈ keys (proxyRequest name args.value), provider.readOnly k = false
  named : protoKey ∉ keys args.value
  numbers : provider.KeepsNumbers name args

end Provider

/-- What the two hash functions are relied on for. -/
structure StandardHashes (host : Host) : Prop where
  injective : Function.Injective host.sha256
  nonempty : ∀ bytes, host.sha256 bytes ≠ []
  length : ∀ key message, (host.hmac key message).length = 32

/-! ### The receipt -/

theorem sealReceipt_fits (host : Host) (sessionSecret : Bytes) {journal : Bytes}
    (fits : journal.length < 65536) :
    ∃ receiptBuf, sealReceipt host sessionSecret journal = some receiptBuf :=
  ⟨_, if_pos fits⟩

theorem readReceipt_sealed {host : Host}
    (sizes : ∀ key message, (host.hmac key message).length = 32) {sessionSecret journal receiptBuf : Bytes}
    (made : sealReceipt host sessionSecret journal = some receiptBuf) :
    Host.readReceipt receiptBuf = .ok ⟨journal, host.hmac sessionSecret journal⟩ := by
  unfold sealReceipt at made
  split_ifs at made with fits
  cases made
  have length := sizes sessionSecret journal
  have high : (UInt8.ofNat (journal.length / 256)).toNat = journal.length / 256 :=
    UInt8.toNat_ofNat_of_lt' (show _ < 256 by omega)
  have low : (UInt8.ofNat (journal.length % 256)).toNat = journal.length % 256 :=
    UInt8.toNat_ofNat_of_lt' (show _ < 256 by omega)
  have journalLen : journal.length / 256 * 256 + journal.length % 256 = journal.length := by omega
  have room : 35 ≤ journal.length + 32 + 1 + 1 + 1 := by omega
  have after (a b c : UInt8) : (a :: b :: c :: (journal ++ host.hmac sessionSecret journal)).drop
      (3 + journal.length) = host.hmac sessionSecret journal := by
    rw [← List.drop_drop]
    exact List.drop_left
  simp [Host.readReceipt, require, high, low, journalLen, length, room, after, pure, Except.pure, bind,
    Except.bind]

theorem member_asDoubles (key : JsString) (ms : Members) :
    member key (asDoubles (.obj ms)) = asDoubles (property key ms) := by
  rw [asDoubles, member]
  induction ms with
  | nil => rfl
  | cons m ms ih =>
    obtain ⟨k, v⟩ := m
    rw [asDoublesMembers, property, property]
    split_ifs
    · rfl
    · exact ih

/-- The verifier comes to the output if the image ids agree; the rest is the output hash. -/
theorem verifies_sealed {host : Host} (hashes : StandardHashes host) (e : Execution)
    (agree : deriveLogicImageDigest host.sha256 e.logic = imageId host.sha256 e.logic)
    {sessionSecret receiptBuf : Bytes} {committed : JsString}
    (made : sealReceipt host sessionSecret (e.journal host.sha256 committed) = some receiptBuf)
    {request : JsValue} (extracted : tryExtractProxyOutput e.logic = some request)
    {task : ZkVerificationPayload} (logic : task.logicPayload = some e.logic)
    (remote : task.remoteImageIdHex = some (ofText (e.imageIdHex host.sha256)))
    (receipt : task.zkReceipt = some receiptBuf) (secret : task.sessionSecret = some sessionSecret)
    (body : JsString) : host.Verifies task (.str body) ↔
      hashHex host.sha256 committed = hashHex host.sha256 (outputString request) := by
  have named : ofText (e.imageIdHex host.sha256) ≠ [] := by
    obtain ⟨bytes, digest⟩ : ∃ bytes, imageId host.sha256 e.logic = host.sha256 bytes := by
      rw [imageId_eq]
      split_ifs <;> exact ⟨_, rfl⟩
    rw [Execution.imageIdHex, digest]
    intro empty
    exact hashes.nonempty bytes (hexText_injective (ofText_injective empty))
  have fields : Host.readFields { task with expectedOutput := .str body } =
      .ok (e.logic, ofText (e.imageIdHex host.sha256), receiptBuf) := by
    rw [Host.readFields]
    dsimp only
    rw [logic, remote, receipt]
    dsimp only
    rw [if_neg named]
  have image : host.deriveImageId e.logic = ofText (e.imageIdHex host.sha256) := by
    rw [Host.deriveImageId, agree, Execution.imageIdHex]
  have values (key : JsString) {s : JsString}
      (found : property key (e.journalMembers host.sha256 committed) = .str s) :
      member key (asDoubles (.obj (e.journalMembers host.sha256 committed))) = .str s := by
    rw [member_asDoubles, found]
    rfl
  have read : host.readJournal (ofText (e.imageIdHex host.sha256)) (e.journal host.sha256 committed) =
      .ok (asDoubles (.obj (e.journalMembers host.sha256 committed))) := by
    have recorded : property (js "image_id") (e.journalMembers host.sha256 committed) =
        .str (ofText (e.imageIdHex host.sha256)) := rfl
    have same := values _ recorded
    rw [Host.readJournal, parseDoubles, parse_journal, Option.map_some]
    rw [asDoubles] at same ⊢
    dsimp only
    rw [if_pos (Host.isString_iff.mpr same)]
  have intact : host.checkSeal (some sessionSecret)
      ⟨e.journal host.sha256 committed, host.hmac sessionSecret (e.journal host.sha256 committed)⟩ =
      .ok () := by
    cases sessionSecret with
    | nil => rfl
    | cons => simp [Host.checkSeal, Host.timingSafeEqual, require, bind, Except.bind]
  have reduced : host.verifyZkReceipt { task with expectedOutput := .str body } =
      host.checkOutput e.logic (asDoubles (.obj (e.journalMembers host.sha256 committed)))
        (.str body) := by
    rw [Host.verifyZkReceipt, fields]
    simp only [bind, Except.bind, image, beq_self_eq_true, require, if_true,
      readReceipt_sealed hashes.length made, read, secret, intact]
  have recorded : property (js "output_hash") (e.journalMembers host.sha256 committed) =
      .str (hashHex host.sha256 committed) := rfl
  rw [Host.Verifies, Host.verified_iff, reduced, Host.checkOutput_ok host (by simp),
    values _ recorded, Host.actualExpected, extracted, Option.getD_some, JsValue.str.injEq]

/-! ### The logic -/

theorem stringBytes_callLogic (name : JsString) (args : Arguments) :
    stringBytes (callLogic name args) = utf8 (proxySource (wellFormed name) args.text) := by
  have embedded : embeddedArgs (callParams name args) = args.value := rfl
  rw [callLogic, proxyLogic, embedded, ← Arguments.text, stringBytes, wellFormed_proxyText]

/-- The logic is no binary and has no envelope. -/
theorem decryptedPayload_source (name args : Text) :
    decryptedPayload (utf8 (proxySource name args)) = .source (proxySource name args) := by
  have first : (proxySource name args).head? = some 'r' := rfl
  have source : isWasm (utf8 (proxySource name args)) ≠ true := by
    intro wasm
    obtain ⟨rest, decoded⟩ := decode_binaryPrefix (binaryPrefix_of_isWasm wasm)
    rw [decodeUtf8_utf8] at decoded
    rw [decoded] at first
    cases first
  have plain : ∀ h m, ¬ IsEnvelope h m (trim (proxySource name args)) := by
    intro h m envelope
    rw [trim_of_tight (proxySource_tight name args)] at envelope
    rw [envelope.text] at first
    cases first
  rw [decryptedPayload, if_neg source, decodeUtf8_utf8, normalizeLogicSource_plain plain,
    trim_of_tight (proxySource_tight name args)]

theorem image_ids_agree (sha256 : Bytes → δ) (name args : Text) :
    deriveLogicImageDigest sha256 (utf8 (proxySource name args)) =
      imageId sha256 (utf8 (proxySource name args)) := by
  rw [imageId, decryptedPayload_source, Program.logicBytes]

theorem protoKey_mem_keys (name : JsString) (args : JsValue) :
    protoKey ∈ keys (proxyRequest name args) ↔ protoKey ∈ keys args := by
  have tool : protoKey ≠ ofText proxyKey := by decide
  have arguments : protoKey ≠ ofText argsKey := by decide
  simp [proxyRequest, keys, memberKeys, tool, arguments]

theorem numbers_proxyRequest (name : JsString) (args : JsValue) :
    numbers (proxyRequest name args) = numbers args := by
  simp [proxyRequest, numbers, memberNumbers]

theorem proxyRequest_plain (name : JsString) (args : Arguments) :
    isPlain (proxyRequest name args.value) = true := by
  have plain : isPlain args.value = true := args.plain
  simp [proxyRequest, isPlain, allMembersPlain, plain]

/-! ### The run -/

namespace Provider

variable {provider : Provider} {name : JsString} {args : Arguments}

theorem withNoise_noisy {output : Node} (tidy : Tidy output) :
    withNoise ⟨provider.noise, provider.dpConfig, provider.records.length, provider.readOnly⟩ output =
      (walkAndNoise provider.noisy none 0 output).1 := by
  have silence : (walkAndNoise silent none 0 output).1 = output := by
    rw [walkAndNoise_silent tidy]
  unfold withNoise noisy
  dsimp only
  cases provider.dpConfig with
  | none => exact silence.symm
  | some config =>
    dsimp only
    rw [applyDpToOutput]
    split_ifs
    · exact silence.symm
    · rfl

theorem keepsNumbers_iff (named : protoKey ∉ keys args.value) : provider.KeepsNumbers name args ↔
    Undone provider.noisy none 0 (literalNode (proxyRequest name args.value)) ∧
      ∀ n ∈ numbers args.value, ReadsBack n := by
  rw [KeepsNumbers]
  split_ifs with noise
  · rfl
  · have quiet : provider.noisy = silent := by
      unfold addsNoise at noise
      unfold noisy
      cases config : provider.dpConfig with
      | none => rfl
      | some config' =>
        rw [config] at noise
        simp only [Bool.not_eq_true', Bool.not_eq_false] at noise
        exact if_pos noise
    have outer : protoKey ∉ keys (proxyRequest name args.value) :=
      fun member => named ((protoKey_mem_keys name args.value).mp member)
    rw [quiet, undone_silent _ (proxyRequest_plain name args) outer, numbers_proxyRequest]
    constructor
    · intro rounded
      refine ⟨rounded, ?_⟩
      -- rounding leaves the arguments as they are, and so does reading them
      have undone := (undone_silent args.value args.plain named none 0).mpr rounded
      have tidy := tidy_literalNode args.value args.plain
      have copied := noisyCopy_of_undone tidy undone []
      rw [noisyCopy, walkAndNoise_silent tidy] at copied
      have mapped := walk_literalNode args.value named []
      rw [copied, value_literalNode args.value named] at mapped
      have written : transmitted args.value = args.value := transmitted_plain args.plain
      rw [← mapNumbers_readsBack args.value args.plain, ← mapped, written]
      exact args.doubles
    · exact fun both => both.1

/-- The call that the server makes for the request itself. -/
theorem toolCall_request (nonempty : name ≠ []) (named : protoKey ∉ keys args.value) :
    provider.toolCall (literalNode (proxyRequest name args.value)) = some ⟨.str name, args.value⟩ ↔
      ∀ n ∈ numbers args.value, ReadsBack n := by
  have outer : protoKey ∉ keys (proxyRequest name args.value) :=
    fun member => named ((protoKey_mem_keys name args.value).mp member)
  have sanitized : (sanitizeOutput (literalNode (proxyRequest name args.value))).value =
      proxyRequest name (mapNumbers sanitizeNumber args.value) := walk_literalNode _ outer []
  have ordered : isOrdered (transmitted (proxyRequest name (mapNumbers sanitizeNumber args.value))) =
      true := by
    have mapped := isOrdered_mapNumbers sanitizeNumber (proxyRequest_ordered args name)
    exact isOrdered_transmitted mapped
  have decoded : asDoubles (settle (transmitted
      (proxyRequest name (mapNumbers sanitizeNumber args.value)))) =
      proxyRequest name (asDoubles (transmitted (mapNumbers sanitizeNumber args.value))) := by
    rw [settle_ordered ordered]
    rfl
  have tool : truthy (member (ofText proxyKey) (proxyRequest name
      (asDoubles (transmitted (mapNumbers sanitizeNumber args.value))))) = true := by
    simpa [proxyRequest, member, property, truthy] using nonempty
  have call : provider.toolCall (literalNode (proxyRequest name args.value)) =
      some ⟨.str name, asDoubles (transmitted (mapNumbers sanitizeNumber args.value))⟩ := by
    have proxied : finalOutput provider.env.display
        (proxyRequest name (mapNumbers sanitizeNumber args.value)) = .proxied (proxyRequest name
          (asDoubles (transmitted (mapNumbers sanitizeNumber args.value)))) :=
      (finalOutput_request _ (decoded.symm ▸ tool)).trans (congrArg _ decoded)
    rw [toolCall, sanitized, proxied]
    rfl
  rw [call, ← mapNumbers_readsBack args.value args.plain]
  simp

/-- The worker's output for the request. -/
def copied (provider : Provider) (name : JsString) (args : Arguments) : Node :=
  noisyCopy provider.noisy none 0 [] (literalNode (proxyRequest name args.value))

theorem processLogicExecution_request (sha256 : Bytes → Bytes) (logic : Bytes) :
    processLogicExecution sha256 provider.noise provider.dpConfig provider.readOnly
        (provider.execution logic (literalNode (proxyRequest name args.value))) =
      if hasReadOnly provider.readOnly (literalNode (proxyRequest name args.value)) then none
      else some ⟨provider.copied name args, (provider.execution logic
        (literalNode (proxyRequest name args.value))).journal sha256
          (outputString (provider.copied name args).value)⟩ := by
  have noise := @withNoise_noisy provider _ (tidy_literalNode _ (proxyRequest_plain name args))
  have output : sanitizeOutput (walkAndNoise provider.noisy none 0
      (literalNode (proxyRequest name args.value))).1 = provider.copied name args := rfl
  cases refused : hasReadOnly provider.readOnly (literalNode (proxyRequest name args.value)) with
  | true => simp [processLogicExecution, commitOutput, execution, refused]
  | false => simp [processLogicExecution, commitOutput, execution, refused, noise, output]

theorem workerResponse_request (host : Host) (sessionSecret logic : Bytes) :
    provider.workerResponse host sessionSecret logic (literalNode (proxyRequest name args.value)) =
      if hasReadOnly provider.readOnly (literalNode (proxyRequest name args.value)) then none
      else (sealReceipt host sessionSecret ((provider.execution logic (literalNode
          (proxyRequest name args.value))).journal host.sha256
            (outputString (provider.copied name args).value))).map fun receiptBuf =>
        ⟨provider.copied name args, ofText ((provider.execution logic (literalNode
          (proxyRequest name args.value))).imageIdHex host.sha256), ofText (base64Text receiptBuf)⟩ := by
  rw [workerResponse, processLogicExecution_request]
  split_ifs
  · rfl
  · rw [Option.bind_some]

/-- The output is an object, so its JSON text is hashed. -/
theorem outputString_copied : outputString (provider.copied name args).value =
    ofText (jsonText (provider.copied name args).value) := rfl

/-- The receipt commits to the request exactly if the worker gave it back. -/
theorem committed_iff {sha256 : Bytes → Bytes} (injective : Function.Injective sha256) :
    hashHex sha256 (outputString (provider.copied name args).value) =
        hashHex sha256 (outputString (proxyRequest name args.value)) ↔
      protoKey ∉ keys args.value ∧
        Undone provider.noisy none 0 (literalNode (proxyRequest name args.value)) := by
  have request : outputString (proxyRequest name args.value) =
      ofText (jsonText (proxyRequest name args.value)) := rfl
  have plain := proxyRequest_plain name args
  have tidy := tidy_literalNode _ plain
  rw [hashHex_inj injective, outputString_copied, request, stringBytes, stringBytes,
    wellFormed_ofText, wellFormed_ofText, utf8_injective.eq_iff, jsonText_eq_iff,
    transmitted_plain plain]
  constructor
  · intro same
    have unshared := (labels_walkAndNoise provider.noisy).1
      (literalNode (proxyRequest name args.value)) none 0
    have outer := protoKey_not_mem_keys unshared []
    have named : protoKey ∉ keys (proxyRequest name args.value) := same ▸ outer
    refine ⟨fun member => named ((protoKey_mem_keys name args.value).mpr member), ?_⟩
    exact undone_of_noisyCopy tidy (same.trans (value_literalNode _ named).symm)
  · rintro ⟨named, undone⟩
    have outer : protoKey ∉ keys (proxyRequest name args.value) :=
      fun member => named ((protoKey_mem_keys name args.value).mp member)
    rw [copied, noisyCopy_of_undone tidy undone, value_literalNode _ outer, transmitted_plain plain]

theorem Executes.literal {output : Node} (plain : PlainName name)
    (executes : provider.Executes (stringBytes (callLogic name args)) output) :
    output = literalNode (proxyRequest name args.value) := by
  obtain ⟨source, payload, ran⟩ := executes
  have text := plain.text
  obtain ⟨-, same, chars⟩ := plain
  rw [stringBytes_callLogic, decryptedPayload_source, Program.source.injEq] at payload
  rw [← payload] at ran
  rw [provider.evaluates text chars ran, same]

end Provider

/-- The verifier reads the request off the logic exactly if the name is plain. -/
theorem extracted_iff (name : JsString) (args : Arguments) :
    tryExtractProxyOutput (stringBytes (callLogic name args)) = some (proxyRequest name args.value) ↔
      PlainName name := by
  rw [stringBytes_callLogic]
  constructor
  · intro extracted
    have length := (units_wellFormed name).symm
    obtain ⟨same, nonempty, plain⟩ := plain_of_tryExtract args length extracted rfl
    refine ⟨?_, same.symm, plain⟩
    rintro rfl
    exact nonempty rfl
  · intro plain
    rw [tryExtract_plain args plain.text plain.2.2, plain.2.1]

/-- The receipt of the run, as the gateway gets it. -/
theorem verifies_response {host : Host} (hashes : StandardHashes host) {provider : Provider}
    {sessionSecret receiptBuf : Bytes} {name : JsString} {args : Arguments} {output copy : Node}
    {committed : JsString}
    (extracted : tryExtractProxyOutput (stringBytes (callLogic name args)) =
      some (proxyRequest name args.value))
    (made : sealReceipt host sessionSecret
      ((provider.execution (stringBytes (callLogic name args)) output).journal host.sha256 committed) =
        some receiptBuf) (body : JsString) :
    host.Verifies (verificationTask ⟨callLogic name args, sessionSecret⟩ (evidenceResponse ⟨copy,
      ofText ((provider.execution (stringBytes (callLogic name args)) output).imageIdHex host.sha256),
      ofText (base64Text receiptBuf)⟩ body) body) (.str body) ↔
        hashHex host.sha256 committed =
          hashHex host.sha256 (outputString (proxyRequest name args.value)) := by
  apply verifies_sealed hashes (provider.execution (stringBytes (callLogic name args)) output)
  · dsimp only [Provider.execution]
    rw [stringBytes_callLogic]
    exact image_ids_agree host.sha256 _ _
  · exact made
  · exact extracted
  · rfl
  · dsimp only [verificationTask, evidenceResponse]
    rw [wellFormed_ofText, Execution.imageIdHex, hexBytes_hexText]
  · dsimp only [verificationTask, evidenceResponse]
    rw [wellFormed_ofText, base64Bytes_base64Text]
  · rfl

section Trip

variable {host : Host} {provider : Provider} {sessionSecret : Bytes} {name : JsString}
  {args : Arguments}

theorem RoundTrips.keeps (hashes : StandardHashes host) (plain : PlainName name)
    (trip : RoundTrips host provider sessionSecret name args
      (literalNode (proxyRequest name args.value))) : provider.Keeps name args := by
  have outer : protoKey ∉ keys args.value → protoKey ∉ keys (proxyRequest name args.value) :=
    fun named member => named ((protoKey_mem_keys name args.value).mp member)
  have tidy := tidy_literalNode _ (proxyRequest_plain name args)
  obtain ⟨extracted, response, made, call, verifies⟩ := trip
  rw [Provider.workerResponse_request] at made
  split_ifs at made with refused
  obtain ⟨receiptBuf, sealed, same⟩ := Option.map_eq_some_iff.mp made
  subst same
  have committed := (verifies_response hashes extracted sealed []).mp (verifies [])
  obtain ⟨named, undone⟩ := (Provider.committed_iff hashes.injective).mp committed
  rw [Provider.copied, noisyCopy_of_undone tidy undone,
    Provider.toolCall_request plain.1 named] at call
  refine ⟨?_, named, (Provider.keepsNumbers_iff named).mpr ⟨undone, call⟩⟩
  exact (hasReadOnly_literalNode _ _ (outer named)).mp (Bool.not_eq_true _ ▸ refused)

theorem Provider.Keeps.roundTrips (hashes : StandardHashes host) (plain : PlainName name)
    (keeps : provider.Keeps name args)
    (fits : provider.JournalFits host (stringBytes (callLogic name args))
      (literalNode (proxyRequest name args.value))) :
    RoundTrips host provider sessionSecret name args
      (literalNode (proxyRequest name args.value)) := by
  obtain ⟨assignable, named, kept⟩ := keeps
  have outer : protoKey ∉ keys (proxyRequest name args.value) :=
    fun member => named ((protoKey_mem_keys name args.value).mp member)
  have tidy := tidy_literalNode _ (proxyRequest_plain name args)
  have extracted := (extracted_iff name args).mpr plain
  obtain ⟨undone, readBack⟩ := (Provider.keepsNumbers_iff named).mp kept
  have allowed := (hasReadOnly_literalNode provider.readOnly _ outer).mpr assignable
  have run := @Provider.processLogicExecution_request provider name args host.sha256
    (stringBytes (callLogic name args))
  rw [if_neg (by simp [allowed])] at run
  obtain ⟨receiptBuf, made⟩ := sealReceipt_fits host sessionSecret (fits _ run)
  have answered := @Provider.workerResponse_request provider name args host sessionSecret
    (stringBytes (callLogic name args))
  rw [if_neg (by simp [allowed]), made, Option.map_some] at answered
  refine ⟨extracted, _, answered, ?_, ?_⟩
  · rw [Provider.copied, noisyCopy_of_undone tidy undone]
    exact (Provider.toolCall_request plain.1 named).mpr readBack
  · intro body
    apply (verifies_response hashes extracted made body).mpr
    exact (Provider.committed_iff hashes.injective).mpr ⟨named, undone⟩

/-- A proxied call comes through exactly if its name is plain and the run leaves its
arguments as they are. -/
theorem roundTrips_iff (hashes : StandardHashes host) (provider : Provider) (sessionSecret : Bytes)
    (name : JsString) (args : Arguments) {output : Node}
    (executes : provider.Executes (stringBytes (callLogic name args)) output)
    (fits : provider.JournalFits host (stringBytes (callLogic name args)) output) :
    RoundTrips host provider sessionSecret name args output ↔
      PlainName name ∧ provider.Keeps name args := by
  by_cases plain : PlainName name
  · obtain rfl := executes.literal plain
    constructor
    · intro trip
      exact ⟨plain, trip.keeps hashes plain⟩
    · rintro ⟨-, keeps⟩
      exact keeps.roundTrips hashes plain fits
  · constructor
    · intro trip
      exact absurd ((extracted_iff name args).mp trip.extracted) plain
    · rintro ⟨named, -⟩
      exact absurd named plain

end Trip

/-! ### A negative number -/

/-- Hash functions for the examples. -/
def taggedHost : Host := ⟨fun bytes => 0 :: bytes, fun _ _ => List.replicate 32 0, fun _ => .error []⟩

theorem taggedHost_hashes : StandardHashes taggedHost where
  injective _ _ same := (List.cons.inj same).2
  nonempty _ := List.cons_ne_nil _ _
  length _ _ := rfl

/-- `{ "x": -5 }` -/
def negativeArgs : Arguments where
  members := [(js "x", .num (.finite ⟨-5, 0, .inr (by decide)⟩))]
  ordered := rfl
  plain := rfl
  doubles := by
    have double : toDouble ⟨-5, 0, .inr (by decide)⟩ = .finite ⟨-5, 0, .inr (by decide)⟩ := by
      decide +kernel
    simp [asDoubles, double]

/-- A provider without policies, and a sandbox that runs one call. -/
def singleProvider (args : Arguments) : Provider where
  env := { isDev := false, recordsCount := 0, scanner := ⟨fun _ => none, fun _ => none⟩,
           display := fun _ => js "[object Object]" }
  execute source :=
    if source = proxySource ['t'] args.text then some (literalNode (proxyRequest (js "t") args.value))
    else none
  evaluates {name args' output} nonempty plain ran := by
    split_ifs at ran with same
    cases ran
    have left := tryExtract_plain args' nonempty plain
    have right := @tryExtract_plain args ['t'] (by decide) (plain_of_all (by decide))
    rw [same, right] at left
    exact congrArg literalNode (Option.some.inj left)
  noise := fun _ _ _ d counter => (.finite d, counter)
  dpConfig := none
  readOnly := fun _ => false
  records := []
  fuel := 0
  ts := 0

theorem singleProvider_executes (args : Arguments) :
    (singleProvider args).Executes (stringBytes (callLogic (js "t") args))
      (literalNode (proxyRequest (js "t") args.value)) := by
  refine ⟨proxySource ['t'] args.text, ?_, if_pos rfl⟩
  rw [stringBytes_callLogic]
  exact decryptedPayload_source _ _

theorem singleProvider_fits : (singleProvider negativeArgs).JournalFits taggedHost
    (stringBytes (callLogic (js "t") negativeArgs))
      (literalNode (proxyRequest (js "t") negativeArgs.value)) := by
  intro result completed
  rw [Provider.processLogicExecution_request] at completed
  split_ifs at completed
  cases completed
  decide +kernel

theorem plainName_t : PlainName (js "t") := by
  exact ⟨by decide, rfl, plain_of_all (by decide)⟩

theorem negative_roundTrips_iff :
    RoundTrips taggedHost (singleProvider negativeArgs) [7] (js "t") negativeArgs
        (literalNode (proxyRequest (js "t") negativeArgs.value)) ↔
      PlainName (js "t") ∧ (singleProvider negativeArgs).Keeps (js "t") negativeArgs :=
  roundTrips_iff taggedHost_hashes (singleProvider negativeArgs) [7] (js "t") negativeArgs
    (singleProvider_executes negativeArgs) singleProvider_fits

/-- The sanitiser makes the argument zero, and a quote in the name ends it. -/
theorem negative_argument_lost :
    (singleProvider negativeArgs).Executes (stringBytes (callLogic (js "t") negativeArgs))
        (literalNode (proxyRequest (js "t") negativeArgs.value)) ∧
      ¬ RoundTrips taggedHost (singleProvider negativeArgs) [7] (js "t") negativeArgs
        (literalNode (proxyRequest (js "t") negativeArgs.value)) ∧
      tryExtractProxyOutput (stringBytes (callLogic (js "a\"b") negativeArgs)) ≠
        some (proxyRequest (js "a\"b") negativeArgs.value) := by
  refine ⟨singleProvider_executes negativeArgs, ?_, ?_⟩
  · intro trip
    have kept := (trip.keeps taggedHost_hashes plainName_t).numbers
    have rounded : IsRounded (.finite ⟨-5, 0, .inr (by decide)⟩) :=
      kept _ (List.mem_singleton.mpr rfl)
    have zero : sanitizeNumber (.finite ⟨-5, 0, .inr (by decide)⟩) = .finite 0 := by decide +kernel
    cases zero.symm.trans rounded
  · intro extracted
    have plain := ((extracted_iff _ _).mp extracted).2.2
    exact absurd (plain '"' (by decide)) (by decide)

end NeuralMesh.Gateway
