import NeuralMesh.Js.Document
import NeuralMesh.Server.OutputPolicy
import NeuralMesh.Worker.ZkVerifier

/-! A tool call that the gateway proxies to a provider: the program text that carries the
call, and the MCP result for the stream of responses. The texts of all responses are joined;
the flag, the proof and the receipt are those of the last one. -/
namespace NeuralMesh.Gateway

open Js Codec Worker Server

/-! ### The request -/

/-- `params?.arguments ?? (params?.payload !== undefined ? params : {})` -/
def embeddedArgs (params : JsValue) : JsValue :=
  match member (js "arguments") params with
  | .undefined | .null =>
    if isUndefined (member (js "payload") params) then .obj [] else params
  | arguments => arguments

def proxyText (toolName embeddedArgsJson : JsString) : JsString :=
  js "return \x7b \"__liop_proxy_tool\": \"" ++ toolName ++ js "\", \"__liop_proxy_args\": " ++
    embeddedArgsJson ++ js " \x7d;"

def proxyLogic (toolName : JsString) (params : JsValue) : JsString :=
  proxyText toolName (ofText (jsonText (embeddedArgs params)))

/-! ### The responses -/

structure LogicResponse where
  semanticEvidence : JsString
  cryptographicProof : Bytes
  zkReceipt : Bytes
  isError : Bool

/-- The worker pool of the verifier; `none` is a rejected promise. -/
structure VerifierPool (host : Host) where
  run : Host.Task → Option Host.Verdict
  answers : ∀ {task verdict}, run task = some verdict → verdict = host.workerHandler task

/-- What has arrived of a stream. -/
structure Received where
  resultBody : JsString
  lastResponse : Option LogicResponse

def Received.start : Received := ⟨[], none⟩

def onData (received : Received) (grpcRes : LogicResponse) : Received :=
  ⟨received.resultBody ++ grpcRes.semanticEvidence, some grpcRes⟩

/-- The call that the responses answer. -/
structure Exchange where
  proxyLogic : JsString
  sharedSecret : Bytes

def verificationTask (exchange : Exchange) (response : LogicResponse) (resultBody : JsString) :
    ZkVerificationPayload where
  logicPayload := some (stringBytes exchange.proxyLogic)
  remoteImageIdHex := some (ofText (hexText response.cryptographicProof))
  zkReceipt := some response.zkReceipt
  sessionSecret := some exchange.sharedSecret
  expectedOutput := .str resultBody

def textContent (text : JsString) : JsString × JsValue :=
  (js "content", .arr [.obj [(js "type", .str (js "text")), (js "text", .str text)]])

def textResult (text : JsString) : JsValue := .obj [textContent text]

def failedResult (text : JsString) : JsValue := .obj [textContent text, (js "isError", .bool true)]

/-- `JSON.parse` -/
def jsonParse (s : JsString) : Option JsValue := parseDoubles (spelled s)

namespace VerifierPool

variable {host : Host} (pool : VerifierPool host)

/-- `isValid` for the last response. -/
def verifyZkReceipt (exchange : Exchange) (lastResponse : LogicResponse) (resultBody : JsString) :
    Option Bool :=
  (pool.run (.verifyReceipt (verificationTask exchange lastResponse resultBody))).map (·.verified)

/-- What the code before `JSON.parse` does: an early result, an exception, or nothing. -/
def audit (exchange : Exchange) (received : Received) : Option (Option JsValue) :=
  match received.lastResponse with
  | none => some none
  | some lastResponse =>
    if lastResponse.isError then some none
    else (pool.verifyZkReceipt exchange lastResponse received.resultBody).map fun isValid =>
      if isValid then none
      else some (failedResult
        (js "SECURITY ALERT: Remote response failed cryptographic integrity audit."))

def onEnd (exchange : Exchange) (received : Received) : JsValue :=
  match pool.audit exchange received with
  | some (some result) => result
  | some none => (jsonParse received.resultBody).getD (textResult received.resultBody)
  | none => textResult received.resultBody

/-- The event that settles the promise after the responses. -/
inductive Closing where
  | finished
  | failed (message : JsString)

/-- The MCP result for a stream. -/
def performTranscoding (exchange : Exchange) (responses : List LogicResponse) :
    Closing → JsValue
  | .finished => pool.onEnd exchange (responses.foldl onData .start)
  | .failed message => failedResult (js "LIOP gRPC Error: " ++ message)

end VerifierPool

/-! ### What arrives of a stream -/

/-- The texts of all responses, joined. -/
def streamBody (responses : List LogicResponse) : JsString :=
  responses.flatMap (·.semanticEvidence)

theorem received_responses (responses : List LogicResponse) (received : Received) :
    responses.foldl onData received =
      ⟨received.resultBody ++ streamBody responses, responses.getLast?.or received.lastResponse⟩ := by
  induction responses generalizing received with
  | nil => simp [streamBody]
  | cons grpcRes responses ih =>
    rw [List.foldl_cons, ih, onData]
    cases responses with
    | nil => simp [streamBody]
    | cons => simp [streamBody, List.getLast?_cons]

theorem isErrorResult_textResult (text : JsString) : isErrorResult (textResult text) = false := rfl

theorem isErrorResult_failedResult (text : JsString) : isErrorResult (failedResult text) = true := rfl

/-- The joined text is the JSON of a failed tool call. -/
def SpeaksOfFailure (body : JsString) : Prop :=
  ∃ parsed, jsonParse body = some parsed ∧ isErrorResult parsed = true

theorem isErrorResult_parsed (body : JsString) :
    isErrorResult ((jsonParse body).getD (textResult body)) = true ↔ SpeaksOfFailure body := by
  rw [SpeaksOfFailure]
  cases jsonParse body with
  | none => simp [isErrorResult_textResult]
  | some parsed => simp

namespace VerifierPool

variable {host : Host} (pool : VerifierPool host) (exchange : Exchange)

/-- The verifier is asked about the last response, and this is its answer. -/
def Answered (responses : List LogicResponse) (answer : Option Bool) : Prop :=
  ∃ last, responses.getLast? = some last ∧ last.isError = false ∧
    pool.verifyZkReceipt exchange last (streamBody responses) = answer

/-- An accepted receipt verifies with the joined text. -/
theorem Answered.verifies {pool : VerifierPool host} {exchange : Exchange}
    {responses : List LogicResponse} (accepted : pool.Answered exchange responses (some true)) :
    ∃ last, responses.getLast? = some last ∧
      host.Verifies (verificationTask exchange last (streamBody responses))
        (.str (streamBody responses)) := by
  obtain ⟨last, final, -, answer⟩ := accepted
  obtain ⟨verdict, ran, verified⟩ := Option.map_eq_some_iff.mp answer
  refine ⟨last, final, ?_⟩
  rw [pool.answers ran] at verified
  exact verified

/-- A success that the claims of a receipt support. -/
structure VerifiedSuccess (responses : List LogicResponse) : Prop where
  nonempty : responses ≠ []
  noError : ∀ response ∈ responses, response.isError = false
  accepted : pool.Answered exchange responses (some true)

/-- The results that report a failure: the stream broke, the receipt was refused, or the
text itself is a failed result and the verifier did not throw. -/
def ReportsFailure (responses : List LogicResponse) : Closing → Prop
  | .failed _ => True
  | .finished => pool.Answered exchange responses (some false) ∨
      ¬ pool.Answered exchange responses none ∧ SpeaksOfFailure (streamBody responses)

theorem answered_of_last {responses : List LogicResponse} {last : LogicResponse}
    (final : responses.getLast? = some last) (plain : last.isError = false) {answer : Option Bool} :
    pool.Answered exchange responses answer ↔
      pool.verifyZkReceipt exchange last (streamBody responses) = answer := by
  constructor
  · rintro ⟨other, sameFinal, -, result⟩
    cases final.symm.trans sameFinal
    exact result
  · intro result
    exact ⟨last, final, plain, result⟩

theorem isErrorResult_performTranscoding (responses : List LogicResponse) (closing : Closing) :
    isErrorResult (pool.performTranscoding exchange responses closing) = true ↔
      pool.ReportsFailure exchange responses closing := by
  cases closing with
  | failed message => exact iff_of_true (isErrorResult_failedResult _) trivial
  | finished =>
    rw [performTranscoding, received_responses, ReportsFailure, onEnd, audit]
    simp only [Received.start, List.nil_append, Option.or_none]
    cases final : responses.getLast? with
    | none =>
      have unasked (answer) : ¬ pool.Answered exchange responses answer := by
        rintro ⟨last, present, -⟩
        cases final.symm.trans present
      simp [unasked, isErrorResult_parsed]
    | some last =>
      cases flag : last.isError with
      | true =>
        have unasked (answer) : ¬ pool.Answered exchange responses answer := by
          rintro ⟨other, present, plain, -⟩
          cases final.symm.trans present
          cases flag.symm.trans plain
        simp [unasked, isErrorResult_parsed, flag]
      | false =>
        simp only [pool.answered_of_last exchange final flag, flag]
        rcases pool.verifyZkReceipt exchange last (streamBody responses) with - | - | -
        · simp [isErrorResult_textResult]
        · simp [isErrorResult_failedResult]
        · simp [isErrorResult_parsed]

/-- A result without `isError` is a verified success exactly when the stream fails openly
or consists of accepted responses. -/
theorem unflagged_verified_iff (responses : List LogicResponse) (closing : Closing) :
    (isErrorResult (pool.performTranscoding exchange responses closing) = false →
        pool.VerifiedSuccess exchange responses) ↔
      pool.ReportsFailure exchange responses closing ∨ pool.VerifiedSuccess exchange responses := by
  rw [← isErrorResult_performTranscoding]
  cases isErrorResult (pool.performTranscoding exchange responses closing) <;> simp

end VerifierPool

/-! ### An error that arrives as a success -/

/-- The pool in the same thread. -/
def directPool (host : Host) : VerifierPool host where
  run task := some (host.workerHandler task)
  answers ran := (Option.some.inj ran).symm

def exampleExchange : Exchange := ⟨proxyLogic (js "t") (.obj []), [7]⟩

/-- What a provider streams when its policy blocks the output. -/
def blockedResponse : LogicResponse where
  semanticEvidence := js "[LIOP] Egress Security Violation. Output blocked due to policy enforcement."
  cryptographicProof := []
  zkReceipt := []
  isError := true

/-- The gateway returns the provider's error as a result without the flag. -/
theorem blocked_response_unflagged :
    ¬ (isErrorResult ((directPool exampleHost).performTranscoding exampleExchange [blockedResponse]
        .finished) = false →
      (directPool exampleHost).VerifiedSuccess exampleExchange [blockedResponse]) := by
  intro claimed
  have unparsed : jsonParse (streamBody [blockedResponse]) = none := by decide +kernel
  have unflagged : ¬ SpeaksOfFailure (streamBody [blockedResponse]) := by
    rintro ⟨parsed, read, -⟩
    cases unparsed.symm.trans read
  have success := claimed (by
    rw [← Bool.not_eq_true, VerifierPool.isErrorResult_performTranscoding]
    rintro (⟨last, final, plain, -⟩ | ⟨-, failure⟩)
    · cases final
      cases plain
    · exact unflagged failure)
  cases success.noError blockedResponse (List.mem_singleton.mpr rfl)

end NeuralMesh.Gateway
