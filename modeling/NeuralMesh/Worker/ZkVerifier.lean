import NeuralMesh.Codec.Hex
import NeuralMesh.Crypto.LogicImageId
import NeuralMesh.Js.Double
import NeuralMesh.Js.Object

/-! Receipt verification. The expected output is compared with the receipt, unless a
proxy request can be read in the logic; then the request takes its place. -/
namespace NeuralMesh.Worker

open Js Codec Crypto

/-! ### Proxy requests -/

def proxyKey : Text := "__liop_proxy_tool".toList

def includes (needle : Text) : Text → Bool
  | [] => needle.isEmpty
  | c :: cs => needle.isPrefixOf (c :: cs) || includes needle cs

structure Scan where
  braceCount : Int
  inDoubleQuote : Bool
  inSingleQuote : Bool
  inBacktick : Bool
  escaped : Bool

def Scan.start : Scan := ⟨0, false, false, false, false⟩

/-- The text up to the brace that brings the count back to zero. -/
def balanced (s : Scan) : Text → Option Text
  | [] => none
  | char :: cs =>
    if s.escaped then (balanced { s with escaped := false } cs).map (char :: ·)
    else if char = '\\' then (balanced { s with escaped := true } cs).map (char :: ·)
    else if char = '"' ∧ !s.inSingleQuote ∧ !s.inBacktick then
      (balanced { s with inDoubleQuote := !s.inDoubleQuote } cs).map (char :: ·)
    else if char = '\x27' ∧ !s.inDoubleQuote ∧ !s.inBacktick then
      (balanced { s with inSingleQuote := !s.inSingleQuote } cs).map (char :: ·)
    else if char = '\x60' ∧ !s.inDoubleQuote ∧ !s.inSingleQuote then
      (balanced { s with inBacktick := !s.inBacktick } cs).map (char :: ·)
    else if !s.inDoubleQuote ∧ !s.inSingleQuote ∧ !s.inBacktick then
      if char = '\x7b' then
        (balanced { s with braceCount := s.braceCount + 1 } cs).map (char :: ·)
      else if char = '\x7d' then
        if s.braceCount - 1 = 0 then some [char]
        else (balanced { s with braceCount := s.braceCount - 1 } cs).map (char :: ·)
      else (balanced s cs).map (char :: ·)
    else (balanced s cs).map (char :: ·)

/-- `none` is the result `null`, also after an exception. -/
def tryExtractProxyOutput (logicPayload : Bytes) : Option JsValue :=
  let logicStr := trim (decodeUtf8 logicPayload)
  if includes proxyKey logicStr then
    match logicStr.dropWhile (· != '\x7b') with
    | [] => none
    | rest => (balanced .start rest).bind fun jsonStr =>
        (parseDoubles jsonStr).bind fun parsed =>
          if truthy (member (ofText proxyKey) parsed) then some parsed else none
  else none

/-! ### Outputs -/

/-- The string itself, or `JSON.stringify`. -/
def outputString : JsValue → JsString
  | .str s => s
  | .undefined => js "undefined"
  | v => ofText (jsonText v)

/-- `createHash("sha256").update(string).digest("hex")` -/
def hashHex (sha256 : Bytes → Bytes) (s : JsString) : JsString :=
  ofText (hexText (sha256 (stringBytes s)))

theorem hashHex_inj {sha256 : Bytes → Bytes} (injective : Function.Injective sha256)
    {s t : JsString} : hashHex sha256 s = hashHex sha256 t ↔ stringBytes s = stringBytes t := by
  rw [hashHex, hashHex, ofText_injective.eq_iff, hexText_injective.eq_iff, injective.eq_iff]

/-! ### Verification -/

structure ZkVerificationPayload where
  logicPayload : Option Bytes
  remoteImageIdHex : Option JsString
  zkReceipt : Option Bytes
  sessionSecret : Option Bytes
  expectedOutput : JsValue

/-- The hash functions, and `value.slice(0, 8)` in a message for values that are not
strings; the error is an exception. -/
structure Host where
  sha256 : Bytes → Bytes
  hmac : (key message : Bytes) → Bytes
  slice : JsValue → Except JsString JsString

inductive Refusal where
  | rejected (message : JsString)
  | thrown (message : JsString)

def require (condition : Bool) (refusal : Refusal) : Except Refusal Unit :=
  if condition then .ok () else .error refusal

/-- Strict equality with a string. -/
def isString (s : JsString) : JsValue → Bool
  | .str t => s == t
  | _ => false

namespace Host

variable (host : Host)

def slice8 : JsValue → Except JsString JsString
  | .str s => .ok (s.take 8)
  | v => host.slice v

def deriveImageId (logicPayload : Bytes) : JsString :=
  ofText (hexText (deriveLogicImageDigest host.sha256 logicPayload))

def readFields (task : ZkVerificationPayload) : Except Refusal (Bytes × JsString × Bytes) :=
  match task.logicPayload, task.remoteImageIdHex, task.zkReceipt with
  | some logicPayload, some remoteImageIdHex, some zkReceipt =>
    if remoteImageIdHex = [] then .error (.rejected (js "Missing required verification fields."))
    else .ok (logicPayload, remoteImageIdHex, zkReceipt)
  | _, _, _ => .error (.rejected (js "Missing required verification fields."))

structure Receipt where
  journal : Bytes
  hmacSeal : Bytes

def readReceipt (receiptBuf : Bytes) : Except Refusal Receipt := do
  -- 1 version + 2 len + 32 seal minimum
  require (35 ≤ receiptBuf.length) (.rejected (js "Receipt too short for binary format."))
  let version := receiptBuf.getD 0 0
  require (version == 0x01)
    (.rejected (js "Unknown receipt version: " ++ js (toString version)))
  let journalLen := (receiptBuf.getD 1 0).toNat * 256 + (receiptBuf.getD 2 0).toNat
  let journal := (receiptBuf.drop 3).take journalLen
  let hmacSeal := receiptBuf.drop (3 + journalLen)
  require (hmacSeal.length == 32)
    (.rejected (js "Invalid seal length (expected 32 bytes HMAC-SHA256)."))
  return ⟨journal, hmacSeal⟩

/-- An exception while the journal is read or its mismatch is printed is caught. -/
def readJournal (localImageIdHex : JsString) (journal : Bytes) : Except Refusal JsValue :=
  let failed := .error (.rejected (js "Failed to parse journal data."))
  match parseDoubles (decodeUtf8 journal) with
  | none | some .null => failed
  | some journalData =>
    if isString localImageIdHex (member (js "image_id") journalData) then .ok journalData
    else match host.slice8 (member (js "image_id") journalData) with
      | .ok shown => .error (.rejected (js "Journal ImageID mismatch: " ++ shown ++ js " != " ++
          localImageIdHex.take 8))
      | .error _ => failed

def timingSafeEqual (a b : Bytes) : Except Refusal Bool :=
  if a.length = b.length then .ok (a == b)
  else .error (.thrown (js "Input buffers must have the same byte length"))

def checkSeal (sessionSecret : Option Bytes) (receipt : Receipt) : Except Refusal Unit :=
  match sessionSecret with
  | none | some [] => .ok ()
  | some secret => do
    let equal ← timingSafeEqual receipt.hmacSeal (host.hmac secret receipt.journal)
    require equal (.rejected (js "Invalid seal: HMAC verification failed."))

def actualExpected (logicPayload : Bytes) (expectedOutput : JsValue) : JsValue :=
  (tryExtractProxyOutput logicPayload).getD expectedOutput

def checkHash (recorded : JsValue) (expectedOutputHash : JsString) : Except Refusal Unit :=
  if isString expectedOutputHash recorded then .ok ()
  else match host.slice8 recorded with
    | .ok shown => .error (.rejected (js "Output Hash Mismatch (Replay/Tamper attempt): " ++
        js "Journal output_hash (" ++ shown ++ js ") != Calculated output_hash (" ++
        expectedOutputHash.take 8 ++ js ")"))
    | .error exception => .error (.thrown exception)

def checkOutput (logicPayload : Bytes) (journalData expectedOutput : JsValue) :
    Except Refusal Unit :=
  if isUndefined expectedOutput then .ok ()
  else host.checkHash (member (js "output_hash") journalData)
    (hashHex host.sha256 (outputString (actualExpected logicPayload expectedOutput)))

def verifyZkReceipt (task : ZkVerificationPayload) : Except Refusal Unit := do
  let (logicPayload, remoteImageIdHex, zkReceipt) ← readFields task
  let localImageIdHex := host.deriveImageId logicPayload
  require (localImageIdHex == remoteImageIdHex)
    (.rejected (js "Integrity Violation: Local (" ++ localImageIdHex.take 8 ++ js ") != Remote (" ++
      remoteImageIdHex.take 8 ++ js ")"))
  let receipt ← readReceipt zkReceipt
  let journalData ← host.readJournal localImageIdHex receipt.journal
  host.checkSeal task.sessionSecret receipt
  host.checkOutput logicPayload journalData task.expectedOutput

structure Verdict where
  verified : Bool
  message : JsString

inductive Task where
  | warmup
  | verifyReceipt (payload : ZkVerificationPayload)

def workerHandler : Task → Verdict
  | .warmup => ⟨true, js "warm"⟩
  | .verifyReceipt task =>
    match host.verifyZkReceipt task with
    | .ok () => ⟨true, js "HMAC Commitment Verified: Integrity intact."⟩
    | .error (.rejected message) => ⟨false, message⟩
    | .error (.thrown message) => ⟨false, js "Verification Error: " ++ message⟩

end Host

/-! ### What a verified receipt says -/

theorem bind_ok {ε α β : Type} {x : Except ε α} {f : α → Except ε β} {b : β} :
    (x >>= f) = .ok b ↔ ∃ a, x = .ok a ∧ f a = .ok b := by
  cases x with
  | error e =>
    constructor
    · intro failed
      cases failed
    · rintro ⟨_, failed, _⟩
      cases failed
  | ok a =>
    constructor
    · intro h
      exact ⟨a, rfl, h⟩
    · rintro ⟨_, same, h⟩
      cases same
      exact h

theorem require_ok {condition : Bool} {refusal : Refusal} :
    require condition refusal = .ok () ↔ condition = true := by
  cases condition <;> simp [require]

namespace Host

variable (host : Host)

theorem isString_iff {s : JsString} {v : JsValue} : isString s v = true ↔ v = .str s := by
  cases v with
  | str t => rw [isString, beq_iff_eq, JsValue.str.injEq, eq_comm]
  | _ => simp [isString]

theorem checkHash_ok {recorded : JsValue} {expected : JsString} :
    host.checkHash recorded expected = .ok () ↔ recorded = .str expected := by
  rw [checkHash, ← isString_iff]
  split_ifs with same
  · exact ⟨fun _ => same, fun _ => rfl⟩
  · constructor
    · intro passed
      split at passed <;> cases passed
    · intro equal
      exact absurd equal same

theorem checkOutput_ok {logicPayload : Bytes} {journalData expectedOutput : JsValue}
    (present : expectedOutput ≠ .undefined) :
    host.checkOutput logicPayload journalData expectedOutput = .ok () ↔
      member (js "output_hash") journalData = .str (hashHex host.sha256
        (outputString (actualExpected logicPayload expectedOutput))) := by
  have defined : isUndefined expectedOutput = false := by
    cases expectedOutput with
    | undefined => exact absurd rfl present
    | _ => rfl
  rw [checkOutput, if_neg (by simp [defined]), checkHash_ok]

theorem readJournal_ok {localImageIdHex : JsString} {journal : Bytes} {journalData : JsValue}
    (read : host.readJournal localImageIdHex journal = .ok journalData) :
    parseDoubles (decodeUtf8 journal) = some journalData := by
  rw [readJournal] at read
  split at read
  · cases read
  · cases read
  · next parsed =>
    split_ifs at read
    · cases read
      exact parsed
    · split at read <;> cases read

theorem verified_iff (task : ZkVerificationPayload) :
    (host.workerHandler (.verifyReceipt task)).verified = true ↔
      host.verifyZkReceipt task = .ok () := by
  rw [workerHandler]
  rcases host.verifyZkReceipt task with (message | message) | ⟨⟩ <;> simp

/-- The output hash in the journal of a receipt. -/
def recordedHash (zkReceipt : Bytes) : Option JsValue :=
  match readReceipt zkReceipt with
  | .ok receipt => (parseDoubles (decodeUtf8 receipt.journal)).map (member (js "output_hash"))
  | .error _ => none

theorem readFields_ok {task : ZkVerificationPayload} {fields : Bytes × JsString × Bytes}
    (read : readFields task = .ok fields) :
    task.logicPayload = some fields.1 ∧ task.zkReceipt = some fields.2.2 := by
  rw [readFields] at read
  split at read
  · next logic _ receipt =>
    split_ifs at read
    cases read
    exact ⟨logic, receipt⟩
  · cases read

/-- The task verifies with this expected output. -/
def Verifies (task : ZkVerificationPayload) (expectedOutput : JsValue) : Prop :=
  (host.workerHandler (.verifyReceipt { task with expectedOutput })).verified = true

/-- The output hash of a verified receipt is that of the output that is checked. -/
theorem recordedHash_of_verified {task : ZkVerificationPayload} {logicPayload zkReceipt : Bytes}
    (logic : task.logicPayload = some logicPayload) (receipt : task.zkReceipt = some zkReceipt)
    {e : JsValue} (present : e ≠ .undefined) (verified : host.Verifies task e) :
    recordedHash zkReceipt = some (.str (hashHex host.sha256
      (outputString (actualExpected logicPayload e)))) := by
  rw [Verifies, verified_iff, verifyZkReceipt] at verified
  obtain ⟨fields, present', verified⟩ := bind_ok.mp verified
  obtain ⟨_, _, verified⟩ := bind_ok.mp verified
  obtain ⟨parts, unpacked, verified⟩ := bind_ok.mp verified
  obtain ⟨journalData, read, verified⟩ := bind_ok.mp verified
  obtain ⟨_, _, output⟩ := bind_ok.mp verified
  obtain ⟨sameLogic, sameReceipt⟩ := readFields_ok present'
  rw [logic, Option.some.injEq] at sameLogic
  rw [receipt, Option.some.injEq] at sameReceipt
  rw [← sameLogic, checkOutput_ok _ present] at output
  rw [recordedHash, sameReceipt, unpacked]
  dsimp only
  rw [host.readJournal_ok read, Option.map_some, output]

end Host

/-- Verification is sound for the output unless the logic holds a proxy request; then it
is sound for the request and says nothing about the output. -/
theorem verification_sound (host : Host) (injective : Function.Injective host.sha256)
    (task : ZkVerificationPayload) {logicPayload zkReceipt : Bytes}
    (logic : task.logicPayload = some logicPayload) (receipt : task.zkReceipt = some zkReceipt)
    {e₁ : JsValue} (present₁ : e₁ ≠ .undefined) (verified₁ : host.Verifies task e₁) :
    match tryExtractProxyOutput logicPayload with
    | none => Host.recordedHash zkReceipt = some (.str (hashHex host.sha256 (outputString e₁))) ∧
        ∀ e₂, e₂ ≠ .undefined → host.Verifies task e₂ →
          stringBytes (outputString e₁) = stringBytes (outputString e₂)
    | some request =>
        Host.recordedHash zkReceipt = some (.str (hashHex host.sha256 (outputString request))) := by
  have first := host.recordedHash_of_verified logic receipt present₁ verified₁
  cases extracted : tryExtractProxyOutput logicPayload with
  | some request =>
    rw [Host.actualExpected, extracted] at first
    exact first
  | none =>
    rw [Host.actualExpected, extracted] at first
    refine ⟨first, ?_⟩
    intro e₂ present₂ verified₂
    have second := host.recordedHash_of_verified logic receipt present₂ verified₂
    rw [Host.actualExpected, extracted, first, Option.some.injEq, JsValue.str.injEq] at second
    exact (hashHex_inj injective).mp second

/-! ### Receipts for a plain and for a proxied call -/

/-- Hash functions for the examples: one that is injective, and a constant. -/
def exampleHost : Host := ⟨id, fun _ _ => List.replicate 32 0, fun _ => .error []⟩

def exampleJournal (logic : Bytes) (output : Text) : Bytes :=
  utf8 ("\x7b\"image_id\":\"".toList ++ hexText (deriveLogicImageDigest id logic) ++
    "\",\"output_hash\":\"".toList ++ hexText (utf8 output) ++ "\"\x7d".toList)

/-- An honest receipt for this output of the logic. -/
def exampleTask (logic : Bytes) (output : Text) : ZkVerificationPayload where
  logicPayload := some logic
  remoteImageIdHex := some (exampleHost.deriveImageId logic)
  zkReceipt := some ([0x01, UInt8.ofNat ((exampleJournal logic output).length / 256),
    UInt8.ofNat ((exampleJournal logic output).length % 256)] ++ exampleJournal logic output ++
      List.replicate 32 0)
  sessionSecret := some [7]
  expectedOutput := .undefined

def plainLogic : Bytes := utf8 "return 1".toList

theorem plain_output_fixed : exampleHost.Verifies (exampleTask plainLogic ['1']) (.str (js "1")) ∧
    ∀ e, e ≠ .undefined → exampleHost.Verifies (exampleTask plainLogic ['1']) e →
      stringBytes (js "1") = stringBytes (outputString e) := by
  have verified : exampleHost.Verifies (exampleTask plainLogic ['1']) (.str (js "1")) := by
    unfold Host.Verifies
    decide +kernel
  have extracted : tryExtractProxyOutput plainLogic = none := rfl
  have sound := verification_sound exampleHost Function.injective_id (exampleTask plainLogic ['1'])
    rfl rfl (by simp) verified
  rw [extracted] at sound
  exact ⟨verified, sound.2⟩

def proxyLogic : Bytes :=
  utf8 "return \x7b\"__liop_proxy_tool\":\"t\",\"__liop_proxy_args\":\x7b\x7d\x7d;".toList

def proxyOutput : Text :=
  "\x7b\"__liop_proxy_tool\":\"t\",\"__liop_proxy_args\":\x7b\x7d\x7d".toList

/-- The receipt for a proxied call verifies with any output. -/
theorem proxied_outputs_both_verify :
    outputString (.str (js "1000")) ≠ outputString (.str (js "2000")) ∧
      exampleHost.Verifies (exampleTask proxyLogic proxyOutput) (.str (js "1000")) ∧
      exampleHost.Verifies (exampleTask proxyLogic proxyOutput) (.str (js "2000")) := by
  unfold Host.Verifies
  decide +kernel

end NeuralMesh.Worker
