import NeuralMesh.Server.SanitizedTwice
import NeuralMesh.Worker.LogicExecution

/-! The answer to a run. The server sanitises the worker's output again and serialises it
through `JSON.parse`; the client compares the hash of the answer with the receipt. -/
namespace NeuralMesh.Server

open Js Codec Worker

/-- `Infinity`, `NaN` or the digits. -/
def numberString : JsNumber → JsString
  | .finite d => ofText (numberText d)
  | .nan => js "NaN"
  | .infinite negative => js (if negative then "-Infinity" else "Infinity")

/-- `String(value)`; `display` is the conversion of objects and arrays. -/
def stringOf (display : JsValue → JsString) : JsValue → JsString
  | .undefined => js "undefined"
  | .null => js "null"
  | .bool b => ofText (boolText b)
  | .num n => numberString n
  | .str s => s
  | v => display v

/-- The string itself or `JSON.stringify`; `none` is `undefined`. -/
def serialised : JsValue → Option JsString
  | .str s => some s
  | v => (stringify v).map ofText

inductive FinalOutput where
  | direct (text : JsString)
  | proxied (request : JsValue)

/-- An exception of `JSON.parse`, or reading a property of `null`, gives `String(value)`. -/
def finalOutput (display : JsValue → JsString) (sanitized : JsValue) : FinalOutput :=
  match serialised sanitized with
  | none => .direct (stringOf display sanitized)
  | some text =>
    match parseDoubles (wellFormed text) with
    | none | some .null => .direct (stringOf display sanitized)
    | some decoded =>
      if truthy (member (ofText proxyKey) decoded) then .proxied decoded else .direct text

structure LogicResponse where
  semantic_evidence : JsString
  is_error : Bool

/-- The policies on what leaves the server: the message of a violated output policy, and
whether the scanners block the output. -/
structure Egress where
  display : JsValue → JsString
  validateOutputPolicy : JsValue → Option JsString
  isBlocked : JsValue → Bool

/-- The answer to a run that is not a proxied call. -/
def answer (egress : Egress) (sanitized : JsValue) (text : JsString) : LogicResponse :=
  match egress.validateOutputPolicy sanitized with
  | some errorMessage => ⟨errorMessage, true⟩
  | none =>
    if egress.isBlocked sanitized then
      ⟨js "[LIOP] Egress Security Violation. Output blocked due to policy enforcement.", true⟩
    else ⟨text, false⟩

/-- `none` is a proxied call, which another tool answers. -/
def respond (egress : Egress) (output : Node) : Option LogicResponse :=
  let sanitized := (sanitizeOutput output).value
  match finalOutput egress.display sanitized with
  | .direct text => some (answer egress sanitized text)
  | .proxied _ => none

/-! ### The text of a sanitised value -/

theorem numberText_injective : Function.Injective numberText := by
  intro d e same
  have left := @readNumber_numberText [] d endsNumber_nil
  rw [List.append_nil, same] at left
  have right := @readNumber_numberText [] e endsNumber_nil
  rw [List.append_nil, left] at right
  simpa using right

theorem answer_ok {egress : Egress} {sanitized : JsValue} {text : JsString}
    (ok : (answer egress sanitized text).is_error = false) :
    (answer egress sanitized text).semantic_evidence = text := by
  rw [answer] at ok ⊢
  split at ok
  · cases ok
  · split_ifs at ok ⊢
    rfl

theorem parseDoubles_jsonText (v : JsValue) :
    parseDoubles (jsonText v) = some (asDoubles (settle (transmitted v))) := by
  rw [parseDoubles, ← jsonText_transmitted, parse_plain (isPlain_transmitted v), Option.map_some]

theorem finalOutput_branch (display : JsValue → JsString) {label : Option Nat} {array : Bool}
    {entries : Entries} {text : JsString}
    (direct : finalOutput display (Node.branch label array entries).value = .direct text) :
    text = ofText (jsonText (Node.branch label array entries).value) := by
  have parsed := parseDoubles_jsonText (Node.branch label array entries).value
  cases array with
  | true =>
    simp only [Node.value, transmitted, settle, asDoubles] at parsed
    simp only [finalOutput, Node.value, serialised, stringify, Option.map_some, wellFormed_ofText,
      parsed] at direct
    split_ifs at direct
    cases direct
    rfl
  | false =>
    simp only [Node.value, transmitted, settle, asDoubles] at parsed
    simp only [finalOutput, Node.value, serialised, stringify, Option.map_some, wellFormed_ofText,
      parsed] at direct
    split_ifs at direct
    cases direct
    rfl

theorem finalOutput_num (display : JsValue → JsString) {n : JsNumber} {text : JsString}
    (direct : finalOutput display (.num n) = .direct text) : text = numberString n := by
  have parsed := parseDoubles_jsonText (.num n)
  cases n with
  | finite d =>
    simp only [transmitted, settle, asDoubles] at parsed
    simp only [finalOutput, serialised, stringify, Option.map_some, wellFormed_ofText,
      parsed, member, truthy, Bool.false_eq_true, if_false] at direct
    cases direct
    rfl
  | nan =>
    cases direct
    rfl
  | infinite negative =>
    cases direct
    rfl

theorem finalOutput_scalar (display : JsValue → JsString) {s : Scalar} {text : JsString}
    (direct : finalOutput display s.value = .direct text) : text = outputString s.value := by
  have parsed := parseDoubles_jsonText s.value
  cases s with
  | undefined | null =>
    cases direct
    rfl
  | bool b =>
    simp only [Scalar.value, transmitted, settle, asDoubles] at parsed
    simp only [Scalar.value, finalOutput, serialised, stringify, Option.map_some,
      wellFormed_ofText, parsed, member, truthy, Bool.false_eq_true, if_false] at direct
    cases direct
    rfl
  | str s =>
    rw [Scalar.value, finalOutput, serialised] at direct
    dsimp only at direct
    split at direct
    · cases direct
      rfl
    · cases direct
      rfl
    · split_ifs at direct
      cases direct
      rfl

theorem numberText_unread {d : Decimal} {t : Text} (unread : readNumber t = none) :
    numberText d ≠ t := by
  rintro rfl
  have read := @readNumber_numberText [] d endsNumber_nil
  rw [List.append_nil, unread] at read
  cases read

/-- Only a finite number has a spelling that `JSON.stringify` shares. -/
theorem numberString_eq_iff {m n : JsNumber} :
    numberString m = ofText n.jsonText ↔ ∃ d, m = .finite d ∧ n = .finite d := by
  have named (t : Text) (unread : readNumber t = none) (other : t ≠ nullText) :
      ofText t ≠ ofText n.jsonText := by
    intro same
    have texts := ofText_injective same
    cases n with
    | finite e => exact numberText_unread unread texts.symm
    | nan => exact other texts
    | infinite negative => exact other texts
  cases m with
  | finite d =>
    have spelled : nullText ≠ numberText d := (numberText_unread rfl).symm
    rw [numberString, ofText_injective.eq_iff]
    constructor
    · intro same
      cases n with
      | finite e =>
        rw [JsNumber.jsonText, numberText_injective.eq_iff] at same
        exact ⟨d, rfl, by rw [same]⟩
      | nan => exact absurd same.symm spelled
      | infinite negative => exact absurd same.symm spelled
    · rintro ⟨e, left, rfl⟩
      cases left
      rfl
  | nan =>
    constructor
    · intro same
      exact absurd same (named "NaN".toList rfl (by decide))
    · rintro ⟨d, ⟨⟩, _⟩
  | infinite negative =>
    constructor
    · intro same
      cases negative with
      | true => exact absurd same (named "-Infinity".toList rfl (by decide))
      | false => exact absurd same (named "Infinity".toList rfl (by decide))
    · rintro ⟨d, ⟨⟩, _⟩

/-! ### Honest receipts -/

/-- The value is not a number that rounds to an infinity or `NaN`; the rounding of every
number that is kept is stable; and containers that occur again hold only numbers that
rounding leaves alone, and no own `__proto__`. -/
def Reproducible (x : Node) : Prop :=
  (∀ n, x = .num n → ∃ d, sanitizeNumber n = .finite d) ∧ (∀ n ∈ keptNumbers x, Stable n) ∧
    ∀ o ∈ again [] x, Settled o

theorem reproducible_num {n : JsNumber} : Reproducible (.num n) ↔
    ∃ d, sanitizeNumber (sanitizeNumber n) = .finite d ∧ sanitizeNumber n = .finite d := by
  constructor
  · rintro ⟨finite, stable, _⟩
    obtain ⟨d, rounded⟩ := finite n rfl
    have same : sanitizeNumber (sanitizeNumber n) = sanitizeNumber n :=
      stable n (List.mem_singleton.mpr rfl)
    exact ⟨d, same.trans rounded, rounded⟩
  · rintro ⟨d, twice, once⟩
    refine ⟨?_, ?_, ?_⟩
    · rintro m same
      cases same
      exact ⟨d, once⟩
    · intro m member
      rw [keptNumbers, List.mem_singleton] at member
      rw [member]
      exact twice.trans once.symm
    · rintro o ⟨⟩

theorem sanitizeOutput_branch (label : Option Nat) (array : Bool) (entries : Entries) :
    ∃ copied, sanitizeOutput (.branch label array entries) = .branch none array copied := by
  have unseen : isSeen [] label = false := by cases label <;> simp [isSeen]
  refine ⟨(walkEntries array (mark [] label) entries).1, ?_⟩
  rw [sanitizeOutput, walk, if_neg (by simp [unseen])]

theorem outputString_branch (label : Option Nat) (array : Bool) (entries : Entries) :
    outputString (Node.branch label array entries).value =
      ofText (jsonText (Node.branch label array entries).value) := by
  cases array <;> rfl

/-- The answer to a run is the text that the receipt commits to exactly for these values. -/
theorem semantic_evidence_eq_committed_iff (egress : Egress) (run : RunConfig) (output : Graph)
    {worker : WorkerResponse} {response : LogicResponse}
    (committed : commitOutput run output.root = some worker)
    (answered : respond egress worker.output = some response) (ok : response.is_error = false) :
    response.semantic_evidence = worker.committed ↔
      Reproducible (sanitizerInput run output).root := by
  rw [commitOutput] at committed
  split_ifs at committed
  obtain rfl := Option.some.inj committed
  rw [respond] at answered
  dsimp only at answered ⊢
  split at answered
  · next text direct =>
    obtain rfl := Option.some.inj answered
    rw [answer_ok ok]
    have twice := sanitized_twice (sanitizerInput run output)
    have root : (sanitizerInput run output).root = withNoise run output.root := rfl
    rw [← root] at direct ⊢
    generalize (sanitizerInput run output).root = x at direct twice ⊢
    cases x with
    | scalar s =>
      rw [finalOutput_scalar egress.display direct]
      simp [Reproducible, keptNumbers, again, sanitizeOutput, walk, Node.value]
    | num n =>
      rw [finalOutput_num egress.display direct]
      exact numberString_eq_iff.trans reproducible_num.symm
    | branch label array entries =>
      obtain ⟨copied, once⟩ := sanitizeOutput_branch label array entries
      obtain ⟨copied', again'⟩ := sanitizeOutput_branch none array copied
      rw [once, again'] at twice
      rw [once, again'] at direct
      rw [finalOutput_branch egress.display direct, once, outputString_branch,
        ofText_injective.eq_iff, jsonText_eq_iff, twice]
      simp [Reproducible]
  · cases answered

/-- The text that a receipt commits to passes the client's check of the output hash. -/
theorem checkOutput_committed (host : Host) {logicPayload : Bytes} {journalData : JsValue}
    {worker : WorkerResponse} (plain : tryExtractProxyOutput logicPayload = none)
    (recorded : member (js "output_hash") journalData = .str (hashHex host.sha256 worker.committed)) :
    host.checkOutput logicPayload journalData (.str worker.committed) = .ok () := by
  rw [Host.checkOutput_ok host (by simp), recorded, Host.actualExpected, plain]
  rfl

/-! ### Runs -/

def openEgress : Egress := ⟨fun _ => [], fun _ => none, fun _ => false⟩

/-- A tool with the default policy and no records. -/
def defaultRun : RunConfig where
  noise := fun _ _ _ d counter => (.finite d, counter)
  dpConfig := some ⟨.finite (Decimal.normalize 1 0), .finite (Decimal.normalize 1 0),
    .finite (Decimal.normalize 50 0)⟩
  recordCount := 0
  readOnly := fun _ => false

def listOutput : Graph where
  root := .branch none true [([], .scalar (.bool true))]
  consistent := by
    intro l o o' labelled _ within _
    have member := mem_labels.mpr ⟨o, labelled, within⟩
    simp [Node.labels, Node.entryLabels] at member

theorem list_evidence : ∃ worker response,
    commitOutput defaultRun listOutput.root = some worker ∧
      respond openEgress worker.output = some response ∧
      (response.semantic_evidence = worker.committed ↔
        Reproducible (sanitizerInput defaultRun listOutput).root) :=
  ⟨_, _, rfl, rfl, semantic_evidence_eq_committed_iff openEgress defaultRun listOutput rfl rfl rfl⟩

/-- The receipt of `NaN` commits to `null`. -/
theorem nan_evidence_differs : ∃ worker response,
    commitOutput defaultRun (.num .nan) = some worker ∧
      respond openEgress worker.output = some response ∧ response.is_error = false ∧
      response.semantic_evidence ≠ worker.committed :=
  ⟨_, _, rfl, rfl, rfl, by decide⟩

end NeuralMesh.Server
