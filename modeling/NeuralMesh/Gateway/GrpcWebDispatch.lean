import NeuralMesh.Gateway.GrpcWeb
import NeuralMesh.Observability.PrometheusText

/-! The answers of the gRPC-Web dispatch. A client that reads the frames and the lines of the
trailers finds the data, the status and the message of the handler, whatever the message says. -/
namespace NeuralMesh.Gateway

open Js Codec Draining Server GRPC_WEB_CONSTANTS

/-! ### Lines -/

/-- A line up to its carriage return and line feed. -/
def takeLine : Text → Option (Text × Text)
  | [] => none
  | c :: cs =>
    if c = '\r' ∧ cs.head? = some '\n' then some ([], cs.tail)
    else (takeLine cs).map fun taken => (c :: taken.1, taken.2)

theorem takeLine_length {text line rest : Text} (read : takeLine text = some (line, rest)) :
    rest.length < text.length := by
  induction text generalizing line with
  | nil => cases read
  | cons c cs ih =>
    rw [takeLine] at read
    split_ifs at read
    · cases read
      rw [List.length_tail, List.length_cons]
      omega
    · obtain ⟨⟨later, _⟩, found, same⟩ := Option.map_eq_some_iff.mp read
      cases same
      exact Nat.lt_succ_of_lt (ih found)

theorem takeLine_append {text line rest : Text} (read : takeLine text = some (line, rest))
    (more : Text) : takeLine (text ++ more) = some (line, rest ++ more) := by
  induction text generalizing line with
  | nil => cases read
  | cons c cs ih =>
    rw [takeLine] at read
    rw [List.cons_append, takeLine]
    split_ifs at read with ends
    · cases read
      cases cs with
      | nil => cases ends.2
      | cons d cs => exact if_pos ends
    · obtain ⟨⟨later, _⟩, found, same⟩ := Option.map_eq_some_iff.mp read
      cases same
      have inside : ¬ (c = '\r' ∧ (cs ++ more).head? = some '\n') := by
        cases cs with
        | nil => cases found
        | cons d cs => exact ends
      rw [if_neg inside, ih found]
      rfl

def lineReader : Reader Char Text where
  take := takeLine
  shrinks := takeLine_length
  stable := takeLine_append

theorem line_spells {line : Text} (unbroken : '\n' ∉ line) :
    Spells lineReader line (line ++ ['\r', '\n']) := by
  intro rest
  show takeLine (line ++ ['\r', '\n'] ++ rest) = some (line, rest)
  induction line with
  | nil => rfl
  | cons c line ih =>
    obtain ⟨-, unbroken⟩ := not_or.mp (List.mem_cons.not.mp unbroken)
    have inside : ¬ (c = '\r' ∧ (line ++ ['\r', '\n'] ++ rest).head? = some '\n') := by
      rintro ⟨-, next⟩
      cases line with
      | nil => cases next
      | cons d line =>
        cases next
        exact unbroken List.mem_cons_self
    rw [List.cons_append, List.cons_append, takeLine, if_neg inside, ih unbroken]
    rfl

/-! ### Percent-encoding -/

def percentDecode : Text → Option Bytes
  | [] => some []
  | '%' :: a :: b :: text =>
    match hexValue a, hexValue b with
    | some high, some low => (percentDecode text).map (UInt8.ofNat (high * 16 + low) :: ·)
    | _, _ => none
  | c :: text => if c = '%' then none else (percentDecode text).map (String.utf8EncodeChar c ++ ·)

/-- `none` is the `URIError` for what is no encoding. -/
def decodeURIComponent (text : Text) : Option JsString :=
  (percentDecode text).bind fun bytes =>
    if utf8 (decodeUtf8 bytes) = bytes then some (ofText (decodeUtf8 bytes)) else none

/-- The text that `encodeURIComponent` writes for the scalar values of a string. -/
def uriText (text : Text) : Text :=
  text.flatMap fun c => if isUriUnescaped c then [c] else (utf8 [c]).flatMap percentByte

theorem encodeURIComponent_eq_some {s encoded : JsString} :
    encodeURIComponent s = some encoded ↔
      ofText (wellFormed s) = s ∧ encoded = ofText (uriText (wellFormed s)) := by
  unfold encodeURIComponent
  split_ifs with whole
  · rw [Option.some.injEq, eq_comm]
    exact (and_iff_right whole).symm
  · exact iff_of_false nofun fun both => whole both.1

theorem percentDecode_plain {c : Char} (plain : c ≠ '%') (text : Text) :
    percentDecode (c :: text) = (percentDecode text).map (String.utf8EncodeChar c ++ ·) := by
  rw [percentDecode, if_neg plain]
  intro a b rest same
  exact absurd same plain

theorem hexValue_upper : ∀ d < 16, hexValue (hexDigit d).toUpper = some d := by decide

theorem percentDecode_byte (b : UInt8) (text : Text) :
    percentDecode (percentByte b ++ text) = (percentDecode text).map (b :: ·) := by
  have bound := b.toNat_lt
  have byte : UInt8.ofNat (b.toNat / 16 * 16 + b.toNat % 16) = b := byte_eq (by omega)
  simp only [percentByte, List.cons_append, List.nil_append, percentDecode,
    hexValue_upper _ (show b.toNat / 16 < 16 by omega),
    hexValue_upper _ (show b.toNat % 16 < 16 by omega), byte]

theorem percentDecode_bytes (bytes : Bytes) (text : Text) :
    percentDecode (bytes.flatMap percentByte ++ text) = (percentDecode text).map (bytes ++ ·) := by
  induction bytes with
  | nil => exact Option.map_id'.symm
  | cons b bytes ih =>
    rw [List.flatMap_cons, List.append_assoc, percentDecode_byte, ih, Option.map_map]
    rfl

theorem percentDecode_uriText (text : Text) : percentDecode (uriText text) = some (utf8 text) := by
  induction text with
  | nil => rfl
  | cons c text ih =>
    have bytes : utf8 (c :: text) = String.utf8EncodeChar c ++ utf8 text := List.flatMap_cons
    have single : utf8 [c] = String.utf8EncodeChar c := List.flatMap_singleton ..
    rw [uriText, List.flatMap_cons, ← uriText, bytes]
    split_ifs with unescaped
    · have plain : c ≠ '%' := by
        rintro rfl
        exact absurd unescaped (by decide)
      rw [List.singleton_append, percentDecode_plain plain, ih]
      rfl
    · rw [percentDecode_bytes, ih, single]
      rfl

/-- Every string without lone surrogates is read back. -/
theorem decodeURIComponent_uriText {s : JsString} (whole : ofText (wellFormed s) = s) :
    decodeURIComponent (uriText (wellFormed s)) = some s := by
  rw [decodeURIComponent, percentDecode_uriText, Option.bind_some, decodeUtf8_utf8, if_pos rfl,
    whole]

theorem newline_not_mem_uriText (text : Text) : '\n' ∉ uriText text := by
  have digit : ∀ d < 16, '\n' ≠ (hexDigit d).toUpper := by decide
  intro member
  obtain ⟨c, -, inside⟩ := List.mem_flatMap.mp member
  split_ifs at inside with unescaped
  · cases List.mem_singleton.mp inside
    exact absurd unescaped (by decide)
  · obtain ⟨b, -, here⟩ := List.mem_flatMap.mp inside
    have bound := b.toNat_lt
    simp only [percentByte, List.mem_cons, List.not_mem_nil, or_false] at here
    rcases here with percent | high | low
    · exact absurd percent (by decide)
    · exact digit _ (by omega) high
    · exact digit _ (by omega) low

/-! ### Trailers -/

/-- `String(status)` as a text. -/
def statusText : JsNumber → Text
  | .finite d => numberText d
  | .nan => "NaN".toList
  | .infinite negative => (if negative then "-Infinity" else "Infinity").toList

/-- What a client reads in the payload of a trailer frame. -/
def trailerLines (payload : Bytes) : List Text := (drain lineReader (decodeUtf8 payload)).1

theorem numberString_eq (status : JsNumber) : numberString status = ofText (statusText status) := by
  cases status <;> rfl

theorem newline_not_mem_statusText (status : JsNumber) : '\n' ∉ statusText status := by
  intro member
  have unit : (10 : CodeUnit) ∈ numberString status := by
    rw [numberString_eq]
    exact List.mem_flatMap.mpr ⟨'\n', member, by decide⟩
  exact absurd (Observability.numberString_range status 10 unit) (by decide)

/-- The trailers of an answer are two lines, which tell the status and the message. -/
theorem trailerLines_told {status : JsNumber} {message trailer : JsString}
    (written : trailerText status message [] = some trailer) :
    trailerLines (stringBytes trailer) = ["grpc-status:".toList ++ statusText status,
        "grpc-message:".toList ++ uriText (wellFormed message)] ∧
      decodeURIComponent (uriText (wellFormed message)) = some message := by
  obtain ⟨encoded, encodes, rfl⟩ := Option.map_eq_some_iff.mp written
  obtain ⟨whole, rfl⟩ := encodeURIComponent_eq_some.mp encodes
  refine ⟨?_, decodeURIComponent_uriText whole⟩
  have first : '\n' ∉ "grpc-status:".toList ++ statusText status := by
    rw [List.mem_append, not_or]
    exact ⟨by decide, newline_not_mem_statusText status⟩
  have second : '\n' ∉ "grpc-message:".toList ++ uriText (wellFormed message) := by
    rw [List.mem_append, not_or]
    exact ⟨by decide, newline_not_mem_uriText _⟩
  have append (a b : Text) : ofText a ++ ofText b = ofText (a ++ b) := List.flatMap_append.symm
  have lines := congrArg Prod.fst
    (drain_wires (.cons (line_spells first) (.cons (line_spells second) .nil)) [])
  have ended : drain lineReader [] = ([], []) := drain_none rfl
  rw [trailerLines, stringBytes]
  simp only [numberString_eq, List.map_nil, List.append_nil, List.intercalate_cons_cons,
    List.intercalate_singleton, js, crlf, append, wellFormed_ofText, decodeUtf8_utf8]
  simpa only [List.flatten_cons, List.flatten_nil, List.append_assoc, List.append_nil, ended]
    using lines

/-! ### The dispatch -/

namespace GRPC_WEB_CONSTANTS

def STATUS_INTERNAL : JsNumber := .finite (Decimal.ofInt 13)

end GRPC_WEB_CONSTANTS

structure HandlerResult where
  status : JsNumber
  message : Option JsString
  data : Option Bytes

structure ServerResponse where
  headersSent : Bool
  written : Bytes
  ended : Bool

/-- The message that a client gets for an exception. -/
def errorMessage (message : JsString) : JsString :=
  if message = [] then js "Internal server error" else message

namespace ServerResponse

def start : ServerResponse := ⟨false, [], false⟩

variable (res : ServerResponse)

def write (chunk : Bytes) : ServerResponse := ⟨true, res.written ++ chunk, res.ended⟩

def finish : ServerResponse := ⟨true, res.written, true⟩

def writeData (data : Bytes) : Option ServerResponse :=
  if data = [] then some res else (encodeDataFrame data).map res.write

def writeTrailer (status : JsNumber) (message : JsString) : Option ServerResponse :=
  (encodeTrailerFrame status message []).map fun trailer => (res.write trailer).finish

/-- Writes the frames of a result; an exception leaves what was written before. -/
def respond (result : HandlerResult) : Except ServerResponse ServerResponse :=
  match res.writeData (result.data.getD []) with
  | none => .error res
  | some res =>
    match res.writeTrailer result.status (result.message.getD []) with
    | none => .error res
    | some res => .ok res

/-- The `catch` block, which throws itself once the headers have been sent. -/
def fail (message : JsString) : ServerResponse :=
  if res.headersSent then res
  else (res.writeTrailer STATUS_INTERNAL (errorMessage message)).getD res

end ServerResponse

/-- The first payload that is no trailer. -/
def dataPayload (body : Bytes) : Bytes :=
  (((decodeFrames body).find? fun frame => !frame.isTrailer).map (·.payload)).getD []

/-- `exception` is the message of what the encoding of an answer throws. -/
def dispatchGrpcWebRequest (exception : JsString)
    (handler : JsString → Bytes → Except JsString HandlerResult) (url : JsString)
    (chunks : List Bytes) : ServerResponse :=
  match handler (if url = [] then js "/" else url) (dataPayload chunks.flatten) with
  | .error message => ServerResponse.start.fail message
  | .ok result =>
    match ServerResponse.start.respond result with
    | .ok res => res
    | .error res => res.fail exception

/-! ### What a client is told -/

/-- A complete answer: the data, unless there is none, and trailers with the status and the
message. -/
structure Told (data : Bytes) (status : JsNumber) (message : JsString) (res : ServerResponse) :
    Prop where
  ended : res.ended = true
  read : ∃ trailer encoded, decodeFrames res.written =
      (if data = [] then [] else [⟨false, data⟩]) ++ [⟨true, trailer⟩] ∧
    trailerLines trailer = ["grpc-status:".toList ++ statusText status,
      "grpc-message:".toList ++ encoded] ∧
    decodeURIComponent encoded = some message

/-- The trailers can be written. -/
def Writable (status : JsNumber) (message : JsString) : Prop :=
  (Message.trailer status message []).Framable

/-- The bytes of the data frame, if there is one. -/
def dataBytes (data : Bytes) : Bytes := if data = [] then [] else frameBytes FLAG_DATA data

theorem decodeFrames_told {data payload : Bytes} (small : data.length < 2 ^ 32)
    (range : payload.length < 2 ^ 32) :
    decodeFrames (dataBytes data ++ frameBytes FLAG_TRAILERS payload) =
      (if data = [] then [] else [⟨false, data⟩]) ++ [⟨true, payload⟩] := by
  have last := frame_spells range FLAG_TRAILERS
  have ended : drain frameReader [] = ([], []) := drain_none rfl
  have first : toFrame (FLAG_DATA, data) = ⟨false, data⟩ :=
    congrArg (GrpcWebFrame.mk · data) (flagOf_isTrailer false)
  have second : toFrame (FLAG_TRAILERS, payload) = ⟨true, payload⟩ :=
    congrArg (GrpcWebFrame.mk · payload) (flagOf_isTrailer true)
  rw [decodeFrames_drain, dataBytes]
  split_ifs
  · have read := drain_wires (.cons last .nil) []
    simp only [List.flatten_cons, List.flatten_nil, List.append_nil, ended] at read
    rw [List.nil_append, read, List.map_singleton, second, List.nil_append]
  · have read := drain_wires (.cons (frame_spells small FLAG_DATA) (.cons last .nil)) []
    simp only [List.flatten_cons, List.flatten_nil, List.append_nil, ended] at read
    rw [read, List.map_cons, List.map_singleton, first, second, List.singleton_append]

theorem encodeTrailerFrame_none {status : JsNumber} {message : JsString}
    (unwritable : ¬ Writable status message) : encodeTrailerFrame status message [] = none := by
  rw [Option.eq_none_iff_forall_ne_some]
  intro wire encoded
  obtain ⟨payload, given, range, -⟩ :=
    (@Message.encode_eq_some (.trailer status message []) wire).mp encoded
  exact unwritable ⟨payload, given, range⟩

namespace ServerResponse

variable {res : ServerResponse} {data : Bytes} {status : JsNumber} {message : JsString}

theorem writeTrailer_told (small : data.length < 2 ^ 32) (written : res.written = dataBytes data)
    (writable : Writable status message) :
    ∃ later, res.writeTrailer status message = some later ∧ Told data status message later := by
  obtain ⟨payload, given, range⟩ := writable
  have encoded : encodeTrailerFrame status message [] = some (frameBytes FLAG_TRAILERS payload) :=
    (@Message.encode_eq_some (.trailer status message []) _).mpr ⟨payload, given, range, rfl⟩
  obtain ⟨trailer, text, rfl⟩ := Option.map_eq_some_iff.mp given
  obtain ⟨lines, decoded⟩ := trailerLines_told text
  refine ⟨(res.write (frameBytes FLAG_TRAILERS (stringBytes trailer))).finish, ?_, rfl, ?_⟩
  · rw [writeTrailer, encoded]
    rfl
  · refine ⟨stringBytes trailer, uriText (wellFormed message), ?_, lines, decoded⟩
    rw [finish, write, written]
    exact decodeFrames_told small range

theorem writeTrailer_none (unwritable : ¬ Writable status message) :
    res.writeTrailer status message = none := by
  rw [writeTrailer, encodeTrailerFrame_none unwritable]
  rfl

theorem writeData_small (small : data.length < 2 ^ 32) :
    ∃ later, start.writeData data = some later ∧ later.written = dataBytes data ∧
      (later.headersSent = false ↔ data = []) ∧ later.ended = false := by
  unfold writeData dataBytes
  split_ifs with empty
  · exact ⟨start, rfl, rfl, iff_of_true rfl empty, rfl⟩
  · have encoded : encodeDataFrame data = some (frameBytes FLAG_DATA data) :=
      (@Message.encode_eq_some (.data data) _).mpr ⟨data, rfl, small, rfl⟩
    rw [encoded]
    exact ⟨_, rfl, rfl, iff_of_false nofun empty, rfl⟩

theorem writeData_large (large : 2 ^ 32 ≤ data.length) : start.writeData data = none := by
  have visible : data ≠ [] := by
    rintro rfl
    exact absurd large (by decide)
  have outside : ¬ data.length < 4294967296 := by omega
  rw [writeData, if_neg visible, encodeDataFrame, writeUInt32BE, if_neg outside]
  rfl

/-- An exception before anything is written is told. -/
theorem fail_told (fresh : res.headersSent = false) (unwritten : res.written = [])
    (writable : Writable STATUS_INTERNAL (errorMessage message)) :
    Told [] STATUS_INTERNAL (errorMessage message) (res.fail message) := by
  have small : ([] : Bytes).length < 2 ^ 32 := by decide
  obtain ⟨later, wrote, told⟩ := writeTrailer_told small unwritten writable
  rw [fail, fresh, wrote]
  exact told

end ServerResponse

/-- What comes of a call by its result, with an exception of the encoding. -/
inductive Replies (exception : JsString) : Except JsString HandlerResult → ServerResponse → Prop
  where
  | answered {result : HandlerResult} {res : ServerResponse}
    (small : (result.data.getD []).length < 2 ^ 32)
    (writable : Writable result.status (result.message.getD []))
    (told : Told (result.data.getD []) result.status (result.message.getD []) res) :
    Replies exception (.ok result) res
  /-- Nothing has been written yet. -/
  | refused {result : HandlerResult} {res : ServerResponse}
    (unsent : 2 ^ 32 ≤ (result.data.getD []).length ∨
      result.data.getD [] = [] ∧ ¬ Writable result.status (result.message.getD []))
    (told : Told [] STATUS_INTERNAL (errorMessage exception) res) :
    Replies exception (.ok result) res
  /-- The data are written, and the trailers cannot be. -/
  | cut {result : HandlerResult} {res : ServerResponse}
    (sent : result.data.getD [] ≠ [] ∧ (result.data.getD []).length < 2 ^ 32)
    (unwritable : ¬ Writable result.status (result.message.getD [])) (unended : res.ended = false) :
    Replies exception (.ok result) res
  | failed {message : JsString} {res : ServerResponse}
    (writable : Writable STATUS_INTERNAL (errorMessage message))
    (told : Told [] STATUS_INTERNAL (errorMessage message) res) :
    Replies exception (.error message) res
  | silent {message : JsString} {res : ServerResponse}
    (unwritable : ¬ Writable STATUS_INTERNAL (errorMessage message)) (unended : res.ended = false) :
    Replies exception (.error message) res

/-- A call is answered with the data, the status and the message of its handler. Only a message that
no trailer can hold, of a failure or behind data, leaves the answer open. -/
theorem dispatch_replies {exception : JsString}
    (writable : Writable STATUS_INTERNAL (errorMessage exception))
    (handler : JsString → Bytes → Except JsString HandlerResult) (url : JsString)
    (chunks : List Bytes) :
    Replies exception
      (handler (if url = [] then js "/" else url) (dataPayload chunks.flatten))
      (dispatchGrpcWebRequest exception handler url chunks) := by
  unfold dispatchGrpcWebRequest
  cases handler (if url = [] then js "/" else url) (dataPayload chunks.flatten) with
  | error message =>
    by_cases tellable : Writable STATUS_INTERNAL (errorMessage message)
    · exact .failed tellable (ServerResponse.fail_told rfl rfl tellable)
    · refine .silent tellable ?_
      simp only [ServerResponse.fail, ServerResponse.writeTrailer_none tellable]
      rfl
  | ok result =>
    simp only [ServerResponse.respond]
    by_cases small : (result.data.getD []).length < 2 ^ 32
    · obtain ⟨later, wrote, written, headers, unended⟩ := ServerResponse.writeData_small small
      simp only [wrote]
      by_cases tellable : Writable result.status (result.message.getD [])
      · obtain ⟨last, ended, told⟩ := ServerResponse.writeTrailer_told small written tellable
        simp only [ended]
        exact .answered small tellable told
      · simp only [ServerResponse.writeTrailer_none tellable]
        by_cases empty : result.data.getD [] = []
        · rw [empty] at written
          exact .refused (.inr ⟨empty, tellable⟩)
            (ServerResponse.fail_told (headers.mpr empty) written writable)
        · refine .cut ⟨empty, small⟩ tellable ?_
          rw [ServerResponse.fail, if_pos (Bool.not_eq_false _ ▸ mt headers.mp empty)]
          exact unended
    · have large := Nat.le_of_not_lt small
      simp only [ServerResponse.writeData_large large]
      exact .refused (.inl large) (ServerResponse.fail_told rfl rfl writable)

/-- The handler behind the fallback of the gateway. -/
def fixedHandler : JsString → Bytes → Except JsString HandlerResult :=
  fun _ _ => .ok ⟨.finite (Decimal.ofInt 0), some (js "OK"), none⟩

theorem fixedHandler_replies : Replies (js "URI malformed")
    (fixedHandler (js "/") (dataPayload [[0, 0, 0, 0], [1, 7]].flatten))
    (dispatchGrpcWebRequest (js "URI malformed") fixedHandler [] [[0, 0, 0, 0], [1, 7]]) :=
  dispatch_replies ⟨_, rfl, by decide +kernel⟩ fixedHandler [] [[0, 0, 0, 0], [1, 7]]

end NeuralMesh.Gateway
