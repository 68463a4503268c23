import Mathlib.Data.Nat.Bitwise
import NeuralMesh.Codec.LengthPrefixed
import NeuralMesh.Server.SemanticEvidence

/-! gRPC-Web framing: a flag byte, the length of the payload and the payload. The frames of a
stream are read back up to the first incomplete one. -/
namespace NeuralMesh.Gateway

open Js Codec Draining Server

namespace GRPC_WEB_CONSTANTS

def FLAG_DATA : UInt8 := 0x00
def FLAG_TRAILERS : UInt8 := 0x80
def HEADER_LENGTH : Nat := 5

end GRPC_WEB_CONSTANTS

open GRPC_WEB_CONSTANTS

structure GrpcWebFrame where
  isTrailer : Bool
  payload : Bytes

/-! ### Encoding -/

/-- `none` is the `RangeError` of the length field. -/
def encodeDataFrame (payload : Bytes) : Option Bytes :=
  (writeUInt32BE payload.length).map fun length => FLAG_DATA :: (length ++ payload)

def isUriUnescaped (c : Char) : Bool := c.isAlphanum || "-_.!~*'()".toList.contains c

def percentByte (b : UInt8) : Text :=
  ['%', (hexDigit (b.toNat / 16)).toUpper, (hexDigit (b.toNat % 16)).toUpper]

/-- `none` is the `URIError` for a lone surrogate. -/
def encodeURIComponent (s : JsString) : Option JsString :=
  if ofText (wellFormed s) = s then
    some (ofText ((wellFormed s).flatMap fun c =>
      if isUriUnescaped c then [c] else (utf8 [c]).flatMap percentByte))
  else none

def crlf : JsString := ofText ['\r', '\n']

def trailerText (status : JsNumber) (message : JsString)
    (customTrailers : List (JsString × JsString)) : Option JsString :=
  (encodeURIComponent message).map fun message =>
    let lines := [js "grpc-status:" ++ numberString status, js "grpc-message:" ++ message] ++
      customTrailers.map fun (key, value) => key ++ js ":" ++ value
    crlf.intercalate lines ++ crlf

def encodeTrailerFrame (status : JsNumber) (message : JsString)
    (customTrailers : List (JsString × JsString)) : Option Bytes :=
  (trailerText status message customTrailers).bind fun trailerText =>
    let trailerBuf := stringBytes trailerText
    (writeUInt32BE trailerBuf.length).map fun length => FLAG_TRAILERS :: (length ++ trailerBuf)

/-! ### Decoding -/

def readUInt8 (buffer : Bytes) (offset : Nat) : UInt8 := buffer.getD offset 0

def subarray (buffer : Bytes) (start finish : Nat) : Bytes :=
  (buffer.drop start).take (finish - start)

/-- The loop of `decodeFrames` from an offset. -/
def framesFrom (buffer : Bytes) (offset : Nat) : List GrpcWebFrame :=
  if offset + HEADER_LENGTH ≤ buffer.length then
    let flag := readUInt8 buffer offset
    let length := readUInt32BE buffer (offset + 1)
    let payloadStart := offset + HEADER_LENGTH
    let payloadEnd := payloadStart + length
    if payloadEnd > buffer.length then []
    else
      { isTrailer := flag &&& FLAG_TRAILERS == FLAG_TRAILERS
        payload := subarray buffer payloadStart payloadEnd } :: framesFrom buffer payloadEnd
  else []
termination_by buffer.length - offset
decreasing_by
  simp only [HEADER_LENGTH] at *
  omega

def decodeFrames (buffer : Bytes) : List GrpcWebFrame := framesFrom buffer 0

/-! ### The loop drains the buffer -/

def toFrame (frame : UInt8 × Bytes) : GrpcWebFrame where
  isTrailer := frame.1 &&& FLAG_TRAILERS == FLAG_TRAILERS
  payload := frame.2

theorem framesFrom_drain (buffer : Bytes) (offset : Nat) :
    framesFrom buffer offset = (drain frameReader (buffer.drop offset)).1.map toFrame := by
  induction left : buffer.length - offset using Nat.strongRecOn generalizing offset with
  | ind n ih =>
    have five : HEADER_LENGTH = 5 := rfl
    rw [framesFrom]
    by_cases header : offset + HEADER_LENGTH ≤ buffer.length
    · have read := takeFrame_drop header
      rw [if_pos header]
      by_cases whole : offset + 5 + readUInt32BE buffer (offset + 1) ≤ buffer.length
      · rw [if_pos whole] at read
        have taken := @drain_some _ _ frameReader _ _ _ read
        rw [if_neg (by omega), ih _ (by omega) _ rfl, taken, List.map_cons, subarray,
          Nat.add_sub_cancel_left]
        rfl
      · rw [if_neg whole] at read
        rw [if_pos (by omega), drain_none read]
        rfl
    · have short : (buffer.drop offset).length < 5 := by
        rw [List.length_drop]
        omega
      rw [if_neg header, drain_none (takeFrame_short short)]
      rfl

theorem decodeFrames_drain (buffer : Bytes) :
    decodeFrames buffer = (drain frameReader buffer).1.map toFrame :=
  framesFrom_drain buffer 0

/-! ### Round trip -/

/-- What is framed: a payload, or a status with its message and further trailers. -/
inductive Message where
  | data (payload : Bytes)
  | trailer (status : JsNumber) (message : JsString) (customTrailers : List (JsString × JsString))

namespace Message

def isTrailer : Message → Bool
  | data _ => false
  | trailer _ _ _ => true

def payload : Message → Option Bytes
  | data payload => some payload
  | trailer status message customTrailers =>
    (trailerText status message customTrailers).map stringBytes

def encode : Message → Option Bytes
  | data payload => encodeDataFrame payload
  | trailer status message customTrailers => encodeTrailerFrame status message customTrailers

/-- The frame that a receiver should see. -/
def frame (m : Message) : Option GrpcWebFrame := m.payload.map fun payload => ⟨m.isTrailer, payload⟩

/-- The payload can be written and fits the length field. -/
def Framable (m : Message) : Prop := ∃ payload, m.payload = some payload ∧ payload.length < 2 ^ 32

end Message

def flagOf (isTrailer : Bool) : UInt8 := if isTrailer then FLAG_TRAILERS else FLAG_DATA

theorem flagOf_isTrailer (isTrailer : Bool) :
    (flagOf isTrailer &&& FLAG_TRAILERS == FLAG_TRAILERS) = isTrailer := by
  cases isTrailer <;> rfl

/-- The encoding of a frame. -/
def GrpcWebFrame.bytes (frame : GrpcWebFrame) : Bytes :=
  frameBytes (flagOf frame.isTrailer) frame.payload

theorem Message.encode_eq_some {m : Message} {wire : Bytes} : m.encode = some wire ↔
    ∃ payload, m.payload = some payload ∧ payload.length < 4294967296 ∧
      wire = frameBytes (flagOf m.isTrailer) payload := by
  have written (flag : UInt8) (payload : Bytes) :
      (writeUInt32BE payload.length).map (fun length => flag :: (length ++ payload)) = some wire ↔
        payload.length < 4294967296 ∧ wire = frameBytes flag payload := by
    simp only [Option.map_eq_some_iff, writeUInt32BE_eq_some]
    constructor
    · rintro ⟨_, ⟨range, rfl⟩, rfl⟩
      exact ⟨range, rfl⟩
    · rintro ⟨range, rfl⟩
      exact ⟨_, ⟨range, rfl⟩, rfl⟩
  cases m with
  | data payload =>
    simp only [encode, encodeDataFrame, Message.payload, Option.some.injEq, exists_eq_left']
    exact written _ _
  | trailer status message customTrailers =>
    simp only [encode, encodeTrailerFrame, Message.payload, Option.bind_eq_some_iff,
      Option.map_eq_some_iff]
    constructor
    · rintro ⟨text, given, wrote⟩
      exact ⟨_, ⟨text, given, rfl⟩, (written _ _).mp (Option.map_eq_some_iff.mpr wrote)⟩
    · rintro ⟨_, ⟨text, given, rfl⟩, wrote⟩
      exact ⟨text, given, Option.map_eq_some_iff.mp ((written _ _).mpr wrote)⟩

/-- Each message has a wire, and the wire is read as its flag and payload. -/
theorem Message.framed {messages : List Message} (framable : ∀ m ∈ messages, m.Framable) :
    ∃ wires frames, messages.mapM encode = some wires ∧
      messages.mapM frame = some (frames.map toFrame) ∧
      List.Forall₂ (Spells frameReader) frames wires := by
  induction messages with
  | nil => exact ⟨[], [], rfl, rfl, .nil⟩
  | cons m messages ih =>
    obtain ⟨wires, frames, encoded, framed, spelled⟩ :=
      ih fun other member => framable other (List.mem_cons_of_mem m member)
    obtain ⟨payload, given, range⟩ := framable m List.mem_cons_self
    have first : m.encode = some (frameBytes (flagOf m.isTrailer) payload) :=
      encode_eq_some.mpr ⟨payload, given, range, rfl⟩
    have shown : m.frame = some (toFrame (flagOf m.isTrailer, payload)) := by
      rw [frame, given, Option.map_some, toFrame, flagOf_isTrailer]
    refine ⟨frameBytes (flagOf m.isTrailer) payload :: wires,
      (flagOf m.isTrailer, payload) :: frames, ?_, ?_, .cons (frame_spells range _) spelled⟩
    · simp only [List.mapM_cons, first, encoded, Option.pure_def, Option.bind_eq_bind,
        Option.bind_some]
    · simp only [List.mapM_cons, shown, framed, Option.pure_def, Option.bind_eq_bind,
        Option.bind_some, List.map_cons]

/-- Equal bytes, but for the low bits of the flag. -/
def AlikeUpToLowFlags (a b : Bytes) : Prop :=
  ∃ flag other tail, a = flag :: tail ∧ b = other :: tail ∧
    flag &&& FLAG_TRAILERS = other &&& FLAG_TRAILERS

theorem trailers_bit (flag : UInt8) :
    flag &&& FLAG_TRAILERS = 0 ∨ flag &&& FLAG_TRAILERS = FLAG_TRAILERS := by
  have bit : (flag &&& FLAG_TRAILERS).toNat = (flag.toNat.testBit 7).toNat * 2 ^ 7 := by
    rw [UInt8.toNat_and]
    exact Nat.and_two_pow flag.toNat 7
  cases high : flag.toNat.testBit 7 with
  | false =>
    rw [high] at bit
    exact .inl (UInt8.toNat_inj.mp bit)
  | true =>
    rw [high] at bit
    exact .inr (UInt8.toNat_inj.mp bit)

theorem toFrame_bytes (frame : UInt8 × Bytes) :
    AlikeUpToLowFlags (toFrame frame).bytes (frameBytes frame.1 frame.2) := by
  obtain ⟨flag, payload⟩ := frame
  refine ⟨_, _, _, rfl, rfl, ?_⟩
  show flagOf (flag &&& FLAG_TRAILERS == FLAG_TRAILERS) &&& FLAG_TRAILERS = flag &&& FLAG_TRAILERS
  rcases trailers_bit flag with low | high
  · rw [low]
    rfl
  · rw [high]
    rfl

/-- The frames of complete encodings are read back whatever incomplete frame follows, and every
frame that is read stands in the buffer, up to the bits of its flag that carry no meaning. -/
theorem decodeFrames_framing :
    (∀ messages : List Message, (∀ m ∈ messages, m.Framable) →
      ∃ wires frames, messages.mapM Message.encode = some wires ∧
        messages.mapM Message.frame = some frames ∧
        ∀ (further : Message) (wire r : Bytes), further.encode = some wire → r <+: wire →
          r ≠ wire → decodeFrames (wires.flatten ++ r) = frames) ∧
    ∀ buffer, ∃ wires, List.Forall₂ (fun frame wire => AlikeUpToLowFlags frame.bytes wire)
      (decodeFrames buffer) wires ∧ wires.flatten <+: buffer := by
  constructor
  · intro messages framable
    obtain ⟨wires, frames, encoded, framed, spelled⟩ := Message.framed framable
    refine ⟨wires, frames.map toFrame, encoded, framed, ?_⟩
    intro further wire r written before proper
    obtain ⟨payload, -, range, rfl⟩ := Message.encode_eq_some.mp written
    have incomplete := (frame_spells range (flagOf further.isTrailer)).take_beginning before proper
    rw [decodeFrames_drain, drain_wires spelled, drain_none incomplete, List.append_nil]
  · intro buffer
    obtain ⟨wires, each, split⟩ := drain_frames_front buffer
    refine ⟨wires, ?_, (drain frameReader buffer).2, split.symm⟩
    rw [decodeFrames_drain, List.forall₂_map_left_iff]
    refine each.imp fun frame wire same => ?_
    rw [same]
    exact toFrame_bytes frame

/-- Two payloads and trailers are read back in front of the beginning of another frame. -/
theorem two_payloads_and_trailers_framed : ∃ wires frames,
    [Message.data [109, 49], .data [], .trailer (.finite 0) (js "Completed") []].mapM
      Message.encode = some wires ∧
    [Message.data [109, 49], .data [], .trailer (.finite 0) (js "Completed") []].mapM
      Message.frame = some frames ∧
    decodeFrames (wires.flatten ++ [0, 0, 0, 0, 3, 97]) = frames := by
  obtain ⟨wires, frames, encoded, framed, decoded⟩ := decodeFrames_framing.1
    [.data [109, 49], .data [], .trailer (.finite 0) (js "Completed") []] (by
      intro m member
      simp only [List.mem_cons, List.not_mem_nil, or_false] at member
      rcases member with rfl | rfl | rfl
      · exact ⟨_, rfl, by decide⟩
      · exact ⟨_, rfl, by decide⟩
      · exact ⟨_, rfl, by decide +kernel⟩)
  exact ⟨wires, frames, encoded, framed,
    decoded (.data [97, 98, 99]) [0, 0, 0, 0, 3, 97, 98, 99] _ (by decide) (by decide) (by decide)⟩

end NeuralMesh.Gateway
