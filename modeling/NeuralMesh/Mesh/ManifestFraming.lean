import NeuralMesh.Codec.LengthPrefixed
import NeuralMesh.Codec.Truncation
import NeuralMesh.Js.Encoding

/-! The manifest protocol. A provider sends the JSON text of its manifest behind the length; the
reader collects chunks until the length is reached, and parses what it has when the stream stops. -/
namespace NeuralMesh.Mesh

open Js Codec

/-! ### The provider -/

/-- A manifest object. Its numbers are doubles; a property that is not set may be listed with the
value `undefined`. -/
structure LiopManifest extends JsObject where
  doubles : asDoubles (.obj members) = .obj members
  tools : List JsValue
  listed : property (js "tools") members = .arr tools

namespace LiopManifest

/-- The manifest as JSON data, without the properties that are not set. -/
def data (manifest : LiopManifest) : JsValue := transmitted (.obj manifest.members)

def payload (manifest : LiopManifest) : Bytes := stringBytes (jsonString (.obj manifest.members))

/-- What the protocol handler sends; `none` is the `RangeError` of the length. -/
def fullPacket (manifest : LiopManifest) : Option Bytes :=
  (writeUInt32BE manifest.payload.length).map fun lengthBuf => lengthBuf ++ manifest.payload

end LiopManifest

/-! ### The reader -/

/-- The variables of the read loop; an expected length of -1 is `none`. -/
structure Reading where
  chunks : List Bytes
  totalReceived : Nat
  expectedPayloadLength : Option Nat

namespace Reading

def start : Reading := ⟨[], 0, none⟩

def receive (r : Reading) (bytes : Bytes) : Reading :=
  let chunks := r.chunks ++ [bytes]
  let totalReceived := r.totalReceived + bytes.length
  { chunks := chunks
    totalReceived := totalReceived
    expectedPayloadLength :=
      match r.expectedPayloadLength with
      | some expected => some expected
      | none => if 4 ≤ totalReceived then some (readUInt32BE chunks.flatten 0) else none }

/-- The full payload is there. -/
def complete (r : Reading) : Bool :=
  match r.expectedPayloadLength with
  | some expected => 4 + expected ≤ r.totalReceived
  | none => false

/-- The loop over the source, and whether it was left by its `break`. A chunk without a value is
skipped, and so is an empty one. -/
def readChunks : Reading → List (Option Bytes) → Reading × Bool
  | r, [] => (r, false)
  | r, none :: rest => readChunks r rest
  | r, some bytes :: rest =>
    if 0 < bytes.length then
      let r := r.receive bytes
      if r.complete then (r, true) else readChunks r rest
    else readChunks r rest

end Reading

/-- How the source goes on after its last chunk. -/
inductive Ending where
  | ended
  | failed
  | timedOut
  deriving DecidableEq

structure Source where
  chunks : List (Option Bytes)
  ending : Ending

/-- All bytes of a source. -/
def Source.bytes (source : Source) : Bytes := (source.chunks.map (·.getD [])).flatten

/-- `none` is an exception: too short, a `SyntaxError`, or `tools` without a `length`. -/
def parseManifest (raw : Bytes) : Option JsValue :=
  if raw.length < 4 then none
  else
    let declaredLen := readUInt32BE raw 0
    let jsonStr := decodeUtf8 ((raw.drop 4).take declaredLen)
    (parseDoubles jsonStr).bind fun manifest =>
      match member (js "tools") manifest with
      | .undefined | .null => none
      | _ => some manifest

/-- One attempt on an open stream; `none` is an exception. -/
def readManifest (source : Source) : Option JsValue :=
  let (r, broke) := Reading.start.readChunks source.chunks
  -- an interruption is only thrown on when there is no chunk
  if broke = false ∧ source.ending ≠ .ended ∧ r.chunks = [] then none
  else parseManifest r.chunks.flatten

/-! ### The loop -/

namespace Reading

def bytes (r : Reading) : Bytes := r.chunks.flatten

/-- The counters agree with the chunks. -/
structure Sound (r : Reading) : Prop where
  total : r.totalReceived = r.bytes.length
  expected : r.expectedPayloadLength =
    if 4 ≤ r.bytes.length then some (readUInt32BE r.bytes 0) else none

theorem start_sound : start.Sound := ⟨rfl, rfl⟩

theorem receive_bytes (r : Reading) (more : Bytes) : (r.receive more).bytes = r.bytes ++ more := by
  rw [bytes, receive, List.flatten_append, List.flatten_singleton, ← bytes]

theorem receive_sound {r : Reading} (sound : r.Sound) (more : Bytes) : (r.receive more).Sound := by
  have total : (r.receive more).totalReceived = (r.receive more).bytes.length := by
    rw [receive_bytes, List.length_append, ← sound.total]
    rfl
  refine ⟨total, ?_⟩
  by_cases header : 4 ≤ r.bytes.length
  · -- the length was read before
    have before : r.expectedPayloadLength = some (readUInt32BE r.bytes 0) := by
      rw [sound.expected, if_pos header]
    rw [receive_bytes, List.length_append, if_pos (by omega), readUInt32BE_append header]
    simp only [receive, before]
  · have before : r.expectedPayloadLength = none := by rw [sound.expected, if_neg header]
    rw [← total, bytes]
    simp only [receive, before]

theorem complete_iff {r : Reading} (sound : r.Sound) : r.complete = true ↔
    4 ≤ r.bytes.length ∧ 4 + readUInt32BE r.bytes 0 ≤ r.bytes.length := by
  rw [complete, sound.expected, sound.total]
  split_ifs with header
  · simp only [decide_eq_true_eq, header, true_and]
  · simp [header]

/-- The loop takes a beginning of the bytes, and all of them unless a full payload is there. -/
theorem readChunks_spec {r : Reading} (sound : r.Sound) (chunks : List (Option Bytes)) :
    ∃ left, r.bytes ++ (chunks.map (·.getD [])).flatten = (r.readChunks chunks).1.bytes ++ left ∧
      ((r.readChunks chunks).2 = true →
        4 + readUInt32BE (r.readChunks chunks).1.bytes 0 ≤ (r.readChunks chunks).1.bytes.length) ∧
      ((r.readChunks chunks).2 = false → left = []) := by
  induction chunks generalizing r with
  | nil => exact ⟨[], rfl, nofun, fun _ => rfl⟩
  | cons chunk chunks ih =>
    cases chunk with
    | none => exact ih sound
    | some more =>
      rw [readChunks]
      by_cases some_bytes : 0 < more.length
      · rw [if_pos some_bytes]
        dsimp only
        have received := receive_sound sound more
        have split : r.bytes ++ ((some more :: chunks).map (·.getD [])).flatten =
            (r.receive more).bytes ++ (chunks.map (·.getD [])).flatten := by
          rw [receive_bytes, List.append_assoc]
          rfl
        rw [split]
        by_cases full : (r.receive more).complete = true
        · rw [if_pos full]
          exact ⟨_, rfl, fun _ => ((complete_iff received).mp full).2, nofun⟩
        · rw [if_neg full]
          exact ih received
      · have empty : more = [] := List.eq_nil_of_length_eq_zero (by omega)
        rw [if_neg some_bytes, empty]
        exact ih sound

end Reading

/-- What an attempt parses: a beginning of the source's bytes, all of them or a full packet. -/
theorem readManifest_raw (source : Source) : ∃ raw left, source.bytes = raw ++ left ∧
    (left = [] ∨ 4 + readUInt32BE raw 0 ≤ raw.length) ∧
    (readManifest source = none ∧ raw = [] ∨ readManifest source = parseManifest raw) := by
  obtain ⟨left, split, full, all⟩ := Reading.readChunks_spec Reading.start_sound source.chunks
  refine ⟨(Reading.start.readChunks source.chunks).1.bytes, left, split, ?_, ?_⟩
  · cases broke : (Reading.start.readChunks source.chunks).2 with
    | false => exact .inl (all broke)
    | true => exact .inr (full broke)
  · rw [readManifest]
    dsimp only
    split_ifs with interrupted
    · left
      rw [Reading.bytes, interrupted.2.2]
      exact ⟨rfl, rfl⟩
    · exact .inr rfl

/-! ### The packet -/

theorem asDoubles_transmitted {v : JsValue} (doubles : asDoubles v = v) :
    asDoubles (transmitted v) = transmitted v := by
  induction v with
  | undefined | null | bool | str => rfl
  | num n =>
    cases n with
    | finite d => exact doubles
    | nan => rfl
    | infinite negative => rfl
  | arr elements ih =>
    have each : elements.map asDoubles = elements.map id := by
      rw [asDoubles, asDoublesAll_eq, JsValue.arr.injEq] at doubles
      rw [doubles, List.map_id]
    rw [transmitted, transmittedAll_eq, asDoubles, asDoublesAll_eq, List.map_map]
    exact congrArg JsValue.arr
      (List.map_congr_left fun v member => ih v member (List.map_inj_left.mp each v member))
  | obj members ih =>
    have each : members.map (fun m => (m.1, asDoubles m.2)) = members.map id := by
      rw [asDoubles, asDoublesMembers_eq, JsValue.obj.injEq] at doubles
      rw [doubles, List.map_id]
    have sent : ∀ m ∈ transmittedMembers members, (m.1, asDoubles m.2) = id m := by
      intro m member
      obtain ⟨v, -, listed, value⟩ := mem_transmittedMembers member
      have double : asDoubles v = v :=
        (Prod.mk.inj (List.map_inj_left.mp each (m.1, v) listed)).2
      rw [value, ih (m.1, v) listed double, ← value]
      rfl
    rw [transmitted, asDoubles, asDoublesMembers_eq, List.map_congr_left sent, List.map_id]

/-- Of two splits of one list, the longer front goes on behind the shorter. -/
theorem longer_front {a b c d : Bytes} (split : a ++ b = c ++ d) (longer : a.length ≤ c.length) :
    ∃ part, c = a ++ part ∧ b = part ++ d := by
  obtain ⟨part, rfl⟩ :=
    List.prefix_of_prefix_length_le (List.prefix_append a b) ⟨d, split.symm⟩ longer
  rw [List.append_assoc] at split
  exact ⟨part, rfl, List.append_cancel_left split⟩

namespace LiopManifest

variable (manifest : LiopManifest)

theorem payload_eq : manifest.payload = utf8 (jsonText (.obj manifest.members)) := by
  rw [payload, stringBytes, jsonString, wellFormed_ofText]

theorem parse_payload : parseDoubles (decodeUtf8 manifest.payload) = some manifest.data := by
  rw [payload_eq, decodeUtf8_utf8, parseDoubles, parse_transmitted manifest.ordered,
    Option.map_some, asDoubles_transmitted manifest.doubles]
  rfl

theorem data_tools : member (js "tools") manifest.data = .arr (manifest.tools.map transmitted) := by
  have present : property (js "tools") manifest.members ≠ .undefined := by
    rw [manifest.listed]
    nofun
  rw [data, transmitted, member, property_transmittedMembers present, manifest.listed, transmitted,
    transmittedAll_eq]

/-- Whatever follows a packet, it is parsed as the manifest. -/
theorem parseManifest_packet (short : manifest.payload.length < 4294967296) (extra : Bytes) :
    parseManifest (uint32BE manifest.payload.length ++ (manifest.payload ++ extra)) =
      some manifest.data := by
  have declared := readUInt32BE_front short (manifest.payload ++ extra)
  rw [parseManifest, if_neg (by rw [List.length_append, uint32BE_length]; omega)]
  dsimp only
  rw [declared, drop_uint32BE, List.take_left, parse_payload, Option.bind_some, data_tools]

/-- No beginning of a packet, short of the whole, is parsed. -/
theorem parseManifest_beginning (short : manifest.payload.length < 4294967296) {raw rest : Bytes}
    (split : uint32BE manifest.payload.length ++ manifest.payload = raw ++ rest)
    (proper : rest ≠ []) : parseManifest raw = none := by
  rw [parseManifest]
  by_cases header : raw.length < 4
  · rw [if_pos header]
  · obtain ⟨part, rfl, same⟩ := longer_front split (by rw [uint32BE_length]; omega)
    have declared := readUInt32BE_front short part
    rw [if_neg header]
    dsimp only
    rw [declared, drop_uint32BE, List.take_of_length_le (by rw [same, List.length_append]; omega),
      parse_truncated manifest.members (manifest.payload_eq ▸ same) proper, Option.bind_none]

/-- What is received of a packet and more, up to its end or to the declared length, begins with the
packet. -/
theorem received_packet (short : manifest.payload.length < 4294967296) {raw left extra : Bytes}
    (split : uint32BE manifest.payload.length ++ (manifest.payload ++ extra) = raw ++ left)
    (enough : left = [] ∨ 4 + readUInt32BE raw 0 ≤ raw.length) :
    ∃ tail, raw = uint32BE manifest.payload.length ++ (manifest.payload ++ tail) := by
  rcases enough with rfl | full
  · exact ⟨extra, by rw [split, List.append_nil]⟩
  · obtain ⟨part, rfl, later⟩ := longer_front split (by rw [uint32BE_length]; omega)
    rw [readUInt32BE_front short part, List.length_append, uint32BE_length] at full
    obtain ⟨tail, rfl, -⟩ := longer_front later (by omega)
    exact ⟨tail, rfl⟩

/-- Any chunks that begin with the packet give the manifest, however the stream goes on; chunks
that end within the packet give none. -/
theorem framing_roundTrip (short : manifest.payload.length < 2 ^ 32) :
    ∃ packet, manifest.fullPacket = some packet ∧
      (∀ (source : Source) (extra : Bytes), source.bytes = packet ++ extra →
        readManifest source = some manifest.data) ∧
      ∀ source : Source, source.bytes <+: packet → source.bytes ≠ packet →
        readManifest source = none := by
  refine ⟨uint32BE manifest.payload.length ++ manifest.payload, ?_, ?_, ?_⟩
  · rw [fullPacket, writeUInt32BE_eq_some.mpr ⟨short, rfl⟩, Option.map_some]
  · intro source extra whole
    obtain ⟨raw, left, split, enough, outcome⟩ := readManifest_raw source
    rw [whole, List.append_assoc] at split
    obtain ⟨tail, rfl⟩ := manifest.received_packet short split enough
    rcases outcome with ⟨-, empty⟩ | parsed
    · cases empty
    · rw [parsed, manifest.parseManifest_packet short]
  · intro source before proper
    obtain ⟨raw, left, split, -, outcome⟩ := readManifest_raw source
    obtain ⟨rest, whole⟩ := before
    rcases outcome with ⟨failed, -⟩ | parsed
    · exact failed
    · have missing : rest ≠ [] := by
        rintro rfl
        exact proper (by rw [← whole, List.append_nil])
      rw [split, List.append_assoc] at whole
      rw [parsed]
      exact manifest.parseManifest_beginning short whole.symm
        fun empty => missing (List.append_eq_nil_iff.mp empty).2

/-- A manifest without tools. -/
def toolless : LiopManifest where
  members := [(js "peerId", .str (js "12D3KooW")), (js "tools", .arr [])]
  ordered := by decide
  doubles := rfl
  tools := []
  listed := by
    rw [property, if_neg (by decide), property, if_pos rfl]

theorem toolless_framed : ∃ packet, toolless.fullPacket = some packet ∧
    (∀ (source : Source) (extra : Bytes), source.bytes = packet ++ extra →
      readManifest source = some toolless.data) ∧
    ∀ source : Source, source.bytes <+: packet → source.bytes ≠ packet →
      readManifest source = none :=
  toolless.framing_roundTrip (by decide +kernel)

end LiopManifest

end NeuralMesh.Mesh
