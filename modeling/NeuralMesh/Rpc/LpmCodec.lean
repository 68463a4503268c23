import NeuralMesh.Gateway.GrpcWeb

/-! Length-prefixed messages, decoded one at a time. The decoder sees a view of an array buffer;
it depends on the bytes in view only, so that it reads the payloads of `decodeFrames`, whatever the
chunks in which they arrive. -/
namespace NeuralMesh.Rpc

open Codec Draining Gateway

/-- A view of an array buffer. Node's `Buffer` is a subclass. -/
structure Uint8Array where
  isBuffer : Bool
  buffer : Bytes
  byteOffset : Nat
  length : Nat
  inside : byteOffset + length ≤ buffer.length

namespace Uint8Array

/-- The bytes in view. -/
def bytes (a : Uint8Array) : Bytes := (a.buffer.drop a.byteOffset).take a.length

/-- A fresh array. -/
def ofBytes (bytes : Bytes) : Uint8Array where
  isBuffer := false
  buffer := bytes
  byteOffset := 0
  length := bytes.length
  inside := (Nat.zero_add _).le

/-- A further view of the same array buffer. -/
def subarray (a : Uint8Array) (start finish : Nat) : Uint8Array where
  isBuffer := a.isBuffer
  buffer := a.buffer
  byteOffset := a.byteOffset + min start a.length
  length := min finish a.length - min start a.length
  inside := by have := a.inside; omega

/-- `slice` copies, but the one of `Buffer` is `subarray`. -/
def slice (a : Uint8Array) (start finish : Nat) : Uint8Array :=
  if a.isBuffer then a.subarray start finish
  else ofBytes ((a.bytes.drop start).take (finish - start))

/-- `getUint32` of the `DataView` of the bytes in view. -/
def getUint32 (a : Uint8Array) (position : Nat) : Nat :=
  readUInt32BE a.buffer (a.byteOffset + position)

@[simp] theorem bytes_length (a : Uint8Array) : a.bytes.length = a.length := by
  have := a.inside
  rw [bytes, List.length_take, List.length_drop]
  omega

@[simp] theorem bytes_ofBytes (bytes : Bytes) : (ofBytes bytes).bytes = bytes :=
  List.take_length

theorem bytes_subarray {a : Uint8Array} {start finish : Nat} (order : start ≤ finish)
    (inside : finish ≤ a.length) :
    (a.subarray start finish).bytes = (a.bytes.drop start).take (finish - start) := by
  rw [bytes, bytes, subarray]
  dsimp only
  rw [Nat.min_eq_left inside, Nat.min_eq_left (order.trans inside), List.drop_take, List.drop_drop,
    List.take_take, Nat.min_eq_left (Nat.sub_le_sub_right inside start)]

theorem bytes_slice {a : Uint8Array} {start finish : Nat} (order : start ≤ finish)
    (inside : finish ≤ a.length) :
    (a.slice start finish).bytes = (a.bytes.drop start).take (finish - start) := by
  rw [slice]
  split_ifs
  · exact bytes_subarray order inside
  · exact bytes_ofBytes _

theorem getUint32_bytes {a : Uint8Array} {position : Nat} (inside : position + 4 ≤ a.length) :
    a.getUint32 position = readUInt32BE a.bytes position := by
  have room : position + 4 ≤ a.bytes.length := by rwa [bytes_length]
  have whole : a.bytes ++ a.buffer.drop (a.byteOffset + a.length) = a.buffer.drop a.byteOffset := by
    rw [bytes, ← List.drop_drop, List.take_append_drop]
  rw [← readUInt32BE_append room (a.buffer.drop (a.byteOffset + a.length)), whole, getUint32,
    readUInt32BE, readUInt32BE, List.drop_drop]

end Uint8Array

namespace LpmCodec

open Uint8Array

/-- The length is written modulo 2^32. -/
def encode (data : Uint8Array) : Uint8Array :=
  ofBytes (0 :: (uint32BE data.length ++ data.bytes))

/-- The data, `none` for `null`, and the remaining buffer. -/
def decode (buffer : Uint8Array) : Option Uint8Array × Uint8Array :=
  if buffer.length < 5 then (none, buffer)
  else
    let length := buffer.getUint32 1
    if buffer.length < 5 + length then (none, buffer)
    else (some (buffer.slice 5 (5 + length)), buffer.slice (5 + length) buffer.length)

/-- What `decode` does, by the first frame of the bytes in view. -/
inductive Decoded (buffer : Uint8Array) : Option Uint8Array × Uint8Array → Prop where
  | incomplete (read : takeFrame buffer.bytes = none) : Decoded buffer (none, buffer)
  | message {flag : UInt8} {data remaining : Uint8Array}
    (read : takeFrame buffer.bytes = some ((flag, data.bytes), remaining.bytes)) :
    Decoded buffer (some data, remaining)

theorem decode_decoded (buffer : Uint8Array) : Decoded buffer (decode buffer) := by
  have size := buffer.bytes_length
  rw [decode]
  by_cases short : buffer.length < 5
  · rw [if_pos short]
    exact .incomplete (takeFrame_short (by rwa [size]))
  · have header : 0 + 5 ≤ buffer.bytes.length := by omega
    have first := takeFrame_drop header
    rw [List.drop_zero, size, Nat.zero_add, Nat.zero_add, ← getUint32_bytes (by omega)] at first
    rw [if_neg short]
    dsimp only
    by_cases whole : buffer.length < 5 + buffer.getUint32 1
    · rw [if_pos whole]
      rw [if_neg (by omega)] at first
      exact .incomplete first
    · have data := @bytes_slice buffer 5 (5 + buffer.getUint32 1) (by omega) (by omega)
      have rest := @bytes_slice buffer (5 + buffer.getUint32 1) buffer.length (by omega) le_rfl
      rw [Nat.add_sub_cancel_left] at data
      rw [List.take_of_length_le (by rw [List.length_drop, size])] at rest
      rw [if_pos (by omega), ← data, ← rest] at first
      rw [if_neg whole]
      exact .message first

/-- A message comes back with nothing remaining. -/
theorem decode_encode {data : Uint8Array} (range : data.length < 2 ^ 32) :
    ∃ decoded remaining, decode (encode data) = (some decoded, remaining) ∧
      decoded.bytes = data.bytes ∧ remaining.bytes = [] := by
  have read : takeFrame (encode data).bytes = some ((0, data.bytes), []) := by
    apply takeFrame_eq_some.mpr
    rw [bytes_length, encode, bytes_ofBytes, frameBytes, bytes_length, List.append_nil]
    exact ⟨range, rfl⟩
  have decoded := decode_decoded (encode data)
  generalize decode (encode data) = result at decoded
  cases decoded with
  | incomplete missing => cases missing.symm.trans read
  | message found =>
    have same := Option.some.inj (found.symm.trans read)
    exact ⟨_, _, rfl, (Prod.mk.inj (Prod.mk.inj same).1).2, (Prod.mk.inj same).2⟩

/-! ### Iteration -/

theorem decode_shrinks {buffer data remaining : Uint8Array}
    (decoded : decode buffer = (some data, remaining)) : remaining.length < buffer.length := by
  have spec := decode_decoded buffer
  rw [decoded] at spec
  cases spec with
  | message read =>
    have shorter := frameReader.shrinks read
    rwa [bytes_length, bytes_length] at shorter

/-- Decodes until no message is complete: the payloads and what remains. -/
def decodeAll (buffer : Uint8Array) : List Bytes × Uint8Array :=
  match decoded : decode buffer with
  | (none, remaining) => ([], remaining)
  | (some data, remaining) =>
    have := decode_shrinks decoded
    (data.bytes :: (decodeAll remaining).1, (decodeAll remaining).2)
termination_by buffer.length

theorem decodeAll_null {buffer remaining : Uint8Array}
    (decoded : decode buffer = (none, remaining)) :
    decodeAll buffer = ([], remaining) := by
  rw [decodeAll]
  split
  · next same =>
    cases same.symm.trans decoded
    rfl
  · next same => cases same.symm.trans decoded

theorem decodeAll_data {buffer data remaining : Uint8Array}
    (decoded : decode buffer = (some data, remaining)) :
    decodeAll buffer = (data.bytes :: (decodeAll remaining).1, (decodeAll remaining).2) := by
  rw [decodeAll]
  split
  · next same => cases same.symm.trans decoded
  · next same =>
    cases same.symm.trans decoded
    rfl

/-- A state of the iteration holds these payloads and these remaining bytes. -/
def Holds (state : List Bytes × Uint8Array) (drained : List (UInt8 × Bytes) × Bytes) : Prop :=
  state.1 = drained.1.map Prod.snd ∧ state.2.bytes = drained.2

theorem decodeAll_drain (buffer : Uint8Array) :
    Holds (decodeAll buffer) (drain frameReader buffer.bytes) := by
  induction size : buffer.length using Nat.strongRecOn generalizing buffer with
  | ind n ih =>
    have spec := decode_decoded buffer
    generalize decoded : decode buffer = result at spec
    cases spec with
    | incomplete read =>
      rw [decodeAll_null decoded, drain_none read]
      exact ⟨rfl, rfl⟩
    | message read =>
      have later := ih _ (size ▸ decode_shrinks decoded) _ rfl
      rw [decodeAll_data decoded, @drain_some _ _ frameReader _ _ _ read]
      exact ⟨congrArg (_ :: ·) later.1, later.2⟩

/-! ### Chunks -/

/-- Decodes a chunk behind the bytes that remained; `concat` joins two arrays. -/
def decodeChunk (concat : Uint8Array → Uint8Array → Uint8Array)
    (state : List Bytes × Uint8Array) (chunk : Uint8Array) : List Bytes × Uint8Array :=
  let decoded := decodeAll (concat state.2 chunk)
  (state.1 ++ decoded.1, decoded.2)

def decodeChunks (concat : Uint8Array → Uint8Array → Uint8Array) (chunks : List Uint8Array) :
    List Bytes × Uint8Array :=
  chunks.foldl (decodeChunk concat) ([], ofBytes [])

variable {concat : Uint8Array → Uint8Array → Uint8Array}

theorem decodeChunk_feed (joins : ∀ a b, (concat a b).bytes = a.bytes ++ b.bytes)
    {state : List Bytes × Uint8Array} {drained : List (UInt8 × Bytes) × Bytes}
    (holds : Holds state drained) (chunk : Uint8Array) :
    Holds (decodeChunk concat state chunk) (feed frameReader drained chunk.bytes) := by
  have decoded := decodeAll_drain (concat state.2 chunk)
  rw [joins, holds.2] at decoded
  refine ⟨?_, decoded.2⟩
  rw [decodeChunk, feed, List.map_append, ← holds.1, ← decoded.1]

theorem decodeChunks_drain (joins : ∀ a b, (concat a b).bytes = a.bytes ++ b.bytes)
    (chunks : List Uint8Array) :
    Holds (decodeChunks concat chunks) (drain frameReader (chunks.map bytes).flatten) := by
  have fold : ∀ (chunks : List Uint8Array) {state drained}, Holds state drained →
      Holds (chunks.foldl (decodeChunk concat) state)
        ((chunks.map bytes).foldl (feed frameReader) drained) := by
    intro chunks
    induction chunks with
    | nil => exact id
    | cons chunk chunks ih => exact fun holds => ih (decodeChunk_feed joins holds chunk)
  have empty : drain frameReader [] = ([], []) := drain_none rfl
  have fed := @foldl_feed _ _ frameReader [] (chunks.map bytes)
  rw [empty, List.nil_append] at fed
  rw [← fed]
  exact fold chunks ⟨rfl, bytes_ofBytes []⟩

/-- One message at a time, in any chunks, the payloads are those of `decodeFrames`. -/
theorem streaming_eq_batch (joins : ∀ a b, (concat a b).bytes = a.bytes ++ b.bytes) :
    (∀ buffer : Uint8Array, (decodeAll buffer).1 =
      (decodeFrames buffer.bytes).map GrpcWebFrame.payload) ∧
    ∀ (buffer : Uint8Array) (chunks : List Uint8Array),
      (chunks.map bytes).flatten = buffer.bytes →
      (decodeChunks concat chunks).1 = (decodeAll buffer).1 ∧
      (decodeChunks concat chunks).2.bytes = (decodeAll buffer).2.bytes := by
  constructor
  · intro buffer
    rw [(decodeAll_drain buffer).1, decodeFrames_drain, List.map_map]
    rfl
  · intro buffer chunks split
    have pieces := decodeChunks_drain joins chunks
    have whole := decodeAll_drain buffer
    rw [split] at pieces
    exact ⟨pieces.1.trans whole.1.symm, pieces.2.trans whole.2.symm⟩

/-- A view of a larger buffer, cut inside a header. -/
theorem cut_header_streamed :
    let view : Uint8Array := ⟨true, [7, 7, 0, 0, 0, 0, 1, 42, 9], 2, 7, by decide⟩
    let concat (a b : Uint8Array) := ofBytes (a.bytes ++ b.bytes)
    (decodeChunks concat [view.subarray 0 3, view.subarray 3 7]).1 = (decodeAll view).1 ∧
    (decodeChunks concat [view.subarray 0 3, view.subarray 3 7]).2.bytes =
      (decodeAll view).2.bytes := by
  intro view concat
  exact (@streaming_eq_batch concat fun a b => bytes_ofBytes _).2 view _ (by decide)

end LpmCodec

end NeuralMesh.Rpc
