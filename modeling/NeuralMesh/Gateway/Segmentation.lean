import NeuralMesh.Codec.Pieces
import NeuralMesh.Gateway.McpRequest

/-! How a client's bytes are cut on their way to the hybrid gateway. The protocol is read off the
first chunk, and each chunk of a body is decoded by itself. -/
namespace NeuralMesh.Gateway

open Js Codec

def http2Preface : Text := "PRI * HTTP/2.0".toList

/-- The protocol of a connection whose first chunk is this buffer. -/
def classify (buffer : Bytes) : HttpVersion :=
  if http2Preface.isPrefixOf (decodeUtf8 buffer) then .http2 else .http1

/-- The HTTP servers: the pieces in which they give the body of each request of a connection. They
cut where the stream frames a body, and further where a chunk ends. -/
structure HttpServers where
  /-- The framed parts of each body, each with the pieces that the chunks cut it into. -/
  framed : HttpVersion → (chunks : List Bytes) → List (List (List Bytes))
  /-- The `data` events of each request. -/
  data : HttpVersion → (chunks : List Bytes) → List (List Bytes)
  data_chunks : ∀ version chunks, data version chunks = (framed version chunks).map List.flatten
  data_stream : ∀ version chunks, data version [chunks.flatten] =
    (framed version chunks).map (·.map List.flatten)

variable (servers : HttpServers)

/-- `body += chunk.toString()` for each request. -/
def HttpServers.bodies (version : HttpVersion) (chunks : List Bytes) : List Text :=
  (servers.data version chunks).map decodePieces

/-- What the gateway reads from a connection. -/
def HttpServers.reads (first : Bytes) (chunks : List Bytes) : HttpVersion × List Text :=
  (classify first, servers.bodies (classify first) (first :: chunks))

/-! ### When the cuts do not matter -/

theorem classify_eq (buffer : Bytes) : classify buffer =
    if (http2Preface.map fun c => UInt8.ofNat c.toNat) <+: buffer then .http2 else .http1 := by
  have ascii : ∀ c ∈ http2Preface, c.toNat < 0x80 := fun c member =>
    of_decide_eq_true (List.all_eq_true.mp (by decide : http2Preface.all (·.toNat < 0x80) = true) c
      member)
  rw [classify, decodeUtf8_startsWith ascii]
  exact if_congr List.isPrefixOf_iff_prefix rfl rfl

/-- A preface is seen in the first chunk when it is there as a whole. -/
theorem classify_first_iff (first : Bytes) (rest : Bytes) :
    classify first = classify (first ++ rest) ↔
      (classify (first ++ rest) = .http2 → http2Preface.length ≤ first.length) := by
  have length : (http2Preface.map fun c => UInt8.ofNat c.toNat).length = http2Preface.length :=
    List.length_map _
  rw [classify_eq, classify_eq]
  generalize http2Preface.map (fun c => UInt8.ofNat c.toNat) = preface at length ⊢
  by_cases stream : preface <+: first ++ rest
  · rw [if_pos stream]
    by_cases whole : preface <+: first
    · rw [if_pos whole]
      exact ⟨fun _ _ => length ▸ whole.length_le, fun _ => rfl⟩
    · rw [if_neg whole]
      constructor
      · intro same
        cases same
      · intro long
        refine absurd (List.prefix_of_prefix_length_le stream (List.prefix_append first rest) ?_) whole
        exact length.symm ▸ long rfl
  · rw [if_neg stream, if_neg fun whole => stream (whole.trans (List.prefix_append first rest))]
    exact ⟨fun _ => (nomatch ·), fun _ => rfl⟩

/-- The bodies are those of the unsplit stream exactly when no chunk ends within a UTF-8 sequence of
a framed part. -/
theorem bodies_eq_iff (version : HttpVersion) (chunks : List Bytes) :
    servers.bodies version chunks = servers.bodies version [chunks.flatten] ↔
      ∀ request ∈ servers.framed version chunks, ∀ part ∈ request, Whole part := by
  rw [HttpServers.bodies, HttpServers.bodies, servers.data_chunks, servers.data_stream]
  induction servers.framed version chunks with
  | nil =>
    constructor
    · intro _ request member
      cases member
    · exact fun _ => rfl
  | cons request requests ih =>
    rw [List.map_cons, List.map_cons, List.map_cons, List.map_cons, List.cons.injEq,
      List.forall_mem_cons]
    exact and_congr (decodePieces_groups_eq_iff request) ih

end NeuralMesh.Gateway
