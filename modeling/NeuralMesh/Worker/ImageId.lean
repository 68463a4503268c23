import NeuralMesh.Server.PreflightSource

/-! The image id that the worker reports and the one that the verifier derives. The
verifier normalises what was sent once; the worker runs the normalised source and
derives the image id of that. -/
namespace NeuralMesh.Worker

open Js Codec Crypto Server

/-- `\0asm` -/
def isWasm (wasmBinary : Bytes) : Bool :=
  wasmBinary[0]? = some 0x00 && wasmBinary[1]? = some 0x61 && wasmBinary[2]? = some 0x73 &&
    wasmBinary[3]? = some 0x6d

/-- What the sandbox is given: a binary, or a source without its envelope. -/
inductive Program where
  | wasm (bytes : Bytes)
  | source (text : Text)

def decryptedPayload (wasmBinary : Bytes) : Program :=
  if isWasm wasmBinary then .wasm wasmBinary
  else .source (normalizeLogicSource (decodeUtf8 wasmBinary))

def Program.logicBytes : Program → Bytes
  | wasm bytes => bytes
  | source text => utf8 text

variable {δ : Type} (sha256 : Bytes → δ)

def imageId (wasmBinary : Bytes) : δ :=
  deriveLogicImageDigest sha256 (decryptedPayload wasmBinary).logicBytes

/-! ### Normalised sources -/

theorem normalizeLogicSource_tight (t : Text) : Tight (normalizeLogicSource t) := by
  rw [normalizeLogicSource]
  split <;> exact trim_tight _

theorem normalizeLogicSource_length (t : Text) :
    (normalizeLogicSource t).length ≤ (trim t).length := by
  by_cases whole : ∃ h m, IsEnvelope h m (trim t)
  · obtain ⟨h, m, envelope⟩ := whole
    rw [normalizeLogicSource_envelope envelope]
    have shorter := envelope_length envelope
    rw [trim_trim] at shorter
    exact le_of_lt shorter
  · rw [normalizeLogicSource_plain fun h m envelope => whole ⟨h, m, envelope⟩]

/-- An envelope whose body is itself an envelope. -/
def Nested (t : Text) : Prop :=
  ∃ h m, IsEnvelope h m (trim t) ∧ ∃ h' m', IsEnvelope h' m' (trim m)

/-- Normalising again changes exactly nested envelopes. -/
theorem normalizeLogicSource_twice {t : Text} :
    normalizeLogicSource (normalizeLogicSource t) = normalizeLogicSource t ↔ ¬ Nested t := by
  constructor
  · rintro same ⟨h, m, outer, h', m', inner⟩
    rw [normalizeLogicSource_envelope outer] at same
    rw [← trim_trim] at inner
    rw [normalizeLogicSource_envelope inner] at same
    have shorter := envelope_length inner
    rw [same, trim_trim, trim_trim] at shorter
    exact lt_irrefl _ shorter
  · intro flat
    rw [normalizeLogicSource_plain, trim_of_tight (normalizeLogicSource_tight t)]
    intro h' m' inner
    rw [trim_of_tight (normalizeLogicSource_tight t)] at inner
    by_cases whole : ∃ h m, IsEnvelope h m (trim t)
    · obtain ⟨h, m, outer⟩ := whole
      rw [normalizeLogicSource_envelope outer] at inner
      exact flat ⟨h, m, outer, h', m', inner⟩
    · rw [normalizeLogicSource_plain fun h m envelope => whole ⟨h, m, envelope⟩] at inner
      exact whole ⟨h', m', inner⟩

/-! ### Binary prefixes -/

/-- The two bytes by which the verifier tells a binary. -/
def BinaryPrefix (b : Bytes) : Prop := b[0]? = some 0x00 ∧ b[1]? = some 0x61

theorem binaryPrefix_iff {b : Bytes} : BinaryPrefix b ↔ ∃ rest, b = 0x00 :: 0x61 :: rest := by
  constructor
  · rintro ⟨first, second⟩
    match b, first, second with
    | _ :: _ :: rest, rfl, rfl => exact ⟨rest, rfl⟩
  · rintro ⟨rest, rfl⟩
    exact ⟨rfl, rfl⟩

theorem binaryPrefix_of_isWasm {b : Bytes} (wasm : isWasm b = true) : BinaryPrefix b := by
  simp only [isWasm, Bool.and_eq_true, decide_eq_true_eq] at wasm
  exact ⟨wasm.1.1.1, wasm.1.1.2⟩

theorem decode_binaryPrefix {b : Bytes} (binary : BinaryPrefix b) :
    ∃ rest, decodeUtf8 b = '\x00' :: 'a' :: rest := by
  obtain ⟨rest, rfl⟩ := binaryPrefix_iff.mp binary
  exact ⟨decodeUtf8 rest, rfl⟩

/-- Such a text is no envelope. -/
theorem normalizeLogicSource_binary (rest : Text) :
    normalizeLogicSource ('\x00' :: rest) = trim ('\x00' :: rest) := by
  apply normalizeLogicSource_plain
  intro h m envelope
  obtain ⟨after, whole⟩ := List.rdropWhile_prefix isSpace (l := ('\x00' :: rest).dropWhile isSpace)
  rw [← trim, envelope.text, List.dropWhile_cons_of_neg (by decide)] at whole
  have first := congrArg List.head? whole
  simp [openMark] at first

theorem digest_binary {b : Bytes} (binary : BinaryPrefix b) :
    deriveLogicImageDigest sha256 b = sha256 b := if_pos binary

theorem digest_source {b : Bytes} (source : ¬ BinaryPrefix b) :
    deriveLogicImageDigest sha256 b = sha256 (utf8 (normalizeLogicSource (decodeUtf8 b))) :=
  if_neg source

theorem digest_tight {t : Text} (tight : Tight t) :
    deriveLogicImageDigest sha256 (utf8 t) = sha256 (utf8 (normalizeLogicSource t)) := by
  by_cases binary : BinaryPrefix (utf8 t)
  · obtain ⟨rest, decoded⟩ := decode_binaryPrefix binary
    rw [decodeUtf8_utf8] at decoded
    rw [digest_binary sha256 binary, decoded, normalizeLogicSource_binary, ← decoded,
      trim_of_tight tight]
  · rw [digest_source sha256 binary, decodeUtf8_utf8]

/-- The worker normalises a source twice in all. -/
theorem imageId_eq (b : Bytes) : imageId sha256 b =
    if isWasm b then sha256 b
    else sha256 (utf8 (normalizeLogicSource (normalizeLogicSource (decodeUtf8 b)))) := by
  rw [imageId, decryptedPayload]
  split_ifs with wasm
  · rw [Program.logicBytes, digest_binary sha256 (binaryPrefix_of_isWasm wasm)]
  · rw [Program.logicBytes, digest_tight sha256 (normalizeLogicSource_tight _)]

/-! ### Agreement -/

/-- A WASM binary; a text that starts like one and is valid UTF-8 without white space at
its end; or any other text that is no envelope in an envelope. -/
def ImageIdsAgree (b : Bytes) : Prop :=
  isWasm b = true ∨ (BinaryPrefix b ∧ ∃ t, Tight t ∧ b = utf8 t) ∨
    (¬ BinaryPrefix b ∧ ¬ Nested (decodeUtf8 b))

theorem imageId_agrees_iff (injective : Function.Injective sha256) (b : Bytes) :
    deriveLogicImageDigest sha256 b = imageId sha256 b ↔ ImageIdsAgree b := by
  rw [imageId_eq]
  by_cases wasm : isWasm b = true
  · rw [if_pos wasm, digest_binary sha256 (binaryPrefix_of_isWasm wasm)]
    exact ⟨fun _ => .inl wasm, fun _ => rfl⟩
  rw [if_neg wasm]
  by_cases binary : BinaryPrefix b
  · rw [digest_binary sha256 binary, injective.eq_iff]
    obtain ⟨rest, decoded⟩ := decode_binaryPrefix binary
    have once : normalizeLogicSource (decodeUtf8 b) = trim (decodeUtf8 b) := by
      rw [decoded, normalizeLogicSource_binary]
    have flat : ¬ Nested (decodeUtf8 b) := by
      rintro ⟨h, m, envelope, _⟩
      have shorter := envelope_length envelope
      rw [trim_trim, ← once, normalizeLogicSource_envelope envelope] at shorter
      exact lt_irrefl _ shorter
    rw [normalizeLogicSource_twice.mpr flat, once]
    constructor
    · intro same
      exact .inr (.inl ⟨binary, trim (decodeUtf8 b), trim_tight _, same⟩)
    · rintro (binary' | ⟨_, t, tight, rfl⟩ | ⟨text, _⟩)
      · exact absurd binary' wasm
      · rw [decodeUtf8_utf8, trim_of_tight tight]
      · exact absurd binary text
  · rw [digest_source sha256 binary, injective.eq_iff, utf8_injective.eq_iff, eq_comm, normalizeLogicSource_twice]
    constructor
    · intro flat
      exact .inr (.inr ⟨binary, flat⟩)
    · rintro (binary' | ⟨binary', _⟩ | ⟨_, flat⟩)
      · exact absurd binary' wasm
      · exact absurd binary' binary
      · exact flat

/-- An envelope that both grammars read alike, with no envelope in it. -/
def LocalIdsAgree (p : Text) : Prop :=
  ∃ h m, IsEnvelope h m (trim p) ∧ HasHeader (openMark ++ h) ∧ CompactBody m ∧
    ∀ h' m', ¬ IsEnvelope h' m' (trim m)

theorem preflightSource_extracted {p logic : Text} (extracted : extractLogic p = some logic)
    (present : logic ≠ []) : preflightSource p = logic := by
  rw [preflightSource, extracted]
  exact if_neg present

theorem imageId_extracted {p logic : Text} (extracted : extractLogic p = some logic)
    (present : logic ≠ []) : imageId sha256 (utf8 logic) =
      sha256 (utf8 (normalizeLogicSource (normalizeLogicSource logic))) := by
  obtain ⟨l, _, _, rfl⟩ := extractLogic_eq_some extracted present
  rw [imageId_eq]
  split_ifs with wasm
  · obtain ⟨rest, decoded⟩ := decode_binaryPrefix (binaryPrefix_of_isWasm wasm)
    rw [decodeUtf8_utf8] at decoded
    rw [decoded, normalizeLogicSource_binary, ← decoded, trim_trim, decoded,
      normalizeLogicSource_binary, ← decoded, trim_trim]
  · rw [decodeUtf8_utf8]

theorem source_of_envelope {p h m : Text} (envelope : IsEnvelope h m (trim p)) :
    ¬ BinaryPrefix (utf8 p) := by
  intro binary
  obtain ⟨rest, decoded⟩ := decode_binaryPrefix binary
  rw [decodeUtf8_utf8] at decoded
  have once := normalizeLogicSource_envelope envelope
  rw [decoded, normalizeLogicSource_binary, ← decoded] at once
  have shorter := envelope_length envelope
  rw [trim_trim, once] at shorter
  exact lt_irrefl _ shorter

/-- What the worker hashes is not longer than what it was sent. -/
theorem normalizeLogicSource_twice_length (t : Text) :
    (normalizeLogicSource (normalizeLogicSource t)).length ≤ (normalizeLogicSource t).length := by
  have twice := normalizeLogicSource_length (normalizeLogicSource t)
  rwa [trim_of_tight (normalizeLogicSource_tight t)] at twice

theorem localImageId_agrees_iff (injective : Function.Injective sha256) {p logic : Text}
    (extracted : extractLogic p = some logic) (present : logic ≠ []) :
    deriveLogicImageDigest sha256 (utf8 p) = imageId sha256 (utf8 logic) ↔ LocalIdsAgree p := by
  rw [imageId_extracted sha256 extracted present]
  constructor
  · intro agree
    obtain ⟨l, first, visible, rfl⟩ := extractLogic_eq_some extracted present
    have shorter := first.length
    rw [trim_trim] at shorter
    have twice := normalizeLogicSource_twice_length (trim l)
    have once := normalizeLogicSource_length (trim l)
    rw [trim_trim] at once
    by_cases binary : BinaryPrefix (utf8 p)
    · rw [digest_binary sha256 binary, injective.eq_iff, utf8_injective.eq_iff] at agree
      have bound := trim_length_le p
      have length := congrArg List.length agree
      omega
    rw [digest_source sha256 binary, decodeUtf8_utf8, injective.eq_iff, utf8_injective.eq_iff]
      at agree
    have length := congrArg List.length agree
    by_cases whole : ∃ h m, IsEnvelope h m (trim p)
    · obtain ⟨h, m, envelope⟩ := whole
      rw [normalizeLogicSource_envelope envelope] at length
      rcases first.whole_or_shorter envelope visible with ⟨header, compact, same⟩ | within
      · refine ⟨h, m, envelope, header, compact, ?_⟩
        intro h' m' inner
        have stripped := envelope_length inner
        rw [← same] at inner
        rw [← same, trim_trim] at stripped
        rw [← trim_trim l] at inner
        rw [← normalizeLogicSource_envelope inner] at stripped
        rw [← same] at length
        omega
      · omega
    · rw [normalizeLogicSource_plain fun h m envelope => whole ⟨h, m, envelope⟩] at length
      omega
  · rintro ⟨h, m, envelope, header, compact, flat⟩
    have shown := preflightSource_of_compact envelope header compact
    rw [preflightSource_extracted extracted present] at shown
    have plain : ∀ h' m', ¬ IsEnvelope h' m' (trim (trim m)) := by rwa [trim_trim]
    rw [digest_source sha256 (source_of_envelope envelope), decodeUtf8_utf8,
      normalizeLogicSource_envelope envelope, shown, normalizeLogicSource_plain plain,
      trim_trim, normalizeLogicSource_plain plain, trim_trim]

end NeuralMesh.Worker
