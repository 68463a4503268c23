import NeuralMesh.Security.AuditLogger

/-! Changes of an audit log. Entries that are deleted, moved or edited, without new hashes, break
the chain, unless what is left has the lines with which the log begins. -/
namespace NeuralMesh.Security

open Js Codec Chain Worker

/-! ### Objects with given keys -/

theorem stringify_eq_iff {v w : JsValue} (left : v ≠ .undefined) (right : w ≠ .undefined) :
    stringify v = stringify w ↔ transmitted v = transmitted w := by
  rw [stringify_of_ne left, stringify_of_ne right, Option.some.injEq, jsonText_eq_iff]

theorem stringify_none {v : JsValue} : stringify v = none ↔ v = .undefined := by
  cases v <;> simp [stringify]

/-- Only a string prints as that string. -/
theorem stringify_str {v : JsValue} {s : JsString} :
    stringify v = stringify (.str s) ↔ v = .str s := by
  constructor
  · intro same
    have present : v ≠ .undefined := by
      rintro rfl
      cases same
    have sent := (stringify_eq_iff present (by simp)).mp same
    cases v with
    | num n => cases n <;> cases sent
    | str t => exact sent
    | _ => cases sent
  · exact congrArg stringify

section Keys

variable {keys : List JsString}

/-- The object with these keys. -/
def valued (keys : List JsString) (f : JsString → JsValue) : Members := keys.map fun k => (k, f k)

theorem valued_keys (f : JsString → JsValue) : (valued keys f).map Prod.fst = keys := by
  rw [valued, List.map_map]
  exact List.map_id keys

theorem transmitted_valued_mem {f : JsString → JsValue} {m : JsString × JsValue}
    (member : m ∈ transmittedMembers (valued keys f)) : m.1 ∈ keys := by
  obtain ⟨v, -, old, -⟩ := mem_transmittedMembers member
  obtain ⟨k, named, same⟩ := List.mem_map.mp old
  cases same
  exact named

/-- Two such objects carry the same data when each property prints alike. -/
theorem transmitted_valued_iff (nodup : keys.Nodup) {f g : JsString → JsValue} :
    transmittedMembers (valued keys f) = transmittedMembers (valued keys g) ↔
      ∀ k ∈ keys, stringify (f k) = stringify (g k) := by
  induction keys with
  | nil => exact iff_of_true rfl fun k member => absurd member List.not_mem_nil
  | cons k keys ih =>
    obtain ⟨fresh, nodup⟩ := List.nodup_cons.mp nodup
    have missing {a b : JsString → JsValue} {v : JsValue} :
        transmittedMembers (valued keys a) ≠ (k, v) :: transmittedMembers (valued keys b) := by
      intro same
      have member : (k, v) ∈ transmittedMembers (valued keys a) := same ▸ List.mem_cons_self
      exact fresh (transmitted_valued_mem member)
    have split (f : JsString → JsValue) : valued (k :: keys) f = (k, f k) :: valued keys f := rfl
    rw [split, split, List.forall_mem_cons, ← ih nodup]
    by_cases left : f k = .undefined
    · rw [left]
      by_cases right : g k = .undefined
      · rw [right]
        exact (and_iff_right rfl).symm
      · rw [transmittedMembers_cons k _ right]
        refine iff_of_false missing fun same => right (stringify_none.mp same.1.symm)
    · rw [transmittedMembers_cons k _ left]
      by_cases right : g k = .undefined
      · rw [right]
        refine iff_of_false (fun same => missing same.symm) fun same => left (stringify_none.mp same.1)
      · rw [transmittedMembers_cons k _ right, stringify_eq_iff left right, List.cons.injEq,
          Prod.mk.injEq]
        exact and_congr_left' (and_iff_right rfl)

theorem jsonText_valued_iff (nodup : keys.Nodup) {f g : JsString → JsValue} :
    jsonText (.obj (valued keys f)) = jsonText (.obj (valued keys g)) ↔
      ∀ k ∈ keys, stringify (f k) = stringify (g k) := by
  rw [jsonText_eq_iff, transmitted, transmitted, JsValue.obj.injEq, transmitted_valued_iff nodup]

theorem members_valued {ms : Members} (named : ms.map Prod.fst = keys) (nodup : keys.Nodup) :
    ms = valued keys fun k => property k ms := by
  subst named
  have unique : UniqueKeys ms := List.pairwise_map.mp nodup
  rw [valued, List.map_map]
  refine (List.map_id ms).symm.trans (List.map_congr_left fun m member => ?_)
  exact Prod.ext rfl (property_of_mem unique member).symm

theorem property_valued {f : JsString → JsValue} (nodup : keys.Nodup) {k : JsString}
    (named : k ∈ keys) : property k (valued keys f) = f k := by
  have unique : UniqueKeys (valued keys f) := List.pairwise_map.mpr nodup
  exact property_of_mem unique (List.mem_map_of_mem named)

end Keys

/-! ### Entries -/

theorem entryKeys_nodup : entryKeys.Nodup := entryKeys_ordered.imp precedes_ne

/-- The keys that the hash is taken over, in its order. -/
def canonicalKeys : List JsString :=
  ["agentDid", "datasetHash", "fuelConsumed", "id", "outputHash", "peerId", "prevEntryHash",
    "status", "timestamp", "toolName", "traceId", "zkReceiptSig"].map js

theorem canonicalKeys_ordered : canonicalKeys.Pairwise fun a b => precedes a b = true := by decide

theorem canonicalKeys_nodup : canonicalKeys.Nodup := canonicalKeys_ordered.imp precedes_ne

theorem mem_entryKeys {k : JsString} :
    k ∈ entryKeys ↔ k = js "entryHash" ∨ k ∈ canonicalKeys := by
  have perm : entryKeys.Perm (js "entryHash" :: canonicalKeys) := by decide
  rw [perm.mem_iff, List.mem_cons]

/-- An entry with these fields. -/
def entryOf (f : JsString → JsValue) : JsValue := .obj (valued entryKeys f)

theorem hashOf_entryOf (f : JsString → JsValue) : hashOf (entryOf f) = f (js "entryHash") :=
  property_valued entryKeys_nodup (by decide)

theorem prevOf_entryOf (f : JsString → JsValue) : prevOf (entryOf f) = f (js "prevEntryHash") :=
  property_valued entryKeys_nodup (by decide)

/-- The hash is taken over the other fields, sorted. -/
theorem canonicalize_entryOf (f : JsString → JsValue) :
    canonicalize (withoutHash (entryOf f)) = jsonText (.obj (valued canonicalKeys f)) := by
  have rest : withoutHash (entryOf f) =
      valued (entryKeys.filter fun k => k ∉ [js "entryHash"]) f := List.filter_map
  have nodup : (entryKeys.filter fun k => k ∉ [js "entryHash"]).Nodup :=
    entryKeys_nodup.filter _
  have sorted : ((entryKeys.filter fun k => k ∉ [js "entryHash"]).insertionSort fun a b =>
      keyLe a b = true).filter (· ≠ js "__proto__") = canonicalKeys := by decide
  have hashed : ∀ k ∈ canonicalKeys, k ∈ entryKeys.filter fun k => k ∉ [js "entryHash"] := by
    decide
  have fields : (canonicalKeys.map fun key => (key, property key
      (valued (entryKeys.filter fun k => k ∉ [js "entryHash"]) f))) = valued canonicalKeys f :=
    List.map_congr_left fun k member => Prod.ext rfl (property_valued nodup (hashed k member))
  have ordered : (valued canonicalKeys f).Pairwise fun a b => precedes a.1 b.1 = true :=
    List.pairwise_map.mpr canonicalKeys_ordered
  rw [canonicalize, rest, valued_keys, sorted, fields, assign_sorted ordered]

section Copies

variable {sha256 : Bytes → Bytes}

theorem computeEntryHash_inj (injective : Function.Injective sha256) {f g : JsString → JsValue} :
    computeEntryHash sha256 (withoutHash (entryOf f)) =
      computeEntryHash sha256 (withoutHash (entryOf g)) ↔
        ∀ k ∈ canonicalKeys, stringify (f k) = stringify (g k) := by
  rw [computeEntryHash, computeEntryHash, digestHex, digestHex, ofText_injective.eq_iff,
    hexText_injective.eq_iff, injective.eq_iff, utf8_injective.eq_iff, canonicalize_entryOf,
    canonicalize_entryOf, jsonText_valued_iff canonicalKeys_nodup]

/-- Entries with the same line. -/
theorem jsonText_entryOf {f g : JsString → JsValue} : jsonText (entryOf f) = jsonText (entryOf g) ↔
    stringify (f (js "entryHash")) = stringify (g (js "entryHash")) ∧
      ∀ k ∈ canonicalKeys, stringify (f k) = stringify (g k) := by
  rw [entryOf, entryOf, jsonText_valued_iff entryKeys_nodup]
  simp only [mem_entryKeys, forall_eq_or_imp]

/-- An entry of a log: hashed, with the fields of a record, and with a hash that it names. -/
structure Recorded (sha256 : Bytes → Bytes) (entry : JsValue) : Prop where
  hashed : Hashed sha256 entry
  shaped : ∃ f, entry = entryOf f
  names : ∃ h, prevOf entry = .str h

/-- A change of an entry, without a new hash: the hash is the old one, or it is not that of the
other fields. -/
structure Edited (sha256 : Bytes → Bytes) (entry changed : JsValue) : Prop where
  shaped : ∃ f, changed = entryOf f
  unforged : hashOf changed = hashOf entry ∨ ¬ Hashed sha256 changed

/-- A change that shows neither in the chain nor on the line. -/
structure Copies (changed entry : JsValue) : Prop where
  prev : prevOf changed = prevOf entry
  hash : hashOf changed = hashOf entry
  line : jsonText changed = jsonText entry

theorem prevEntryHash_hashed : js "prevEntryHash" ∈ canonicalKeys := by decide

/-- A changed entry that is hashed has the line of the original. -/
theorem copies_of_hashed (injective : Function.Injective sha256) {entry changed : JsValue}
    (recorded : Recorded sha256 entry) (edited : Edited sha256 entry changed)
    (hashed : Hashed sha256 changed) : Copies changed entry := by
  obtain ⟨entryHashed, ⟨f, rfl⟩, ⟨p, names⟩⟩ := recorded
  obtain ⟨⟨g, rfl⟩, unforged⟩ := edited
  have hash := unforged.resolve_right fun fresh => fresh hashed
  have digests : computeEntryHash sha256 (withoutHash (entryOf g)) =
      computeEntryHash sha256 (withoutHash (entryOf f)) :=
    JsValue.str.inj (hashed.symm.trans (hash.trans entryHashed))
  have fields := (computeEntryHash_inj injective).mp digests
  refine ⟨?_, hash, ?_⟩
  · rw [prevOf_entryOf] at names ⊢
    rw [prevOf_entryOf, names]
    exact stringify_str.mp (names ▸ fields _ prevEntryHash_hashed)
  · rw [hashOf_entryOf, hashOf_entryOf] at hash
    exact jsonText_entryOf.mpr ⟨congrArg stringify hash, fields⟩

/-- A changed entry with the line of the original is hashed like it. -/
theorem copies_of_line (injective : Function.Injective sha256) {entry changed : JsValue}
    (recorded : Recorded sha256 entry) (shaped : ∃ g, changed = entryOf g)
    (line : jsonText changed = jsonText entry) :
    Copies changed entry ∧ Hashed sha256 changed := by
  obtain ⟨entryHashed, ⟨f, rfl⟩, ⟨p, names⟩⟩ := recorded
  obtain ⟨g, rfl⟩ := shaped
  obtain ⟨stored, fields⟩ := jsonText_entryOf.mp line
  have digests := (computeEntryHash_inj injective).mpr fields
  have hash : hashOf (entryOf g) = hashOf (entryOf f) := by
    rw [Hashed, hashOf_entryOf] at entryHashed
    rw [hashOf_entryOf, hashOf_entryOf, entryHashed]
    exact stringify_str.mp (entryHashed ▸ stored)
  have prev : prevOf (entryOf g) = prevOf (entryOf f) := by
    rw [prevOf_entryOf] at names ⊢
    rw [prevOf_entryOf, names]
    exact stringify_str.mp (names ▸ fields _ prevEntryHash_hashed)
  refine ⟨⟨prev, hash, line⟩, ?_⟩
  rw [Hashed, hash, entryHashed, digests]

theorem copies_of_lines (injective : Function.Injective sha256) {changed entries : List JsValue}
    (recorded : ∀ e ∈ entries, Recorded sha256 e) (shaped : ∀ c ∈ changed, ∃ g, c = entryOf g)
    (lines : List.Forall₂ (fun c e => jsonText c = jsonText e) changed entries) :
    List.Forall₂ Copies changed entries ∧ ∀ c ∈ changed, Hashed sha256 c := by
  induction lines with
  | nil => exact ⟨.nil, fun c member => absurd member List.not_mem_nil⟩
  | cons line _ ih =>
    obtain ⟨first, recorded⟩ := List.forall_mem_cons.mp recorded
    obtain ⟨shape, shaped⟩ := List.forall_mem_cons.mp shaped
    obtain ⟨copy, hashed⟩ := copies_of_line injective first shape line
    obtain ⟨copies, others⟩ := ih recorded shaped
    exact ⟨.cons copy copies, List.forall_mem_cons.mpr ⟨hashed, others⟩⟩

end Copies

/-! ### Logs -/

section Logs

variable (sha256 : Bytes → Bytes)

/-- The logger after these calls. -/
def recordFrom (logger : AuditLogger) (calls : List (AuditDraws × AuditRecordParams)) :
    AuditLogger :=
  calls.foldl (fun logger call => (logger.recordExecution sha256 call.1 call.2).1) logger

/-- The entries that a new logger holds after these calls. -/
def recordAll (calls : List (AuditDraws × AuditRecordParams)) : List JsValue :=
  (recordFrom sha256 .empty calls).entries

variable {sha256}

theorem recordFrom_chained {logger : AuditLogger} (chained : Chained sha256 logger)
    (shaped : ∀ e ∈ logger.entries, ∃ f, e = entryOf f)
    (calls : List (AuditDraws × AuditRecordParams)) :
    Chained sha256 (recordFrom sha256 logger calls) ∧
      ∀ e ∈ (recordFrom sha256 logger calls).entries, ∃ f, e = entryOf f := by
  induction calls generalizing logger with
  | nil => exact ⟨chained, shaped⟩
  | cons call calls ih =>
    apply ih (recordExecution_chained chained call.1 call.2)
    intro e member
    rcases List.mem_append.mp member with old | new
    · exact shaped e old
    · rw [List.mem_singleton.mp new]
      exact ⟨_, congrArg JsValue.obj (members_valued rfl entryKeys_nodup)⟩

theorem recorded_entries {calls : List (AuditDraws × AuditRecordParams)} :
    Linked prevOf hashOf (.str genesisHash) (recordAll sha256 calls) ∧
      ∀ e ∈ recordAll sha256 calls, Recorded sha256 e := by
  obtain ⟨chained, shaped⟩ := recordFrom_chained (@chained_empty sha256)
    (fun e member => absurd member List.not_mem_nil) calls
  refine ⟨chained.linked, fun e member => ⟨chained.hashed e member, shaped e member, ?_⟩⟩
  rcases List.mem_cons.mp (prev_mem chained.linked member) with first | later
  · exact ⟨genesisHash, first⟩
  · obtain ⟨before, earlier, same⟩ := List.mem_map.mp later
    exact ⟨_, same.symm.trans (chained.hashed before earlier)⟩

/-- Entries with the same hash name the same one. -/
theorem prev_of_hash (injective : Function.Injective sha256) {a b : JsValue}
    (left : Recorded sha256 a) (right : Recorded sha256 b) (same : hashOf a = hashOf b) :
    prevOf a = prevOf b := by
  obtain ⟨f, rfl⟩ := left.shaped
  exact (copies_of_hashed injective right ⟨⟨f, rfl⟩, .inl same⟩ left.hashed).prev

theorem lines_prefix {changed log : List JsValue} :
    changed.map jsonText <+: log.map jsonText ↔
      ∃ kept, kept <+: log ∧ List.Forall₂ (fun c e => jsonText c = jsonText e) changed kept := by
  have same (kept : List JsValue) :
      List.Forall₂ (fun c e => jsonText c = jsonText e) changed kept ↔
        changed.map jsonText = kept.map jsonText := by
    have equal : List.Forall₂ (· = ·) (changed.map jsonText) (kept.map jsonText) ↔
        changed.map jsonText = kept.map jsonText := by rw [List.forall₂_eq_eq_eq]
    rwa [List.forall₂_map_left_iff, List.forall₂_map_right_iff] at equal
  simp only [same]
  constructor
  · intro beginning
    refine ⟨log.take changed.length, List.take_prefix _ _, ?_⟩
    have taken := List.prefix_iff_eq_take.mp beginning
    rwa [List.length_map, ← List.map_take] at taken
  · rintro ⟨kept, beginning, lines⟩
    rw [lines]
    exact beginning.map jsonText

/-- Without numbers that JSON cannot write, the lines are a beginning when the entries are. -/
theorem plain_lines_prefix {changed log : List JsValue} (left : ∀ c ∈ changed, isPlain c = true)
    (right : ∀ e ∈ log, isPlain e = true) :
    changed.map jsonText <+: log.map jsonText ↔ changed <+: log := by
  constructor
  · intro beginning
    obtain ⟨kept, prefix_kept, lines⟩ := lines_prefix.mp beginning
    have same : changed = kept := by
      have plain : ∀ e ∈ kept, isPlain e = true := fun e member =>
        right e (prefix_kept.subset member)
      clear beginning prefix_kept
      induction lines with
      | nil => rfl
      | cons line _ ih =>
        obtain ⟨leftFirst, left⟩ := List.forall_mem_cons.mp left
        obtain ⟨rightFirst, plain⟩ := List.forall_mem_cons.mp plain
        rw [jsonText_injective leftFirst rightFirst line, ih left plain]
    rw [same]
    exact prefix_kept
  · exact fun beginning => beginning.map jsonText

/-- A change of a log is found just when the lines of what is left are not those with which the
log begins. -/
theorem tampering_evident_iff (injective : Function.Injective sha256)
    (display : JsValue → JsString) {calls : List (AuditDraws × AuditRecordParams)}
    (fresh : ∀ e ∈ recordAll sha256 calls, hashOf e ≠ .str genesisHash) {changed : List JsValue}
    (edited : ∀ c ∈ changed, ∃ e ∈ recordAll sha256 calls, Edited sha256 e c) :
    (verifyIntegrity sha256 display changed).valid = false ↔
      ¬ changed.map jsonText <+: (recordAll sha256 calls).map jsonText := by
  obtain ⟨linked, recorded⟩ := @recorded_entries sha256 calls
  have distinct := hashes_nodup linked
    (fun a left b right => prev_of_hash injective (recorded a left) (recorded b right))
    (fun again => by
      obtain ⟨e, member, same⟩ := List.mem_map.mp again
      exact fresh e member same)
  have same (c e : JsValue) (copies : Copies c e) : prevOf c = prevOf e ∧ hashOf c = hashOf e :=
    ⟨copies.prev, copies.hash⟩
  rw [← Bool.not_eq_true, verifyIntegrity_valid, not_iff_not, lines_prefix]
  constructor
  · rintro ⟨chain, hashed⟩
    have copied : ∀ c ∈ changed, ∃ e ∈ recordAll sha256 calls, Copies c e := by
      intro c member
      obtain ⟨e, original, edit⟩ := edited c member
      exact ⟨e, original, copies_of_hashed injective (recorded e original) edit (hashed c member)⟩
    obtain ⟨kept, beginning, copies⟩ := (linked_copies_iff same linked distinct copied).mp chain
    exact ⟨kept, beginning, copies.imp fun _ _ copy => copy.line⟩
  · rintro ⟨kept, beginning, lines⟩
    obtain ⟨copies, hashed⟩ := copies_of_lines injective
      (fun e member => recorded e (beginning.subset member))
      (fun c member => by
        obtain ⟨_, _, edit⟩ := edited c member
        exact edit.shaped)
      lines
    obtain ⟨rest, whole⟩ := beginning
    rw [← whole] at linked
    exact ⟨linked_of_copies same (linked_append.mp linked).1 copies, hashed⟩

end Logs

/-! ### A log of one entry -/

def oneCall : List (AuditDraws × AuditRecordParams) := [(exampleDraws, zeroFuel)]

theorem oneCall_fresh : ∀ e ∈ recordAll id oneCall, hashOf e ≠ .str genesisHash := by
  intro e member same
  rw [List.mem_singleton.mp member] at same
  have first := congrArg List.head? (JsValue.str.inj same)
  exact absurd first (by decide)

/-- An entry that is recorded twice is found. -/
theorem repeated_entry_found :
    (verifyIntegrity id (fun _ => []) (recordAll id oneCall ++ recordAll id oneCall)).valid =
      false := by
  refine (tampering_evident_iff Function.injective_id _ oneCall_fresh ?_).mpr ?_
  · intro c member
    rw [List.mem_append, or_self] at member
    obtain ⟨f, shaped⟩ := (recorded_entries.2 c member).shaped
    exact ⟨c, member, ⟨f, shaped⟩, .inl rfl⟩
  · intro beginning
    have short := beginning.length_le
    cases Nat.le_of_succ_le_succ short

/-- The entry is deleted, and nothing is found. -/
theorem deleted_entry_not_found : Function.Injective (id : Bytes → Bytes) ∧
    [] ≠ recordAll id oneCall ∧ (verifyIntegrity id (fun _ => []) []).valid = true :=
  ⟨Function.injective_id, (List.cons_ne_nil _ _).symm, rfl⟩

end NeuralMesh.Security
