import NeuralMesh.Chain
import NeuralMesh.Codec.JsonLines
import NeuralMesh.Js.Encoding
import NeuralMesh.Worker.ZkVerifier

/-! The audit log: entries that name the hash of the entry before them, in memory and on the lines
of a file. The chain stays valid over recordings and restarts, and entries stay as they are, if
their fuel is a finite number. -/
namespace NeuralMesh.Security

open Js Codec Chain Worker

/-! ### Entries -/

inductive AuditStatus where
  | success
  | blockedEgress
  | error
  | policyViolation

def AuditStatus.text : AuditStatus → JsString
  | .success => js "SUCCESS"
  | .blockedEgress => js "BLOCKED_EGRESS"
  | .error => js "ERROR"
  | .policyViolation => js "POLICY_VIOLATION"

structure AuditRecordParams where
  timestamp : Option JsString
  traceId : Option JsString
  agentDid : JsString
  peerId : JsString
  toolName : JsString
  datasetHash : Option JsString
  fuelConsumed : JsNumber
  outputHash : Option JsString
  zkReceiptSig : Option JsString
  status : AuditStatus
  double : asDoubles (.num fuelConsumed) = .num fuelConsumed

/-- What the host draws for a recording. -/
structure AuditDraws where
  randomUUID : JsString
  now : JsString
  randomHex : JsString

def genesisHash : JsString := ofText (List.replicate 64 '0')

/-- The rest of a destructured entry. -/
def withoutHash : JsValue → Members
  | .obj members => without [js "entryHash"] members
  | _ => []

/-- The object with its keys in sorted order; assigning `__proto__` creates no property. -/
def canonicalize (obj : Members) : Text :=
  let sortedKeys := (obj.map Prod.fst).insertionSort fun a b => keyLe a b = true
  let canonicalObj := assign ((sortedKeys.filter (· ≠ js "__proto__")).map fun key =>
    (key, property key obj)) []
  jsonText (.obj canonicalObj)

/-- A value or its default, if the value is absent or empty. -/
def orDefault (value : Option JsString) (default : JsString) : JsString :=
  match value with
  | none | some [] => default
  | some s => s

section Logger

variable (sha256 : Bytes → Bytes)

def digestHex (bytes : Bytes) : JsString := ofText (hexText (sha256 bytes))

def computeEntryHash (entryWithoutHash : Members) : JsString :=
  digestHex sha256 (utf8 (canonicalize entryWithoutHash))

def partialEntry (draws : AuditDraws) (params : AuditRecordParams) (lastEntryHash : JsValue) :
    Members :=
  [(js "id", .str draws.randomUUID),
    (js "timestamp", .str (orDefault params.timestamp draws.now)),
    (js "traceId", .str (orDefault params.traceId draws.randomHex)),
    (js "agentDid", .str params.agentDid),
    (js "peerId", .str params.peerId),
    (js "toolName", .str params.toolName),
    (js "datasetHash", .str (orDefault params.datasetHash (digestHex sha256 []))),
    (js "fuelConsumed", .num params.fuelConsumed),
    (js "outputHash", .str (orDefault params.outputHash (digestHex sha256 []))),
    (js "zkReceiptSig", .str (orDefault params.zkReceiptSig [])),
    (js "status", .str params.status.text),
    (js "prevEntryHash", lastEntryHash)]

/-! ### The logger -/

structure AuditLogger where
  entries : List JsValue
  lastEntryHash : JsValue

def AuditLogger.empty : AuditLogger := ⟨[], .str genesisHash⟩

/-- A property of a parsed line; `none` is the `TypeError` for `null`. -/
def entryHash : JsValue → Option JsValue
  | .null => none
  | entry => some (member (js "entryHash") entry)

def loadLine (logger : AuditLogger) (line : Text) : Option AuditLogger := do
  let entry ← parseDoubles line
  let lastEntryHash ← entryHash entry
  return ⟨logger.entries ++ [entry], lastEntryHash⟩

def loadFromFile (bytes : Bytes) : Option AuditLogger :=
  (lines (decodeUtf8 bytes)).foldlM loadLine .empty

/-- The constructor, for a file that need not exist; `none` is an exception. -/
def construct (file : Option Bytes) : Option AuditLogger :=
  match file with
  | none => some .empty
  | some bytes => loadFromFile bytes

def fullEntry (draws : AuditDraws) (params : AuditRecordParams) (lastEntryHash : JsValue) :
    JsValue :=
  let entry := partialEntry sha256 draws params lastEntryHash
  .obj (entry ++ [(js "entryHash", .str (computeEntryHash sha256 entry))])

/-- The logger and the returned entry. -/
def AuditLogger.recordExecution (logger : AuditLogger) (draws : AuditDraws)
    (params : AuditRecordParams) : AuditLogger × JsValue :=
  let entry := fullEntry sha256 draws params logger.lastEntryHash
  (⟨logger.entries ++ [entry], member (js "entryHash") entry⟩, entry)

structure IntegrityReport where
  valid : Bool
  totalEntries : Nat
  brokenIndex : Option Nat
  reason : Option JsString

variable (display : JsValue → JsString)

/-- The loop from this index on. -/
def verifyFrom (totalEntries i : Nat) (expectedPrevHash : JsString) : List JsValue → IntegrityReport
  | [] => ⟨true, totalEntries, none, none⟩
  | entry :: rest =>
    let prevEntryHash := member (js "prevEntryHash") entry
    let recalculated := computeEntryHash sha256 (withoutHash entry)
    let stored := member (js "entryHash") entry
    if !isString expectedPrevHash prevEntryHash then
      ⟨false, totalEntries, some i, some (js "Broken hash chain at index " ++ ofText (natText i) ++
        js ": expected prevHash " ++ expectedPrevHash ++ js ", got " ++ display prevEntryHash)⟩
    else if !isString recalculated stored then
      ⟨false, totalEntries, some i, some (js "Tampered entry at index " ++ ofText (natText i) ++
        js ": hash mismatch (expected " ++ recalculated ++ js ", stored " ++ display stored ++
        js ")")⟩
    else verifyFrom totalEntries (i + 1) recalculated rest

def verifyIntegrity (entries : List JsValue) : IntegrityReport :=
  verifyFrom sha256 display entries.length 0 genesisHash entries

/-! ### The process -/

/-- A logger with its file, if it has one, and the entries that the calls have returned. -/
structure AuditLog where
  logger : AuditLogger
  persistent : Bool
  file : Option Bytes
  returned : List JsValue

inductive AuditEvent where
  | record (draws : AuditDraws) (params : AuditRecordParams)
  | restart

/-- `none` is an exception. A logger without a file is not restarted. -/
def AuditLog.step (log : AuditLog) : AuditEvent → Option AuditLog
  | .record draws params =>
    let (logger, entry) := log.logger.recordExecution sha256 draws params
    let appended := log.file.getD [] ++ utf8 (jsonText entry ++ ['\n'])
    some ⟨logger, log.persistent, if log.persistent then some appended else log.file,
      log.returned ++ [entry]⟩
  | .restart =>
    if log.persistent then (construct log.file).map fun logger => { log with logger := logger }
    else some log

def AuditLog.run (log : AuditLog) (events : List AuditEvent) : Option AuditLog :=
  events.foldlM (AuditLog.step sha256) log

end Logger

/-! ### What `verifyIntegrity` checks -/

section Integrity

variable {sha256 : Bytes → Bytes} {display : JsValue → JsString}

/-- The hash that the entry names, and its own. -/
abbrev prevOf : JsValue → JsValue := member (js "prevEntryHash")

abbrev hashOf : JsValue → JsValue := member (js "entryHash")

/-- The entry has the hash of its other fields. -/
def Hashed (sha256 : Bytes → Bytes) (entry : JsValue) : Prop :=
  hashOf entry = .str (computeEntryHash sha256 (withoutHash entry))

theorem verifyFrom_valid {totalEntries i : Nat} {expectedPrevHash : JsString}
    {entries : List JsValue} :
    (verifyFrom sha256 display totalEntries i expectedPrevHash entries).valid = true ↔
      Linked prevOf hashOf (.str expectedPrevHash) entries ∧ ∀ e ∈ entries, Hashed sha256 e := by
  induction entries generalizing i expectedPrevHash with
  | nil => simp [verifyFrom, Linked]
  | cons entry rest ih =>
    rw [verifyFrom, Linked, List.forall_mem_cons]
    by_cases linked : prevOf entry = .str expectedPrevHash
    · by_cases hashed : Hashed sha256 entry
      · have matched := Host.isString_iff.mpr hashed
        have stored : hashOf entry = _ := hashed
        rw [if_neg (by simp [Host.isString_iff.mpr linked]), if_neg (by simp [matched]), ih, stored]
        tauto
      · have broken : isString (computeEntryHash sha256 (withoutHash entry)) (hashOf entry) ≠ true :=
          fun matched => hashed (Host.isString_iff.mp matched)
        rw [if_neg (by simp [Host.isString_iff.mpr linked]), if_pos (by simpa using broken)]
        simp [hashed]
    · have broken : isString expectedPrevHash (prevOf entry) ≠ true :=
        fun matched => linked (Host.isString_iff.mp matched)
      rw [if_pos (by simpa using broken)]
      simp [linked]

theorem verifyIntegrity_valid {entries : List JsValue} :
    (verifyIntegrity sha256 display entries).valid = true ↔
      Linked prevOf hashOf (.str genesisHash) entries ∧ ∀ e ∈ entries, Hashed sha256 e :=
  verifyFrom_valid

end Integrity

/-! ### An entry and its line -/

section Entries

variable {sha256 : Bytes → Bytes} (draws : AuditDraws) (params : AuditRecordParams)
  (lastEntryHash : JsValue)

theorem withoutHash_fullEntry : withoutHash (fullEntry sha256 draws params lastEntryHash) =
    partialEntry sha256 draws params lastEntryHash := rfl

theorem fullEntry_hashed : Hashed sha256 (fullEntry sha256 draws params lastEntryHash) := by
  rw [Hashed, withoutHash_fullEntry]
  rfl

/-- The keys of an entry, in the order of the source. -/
def entryKeys : List JsString :=
  ["id", "timestamp", "traceId", "agentDid", "peerId", "toolName", "datasetHash", "fuelConsumed",
    "outputHash", "zkReceiptSig", "status", "prevEntryHash", "entryHash"].map js

theorem entryKeys_ordered : entryKeys.Pairwise fun a b => precedes a b = true := by decide

variable {lastEntryHash}

theorem fullEntry_ordered (ordered : isOrdered lastEntryHash = true) :
    isOrdered (fullEntry sha256 draws params lastEntryHash) = true := by
  have keys : (partialEntry sha256 draws params lastEntryHash ++ [(js "entryHash",
      JsValue.str (computeEntryHash sha256 (partialEntry sha256 draws params lastEntryHash)))]).map
        Prod.fst = entryKeys := rfl
  have sorted := entryKeys_ordered
  rw [← keys, List.pairwise_map] at sorted
  refine (isOrdered_obj _).mpr ⟨sorted, ?_⟩
  simp [partialEntry, isOrdered, ordered]

/-- The line of an entry that names a hash. -/
theorem parse_fullEntry (h : JsString) :
    parseDoubles (jsonText (fullEntry sha256 draws params (.str h))) =
      some (asDoubles (transmitted (fullEntry sha256 draws params (.str h)))) := by
  rw [parseDoubles, parse_transmitted (fullEntry_ordered draws params rfl), Option.map_some]

def AuditRecordParams.Finite (params : AuditRecordParams) : Prop :=
  ∃ d, params.fuelConsumed = .finite d

/-- The line gives the entry back just when its fuel is a finite number. -/
theorem reread_fullEntry (h : JsString) :
    asDoubles (transmitted (fullEntry sha256 draws params (.str h))) =
      fullEntry sha256 draws params (.str h) ↔ params.Finite := by
  rw [fullEntry, AuditRecordParams.Finite]
  generalize computeEntryHash sha256 (partialEntry sha256 draws params (.str h)) = hash
  rw [partialEntry]
  have double := params.double
  cases number : params.fuelConsumed with
  | finite d =>
    rw [number] at double
    refine iff_of_true ?_ ⟨d, rfl⟩
    simpa [transmitted, transmittedMembers, asDoubles, asDoublesMembers] using double
  | nan => simp [transmitted, transmittedMembers, asDoubles, asDoublesMembers]
  | infinite negative => simp [transmitted, transmittedMembers, asDoubles, asDoublesMembers]

end Entries

/-! ### The chain of a logger -/

/-- The entries are a valid chain, and the logger has the hash of the last one. -/
structure Chained (sha256 : Bytes → Bytes) (logger : AuditLogger) : Prop where
  linked : Linked prevOf hashOf (.str genesisHash) logger.entries
  hashed : ∀ e ∈ logger.entries, Hashed sha256 e
  last : logger.lastEntryHash = lastHash hashOf (.str genesisHash) logger.entries

section Chains

variable {sha256 : Bytes → Bytes} {logger : AuditLogger}

theorem chained_empty : Chained sha256 .empty :=
  ⟨trivial, fun _ member => absurd member List.not_mem_nil, rfl⟩

theorem Chained.last_string (chained : Chained sha256 logger) :
    ∃ h, logger.lastEntryHash = .str h := by
  rw [chained.last]
  rcases List.mem_cons.mp (lastHash_mem (JsValue.str genesisHash) logger.entries) with first | named
  · exact ⟨genesisHash, first⟩
  · obtain ⟨e, member, same⟩ := List.mem_map.mp named
    exact ⟨_, same.symm.trans (chained.hashed e member)⟩

theorem recordExecution_chained (chained : Chained sha256 logger) (draws : AuditDraws)
    (params : AuditRecordParams) :
    Chained sha256 (logger.recordExecution sha256 draws params).1 := by
  have added : Linked prevOf hashOf (lastHash hashOf (.str genesisHash) logger.entries)
      [fullEntry sha256 draws params logger.lastEntryHash] := ⟨chained.last, trivial⟩
  constructor
  · exact linked_append.mpr ⟨chained.linked, added⟩
  · intro e member
    rcases List.mem_append.mp member with old | new
    · exact chained.hashed e old
    · rw [List.mem_singleton.mp new]
      exact fullEntry_hashed draws params _
  · dsimp only [AuditLogger.recordExecution]
    rw [lastHash_append]

end Chains

/-! ### Files -/

theorem loadFromFile_append {bytes : Bytes} (terminated : Terminated bytes) (ms : Members) :
    loadFromFile (bytes ++ utf8 (jsonText (.obj ms) ++ ['\n'])) =
      (loadFromFile bytes).bind fun logger => loadLine logger (jsonText (.obj ms)) := by
  have visible : trim (jsonText (.obj ms)) ≠ [] := by
    rw [jsonText, trim_ends _ (by decide) (by decide)]
    exact List.cons_ne_nil _ _
  rw [loadFromFile, lines_append terminated (newline_not_mem_jsonText _) visible,
    List.foldlM_append, loadFromFile]
  simp only [List.foldlM_cons, List.foldlM_nil, bind_pure]
  rfl

/-- Loading keeps the hash of the last entry. -/
theorem loaded_last {texts : List Text} {start logger : AuditLogger}
    (last : start.lastEntryHash = lastHash hashOf (.str genesisHash) start.entries)
    (loaded : texts.foldlM loadLine start = some logger) :
    logger.lastEntryHash = lastHash hashOf (.str genesisHash) logger.entries := by
  induction texts generalizing start with
  | nil =>
    cases loaded
    exact last
  | cons text texts ih =>
    rw [List.foldlM_cons] at loaded
    obtain ⟨next, first, loaded⟩ := Option.bind_eq_some_iff.mp loaded
    refine ih ?_ loaded
    obtain ⟨entry, -, first⟩ := Option.bind_eq_some_iff.mp first
    obtain ⟨h, named, first⟩ := Option.bind_eq_some_iff.mp first
    cases first
    rw [lastHash_append]
    cases entry with
    | null => cases named
    | _ =>
      cases named
      rfl

/-! ### Runs -/

section Runs

variable (sha256 : Bytes → Bytes) (display : JsValue → JsString)

/-- The log is a chain and what the file gives; its entries are the first ones and the recorded
ones. -/
structure Intact (start : List JsValue) (log : AuditLog) : Prop where
  chained : Chained sha256 log.logger
  kept : log.logger.entries = start ++ log.returned
  stored : log.persistent = true → construct log.file = some log.logger
  terminated : Terminated (log.file.getD [])

variable {sha256}

/-- The file after a recording gives what it gave before, and this entry as it is read back. -/
theorem construct_appended {file : Option Bytes} (terminated : Terminated (file.getD []))
    {stored : AuditLogger} (made : construct file = some stored) (draws : AuditDraws)
    (params : AuditRecordParams) (h : JsString) :
    let entry := fullEntry sha256 draws params (.str h)
    construct (some (file.getD [] ++ utf8 (jsonText entry ++ ['\n']))) =
      some ⟨stored.entries ++ [asDoubles (transmitted entry)],
        hashOf (asDoubles (transmitted entry))⟩ := by
  have loaded : loadFromFile (file.getD []) = some stored := by
    cases file with
    | none => exact made
    | some bytes => exact made
  have line := loadFromFile_append terminated
    (partialEntry sha256 draws params (.str h) ++ [(js "entryHash", .str
      (computeEntryHash sha256 (partialEntry sha256 draws params (.str h))))])
  have parsed := @parse_fullEntry sha256 draws params h
  intro entry
  rw [construct]
  rw [loaded, Option.bind_some] at line
  refine line.trans ?_
  rw [loadLine]
  refine (congrArg (Option.bind · _) parsed).trans ?_
  rfl

/-- The log after a recording, with this entry read back from the file. -/
theorem construct_recorded {start : List JsValue} {log : AuditLog} (intact : Intact sha256 start log)
    (persistent : log.persistent = true) (draws : AuditDraws) (params : AuditRecordParams) :
    let entry := fullEntry sha256 draws params log.logger.lastEntryHash
    construct (some (log.file.getD [] ++ utf8 (jsonText entry ++ ['\n']))) =
      some ⟨log.logger.entries ++ [asDoubles (transmitted entry)],
        hashOf (asDoubles (transmitted entry))⟩ := by
  obtain ⟨h, named⟩ := intact.chained.last_string
  rw [named]
  exact construct_appended intact.terminated (intact.stored persistent) draws params h

theorem step_intact {start : List JsValue} {log : AuditLog} (intact : Intact sha256 start log)
    {event : AuditEvent} (finite : ∀ draws params, event = .record draws params → params.Finite) :
    ∃ next, log.step sha256 event = some next ∧ Intact sha256 start next := by
  cases event with
  | restart =>
    rw [AuditLog.step]
    split_ifs with persistent
    · rw [intact.stored persistent]
      exact ⟨log, rfl, intact⟩
    · exact ⟨log, rfl, intact⟩
  | record draws params =>
    refine ⟨_, rfl, ?_⟩
    constructor
    · exact recordExecution_chained intact.chained draws params
    · dsimp only [AuditLogger.recordExecution]
      rw [intact.kept, List.append_assoc]
    · intro persistent
      obtain ⟨h, named⟩ := intact.chained.last_string
      have kept := (@reread_fullEntry sha256 draws params h).mpr (finite draws params rfl)
      have recorded := construct_recorded intact persistent draws params
      dsimp only at persistent recorded ⊢
      rw [if_pos persistent]
      rw [← named] at kept
      rw [kept] at recorded
      exact recorded
    · dsimp only
      split_ifs
      · exact terminated_append _ _
      · exact intact.terminated

theorem run_intact {start : List JsValue} {log : AuditLog} (intact : Intact sha256 start log)
    {events : List AuditEvent}
    (finite : ∀ draws params, .record draws params ∈ events → params.Finite) :
    ∃ reached, log.run sha256 events = some reached ∧ Intact sha256 start reached := by
  induction events generalizing log with
  | nil => exact ⟨log, rfl, intact⟩
  | cons event events ih =>
    obtain ⟨next, stepped, intact⟩ := @step_intact sha256 start log intact event
      fun draws params same => finite draws params (same ▸ List.mem_cons_self)
    obtain ⟨reached, run, intact⟩ := ih intact
      fun draws params member => finite draws params (List.mem_cons_of_mem event member)
    refine ⟨reached, ?_, intact⟩
    rw [AuditLog.run, List.foldlM_cons, stepped]
    exact run

/-- A restart right after a recording gives the entries back just when the fuel is finite. -/
theorem restart_kept_iff {start : List JsValue} {log : AuditLog} (intact : Intact sha256 start log)
    (persistent : log.persistent = true) (draws : AuditDraws) (params : AuditRecordParams) :
    ∃ reached, log.run sha256 [.record draws params, .restart] = some reached ∧
      (reached.logger.entries = start ++ reached.returned ↔ params.Finite) := by
  obtain ⟨h, named⟩ := intact.chained.last_string
  have reread := @reread_fullEntry sha256 draws params h
  have recorded := construct_recorded intact persistent draws params
  rw [← named] at reread
  dsimp only at recorded
  have run : log.run sha256 [.record draws params, .restart] = some
      ⟨⟨log.logger.entries ++ [asDoubles (transmitted
        (fullEntry sha256 draws params log.logger.lastEntryHash))], hashOf (asDoubles (transmitted
        (fullEntry sha256 draws params log.logger.lastEntryHash)))⟩, true,
        some (log.file.getD [] ++ utf8 (jsonText
          (fullEntry sha256 draws params log.logger.lastEntryHash) ++ ['\n'])),
        log.returned ++ [fullEntry sha256 draws params log.logger.lastEntryHash]⟩ := by
    rw [AuditLog.run, List.foldlM_cons, AuditLog.step]
    dsimp only [AuditLogger.recordExecution, Option.bind_eq_bind, Option.bind_some]
    rw [persistent, List.foldlM_cons, AuditLog.step]
    dsimp only
    rw [if_pos rfl, if_pos rfl, recorded]
    rfl
  refine ⟨_, run, ?_⟩
  dsimp only
  rw [intact.kept, List.append_assoc, List.append_cancel_left_eq, List.append_cancel_left_eq,
    List.singleton_inj]
  exact reread

/-- A log that is constructed from a valid file, or from none, is intact. -/
theorem intact_constructed {file : Option Bytes} (terminated : Terminated (file.getD []))
    {logger : AuditLogger} (made : construct file = some logger)
    (valid : (verifyIntegrity sha256 display logger.entries).valid = true) (persistent : Bool) :
    Intact sha256 logger.entries ⟨logger, persistent, file, []⟩ := by
  obtain ⟨linked, hashed⟩ := verifyIntegrity_valid.mp valid
  have last : logger.lastEntryHash = lastHash hashOf (.str genesisHash) logger.entries := by
    cases file with
    | none =>
      cases made
      rfl
    | some bytes => exact @loaded_last _ .empty logger rfl made
  exact ⟨⟨linked, hashed, last⟩, (List.append_nil _).symm, fun _ => made, terminated⟩

/-- From a valid log on, over any recordings of finite fuel and any restarts, the log stays valid
and the entries are those of the start and then the recorded ones. -/
theorem chain_stays_valid {file : Option Bytes} (terminated : Terminated (file.getD []))
    {logger : AuditLogger} (made : construct file = some logger)
    (valid : (verifyIntegrity sha256 display logger.entries).valid = true) (persistent : Bool)
    {events : List AuditEvent}
    (finite : ∀ draws params, .record draws params ∈ events → params.Finite) :
    ∃ reached, AuditLog.run sha256 ⟨logger, persistent, file, []⟩ events = some reached ∧
      (verifyIntegrity sha256 display reached.logger.entries).valid = true ∧
      reached.logger.entries = logger.entries ++ reached.returned := by
  have start := intact_constructed display terminated made valid persistent
  obtain ⟨reached, run, intact⟩ := run_intact start finite
  exact ⟨reached, run, verifyIntegrity_valid.mpr ⟨intact.chained.linked, intact.chained.hashed⟩,
    intact.kept⟩

end Runs

/-! ### Examples -/

def exampleDraws : AuditDraws := ⟨js "3f0c", js "2026-01-01T00:00:00.000Z", js "9a"⟩

/-- A successful execution with this fuel. -/
def exampleParams (fuelConsumed : JsNumber)
    (double : asDoubles (.num fuelConsumed) = .num fuelConsumed) : AuditRecordParams where
  timestamp := none
  traceId := none
  agentDid := js "did:key:z1"
  peerId := js "peer1"
  toolName := js "persist_test"
  datasetHash := none
  fuelConsumed := fuelConsumed
  outputHash := none
  zkReceiptSig := none
  status := .success
  double := double

def zeroFuel : AuditRecordParams := exampleParams (.finite 0) rfl

theorem zero_fuel_kept : ∃ reached,
    AuditLog.run id ⟨.empty, true, none, []⟩ [.record exampleDraws zeroFuel, .restart] =
        some reached ∧
      (verifyIntegrity id (fun _ => []) reached.logger.entries).valid = true ∧
      reached.logger.entries = reached.returned := by
  refine @chain_stays_valid id (fun _ => []) none (.inl rfl) .empty rfl rfl true _ ?_
  intro draws params member
  simp only [List.mem_cons, List.not_mem_nil, or_false, AuditEvent.record.injEq,
    reduceCtorEq] at member
  rw [member.2]
  exact ⟨0, rfl⟩

def noFuel : AuditRecordParams := exampleParams .nan rfl

/-- Fuel that is no number is `null` after a restart. -/
theorem nan_fuel_changed : ∃ reached,
    AuditLog.run id ⟨.empty, true, none, []⟩ [.record exampleDraws noFuel, .restart] =
        some reached ∧
      reached.logger.entries ≠ reached.returned := by
  have start := @intact_constructed id (fun _ => []) none (.inl rfl) .empty rfl rfl true
  obtain ⟨reached, run, kept⟩ := restart_kept_iff start rfl exampleDraws noFuel
  refine ⟨reached, run, ?_⟩
  intro same
  obtain ⟨d, absurd⟩ := kept.mp same
  cases absurd

end NeuralMesh.Security
