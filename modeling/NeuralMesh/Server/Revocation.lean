import NeuralMesh.Js.StringText
import NeuralMesh.Js.Trim
import NeuralMesh.Transition
import Mathlib.Logic.Function.Basic
import Mathlib.Tactic.Simps.Basic

/-! The revocation list that several servers share in one file. Each server reads and writes the
file in single operations, and the servers take them in any order. -/
namespace NeuralMesh.Server

open Js

/-- The strings in the file's array; no list is a file that does not parse to an array. -/
structure RevocationFile where
  list : Option (List JsString)
  mtime : Nat

/-- The next file operation of a server. A load may be the first part of a revocation. -/
inductive RevocationPhase where
  | idle
  | checking (adding : Option JsString)
  | stating (adding : Option JsString)
  | reading (adding : Option JsString) (mtime : Nat)
  | creating (adding : Option JsString)
  | writing (normalizedHash : JsString)
  | stamping (normalizedHash : JsString)

structure RevocationServer where
  revokedTokenHashes : List JsString
  lastRevocationLoadTime : Nat
  phase : RevocationPhase

/-- How a file operation ends. A write that fails leaves the file as it was, or without an array.
The time `now` is what `Date.now()` says next. -/
inductive FileOutcome where
  | done (mtime now : Nat)
  | failed
  | torn (mtime : Nat)

inductive RevocationEvent (I : Type) where
  | loadRevocationList (i : I)
  | revokeTokenHash (i : I) (hash : JsString)
  | proceed (i : I) (outcome : FileOutcome)

/-- The file and the servers. The other fields record the run, and no server reads them: the
hashes whose revocation has completed on a server, those whose write succeeded, the number of
writes, the last write that a server knows, and whether its last revocation could not be written. -/
structure SharedRevocations (I : Type) where
  file : Option RevocationFile
  server : I → RevocationServer
  completed : I → List JsString
  written : List JsString
  writes : Nat
  seen : I → Nat
  unwritten : I → Bool

/-! ### The set of hashes -/

def isSpaceUnit (u : CodeUnit) : Bool := isSpace (Char.ofNat u.toNat)

def trimHash (hash : JsString) : JsString := (hash.dropWhile isSpaceUnit).rdropWhile isSpaceUnit

section Loading

variable (toLowerCase : JsString → JsString)

def normalizeItem (item : JsString) : JsString := toLowerCase (trimHash item)

/-- The set after `clear` and an `add` for each string of the file. -/
def loadedHashes (list : List JsString) : List JsString :=
  list.foldl (fun hashes item => setAdd hashes (normalizeItem toLowerCase item)) []

theorem mem_loadedHashes {list : List JsString} {hash : JsString} :
    hash ∈ loadedHashes toLowerCase list ↔
      ∃ item ∈ list, normalizeItem toLowerCase item = hash := by
  have grown : ∀ hashes, hash ∈ list.foldl
      (fun hashes item => setAdd hashes (normalizeItem toLowerCase item)) hashes ↔
        hash ∈ hashes ∨ ∃ item ∈ list, normalizeItem toLowerCase item = hash := by
    induction list with
    | nil => simp
    | cons item list ih =>
      intro hashes
      rw [List.foldl_cons, ih, mem_setAdd, or_assoc]
      simp [eq_comm]
  simpa [loadedHashes] using grown []

end Loading

/-! ### Steps -/

namespace SharedRevocations

variable {I : Type} [DecidableEq I]

def start (file : Option RevocationFile) : SharedRevocations I where
  file := file
  server := fun _ => ⟨[], 0, .idle⟩
  completed := fun _ => []
  written := []
  writes := 0
  seen := fun _ => 0
  unwritten := fun _ => false

@[simps] def change (s : SharedRevocations I) (i : I) (server : RevocationServer) : SharedRevocations I :=
  { s with server := Function.update s.server i server }

def goto (s : SharedRevocations I) (i : I) (phase : RevocationPhase) : SharedRevocations I :=
  s.change i { s.server i with phase }

/-- The end of a load, and of the load that starts a revocation. -/
def afterLoad : Option JsString → RevocationPhase
  | none => .idle
  | some normalizedHash => .writing normalizedHash

/-- The server's own write, after which it knows the whole file. -/
@[simps] def store (s : SharedRevocations I) (i : I) (list : List JsString) (mtime : Nat) :
    SharedRevocations I :=
  { s with
    file := some ⟨some list, mtime⟩
    writes := s.writes + 1
    seen := Function.update s.seen i (s.writes + 1) }

/-- The server has read the whole file. -/
@[simps] def refresh (s : SharedRevocations I) (i : I) : SharedRevocations I :=
  { s with seen := Function.update s.seen i s.writes }

/-- A revocation's write has succeeded. -/
@[simps] def publish (s : SharedRevocations I) (i : I) (normalizedHash : JsString)
    (hashes : List JsString) (mtime : Nat) : SharedRevocations I :=
  { s.store i hashes mtime with
    written := normalizedHash :: s.written
    unwritten := Function.update s.unwritten i false }

@[simps] def tear (s : SharedRevocations I) (mtime : Nat) : SharedRevocations I :=
  { s with file := some ⟨none, mtime⟩, writes := s.writes + 1 }

/-- The end of `revokeTokenHash`. -/
@[simps] def complete (s : SharedRevocations I) (i : I) (normalizedHash : JsString) : SharedRevocations I :=
  { s with completed := Function.update s.completed i (normalizedHash :: s.completed i) }

@[simps] def abandon (s : SharedRevocations I) (i : I) (normalizedHash : JsString) : SharedRevocations I :=
  { s.complete i normalizedHash with unwritten := Function.update s.unwritten i true }

variable (toLowerCase : JsString → JsString)

/-- The next file operation of a server; an exception ends the `try` block. -/
def proceed (s : SharedRevocations I) (i : I) (outcome : FileOutcome) : SharedRevocations I :=
  let server := s.server i
  match server.phase with
  | .idle => s
  | .checking adding =>
    s.goto i (if s.file.isSome then .stating adding else .creating adding)
  | .stating adding =>
    match outcome, s.file with
    | .done _ _, some file =>
      s.goto i (if file.mtime ≤ server.lastRevocationLoadTime then afterLoad adding
        else .reading adding file.mtime)
    | _, _ => s.goto i (afterLoad adding)
  | .reading adding mtime =>
    match outcome, s.file.bind (·.list) with
    | .done _ _, some list =>
      (s.change i ⟨loadedHashes toLowerCase list, mtime, afterLoad adding⟩).refresh i
    | _, _ => s.goto i (afterLoad adding)
  | .creating adding =>
    match outcome with
    | .done mtime now =>
      (s.change i ⟨server.revokedTokenHashes, now, afterLoad adding⟩).store i [] mtime
    | .failed => s.goto i (afterLoad adding)
    | .torn mtime => (s.goto i (afterLoad adding)).tear mtime
  | .writing normalizedHash =>
    let hashes := setAdd server.revokedTokenHashes normalizedHash
    match outcome with
    | .done mtime _ =>
      (s.change i ⟨hashes, server.lastRevocationLoadTime, .stamping normalizedHash⟩).publish i
        normalizedHash hashes mtime
    | .failed =>
      (s.change i ⟨hashes, server.lastRevocationLoadTime, .idle⟩).abandon i normalizedHash
    | .torn mtime =>
      ((s.change i ⟨hashes, server.lastRevocationLoadTime, .idle⟩).abandon i normalizedHash).tear
        mtime
  | .stamping normalizedHash =>
    match outcome, s.file with
    | .done _ _, some file =>
      (s.change i ⟨server.revokedTokenHashes, file.mtime, .idle⟩).complete i normalizedHash
    | _, _ => (s.goto i .idle).complete i normalizedHash

def step (s : SharedRevocations I) : RevocationEvent I → SharedRevocations I
  | .loadRevocationList i =>
    match (s.server i).phase with
    | .idle => s.goto i (.checking none)
    | _ => s
  | .revokeTokenHash i hash =>
    match (s.server i).phase with
    | .idle =>
      if hash = [] then s.complete i (toLowerCase hash)
      else s.goto i (.checking (some (toLowerCase hash)))
    | _ => s
  | .proceed i outcome => s.proceed toLowerCase i outcome

/-! ### Permanence -/

omit [DecidableEq I] in
/-- Completed revocations are in the server's set, and the written ones in the file. -/
def Permanent (s : SharedRevocations I) : Prop :=
  (∀ i, ∀ hash ∈ s.completed i, hash ∈ (s.server i).revokedTokenHashes) ∧
    ∀ hash ∈ s.written, ∃ list, s.file.bind (·.list) = some list ∧ hash ∈ list

/-- A hash that a load takes from the file as it is. -/
def Normal (hash : JsString) : Prop := normalizeItem toLowerCase hash = hash

/-- A server writes only after it has read the last write of another, a server whose revocation
could not be written does not read the file before it has written it, and no write stops
half-way. -/
def CarefulFile (s : SharedRevocations I) (i : I) : RevocationPhase → FileOutcome → Prop
  | .reading _ _, .done _ _ => s.unwritten i = false
  | .creating _, .done _ _ | .writing _, .done _ _ => s.seen i = s.writes
  | .creating _, .torn _ | .writing _, .torn _ => False
  | _, _ => True

/-- What a run has to respect; hashes come in the form in which they are loaded. -/
def Careful (s : SharedRevocations I) : RevocationEvent I → Prop
  | .loadRevocationList _ => True
  | .revokeTokenHash _ hash => hash ≠ [] ∧ Normal toLowerCase (toLowerCase hash)
  | .proceed i outcome => CarefulFile s i (s.server i).phase outcome

/-! ### What a careful step keeps -/

/-- The hashes that the file must hold. -/
def Kept (s : SharedRevocations I) (hash : JsString) : Prop :=
  hash ∈ s.written ∨ ∃ i, s.unwritten i = false ∧ hash ∈ s.completed i

def PhaseGood (seen : Nat) (known written : List JsString) : RevocationPhase → Prop
  | .idle => True
  | .checking adding | .stating adding | .reading adding _ =>
    ∀ hash, adding = some hash → Normal toLowerCase hash
  | .creating adding => seen = 0 ∧ ∀ hash, adding = some hash → Normal toLowerCase hash
  | .writing hash => Normal toLowerCase hash
  | .stamping hash => hash ∈ known ∧ hash ∈ written

/-- The part of the invariant that is about one server. -/
structure ServerGood (s : SharedRevocations I) (i : I) : Prop where
  current : s.seen i = s.writes → ∀ hash, Kept s hash → hash ∈ (s.server i).revokedTokenHashes
  known : ∀ hash ∈ s.completed i, hash ∈ (s.server i).revokedTokenHashes
  normal : ∀ hash ∈ s.completed i, Normal toLowerCase hash
  bounded : s.seen i ≤ s.writes
  phase : PhaseGood toLowerCase (s.seen i) (s.server i).revokedTokenHashes s.written
    (s.server i).phase

structure Good (s : SharedRevocations I) : Prop where
  servers : ∀ i, ServerGood toLowerCase s i
  content : ∀ hash, Kept s hash → ∃ list, s.file.bind (·.list) = some list ∧ hash ∈ list
  normal : ∀ hash ∈ s.written, Normal toLowerCase hash
  fresh : s.writes = 0 → ∀ hash, ¬ Kept s hash
  absent : s.file = none → s.writes = 0

/-- Nothing of another server changes in a step, and nothing written is forgotten. -/
structure StepBy (i : I) (s after : SharedRevocations I) : Prop where
  server : ∀ j, j ≠ i → after.server j = s.server j
  seen : ∀ j, j ≠ i → after.seen j = s.seen j
  completed : ∀ j, j ≠ i → after.completed j = s.completed j
  written : ∀ hash ∈ s.written, hash ∈ after.written
  writes : s.writes ≤ after.writes
  kept : after.writes = s.writes → ∀ hash, Kept after hash → Kept s hash

variable {toLowerCase} {s after : SharedRevocations I} {i : I}

theorem PhaseGood.mono {seen : Nat} {known written written' : List JsString}
    {phase : RevocationPhase} (good : PhaseGood toLowerCase seen known written phase)
    (more : ∀ hash ∈ written, hash ∈ written') :
    PhaseGood toLowerCase seen known written' phase := by
  cases phase with
  | stamping hash => exact ⟨good.1, more _ good.2⟩
  | idle | checking | stating | reading | creating | writing => exact good

theorem phaseGood_afterLoad {seen : Nat} {known written : List JsString} {adding : Option JsString}
    (normal : ∀ hash, adding = some hash → Normal toLowerCase hash) :
    PhaseGood toLowerCase seen known written (afterLoad adding) := by
  cases adding with
  | none => trivial
  | some hash => exact normal hash rfl

omit [DecidableEq I] in
theorem ServerGood.frame {j : I} (good : ServerGood toLowerCase s j) (step : StepBy i s after)
    (other : j ≠ i) : ServerGood toLowerCase after j := by
  have server := step.server j other
  have seen := step.seen j other
  have completed := step.completed j other
  constructor
  case current =>
    intro known hash kept
    have bound := good.bounded
    have unchanged : after.writes = s.writes := by
      have grown := step.writes
      omega
    rw [server]
    exact good.current (by omega) hash (step.kept unchanged hash kept)
  case known =>
    rw [server, completed]
    exact good.known
  case normal =>
    rw [completed]
    exact good.normal
  case bounded =>
    rw [seen]
    exact good.bounded.trans step.writes
  case phase =>
    rw [server, seen]
    exact good.phase.mono step.written

omit [DecidableEq I] in
theorem Good.servers_frame (good : Good toLowerCase s) (step : StepBy i s after)
    (own : ServerGood toLowerCase after i) : ∀ j, ServerGood toLowerCase after j := by
  intro j
  by_cases same : j = i
  · exact same ▸ own
  · exact (good.servers j).frame step same

omit [DecidableEq I] in
theorem Good.kept_normal (good : Good toLowerCase s) {hash : JsString} (kept : Kept s hash) :
    Normal toLowerCase hash := by
  obtain member | ⟨j, -, member⟩ := kept
  · exact good.normal hash member
  · exact (good.servers j).normal hash member

section Steps

variable (good : Good toLowerCase s)

include good

/-- A step that changes only the time and the phase of a server. -/
theorem Good.move {server : RevocationServer}
    (same : server.revokedTokenHashes = (s.server i).revokedTokenHashes)
    (phase : PhaseGood toLowerCase (s.seen i) server.revokedTokenHashes s.written server.phase) :
    Good toLowerCase (s.change i server) := by
  have step : StepBy i s (s.change i server) := by
    constructor
    case server => exact fun j other => Function.update_of_ne other ..
    case kept => exact fun _ _ kept => kept
    case writes => exact Nat.le_refl _
    case seen | completed => exact fun _ _ => rfl
    case written => exact fun _ member => member
  have own := good.servers i
  refine ⟨good.servers_frame step ?_, good.content, good.normal, good.fresh, good.absent⟩
  constructor
  case current =>
    intro seen hash kept
    simpa [same] using own.current seen hash kept
  case known => simpa [same] using own.known
  case normal => exact own.normal
  case bounded => exact own.bounded
  case phase => simpa using phase

theorem Good.goto {phase : RevocationPhase}
    (next : PhaseGood toLowerCase (s.seen i) (s.server i).revokedTokenHashes s.written phase) :
    Good toLowerCase (s.goto i phase) :=
  good.move rfl next

/-- A load takes every kept hash from the file. -/
theorem Good.load {list : List JsString} {server : RevocationServer}
    (readable : s.file.bind (·.list) = some list) (written : s.unwritten i = false)
    (loaded : server.revokedTokenHashes = loadedHashes toLowerCase list)
    (phase : PhaseGood toLowerCase s.writes server.revokedTokenHashes s.written server.phase) :
    Good toLowerCase ((s.change i server).refresh i) := by
  have taken : ∀ hash, Kept s hash → hash ∈ server.revokedTokenHashes := by
    intro hash kept
    obtain ⟨list', same, member⟩ := good.content hash kept
    cases readable.symm.trans same
    rw [loaded]
    exact (mem_loadedHashes toLowerCase).mpr ⟨hash, member, good.kept_normal kept⟩
  have step : StepBy i s ((s.change i server).refresh i) := by
    constructor
    case server | seen => exact fun j other => Function.update_of_ne other ..
    case kept => exact fun _ _ kept => kept
    case writes => exact Nat.le_refl _
    case completed => exact fun _ _ => rfl
    case written => exact fun _ member => member
  refine ⟨good.servers_frame step ?_, good.content, good.normal, good.fresh, good.absent⟩
  constructor
  case current =>
    intro _ hash kept
    simpa using taken hash kept
  case known => simpa using fun hash member => taken hash (.inr ⟨i, written, member⟩)
  case normal => exact (good.servers i).normal
  case bounded => simp
  case phase => simpa using phase

/-- The file is created only when no server has written it. -/
theorem Good.create {server : RevocationServer} {mtime : Nat} (unwritten : s.writes = 0)
    (same : server.revokedTokenHashes = (s.server i).revokedTokenHashes)
    (phase : ∀ seen, PhaseGood toLowerCase seen server.revokedTokenHashes s.written server.phase) :
    Good toLowerCase ((s.change i server).store i [] mtime) := by
  have none_kept : ∀ hash, ¬ Kept ((s.change i server).store i [] mtime) hash :=
    good.fresh unwritten
  have step : StepBy i s ((s.change i server).store i [] mtime) := by
    constructor
    case server | seen => exact fun j other => Function.update_of_ne other ..
    case kept => exact fun _ hash kept => absurd kept (none_kept hash)
    case writes => exact Nat.le_succ _
    case completed => exact fun _ _ => rfl
    case written => exact fun _ member => member
  have own := good.servers i
  refine ⟨good.servers_frame step ?_, fun hash kept => absurd kept (none_kept hash), good.normal,
    fun zero => (Nat.succ_ne_zero _ zero).elim, fun absent => by cases absent⟩
  constructor
  case current => exact fun _ hash kept => absurd kept (none_kept hash)
  case known => simpa [same] using own.known
  case normal => exact own.normal
  case bounded => simp
  case phase => simpa using phase _

/-- A server that knows the whole file writes it anew. -/
theorem Good.publish {hash : JsString} {mtime : Nat} {server : RevocationServer}
    (known : s.seen i = s.writes) (normal : Normal toLowerCase hash)
    (added : server.revokedTokenHashes = setAdd (s.server i).revokedTokenHashes hash)
    (phase : server.phase = .stamping hash) :
    Good toLowerCase ((s.change i server).publish i hash server.revokedTokenHashes mtime) := by
  have own := good.servers i
  have hash_known : hash ∈ server.revokedTokenHashes := by
    rw [added]
    exact mem_setAdd.mpr (.inr rfl)
  have older : ∀ old ∈ (s.server i).revokedTokenHashes, old ∈ server.revokedTokenHashes := by
    intro old member
    rw [added]
    exact mem_setAdd.mpr (.inl member)
  -- The server's earlier hashes, written or not, are in the new file as well.
  have listed : ∀ kept, Kept ((s.change i server).publish i hash server.revokedTokenHashes mtime)
      kept → kept ∈ server.revokedTokenHashes := by
    rintro kept (member | ⟨j, saved, member⟩)
    · obtain rfl | member := List.mem_cons.mp member
      · exact hash_known
      · exact older kept (own.current known kept (.inl member))
    · by_cases same : j = i
      · exact older kept (own.known kept (same ▸ member))
      · have saved : s.unwritten j = false := by simpa [same] using saved
        exact older kept (own.current known kept (.inr ⟨j, saved, member⟩))
  have step : StepBy i s
      ((s.change i server).publish i hash server.revokedTokenHashes mtime) := by
    constructor
    case server | seen => exact fun j other => Function.update_of_ne other ..
    case kept => exact fun same => (Nat.succ_ne_self _ same).elim
    case writes => exact Nat.le_succ _
    case completed => exact fun _ _ => rfl
    case written => exact fun _ member => List.mem_cons_of_mem _ member
  constructor
  case servers =>
    apply good.servers_frame step
    constructor
    case current => simpa using listed
    case known => simpa using fun old member => older old (own.known old member)
    case normal => exact own.normal
    case bounded => simp
    case phase => simpa [phase, PhaseGood] using hash_known
  case content => exact fun kept member => ⟨_, rfl, listed kept member⟩
  case normal => exact List.forall_mem_cons.mpr ⟨normal, good.normal⟩
  case fresh => exact fun zero => (Nat.succ_ne_zero _ zero).elim
  case absent => exact fun absent => by cases absent

/-- A write that fails leaves the file as it was. -/
theorem Good.abandon {hash : JsString} {server : RevocationServer}
    (normal : Normal toLowerCase hash)
    (added : server.revokedTokenHashes = setAdd (s.server i).revokedTokenHashes hash)
    (phase : server.phase = .idle) : Good toLowerCase ((s.change i server).abandon i hash) := by
  have own := good.servers i
  have older : ∀ old ∈ (s.server i).revokedTokenHashes, old ∈ server.revokedTokenHashes := by
    intro old member
    rw [added]
    exact mem_setAdd.mpr (.inl member)
  have kept_before : ∀ kept, Kept ((s.change i server).abandon i hash) kept → Kept s kept := by
    rintro kept (member | ⟨j, saved, member⟩)
    · exact .inl member
    · have other : j ≠ i := by
        rintro rfl
        simp at saved
      exact .inr ⟨j, by simpa [other] using saved, by simpa [other] using member⟩
  have step : StepBy i s ((s.change i server).abandon i hash) := by
    constructor
    case server | completed => exact fun j other => Function.update_of_ne other ..
    case seen => exact fun _ _ => rfl
    case kept => exact fun _ => kept_before
    case writes => exact Nat.le_refl _
    case written => exact fun _ member => member
  refine ⟨good.servers_frame step ?_, fun kept member => good.content kept (kept_before kept member),
    good.normal, fun zero kept member => good.fresh zero kept (kept_before kept member), good.absent⟩
  constructor
  case current =>
    intro seen kept member
    simpa using older kept (own.current (by simpa using seen) kept (kept_before kept member))
  case known =>
    have hash_known : hash ∈ server.revokedTokenHashes := by
      rw [added]
      exact mem_setAdd.mpr (.inr rfl)
    simpa using ⟨hash_known, fun old member => older old (own.known old member)⟩
  case normal => simpa using ⟨normal, own.normal⟩
  case bounded => exact own.bounded
  case phase => simp [phase, PhaseGood]

theorem Good.complete {hash : JsString} (known : hash ∈ (s.server i).revokedTokenHashes)
    (written : hash ∈ s.written) : Good toLowerCase (s.complete i hash) := by
  have own := good.servers i
  have kept_before : ∀ kept, Kept (s.complete i hash) kept → Kept s kept := by
    rintro kept (member | ⟨j, saved, member⟩)
    · exact .inl member
    · by_cases same : j = i
      · subst same
        have member : kept = hash ∨ kept ∈ s.completed j := by simpa using member
        obtain rfl | member := member
        · exact .inl written
        · exact .inr ⟨j, saved, member⟩
      · exact .inr ⟨j, saved, by simpa [same] using member⟩
  have step : StepBy i s (s.complete i hash) := by
    constructor
    case completed => exact fun j other => Function.update_of_ne other ..
    case server | seen => exact fun _ _ => rfl
    case kept => exact fun _ => kept_before
    case writes => exact Nat.le_refl _
    case written => exact fun _ member => member
  refine ⟨good.servers_frame step ?_, fun kept member => good.content kept (kept_before kept member),
    good.normal, fun zero kept member => good.fresh zero kept (kept_before kept member), good.absent⟩
  constructor
  case current => exact fun seen kept member => own.current seen kept (kept_before kept member)
  case known => simpa using ⟨known, own.known⟩
  case normal => simpa using ⟨good.normal hash written, own.normal⟩
  case bounded => exact own.bounded
  case phase => exact own.phase

end Steps

omit [DecidableEq I] in
theorem good_start (file : Option RevocationFile) :
    Good toLowerCase (start file : SharedRevocations I) := by
  have none_kept : ∀ hash, ¬ Kept (start file : SharedRevocations I) hash := by
    rintro hash (member | ⟨i, -, member⟩) <;> cases member
  refine ⟨fun i => ?_, fun hash kept => absurd kept (none_kept hash), fun _ => (nomatch ·),
    fun _ => none_kept, fun _ => rfl⟩
  exact ⟨fun _ hash kept => absurd kept (none_kept hash), fun _ => (nomatch ·),
    fun _ => (nomatch ·), Nat.le_refl _, trivial⟩

/-- Each file operation of a careful run. -/
theorem proceed_good (good : Good toLowerCase s) {outcome : FileOutcome}
    (careful : Careful toLowerCase s (.proceed i outcome)) :
    Good toLowerCase (s.proceed toLowerCase i outcome) := by
  have own := (good.servers i).phase
  have bounded := (good.servers i).bounded
  have loaded {adding : Option JsString}
      (normal : ∀ hash, adding = some hash → Normal toLowerCase hash) :
      Good toLowerCase (s.goto i (afterLoad adding)) := good.goto (phaseGood_afterLoad normal)
  change CarefulFile s i (s.server i).phase outcome at careful
  rw [proceed]
  dsimp only
  cases phase : (s.server i).phase with
  | idle => exact good
  | checking adding =>
    rw [phase] at own
    cases file : s.file with
    | none =>
      have unseen := good.absent file
      exact good.goto ⟨by omega, own⟩
    | some file => exact good.goto own
  | stating adding =>
    rw [phase] at own
    cases outcome with
    | failed | torn => exact loaded own
    | done mtime now =>
      cases file : s.file with
      | none => exact loaded own
      | some file =>
        apply good.goto
        split
        · exact phaseGood_afterLoad own
        · exact own
  | reading adding mtime =>
    rw [phase] at own careful
    cases outcome with
    | failed | torn => exact loaded own
    | done _ _ =>
      cases readable : s.file.bind (·.list) with
      | none => exact loaded own
      | some list => exact good.load readable careful rfl (phaseGood_afterLoad own)
  | creating adding =>
    rw [phase] at own careful
    obtain ⟨unseen, normal⟩ := own
    cases outcome with
    | failed => exact loaded normal
    | torn => exact careful.elim
    | done mtime now =>
      have unwritten : s.writes = 0 := careful.symm.trans unseen
      exact good.create unwritten rfl fun _ => phaseGood_afterLoad normal
  | writing hash =>
    rw [phase] at own careful
    cases outcome with
    | failed => exact good.abandon own rfl rfl
    | torn => exact careful.elim
    | done mtime now => exact good.publish careful own rfl rfl
  | stamping hash =>
    rw [phase] at own
    obtain ⟨known, written⟩ := own
    have ended : ∀ time, Good toLowerCase
        ((s.change i ⟨(s.server i).revokedTokenHashes, time, .idle⟩).complete i hash) := by
      intro time
      have moved : Good toLowerCase
          (s.change i ⟨(s.server i).revokedTokenHashes, time, .idle⟩) := good.move rfl trivial
      exact moved.complete (by simpa using known) written
    cases outcome with
    | failed | torn => exact ended _
    | done mtime now =>
      cases s.file with
      | none => exact ended _
      | some file => exact ended _

theorem step_good (good : Good toLowerCase s) (event : RevocationEvent I)
    (careful : Careful toLowerCase s event) : Good toLowerCase (s.step toLowerCase event) := by
  cases event with
  | loadRevocationList i =>
    rw [step]
    split
    · exact good.goto fun _ => (nomatch ·)
    · exact good
  | revokeTokenHash i hash =>
    obtain ⟨nonempty, normal⟩ := careful
    rw [step]
    split
    · rw [if_neg nonempty]
      exact good.goto fun _ same => Option.some.inj same ▸ normal
    · exact good
  | proceed i outcome => exact proceed_good good careful

omit [DecidableEq I] in
theorem Good.permanent (good : Good toLowerCase s) : s.Permanent :=
  ⟨fun i => (good.servers i).known, fun hash written => good.content hash (.inl written)⟩

variable (toLowerCase) in
/-- In every state of a careful run, completed revocations are still in the server's set, and
written ones in the file. -/
theorem run_permanent (file : Option RevocationFile) (events : List (RevocationEvent I))
    (careful : Transition.Allowed (step toLowerCase) (Careful toLowerCase) (start file) events) :
    ∀ before, before <+: events →
      (Transition.run (step toLowerCase) (start file) before).Permanent := by
  intro before visited
  have preserved : ∀ (s : SharedRevocations I) event, Good toLowerCase s → Careful toLowerCase s event →
      Good toLowerCase (step toLowerCase s event) :=
    fun _ event good careful => step_good good event careful
  exact (Transition.visited_invariant preserved (good_start file) careful visited).permanent

/-- `toLowerCase` on hexadecimal digits. -/
def hexLowerCase (text : JsString) : JsString :=
  text.map fun u => if 65 ≤ u ∧ u ≤ 90 then u + 32 else u

/-- Two servers revoke a hash each, the second after it has read the first one. -/
theorem inTurn_permanent :
    (Transition.run (step hexLowerCase) (start (some ⟨some [], 1⟩))
      [.revokeTokenHash false (js "AB"), .proceed false (.done 0 0), .proceed false (.done 0 0),
        .proceed false (.done 0 0), .proceed false (.done 2 2), .proceed false (.done 0 0),
        .revokeTokenHash true (js "cd"), .proceed true (.done 0 0), .proceed true (.done 0 0),
        .proceed true (.done 0 0), .proceed true (.done 3 3), .proceed true (.done 0 0),
        .loadRevocationList false, .proceed false (.done 0 0), .proceed false (.done 0 0),
        .proceed false (.done 0 0)]).Permanent := by
  refine run_permanent hexLowerCase _ _ ?_ _ List.prefix_rfl
  exact ⟨⟨by decide, rfl⟩, trivial, trivial, rfl, rfl, trivial, ⟨by decide, rfl⟩,
    trivial, trivial, rfl, rfl, trivial, trivial, trivial, trivial, rfl, trivial⟩

/-- The first server cannot write its hash, and forgets it when it reads the file that the second
one has written. -/
theorem failedWrite_forgotten : ¬ ∀ (file : Option RevocationFile)
    (events : List (RevocationEvent Bool)),
      (Transition.run (step hexLowerCase) (start file) events).Permanent := by
  intro permanent
  have known := (permanent (some ⟨some [], 1⟩)
    [.revokeTokenHash false (js "ab"), .proceed false (.done 0 0), .proceed false (.done 0 0),
      .proceed false (.done 0 0), .proceed false .failed,
      .revokeTokenHash true (js "cd"), .proceed true (.done 0 0), .proceed true (.done 0 0),
      .proceed true (.done 0 0), .proceed true (.done 2 2), .proceed true (.done 0 0),
      .loadRevocationList false, .proceed false (.done 0 0), .proceed false (.done 0 0),
      .proceed false (.done 0 0)]).1 false (js "ab") (List.mem_cons_self ..)
  exact absurd known (by decide)

end SharedRevocations

end NeuralMesh.Server
