import NeuralMesh.Server.Release
import NeuralMesh.Server.StoredAnswers

/-! The reset of the query budget. A preflight counts in memory, or in the file of the tool's
policy, or else in the file of the server; a reset clears memory and the file of the server. -/
namespace NeuralMesh.Server

open Js

/-! ### The server -/

/-- The counts in memory, and in the files. -/
structure BudgetPlaces (κ : Type) where
  memory : FieldQueryBudget
  files : κ → BudgetStore

/-- The analyzer and the configured path, with the file that a path names. -/
structure BudgetServer (κ : Type) where
  analyzer : TaintAnalyzer
  budgetStorePath : JsString
  file : (storePath : JsString) → κ

inductive BudgetEvent where
  | preflight (query : BudgetQuery)
  | reset (clientId : JsString) (toolName : Option JsString)

/-- A preflight of the client on the tool. -/
def BudgetEvent.Queries (c t : JsString) : BudgetEvent → Prop
  | .preflight query => c = query.clientId ∧ t = query.toolName
  | .reset _ _ => False

namespace BudgetPlaces

variable {κ : Type} [DecidableEq κ]

def start : BudgetPlaces κ := ⟨∅, fun _ => ∅⟩

/-- What an access to one file sees. -/
def counters (s : BudgetPlaces κ) (file : κ) : BudgetCounters := ⟨s.memory, s.files file⟩

def update (s : BudgetPlaces κ) (file : κ) (counters : BudgetCounters) : BudgetPlaces κ :=
  ⟨counters.memory, Function.update s.files file counters.store⟩

/-- The counts of the tool are the same. -/
structure Unchanged (s after : BudgetPlaces κ) (c t : JsString) : Prop where
  memory : ∀ field, after.memory.count c t field = s.memory.count c t field
  files : ∀ file, (after.files file).entry c t = (s.files file).entry c t

end BudgetPlaces

/-- The answer refuses the query for a count that reached its limit. -/
def BudgetQuery.Exceeded (analyzer : TaintAnalyzer) (query : BudgetQuery)
    (answer : Option JsString) : Prop :=
  ∃ field ∈ query.extractedFields,
    answer = some (budgetExceeded field (analyzer.queryLimit query.policy field))

namespace BudgetServer

variable {κ : Type} [DecidableEq κ] (server : BudgetServer κ)

/-- The file that a reset clears. -/
def Configured (file : κ) : Prop :=
  server.budgetStorePath ≠ [] ∧ file = server.file server.budgetStorePath

instance (file : κ) : Decidable (server.Configured file) := inferInstanceAs (Decidable (_ ∧ _))

def path (query : BudgetQuery) : JsString := budgetPath server.budgetStorePath query.policy

/-- The budget phase of a preflight; the operations on the file succeed. -/
def preflight (query : BudgetQuery) (s : BudgetPlaces κ) : Option JsString × BudgetPlaces κ :=
  if server.path query = [] then
    let answer := query.guarded s.memory (query.inMemory server.analyzer s.memory)
    (answer.1, { s with memory := answer.2 })
  else
    let file := server.file (server.path query)
    let answer := query.preflight server.analyzer .working (s.counters file)
    (answer.1, s.update file answer.2)

def resetFieldBudget (clientId : JsString) (toolName : Option JsString) (s : BudgetPlaces κ) :
    BudgetPlaces κ :=
  if server.budgetStorePath = [] then
    { s with memory := s.memory.resetFieldBudget clientId toolName }
  else
    let file := server.file server.budgetStorePath
    s.update file ((s.counters file).resetFieldBudget .working clientId toolName).2

def step (s : BudgetPlaces κ) : BudgetEvent → BudgetPlaces κ
  | .preflight query => (server.preflight query s).2
  | .reset clientId toolName => server.resetFieldBudget clientId toolName s

variable {server} {s : BudgetPlaces κ}

/-! ### Steps -/

theorem update_same (s : BudgetPlaces κ) (file : κ) (memory : FieldQueryBudget) :
    s.update file ⟨memory, s.files file⟩ = ⟨memory, s.files⟩ :=
  congrArg _ (Function.update_eq_self file s.files)

theorem update_files (s : BudgetPlaces κ) (here file : κ) (counters : BudgetCounters) :
    (s.update here counters).files file = if file = here then counters.store else s.files file :=
  Function.update_apply s.files here counters.store file

/-- A reset whose file operations succeed. -/
theorem resetFieldBudget_working (s : BudgetCounters) (clientId : JsString)
    (toolName : Option JsString) : (s.resetFieldBudget .working clientId toolName).2 =
      ⟨s.memory.resetFieldBudget clientId toolName, if refusesReset clientId toolName then s.store
        else s.store.clear clientId toolName⟩ := by
  unfold BudgetCounters.resetFieldBudget FieldQueryBudget.resetFieldBudget
  split_ifs <;> rfl

theorem reset_memory (clientId : JsString) (toolName : Option JsString) (c t field : JsString) :
    (server.resetFieldBudget clientId toolName s).memory.count c t field =
      if refusesReset clientId toolName = false ∧ Clears clientId toolName c t then 0
      else s.memory.count c t field := by
  rw [← count_resetFieldBudget, resetFieldBudget]
  split_ifs
  · rfl
  · dsimp only
    rw [resetFieldBudget_working]
    rfl

theorem reset_files (clientId : JsString) (toolName : Option JsString) (c t : JsString) (file : κ) :
    ((server.resetFieldBudget clientId toolName s).files file).entry c t =
      if refusesReset clientId toolName = false ∧ Clears clientId toolName c t ∧
        server.Configured file then none
      else (s.files file).entry c t := by
  rw [resetFieldBudget]
  by_cases unset : server.budgetStorePath = []
  · rw [if_pos unset, if_neg fun all => all.2.2.1 unset]
  rw [if_neg unset]
  dsimp only
  rw [resetFieldBudget_working, update_files]
  by_cases here : file = server.file server.budgetStorePath
  · have configured : server.Configured file := ⟨unset, here⟩
    subst here
    rw [if_pos rfl]
    cases refused : refusesReset clientId toolName with
    | true =>
      rw [if_pos rfl, if_neg fun all => nomatch all.1]
      rfl
    | false =>
      rw [if_neg Bool.false_ne_true, entry_clear]
      exact if_congr ⟨fun clears => ⟨rfl, clears, configured⟩, fun all => all.2.1⟩ rfl rfl
  · rw [if_neg here, if_neg fun all => here all.2.2.2]

variable (server s) in
/-- A preflight counts in memory, or in its file, or not at all. -/
theorem preflight_moves (query : BudgetQuery) :
    (∃ memory, (server.preflight query s).2 = ⟨memory, s.files⟩ ∧
      (FieldQueryBudget.count memory = s.memory.count ∨ FieldQueryBudget.count memory =
        charge s.memory.count query.clientId query.toolName query.extractedFields)) ∨
    ∃ file, (server.preflight query s).2 = s.update file ⟨s.memory,
      (s.files file).setTool query.clientId query.toolName (query.extractedFields.foldl
        incrementStored ((s.files file).tool query.clientId query.toolName))⟩ := by
  rw [preflight]
  by_cases memory : server.path query = []
  · rw [if_pos memory]
    refine .inl ⟨_, rfl, ?_⟩
    rw [BudgetQuery.guarded]
    split_ifs
    · exact .inl rfl
    · exact .inl rfl
    · rcases applyInMemoryBudget_cases server.analyzer s.memory query.clientId query.toolName
        query.extractedFields query.policy with ⟨-, same⟩ | ⟨-, -, charged⟩
      · exact .inl same
      · exact .inr charged
  rw [if_neg memory]
  dsimp only
  rcases preflight_cases server.analyzer query .working
      (s.counters (server.file (server.path query)))
    with ⟨answer, memory, moved, same, -⟩ | ⟨memory, moved, -, -, charged⟩ |
      ⟨read, store, moved, -, -, reads, -, stored⟩
  · rw [moved]
    exact .inl ⟨memory, update_same s _ memory, .inl same⟩
  · rw [moved]
    exact .inl ⟨memory, update_same s _ memory, .inr charged⟩
  · rw [moved, stored, reads]
    exact .inr ⟨_, rfl⟩

/-! ### Runs -/

/-- No file has a number for a field that every object inherits. -/
def Plain (s : BudgetPlaces κ) : Prop := ∀ file c t, Uncounted ((s.files file).tool c t)

theorem start_plain {ι : Type} : Plain (BudgetPlaces.start : BudgetPlaces ι) := by
  intro file c t
  exact Uncounted.empty

theorem step_plain (s : BudgetPlaces κ) (event : BudgetEvent) (plain : Plain s) :
    Plain (server.step s event) := by
  intro file c t
  cases event with
  | preflight query =>
    rcases preflight_moves server s query with ⟨memory, moved, -⟩ | ⟨here, moved⟩
    · rw [step, moved]
      exact plain file c t
    · rw [step, moved, update_files]
      by_cases same : file = here
      · subst same
        rw [if_pos rfl]
        by_cases pair : c = query.clientId ∧ t = query.toolName
        · obtain ⟨rfl, rfl⟩ := pair
          rw [tool_setTool]
          exact (plain file _ _).increments query.extractedFields
        · rw [tool_setTool_ne pair]
          exact plain file c t
      · rw [if_neg same]
        exact plain file c t
  | reset clientId toolName =>
    rw [step, tool_eq_entry, reset_files]
    split_ifs
    · exact Uncounted.empty
    · exact plain file c t

variable (server) in
theorem run_plain (events : List BudgetEvent) : Plain (Transition.run server.step .start events) :=
  Transition.run_invariant (fun s event plain _ => step_plain s event plain) start_plain
    (.of_forall (fun _ _ _ => trivial) _)

/-- The preflight of another tool, or of another client, changes no count of this one. -/
theorem preflight_unchanged {query : BudgetQuery} {c t : JsString}
    (other : ¬ (c = query.clientId ∧ t = query.toolName)) :
    s.Unchanged (server.preflight query s).2 c t := by
  rcases preflight_moves server s query with ⟨memory, moved, same | charged⟩ | ⟨here, moved⟩
  · rw [moved]
    exact ⟨fun field => congrFun (congrFun (congrFun same c) t) field, fun _ => rfl⟩
  · rw [moved]
    refine ⟨fun field => ?_, fun _ => rfl⟩
    dsimp only
    rw [charged, charge, if_neg other]
    rfl
  · rw [moved]
    refine ⟨fun _ => rfl, fun file => ?_⟩
    rw [update_files]
    by_cases same : file = here
    · subst same
      rw [if_pos rfl, entry_setTool_ne other]
    · rw [if_neg same]

/-- A reset of one tool changes no count of another. -/
theorem reset_unchanged {clientId toolName c t : JsString} (named : toolName ≠ [])
    (other : ¬ (c = clientId ∧ t = toolName)) :
    s.Unchanged (server.resetFieldBudget clientId (some toolName) s) c t := by
  have apart : ¬ Clears clientId (some toolName) c t :=
    fun clears => other ⟨clears.1, clears.2 toolName rfl named⟩
  constructor
  · intro field
    rw [reset_memory, if_neg fun all => apart all.2]
  · intro file
    rw [reset_files, if_neg fun all => apart all.2.1]

/-- Neither memory nor the file of the server has a count of the tool. -/
structure Cleared (server : BudgetServer κ) (s : BudgetPlaces κ) (c t : JsString) : Prop where
  memory : ∀ field, s.memory.count c t field = 0
  files : ∀ file, server.Configured file → (s.files file).entry c t = none

theorem reset_cleared {c t : JsString} (allowed : refusesReset c (some t) = false) :
    server.Cleared (server.resetFieldBudget c (some t) s) c t := by
  have clears : Clears c (some t) c t := ⟨rfl, fun name member _ => Option.some.inj member⟩
  constructor
  · intro field
    rw [reset_memory, if_pos ⟨allowed, clears⟩]
  · intro file configured
    rw [reset_files, if_pos ⟨allowed, clears, configured⟩]

theorem step_cleared {c t : JsString} (s : BudgetPlaces κ) (event : BudgetEvent)
    (cleared : server.Cleared s c t) (other : ¬ event.Queries c t) :
    server.Cleared (server.step s event) c t := by
  cases event with
  | preflight query =>
    have unchanged : s.Unchanged (server.preflight query s).2 c t := preflight_unchanged other
    constructor
    · intro field
      rw [step, unchanged.memory]
      exact cleared.memory field
    · intro file configured
      rw [step, unchanged.files]
      exact cleared.files file configured
  | reset clientId toolName =>
    constructor
    · intro field
      rw [step, reset_memory, cleared.memory field]
      exact ite_self 0
    · intro file configured
      rw [step, reset_files, cleared.files file configured]
      exact ite_self none

/-! ### The next preflight -/

theorem guard_apart (field : JsString) (limit : QueryLimit) :
    js "Preflight policy rejected: invalid property key names (prototype pollution guard)." ≠
      budgetExceeded field limit := by
  intro same
  have opens : js "Preflight policy rejected: Query budget exceeded for field '" <+:
      budgetExceeded field limit := by
    rw [budgetExceeded]
    simp only [List.append_assoc]
    exact List.prefix_append _ _
  rw [← same, ← List.isPrefixOf_iff_prefix] at opens
  exact absurd opens (by decide +kernel)

variable {query : BudgetQuery}

/-- Names that the guard refuses are refused by no count. -/
theorem preflight_guarded (refused : query.clientId ∈ unsafeNames ∨ query.toolName ∈ unsafeNames) :
    ¬ query.Exceeded server.analyzer (server.preflight query s).1 := by
  have guarded {σ : Type} (t : σ) (budget : Option JsString × σ) :
      ¬ query.Exceeded server.analyzer (query.guarded t budget).1 := by
    rintro ⟨field, member, same⟩
    rw [BudgetQuery.guarded, if_neg (List.ne_nil_of_mem member), if_pos refused] at same
    exact guard_apart _ _ (Option.some.inj same)
  rw [preflight]
  by_cases memory : server.path query = []
  · rw [if_pos memory]
    exact guarded _ _
  · rw [if_neg memory]
    exact guarded _ _

/-- A query that meets no count in memory is accepted, unless its file refuses it. -/
theorem preflight_accepted
    (positive : ∀ field ∈ query.extractedFields,
      1 ≤ (server.analyzer.queryLimit query.policy field).queries)
    (unqueried : ∀ field, s.memory.count query.clientId query.toolName field = 0)
    (allowed : server.path query ≠ [] → ∀ reason, exhaustedStored server.analyzer
      (readEntry ((s.files (server.file (server.path query))).entry query.clientId query.toolName)
        query.toolName) query.policy query.extractedFields ≠ some (some reason))
    (safe : ¬ (query.clientId ∈ unsafeNames ∨ query.toolName ∈ unsafeNames)) :
    (server.preflight query s).1 = none := by
  have accepted := inMemory_accepted positive unqueried
  rw [preflight]
  by_cases memory : server.path query = []
  · rw [if_pos memory]
    dsimp only
    rw [BudgetQuery.guarded, if_neg safe]
    split_ifs
    · rfl
    · exact accepted
  rw [if_neg memory]
  dsimp only
  rw [BudgetQuery.preflight, BudgetQuery.guarded, if_neg safe, BudgetQuery.persistent,
    locked_working]
  split_ifs
  · rfl
  have stops := allowed memory
  dsimp only [BudgetPlaces.counters]
  cases checked : exhaustedStored server.analyzer (readEntry ((s.files (server.file
      (server.path query))).entry query.clientId query.toolName) query.toolName) query.policy
      query.extractedFields with
  | none => exact accepted
  | some answer =>
    cases answer with
    | none => rfl
    | some reason => exact absurd checked (stops reason)

/-! ### What a reset leaves -/

/-- After a reset the next preflight of the client on the tool is refused by no count, whatever
else was called in between, and no count of another client or tool has changed. -/
structure FullyReset (server : BudgetServer κ) (query : BudgetQuery) (s : BudgetPlaces κ) :
    Prop where
  accepted : ∀ others, (∀ event ∈ others, ¬ event.Queries query.clientId query.toolName) →
    ¬ query.Exceeded server.analyzer (server.preflight query (Transition.run server.step
      (server.resetFieldBudget query.clientId (some query.toolName) s) others)).1
  kept : ∀ c t, ¬ (c = query.clientId ∧ t = query.toolName) →
    s.Unchanged (server.resetFieldBudget query.clientId (some query.toolName) s) c t

/-- The guard refuses the names; or the tool has a name, and what the query counts is in memory or
in the file of the server, or is no field that can be counted. -/
def Resettable (server : BudgetServer κ) (query : BudgetQuery) : Prop :=
  (query.clientId ∈ unsafeNames ∨ query.toolName ∈ unsafeNames) ∨
    query.toolName ≠ [] ∧ (server.path query = [] ∨
      ¬ CountsParameters server.analyzer query ∧
        (server.Configured (server.file (server.path query)) ∨
          ∀ field ∈ query.extractedFields, field ∈ inheritedNames))

omit [DecidableEq κ] in
/-- A table that is not there, or that has no number for the fields, refuses nothing. -/
theorem entry_allows
    (positive : ∀ field ∈ query.extractedFields,
      1 ≤ (server.analyzer.queryLimit query.policy field).queries)
    (plain : Plain s) (cleared : server.Cleared s query.clientId query.toolName)
    (uncounted : ¬ CountsParameters server.analyzer query)
    (known : server.Configured (server.file (server.path query)) ∨
      ∀ field ∈ query.extractedFields, field ∈ inheritedNames) (reason : JsString) :
    exhaustedStored server.analyzer (readEntry ((s.files (server.file (server.path query))).entry
      query.clientId query.toolName) query.toolName) query.policy query.extractedFields ≠
        some (some reason) := by
  have passing {toolBudget : ToolBudget} (each : ∀ field ∈ query.extractedFields,
      readField toolBudget field = .absent ∨ readField toolBudget field = .stored .other) :
      exhaustedStored server.analyzer toolBudget query.policy query.extractedFields ≠
        some (some reason) := by
    rw [exhaustedStored_passes positive each]
    exact nofun
  rcases known with configured | inherited
  · rw [cleared.files _ configured, readEntry, Option.elim_none]
    cases function : inheritedFunctions.lookup query.toolName with
    | none =>
      refine passing fun field _ => ?_
      rw [Option.elim_none, readField, AList.lookup_empty]
      dsimp only
      split_ifs
      · exact .inr rfl
      · exact .inl rfl
    | some parameters =>
      intro refused
      obtain ⟨reached, asked⟩ := (exhaustedStored_inherited positive).mp ⟨reason, refused⟩
      exact uncounted ⟨parameters, function, reached, asked⟩
  · exact passing fun field member =>
      .inr (readField_inherited (plain _ _ _) query.toolName (inherited field member))

theorem fullyReset_of_resettable
    (positive : ∀ field ∈ query.extractedFields,
      1 ≤ (server.analyzer.queryLimit query.policy field).queries)
    (resettable : server.Resettable query) (plain : Plain s) : server.FullyReset query s := by
  by_cases safe : query.clientId ∈ unsafeNames ∨ query.toolName ∈ unsafeNames
  · refine ⟨fun others _ => preflight_guarded safe, fun c t _ => ?_⟩
    have refused := (refusesReset_some query.clientId query.toolName).mpr safe
    constructor
    · intro field
      rw [reset_memory, refused, if_neg fun all => nomatch all.1]
    · intro file
      rw [reset_files, refused, if_neg fun all => nomatch all.1]
  obtain ⟨named, places⟩ := resettable.resolve_left safe
  have allowed : refusesReset query.clientId (some query.toolName) = false := by
    rw [← Bool.not_eq_true, refusesReset_some]
    exact safe
  refine ⟨fun others apart => ?_, fun c t other => reset_unchanged named other⟩
  have condition : Transition.Allowed server.step
      (fun _ event => ¬ event.Queries query.clientId query.toolName)
      (server.resetFieldBudget query.clientId (some query.toolName) s) others :=
    .of_forall (fun event member _ => apart event member) _
  have cleared := Transition.run_invariant step_cleared (reset_cleared allowed) condition
  have still := Transition.run_invariant (fun s event plain _ => step_plain s event plain)
    (step_plain s (.reset query.clientId (some query.toolName)) plain) condition
  have accepted := preflight_accepted positive cleared.memory (fun stored => by
    obtain ⟨uncounted, known⟩ := places.resolve_left stored
    exact entry_allows positive still cleared uncounted known) safe
  rw [accepted]
  rintro ⟨field, -, same⟩
  cases same

/-! ### Counts that a reset leaves -/

/-- The answer of a query whose file refuses it. -/
theorem preflight_exceeded {reason : JsString}
    (safe : ¬ (query.clientId ∈ unsafeNames ∨ query.toolName ∈ unsafeNames))
    (stored : server.path query ≠ [])
    (refused : exhaustedStored server.analyzer
      (readEntry ((s.files (server.file (server.path query))).entry query.clientId query.toolName)
        query.toolName) query.policy query.extractedFields = some (some reason)) :
    query.Exceeded server.analyzer (server.preflight query s).1 := by
  obtain ⟨field, member, rfl⟩ := exhaustedStored_reason refused
  refine ⟨field, member, ?_⟩
  rw [preflight, if_neg stored]
  dsimp only
  rw [BudgetQuery.preflight, BudgetQuery.guarded, if_neg (List.ne_nil_of_mem member), if_neg safe,
    BudgetQuery.persistent, locked_working]
  dsimp only [BudgetPlaces.counters]
  rw [refused]
  rfl

/-- A query that its file lets pass is counted there. -/
theorem preflight_stored
    (safe : ¬ (query.clientId ∈ unsafeNames ∨ query.toolName ∈ unsafeNames))
    (stored : server.path query ≠ []) (queried : query.extractedFields ≠ [])
    (passed : exhaustedStored server.analyzer
      (readEntry ((s.files (server.file (server.path query))).entry query.clientId query.toolName)
        query.toolName) query.policy query.extractedFields = some none) :
    ((server.preflight query s).2.files (server.file (server.path query))).entry
        query.clientId query.toolName = some (query.extractedFields.foldl incrementStored
      ((s.files (server.file (server.path query))).tool query.clientId query.toolName)) := by
  rw [preflight, if_neg stored]
  dsimp only
  rw [BudgetQuery.preflight, BudgetQuery.guarded, if_neg queried, if_neg safe,
    BudgetQuery.persistent, locked_working]
  dsimp only [BudgetPlaces.counters]
  rw [passed, update_files, if_pos rfl]
  exact entry_setTool _ _ _ _

/-- One positive limit means that all are. -/
theorem queryLimit_positive {analyzer : TaintAnalyzer} {policy : Option LogicExecutionPolicy}
    {field : JsString} (positive : 1 ≤ (analyzer.queryLimit policy field).queries)
    (other : JsString) : 1 ≤ (analyzer.queryLimit policy other).queries := by
  unfold TaintAnalyzer.queryLimit at positive ⊢
  cases limit : policy.bind (·.queryBudgetPerField) with
  | some limit =>
    simp only [limit] at positive ⊢
    exact positive
  | none =>
    dsimp only
    split
    · exact Nat.le_add_left 1 2
    · exact Nat.le_add_left 1 7
    · exact Nat.le_add_left 1 24

/-- A field that no object inherits, nor any function. -/
theorem read_x (toolName : JsString) :
    (readField (readEntry none toolName) (js "x")).count = some 0 := by
  have regular : Regular toolName (js "x") := ⟨by decide +kernel, fun _ => by decide +kernel⟩
  have entry := readTool_entry (∅ : BudgetStore) [] toolName
  rw [Budgets.entry, inner_empty, AList.lookup_empty] at entry
  have found := readField_regular regular ∅ []
  rw [inner_empty, entry] at found
  rw [found]
  rfl

theorem single_passes {analyzer : TaintAnalyzer} {policy : Option LogicExecutionPolicy}
    {toolBudget : ToolBudget} {field : JsString} {n : Nat}
    (read : (readField toolBudget field).count = some n)
    (below : n < (analyzer.queryLimit policy field).queries) :
    exhaustedStored analyzer toolBudget policy [field] = some none := by
  have reads : ∀ f ∈ [field], ∃ m, (readField toolBudget f).count = some m ∧ some n = some m := by
    intro f member
    obtain rfl := List.mem_singleton.mp member
    exact ⟨n, read, rfl⟩
  rw [@exhaustedStored_eq analyzer toolBudget policy (fun _ => some n) [field] reads, exhausted,
    List.findSome?_cons]
  dsimp only
  rw [if_neg (Nat.not_le_of_lt below)]
  rfl

theorem count_own {tool : Table StoredCount} (numeric : Numeric tool) {field : JsString}
    (regular : field ∉ inheritedNames) :
    (readField (.own tool) field).count = some (storedCount tool field) := by
  rw [readField_own regular, storedCount]
  cases found : tool.lookup field with
  | none => rfl
  | some count =>
    cases count with
    | number n => rfl
    | other => exact absurd found (numeric field regular)

/-- A query on one field below its limit counts it in the file. -/
theorem preflight_field
    (safe : ¬ (query.clientId ∈ unsafeNames ∨ query.toolName ∈ unsafeNames))
    (stored : server.path query ≠ []) {entry : Option (Table StoredCount)}
    (found : (s.files (server.file (server.path query))).entry query.clientId query.toolName =
      entry)
    {field : JsString} {n : Nat}
    (read : (readField (readEntry entry query.toolName) field).count = some n)
    (below : n < (server.analyzer.queryLimit query.policy field).queries) :
    ((server.preflight { query with extractedFields := [field] } s).2.files
        (server.file (server.path query))).entry query.clientId query.toolName =
      some (incrementStored (entry.getD ∅) field) := by
  subst found
  exact @preflight_stored κ _ server s { query with extractedFields := [field] } safe stored
    (List.cons_ne_nil _ _) (single_passes read below)

/-- The queries on a field can be counted up to its limit. -/
theorem reaches {field : JsString} (regular : field ∉ inheritedNames)
    (safe : ¬ (query.clientId ∈ unsafeNames ∨ query.toolName ∈ unsafeNames))
    (stored : server.path query ≠ [])
    (positive : 1 ≤ (server.analyzer.queryLimit query.policy field).queries) {n : Nat}
    (limited : n ≤ (server.analyzer.queryLimit query.policy field).queries) :
    ∃ events tool, ((Transition.run server.step .start events).files
        (server.file (server.path query))).entry query.clientId query.toolName = some tool ∧
      Numeric tool ∧ n ≤ storedCount tool field := by
  induction n with
  | zero =>
    have after := @preflight_field κ _ server .start query safe stored none rfl _ _
      (read_x query.toolName) (queryLimit_positive positive (js "x"))
    exact ⟨[.preflight { query with extractedFields := [js "x"] }], _, after,
      Numeric.empty.increment (js "x"), Nat.zero_le _⟩
  | succ n ih =>
    obtain ⟨events, tool, entry, numeric, counted⟩ := ih (Nat.le_of_succ_le limited)
    by_cases enough : n + 1 ≤ storedCount tool field
    · exact ⟨events, tool, entry, numeric, enough⟩
    have same : storedCount tool field = n := by omega
    have read := count_own numeric regular
    rw [same] at read
    have after := preflight_field safe stored entry read (Nat.lt_of_succ_le limited)
    refine ⟨events ++ [.preflight { query with extractedFields := [field] }],
      incrementStored tool field, ?_, numeric.increment field, ?_⟩
    · rw [Transition.run_append]
      exact after
    · rw [storedCount, lookup_incrementStored regular (numeric field regular), same]

/-- Where the reset does not reach, some run leaves a count that refuses the next query. -/
theorem not_fullyReset {field : JsString} (member : field ∈ query.extractedFields)
    (regular : field ∉ inheritedNames)
    (safe : ¬ (query.clientId ∈ unsafeNames ∨ query.toolName ∈ unsafeNames))
    (stored : server.path query ≠ [])
    (kept : ¬ server.Configured (server.file (server.path query)))
    (positive : 1 ≤ (server.analyzer.queryLimit query.policy field).queries) :
    ∃ events, ¬ server.FullyReset query (Transition.run server.step .start events) := by
  obtain ⟨events, tool, entry, numeric, full⟩ :=
    reaches regular safe stored positive (Nat.le_refl _)
  obtain ⟨reason, refused⟩ := exhaustedStored_reached member regular full (numeric field regular)
  refine ⟨events, fun full => full.accepted [] (fun _ absent => nomatch absent) ?_⟩
  apply preflight_exceeded safe stored
  rw [Transition.run, List.foldl_nil, reset_files, if_neg fun all => kept all.2.2, entry]
  exact refused

/-- A first query that is counted in memory. -/
theorem preflight_counted (safe : ¬ (query.clientId ∈ unsafeNames ∨ query.toolName ∈ unsafeNames))
    (memory : server.path query = []) {field : JsString} (queried : query.extractedFields = [field])
    (positive : 1 ≤ (server.analyzer.queryLimit query.policy field).queries) :
    (server.preflight query .start).2.memory.count query.clientId query.toolName field = 1 := by
  have accepted : (query.inMemory server.analyzer ∅).1 = none := by
    refine inMemory_accepted ?_ fun _ => rfl
    rw [queried]
    exact List.forall_mem_singleton.mpr positive
  rw [preflight, if_pos memory]
  dsimp only
  rw [BudgetQuery.guarded, if_neg (queried ▸ List.cons_ne_nil field []), if_neg safe]
  rcases applyInMemoryBudget_cases server.analyzer ∅ query.clientId query.toolName
    query.extractedFields query.policy with ⟨rejected, -⟩ | ⟨-, -, charged⟩
  · rw [BudgetQuery.inMemory] at accepted
    rw [accepted] at rejected
    cases rejected
  · refine (congrFun (congrFun (congrFun charged _) _) _).trans ?_
    rw [charge, if_pos ⟨rfl, rfl⟩, queried, List.count_singleton_self]
    rfl

/-- A reset of a tool without a name clears the other tools. -/
theorem unnamed_clears (unnamed : query.toolName = []) (safe : query.clientId ∉ unsafeNames) :
    ∃ events, ¬ server.FullyReset query (Transition.run server.step .start events) := by
  let first : BudgetQuery := ⟨query.clientId, js "x", [js "x"], none⟩
  have named : ¬ (first.clientId ∈ unsafeNames ∨ first.toolName ∈ unsafeNames) :=
    not_or.mpr ⟨safe, show js "x" ∉ unsafeNames by decide⟩
  have positive : 1 ≤ (server.analyzer.queryLimit none (js "x")).queries := by
    unfold TaintAnalyzer.queryLimit
    dsimp only [Option.bind_none]
    split <;> exact Nat.le_add_left 1 _
  have allowed : refusesReset query.clientId (some query.toolName) = false := by
    rw [← Bool.not_eq_true, refusesReset_some, unnamed]
    exact not_or.mpr ⟨safe, by decide⟩
  have clears : Clears query.clientId (some query.toolName) query.clientId (js "x") :=
    ⟨rfl, fun name member named => absurd ((Option.some.inj member).symm.trans unnamed) named⟩
  have other : ¬ (query.clientId = query.clientId ∧ js "x" = query.toolName) := by
    rw [unnamed]
    exact fun same => absurd same.2 (by decide)
  refine ⟨[.preflight first], fun full => ?_⟩
  have unchanged := full.kept query.clientId (js "x") other
  by_cases memory : server.budgetStorePath = []
  · have counted : (server.preflight first .start).2.memory.count query.clientId (js "x")
        (js "x") = 1 := preflight_counted named memory rfl positive
    have same := unchanged.memory (js "x")
    rw [reset_memory, if_pos ⟨allowed, clears⟩] at same
    cases same.trans counted
  · have counted := @preflight_field κ _ server .start first named memory none rfl _ _
      (read_x (js "x")) positive
    have configured : server.Configured (server.file (server.path first)) := ⟨memory, rfl⟩
    have same := unchanged.files (server.file (server.path first))
    rw [reset_files, if_pos ⟨allowed, clears, configured⟩] at same
    cases same.trans counted

/-- The number of parameters of an inherited function is cleared by no reset. -/
theorem parameters_refuse
    (positive : ∀ field ∈ query.extractedFields,
      1 ≤ (server.analyzer.queryLimit query.policy field).queries)
    (safe : ¬ (query.clientId ∈ unsafeNames ∨ query.toolName ∈ unsafeNames))
    (stored : server.path query ≠ []) (parameters : CountsParameters server.analyzer query) :
    ¬ server.FullyReset query .start := by
  intro full
  obtain ⟨n, function, asked⟩ := parameters
  obtain ⟨reason, refused⟩ := (exhaustedStored_inherited positive).mpr asked
  refine full.accepted [] (fun _ absent => nomatch absent)
    (@preflight_exceeded κ _ server _ query reason safe stored ?_)
  have missing : ((BudgetPlaces.start : BudgetPlaces κ).files
    (server.file (server.path query))).entry query.clientId query.toolName = none := rfl
  rw [Transition.run, List.foldl_nil, reset_files, missing, ite_self, readEntry,
    Option.elim_none, Option.mem_def.mp function]
  exact refused

/-- The resets of a client's tool are complete in every run exactly if the next preflight counts
where the reset clears. -/
theorem reset_complete_iff (server : BudgetServer κ) (query : BudgetQuery)
    (positive : ∀ field ∈ query.extractedFields,
      1 ≤ (server.analyzer.queryLimit query.policy field).queries) :
    (∀ events, server.FullyReset query (Transition.run server.step .start events)) ↔
      server.Resettable query := by
  constructor
  · intro full
    by_contra incomplete
    obtain ⟨safe, places⟩ := not_or.mp incomplete
    have named : query.toolName ≠ [] := by
      intro unnamed
      obtain ⟨events, partly⟩ := @unnamed_clears κ _ server query unnamed (not_or.mp safe).1
      exact partly (full events)
    obtain ⟨stored, known⟩ := not_or.mp fun known => places ⟨named, known⟩
    by_cases parameters : CountsParameters server.analyzer query
    · exact parameters_refuse positive safe stored parameters (full [])
    · obtain ⟨kept, counted⟩ := not_or.mp fun reached => known ⟨parameters, reached⟩
      obtain ⟨field, queried⟩ := not_forall.mp counted
      obtain ⟨member, regular⟩ := Classical.not_imp.mp queried
      obtain ⟨events, partly⟩ :=
        not_fullyReset member regular safe stored kept (positive field member)
      exact partly (full events)
  · intro resettable events
    exact fullyReset_of_resettable positive resettable (run_plain server events)

/-- A server that has no file of its own, and one with a file; a path names the file itself. -/
def pathServer (budgetStorePath : JsString) : BudgetServer JsString :=
  ⟨MemoryRun.publicAnalyzer, budgetStorePath, id⟩

/-- A query of a tool whose policy has a file, and allows one query on a field. -/
def filedQuery (budgetStorePath : JsString) : BudgetQuery :=
  ⟨js "c", js "t", [js "f"], some { aggregationPolicy with
    queryBudgetPerField := some 1, budgetStorePath := budgetStorePath }⟩

theorem shared_file_reset :
    (∀ events, (pathServer (js "a")).FullyReset (filedQuery (js "a"))
      (Transition.run (pathServer (js "a")).step .start events)) ↔
        (pathServer (js "a")).Resettable (filedQuery (js "a")) :=
  reset_complete_iff (pathServer (js "a")) (filedQuery (js "a")) (by
    intro field member
    obtain rfl := List.mem_singleton.mp member
    exact Nat.le_refl 1)

/-- The file of the tool's policy keeps its count, and the next query is refused. -/
theorem policy_file_kept :
    (∀ field ∈ (filedQuery (js "b")).extractedFields,
      1 ≤ ((pathServer []).analyzer.queryLimit (filedQuery (js "b")).policy field).queries) ∧
    ¬ (pathServer []).FullyReset (filedQuery (js "b"))
      (Transition.run (pathServer []).step .start [.preflight (filedQuery (js "b"))]) := by
  constructor
  · intro field member
    obtain rfl := List.mem_singleton.mp member
    exact Nat.le_refl 1
  · intro full
    refine full.accepted [] (fun _ absent => nomatch absent) ⟨js "f", List.mem_singleton_self _, ?_⟩
    decide +kernel

end BudgetServer

end NeuralMesh.Server
