import NeuralMesh.Server.BudgetHistory
import NeuralMesh.Server.BudgetStore

/-! The query budget when its file fails. A query that finds no lock or cannot be saved is counted
in memory, and a file that cannot be read is written anew: each of the two counts has its own
bound. -/
namespace NeuralMesh.Server

open Js

/-- `resetFieldBudget`: memory first, then the file, whose failure is only logged. -/
def BudgetCounters.resetFieldBudget (access : StoreAccess) (s : BudgetCounters)
    (clientId : JsString) (toolName : Option JsString) : Option BudgetStore × BudgetCounters :=
  if refusesReset clientId toolName then (none, s)
  else
    let cleared := (executeWithBudgetLock access s.store fun budget =>
      some ((), some (budget.clear clientId toolName))).map (·.2)
    (cleared, ⟨Budgets.clear s.memory clientId toolName, cleared.getD s.store⟩)

/-- A call with its outcome. -/
structure StoreEntry where
  call : BudgetCall
  accepted : Bool
  written : Bool
  readable : Bool

namespace StoreEntry

/-- The reset of a pair. -/
def resets (c t : JsString) (entry : StoreEntry) : Bool := entry.accepted && entry.call.namesReset c t

/-- The file was written from nothing: it was missing, or could not be read or parsed. -/
def rebuilds (entry : StoreEntry) : Bool := entry.written && !entry.readable

def inMemory (entry : StoreEntry) : Bool := entry.accepted && !entry.written

def inStore (entry : StoreEntry) : Bool := entry.accepted && entry.written

end StoreEntry

/-- The selected queries on a field since the last entry that restarts the count; newest first. -/
def countedSince (restarts selected : StoreEntry → Bool) (c t field : JsString) :
    List StoreEntry → Nat
  | [] => 0
  | entry :: earlier =>
    if restarts entry then 0
    else countedSince restarts selected c t field earlier +
      entry.call.queries c t field (selected entry)

structure StoreRun where
  counters : BudgetCounters
  log : List StoreEntry

def StoreRun.start : StoreRun := ⟨.start, []⟩

section Runs

variable (analyzer : TaintAnalyzer) (policies : JsString → Option LogicExecutionPolicy)

def StoreRun.step (s : StoreRun) (event : BudgetCall × StoreAccess) : StoreRun :=
  let access := event.2
  match event.1 with
  | .apply clientId toolName extractedFields =>
    let query : BudgetQuery := ⟨clientId, toolName, extractedFields, policies toolName⟩
    let answer := query.preflight analyzer access s.counters
    let accepted := answer.1.isNone
    ⟨answer.2, ⟨event.1, accepted, accepted && !extractedFields.isEmpty &&
      (query.locked analyzer access s.counters.store).isSome, access.readable⟩ :: s.log⟩
  | .reset clientId toolName =>
    let reset := s.counters.resetFieldBudget access clientId toolName
    ⟨reset.2, ⟨event.1, !refusesReset clientId toolName, reset.1.isSome, access.readable⟩ :: s.log⟩

end Runs

/-! ### What is counted in the file -/

def storedCount (tool : Table StoredCount) (field : JsString) : Nat :=
  match tool.lookup field with
  | some (.number n) => n
  | _ => 0

/-- The entry of a field that no object has by itself is a number. -/
def Numeric (tool : Table StoredCount) : Prop :=
  ∀ field, field ∉ inheritedNames → tool.lookup field ≠ some .other

theorem Numeric.empty : Numeric ∅ := by
  intro field _ other
  rw [AList.lookup_empty] at other
  cases other

theorem lookup_incrementStored_ne (tool : Table StoredCount) {field other : JsString}
    (differ : other ≠ field) : (incrementStored tool field).lookup other = tool.lookup other := by
  unfold incrementStored
  split
  · rfl
  · split
    · exact AList.lookup_insert_ne differ
    · exact AList.lookup_insert_ne differ
    · exact AList.lookup_insert_ne differ

theorem lookup_incrementStored {tool : Table StoredCount} {field : JsString}
    (regular : field ∉ inheritedNames) (number : tool.lookup field ≠ some .other) :
    (incrementStored tool field).lookup field = some (.number (storedCount tool field + 1)) := by
  have ordinary : field ≠ js "__proto__" := fun proto => regular (proto ▸ proto_inherited)
  rw [incrementStored, if_neg ordinary, readField_own regular, storedCount]
  cases found : tool.lookup field with
  | none => exact AList.lookup_insert _
  | some count =>
    cases count with
    | number n => exact AList.lookup_insert _
    | other => exact absurd found number

theorem Numeric.increment {tool : Table StoredCount} (numeric : Numeric tool) (field : JsString) :
    Numeric (incrementStored tool field) := by
  intro f regular
  by_cases same : f = field
  · subst same
    rw [lookup_incrementStored regular (numeric f regular)]
    intro other
    cases other
  · rw [lookup_incrementStored_ne tool same]
    exact numeric f regular

theorem Numeric.increments {tool : Table StoredCount} (numeric : Numeric tool)
    (fields : List JsString) : Numeric (fields.foldl incrementStored tool) := by
  induction fields generalizing tool with
  | nil => exact numeric
  | cons field fields ih => exact ih (numeric.increment field)

theorem storedCount_increments {tool : Table StoredCount} (numeric : Numeric tool)
    (fields : List JsString) {field : JsString} (regular : field ∉ inheritedNames) :
    storedCount (fields.foldl incrementStored tool) field =
      storedCount tool field + fields.count field := by
  induction fields generalizing tool with
  | nil => rfl
  | cons f fields ih =>
    rw [List.foldl_cons, ih (numeric.increment f), List.count_cons]
    by_cases same : f = field
    · subst same
      have next : storedCount (incrementStored tool f) f = storedCount tool f + 1 := by
        rw [storedCount, lookup_incrementStored regular (numeric f regular)]
      rw [next, beq_self_eq_true, if_pos rfl]
      omega
    · have next : storedCount (incrementStored tool f) field = storedCount tool field := by
        rw [storedCount, lookup_incrementStored_ne tool (Ne.symm same), storedCount]
      rw [next, if_neg fun equal => same (beq_iff_eq.mp equal)]
      rfl

section Laws

variable {analyzer : TaintAnalyzer} {policies : JsString → Option LogicExecutionPolicy}

theorem passes_field {limit count : Nat} {reason : JsString} {rest : Option (Option JsString)}
    (passed : (if limit ≤ count then some (some reason) else rest) = some none) :
    count < limit ∧ rest = some none := by
  by_cases reached : limit ≤ count
  · rw [if_pos reached] at passed
    cases Option.some.inj passed
  · rw [if_neg reached] at passed
    exact ⟨Nat.lt_of_not_le reached, passed⟩

/-- A query that passes stays below the limit of each field whose count is a number. -/
theorem exhaustedStored_below {toolBudget : ToolBudget} {policy : Option LogicExecutionPolicy}
    {fields : List JsString}
    (passed : exhaustedStored analyzer toolBudget policy fields = some none)
    {tool : Table StoredCount} {field : JsString} (member : field ∈ fields)
    (read : readField toolBudget field = (tool.lookup field).elim .absent .stored)
    (number : tool.lookup field ≠ some .other) :
    storedCount tool field < (analyzer.queryLimit policy field).queries := by
  induction fields with
  | nil => cases member
  | cons f fields ih =>
    rw [exhaustedStored] at passed
    rcases List.mem_cons.mp member with rfl | later
    · rw [storedCount]
      rw [read] at passed
      cases found : tool.lookup field with
      | none =>
        rw [found] at passed
        exact (passes_field passed).1
      | some count =>
        rw [found] at passed
        cases count with
        | number n => exact (passes_field passed).1
        | other => exact absurd found number
    · refine ih ?_ later
      dsimp only at passed
      split at passed
      · exact (passes_field passed).2
      · exact (passes_field passed).2
      · exact passed
      · cases passed

variable (analyzer) in
/-- What a query does to the locked file. -/
theorem locked_cases (query : BudgetQuery) (access : StoreAccess) (store : BudgetStore) :
    query.locked analyzer access store = none ∨
    (∃ reason, query.locked analyzer access store = some (some reason, store)) ∨
    ∃ read, read = (if access.readable then store else ∅) ∧
      exhaustedStored analyzer (readTool (Table.inner read query.clientId) query.toolName)
        query.policy query.extractedFields = some none ∧
      query.locked analyzer access store = some (none, read.setTool query.clientId query.toolName
        (query.extractedFields.foldl incrementStored (read.tool query.clientId query.toolName))) := by
  unfold BudgetQuery.locked executeWithBudgetLock budgetAction
  by_cases locked : access.locked = true
  · rw [if_pos locked]
    generalize (if access.readable then store else ∅) = read
    dsimp only
    cases checked : exhaustedStored analyzer (readTool (Table.inner read query.clientId)
      query.toolName) query.policy query.extractedFields with
    | none => exact .inl rfl
    | some passed =>
      cases passed with
      | some reason => exact .inr (.inl ⟨reason, rfl⟩)
      | none =>
        dsimp only [Option.map_some, Option.bind_some]
        rw [spread_readTool]
        split_ifs
        · exact .inr (.inr ⟨read, rfl, checked, rfl⟩)
        · exact .inl rfl
  · rw [if_neg locked]
    exact .inl rfl

variable (analyzer) in
/-- A preflight changes no count, or passes and is counted in memory, or passes and is counted in
the file. -/
theorem preflight_cases (query : BudgetQuery) (access : StoreAccess) (s : BudgetCounters) :
    (∃ answer memory, query.preflight analyzer access s = (answer, ⟨memory, s.store⟩) ∧
      FieldQueryBudget.count memory = s.memory.count ∧
      (answer.isNone = false ∨ query.extractedFields = [])) ∨
    (∃ memory, query.preflight analyzer access s = (none, ⟨memory, s.store⟩) ∧
      query.locked analyzer access s.store = none ∧
      (∀ field ∈ query.extractedFields, s.memory.count query.clientId query.toolName field <
        (analyzer.queryLimit query.policy field).queries) ∧
      FieldQueryBudget.count memory =
        charge s.memory.count query.clientId query.toolName query.extractedFields) ∨
    ∃ read store, query.preflight analyzer access s = (none, ⟨s.memory, store⟩) ∧
      query.extractedFields ≠ [] ∧ query.locked analyzer access s.store = some (none, store) ∧
      read = (if access.readable then s.store else ∅) ∧
      exhaustedStored analyzer (readTool (Table.inner read query.clientId) query.toolName)
        query.policy query.extractedFields = some none ∧
      store = read.setTool query.clientId query.toolName
        (query.extractedFields.foldl incrementStored (read.tool query.clientId query.toolName)) := by
  rw [BudgetQuery.preflight, BudgetQuery.guarded]
  by_cases empty : query.extractedFields = []
  · rw [if_pos empty]
    exact .inl ⟨none, s.memory, rfl, rfl, .inr empty⟩
  rw [if_neg empty]
  by_cases refused : query.clientId ∈ unsafeNames ∨ query.toolName ∈ unsafeNames
  · rw [if_pos refused]
    exact .inl ⟨_, s.memory, rfl, rfl, .inl rfl⟩
  rw [if_neg refused, BudgetQuery.persistent]
  rcases locked_cases analyzer query access s.store with
    failed | ⟨reason, rejected⟩ | ⟨read, reads, passed, written⟩
  · rw [failed]
    rcases applyInMemoryBudget_cases analyzer s.memory query.clientId query.toolName
      query.extractedFields query.policy with ⟨rejected, same⟩ | ⟨accepted, below, charged⟩
    · exact .inl ⟨_, _, rfl, same, .inl rejected⟩
    · have passed := Option.isNone_iff_eq_none.mp accepted
      exact .inr (.inl ⟨_, Prod.ext passed rfl, rfl, below, charged⟩)
  · rw [rejected]
    exact .inl ⟨some reason, s.memory, rfl, rfl, .inl rfl⟩
  · rw [written]
    exact .inr (.inr ⟨read, _, rfl, empty, rfl, reads, passed, rfl⟩)

/-- The file is charged like memory. -/
theorem storedCount_setTool {store : BudgetStore} (numeric : ∀ c t, Numeric (store.tool c t))
    (clientId toolName : JsString) (fields : List JsString) (c t : JsString) {field : JsString}
    (regular : field ∉ inheritedNames) :
    storedCount ((store.setTool clientId toolName
        (fields.foldl incrementStored (store.tool clientId toolName))).tool c t) field =
      charge (fun c t field => storedCount (store.tool c t) field) clientId toolName fields c t field := by
  rw [charge]
  by_cases pair : c = clientId ∧ t = toolName
  · rw [if_pos pair]
    obtain ⟨rfl, rfl⟩ := pair
    rw [tool_setTool, storedCount_increments (numeric c t) fields regular]
  · rw [if_neg pair, tool_setTool_ne pair]
    rfl

/-- The counts of a file. -/
def BudgetStore.counts (store : BudgetStore) : Counts :=
  fun c t field => storedCount (Budgets.tool store c t) field

variable (analyzer) in
theorem exhaustedStored_numeric {read : BudgetStore} (numeric : ∀ c t, Numeric (read.tool c t))
    (clientId : JsString) {toolName : JsString} (policy : Option LogicExecutionPolicy)
    {fields : List JsString} (regular : ∀ field ∈ fields, Regular toolName field) :
    exhaustedStored analyzer (readTool (Table.inner read clientId) toolName) policy fields =
      some (exhausted analyzer (fun field => if Regular toolName field then
        some (read.counts clientId toolName field) else none) policy fields) := by
  apply exhaustedStored_eq
  intro field member
  refine ⟨_, ?_, if_pos (regular field member)⟩
  rw [readField_regular (regular field member) read clientId, BudgetStore.counts, storedCount]
  have number := numeric clientId toolName field (regular field member).1
  cases found : (read.tool clientId toolName).lookup field with
  | none => rfl
  | some count =>
    cases count with
    | number n => rfl
    | other => exact absurd found number

/-- On regular fields the file refines the counting of accepted queries. -/
theorem locked_refines (query : BudgetQuery) {access : StoreAccess} (locked : access.locked = true)
    (saved : access.saved = true) {store read : BudgetStore}
    (reads : read = if access.readable then store else ∅)
    (numeric : ∀ c t, Numeric (Budgets.tool read c t))
    (regular : ∀ field ∈ query.extractedFields, Regular query.toolName field)
    (budgets : BudgetState) (path : JsString) :
    let abstract := applyPersistentBudget analyzer budgets path (read.counts)
      query.clientId query.toolName query.extractedFields query.policy
    ∃ after, query.locked analyzer access store = some (abstract.1, after) ∧
      (abstract.1 = none → ∀ c t field, field ∉ inheritedNames →
        after.counts c t field = abstract.2.persistent path c t field) := by
  have checked := exhaustedStored_numeric analyzer numeric query.clientId query.policy
    regular
  unfold applyPersistentBudget BudgetQuery.locked executeWithBudgetLock budgetAction
  dsimp only
  rw [if_pos locked, ← reads, checked]
  cases exhausted analyzer (fun field => if Regular query.toolName field then
      some (read.counts query.clientId query.toolName field) else none) query.policy
      query.extractedFields with
  | some reason => exact ⟨store, rfl, fun accepted => nomatch accepted⟩
  | none =>
    refine ⟨_, if_pos saved, fun _ c t field ordinary => ?_⟩
    dsimp only
    rw [spread_readTool, if_pos rfl, BudgetStore.counts]
    exact storedCount_setTool numeric query.clientId query.toolName query.extractedFields c t ordinary

/-! ### Both bounds -/

/-- A count and its limit bound the queries since the last restart. -/
structure Within (restarts selected : StoreEntry → Bool) (c t field : JsString)
    (log : List StoreEntry) (count limit : Nat) : Prop where
  counted : countedSince restarts selected c t field log ≤ count
  limited : countedSince restarts selected c t field log ≤ limit

theorem queries_le_one (call : BudgetCall) (c t field : JsString) (accepted : Bool) :
    call.queries c t field accepted ≤ 1 := by
  cases call with
  | apply clientId toolName fields =>
    rw [BudgetCall.queries]
    split_ifs
    · exact Nat.le_refl 1
    · exact Nat.zero_le 1
  | reset clientId toolName => exact Nat.zero_le 1

/-- An entry that does not restart keeps the count, and raises it from below the limit when it is
selected. -/
theorem Within.next {restarts selected : StoreEntry → Bool} {c t field : JsString}
    {log : List StoreEntry} {count limit : Nat}
    (before : Within restarts selected c t field log count limit) {entry : StoreEntry} {after : Nat}
    (kept : restarts entry = false → count ≤ after)
    (raised : restarts entry = false → entry.call.queries c t field (selected entry) ≠ 0 →
      count < limit ∧ count < after) :
    Within restarts selected c t field (entry :: log) after limit := by
  cases restarted : restarts entry with
  | true =>
    have none : countedSince restarts selected c t field (entry :: log) = 0 := by
      rw [countedSince, if_pos restarted]
    exact ⟨none ▸ Nat.zero_le _, none ▸ Nat.zero_le _⟩
  | false =>
    have next : countedSince restarts selected c t field (entry :: log) =
        countedSince restarts selected c t field log +
          entry.call.queries c t field (selected entry) := by
      rw [countedSince, if_neg]
      rw [restarted]
      exact Bool.false_ne_true
    have grows := kept restarted
    have below := before.counted
    have limited := before.limited
    by_cases selects : entry.call.queries c t field (selected entry) = 0
    · constructor
      · rw [next]
        omega
      · rw [next]
        omega
    · have single := queries_le_one entry.call c t field (selected entry)
      obtain ⟨free, higher⟩ := raised restarted selects
      constructor
      · rw [next]
        omega
      · rw [next]
        omega

/-- The count in the file restarts with a reset, and when the file is rebuilt. -/
def storeRestarts (c t : JsString) (entry : StoreEntry) : Bool :=
  entry.resets c t || entry.rebuilds

structure StoreRun.Bounded (analyzer : TaintAnalyzer) (policies : JsString → Option LogicExecutionPolicy)
    (s : StoreRun) : Prop where
  numeric : ∀ c t, Numeric (s.counters.store.tool c t)
  memory : ∀ c t field, Within (·.resets c t) (·.inMemory) c t field s.log
    (s.counters.memory.count c t field) (fieldLimitOf analyzer policies t field)
  store : ∀ c t field, Regular t field → Within (storeRestarts c t) (·.inStore) c t field s.log
    (storedCount (s.counters.store.tool c t) field) (fieldLimitOf analyzer policies t field)

theorem start_bounded : StoreRun.start.Bounded analyzer policies :=
  ⟨fun _ _ => Numeric.empty, fun _ _ _ => ⟨Nat.le_refl 0, Nat.zero_le _⟩,
    fun _ _ _ _ => ⟨Nat.le_refl 0, Nat.zero_le _⟩⟩

theorem queries_apply_ne_zero {clientId toolName c t field : JsString} {fields : List JsString}
    {accepted : Bool}
    (queried : (BudgetCall.apply clientId toolName fields).queries c t field accepted ≠ 0) :
    accepted = true ∧ (c = clientId ∧ t = toolName) ∧ field ∈ fields := by
  rw [BudgetCall.queries] at queried
  exact of_not_not fun others => queried (if_neg others)

theorem numeric_setTool {store : BudgetStore} (numeric : ∀ c t, Numeric (store.tool c t))
    {tool : Table StoredCount} (tools : Numeric tool) (clientId toolName c t : JsString) :
    Numeric ((store.setTool clientId toolName tool).tool c t) := by
  by_cases pair : c = clientId ∧ t = toolName
  · obtain ⟨rfl, rfl⟩ := pair
    rw [tool_setTool]
    exact tools
  · rw [tool_setTool_ne pair]
    exact numeric c t

theorem apply_bounded {s : StoreRun} (good : s.Bounded analyzer policies)
    (clientId toolName : JsString) (fields : List JsString) (access : StoreAccess) :
    (s.step analyzer policies (.apply clientId toolName fields, access)).Bounded analyzer policies := by
  rw [StoreRun.step]
  dsimp only
  rcases preflight_cases analyzer ⟨clientId, toolName, fields, policies toolName⟩ access
      s.counters with ⟨answer, memory, same, counts, idle⟩ | ⟨memory, same, failed, below, charged⟩ |
      ⟨read, store, same, some_field, written, reads, passed, stored⟩
  · -- Nothing is counted: the query is rejected, or has no field.
    rw [same]
    have unselected {c t field : JsString} {accepted : Bool} (selected : accepted = true →
        answer.isNone = true) :
        ¬ (BudgetCall.apply clientId toolName fields).queries c t field accepted ≠ 0 := by
      intro queried
      obtain ⟨accepts, -, member⟩ := queries_apply_ne_zero queried
      rcases idle with rejected | empty
      · exact Bool.false_ne_true (rejected.symm.trans (selected accepts))
      · rw [show fields = [] from empty] at member
        cases member
    refine ⟨good.numeric, ?_, ?_⟩
    · intro c t field
      refine (good.memory c t field).next (fun _ => Nat.le_of_eq (congrFun₃ counts.symm c t field)) ?_
      exact fun _ queried => absurd queried
        (unselected fun accepts => (Bool.and_eq_true_iff.mp accepts).1)
    · intro c t field regular
      refine (good.store c t field regular).next (fun _ => Nat.le_refl _) ?_
      exact fun _ queried => absurd queried
        (unselected fun accepts => (Bool.and_eq_true_iff.mp accepts).1)
  · rw [same, failed]
    refine ⟨good.numeric, ?_, ?_⟩
    · intro c t field
      refine (good.memory c t field).next (fun _ => ?_) (fun _ queried => ?_)
      · rw [charged]
        exact charge_le _ _ _ _ _ _ _
      · obtain ⟨-, ⟨rfl, rfl⟩, member⟩ := queries_apply_ne_zero queried
        rw [charged]
        exact ⟨below field member, charge_lt _ _ _ member⟩
    · intro c t field regular
      refine (good.store c t field regular).next (fun _ => Nat.le_refl _) (fun _ queried => ?_)
      have accepts := (queries_apply_ne_zero queried).1
      rw [StoreEntry.inStore, Option.isSome_none, Bool.and_false, Bool.and_false] at accepts
      cases accepts
  · rw [same, written, List.isEmpty_eq_false_iff.mpr some_field]
    subst stored
    have numeric : ∀ c t, Numeric (Budgets.tool read c t) := by
      rw [reads]
      split_ifs
      · exact good.numeric
      · exact fun _ _ => Numeric.empty
    refine ⟨?_, ?_, ?_⟩
    · intro c t
      exact numeric_setTool numeric ((numeric clientId toolName).increments fields) _ _ c t
    · intro c t field
      refine (good.memory c t field).next (fun _ => Nat.le_refl _) (fun _ queried => ?_)
      have accepts := (queries_apply_ne_zero queried).1
      cases accepts
    · intro c t field regular
      have kept (restarted : storeRestarts c t ⟨.apply clientId toolName fields, true, true,
          access.readable⟩ = false) : read = s.counters.store := by
        have readable : access.readable = true := Bool.not_eq_eq_eq_not.mp restarted
        rw [reads, if_pos readable]
      refine (good.store c t field regular).next (fun restarted => ?_) (fun restarted queried => ?_)
      · obtain rfl := kept restarted
        rw [storedCount_setTool numeric clientId toolName fields c t regular.1]
        exact charge_le (fun c t field => storedCount (Budgets.tool s.counters.store c t) field)
          _ _ _ _ _ _
      · obtain rfl := kept restarted
        obtain ⟨-, ⟨rfl, rfl⟩, member⟩ := queries_apply_ne_zero queried
        rw [storedCount_setTool numeric c t fields c t regular.1]
        constructor
        · exact exhaustedStored_below passed member (readField_regular regular s.counters.store c)
            (numeric c t field regular.1)
        · exact charge_lt (fun c t field => storedCount (Budgets.tool s.counters.store c t) field)
            _ _ member

/-- What a reset that the guard lets through does. -/
theorem resetFieldBudget_cases {clientId : JsString} {toolName : Option JsString}
    (allowed : refusesReset clientId toolName = false) (access : StoreAccess) (s : BudgetCounters) :
    let memory := Budgets.clear s.memory clientId toolName
    s.resetFieldBudget access clientId toolName = (none, ⟨memory, s.store⟩) ∨
    ∃ store, s.resetFieldBudget access clientId toolName = (some store, ⟨memory, store⟩) ∧
      store = (if access.readable then s.store else ∅).clear clientId toolName := by
  rw [BudgetCounters.resetFieldBudget, allowed, if_neg Bool.false_ne_true, executeWithBudgetLock]
  by_cases locked : access.locked = true
  · by_cases saved : access.saved = true
    · rw [if_pos locked]
      dsimp only [Option.bind_some]
      rw [if_pos saved]
      exact .inr ⟨_, rfl, rfl⟩
    · rw [if_pos locked]
      dsimp only [Option.bind_some]
      rw [if_neg saved]
      exact .inl rfl
  · rw [if_neg locked]
    exact .inl rfl

theorem reset_bounded {s : StoreRun} (good : s.Bounded analyzer policies) (clientId : JsString)
    (toolName : Option JsString) (access : StoreAccess) :
    (s.step analyzer policies (.reset clientId toolName, access)).Bounded analyzer policies := by
  unfold StoreRun.step
  dsimp only
  have idle {c t field : JsString} {accepted : Bool} {P : Prop}
      (queried : (BudgetCall.reset clientId toolName).queries c t field accepted ≠ 0) : P :=
    absurd rfl queried
  cases refused : refusesReset clientId toolName with
  | true =>
    rw [BudgetCounters.resetFieldBudget, if_pos refused]
    refine ⟨good.numeric, ?_, ?_⟩
    · intro c t field
      exact (good.memory c t field).next (fun _ => Nat.le_refl _) fun _ queried => idle queried
    · intro c t field regular
      exact (good.store c t field regular).next (fun _ => Nat.le_refl _) fun _ queried => idle queried
  | false =>
    have memory {c t field : JsString} {written : Bool}
        (restarted : StoreEntry.resets c t ⟨.reset clientId toolName, true, written,
          access.readable⟩ = false) : s.counters.memory.count c t field ≤
          FieldQueryBudget.count (Budgets.clear s.counters.memory clientId toolName) c t field := by
      have kept : ¬ Clears clientId toolName c t := of_decide_eq_false restarted
      rw [FieldQueryBudget.count, FieldQueryBudget.count, tool_clear, if_neg kept]
    rcases resetFieldBudget_cases refused access s.counters with failed | ⟨store, written, cleared⟩
    · rw [failed]
      refine ⟨good.numeric, ?_, ?_⟩
      · intro c t field
        exact (good.memory c t field).next memory fun _ queried => idle queried
      · intro c t field regular
        exact (good.store c t field regular).next (fun _ => Nat.le_refl _) fun _ queried => idle queried
    · rw [written]
      subst cleared
      refine ⟨?_, ?_, ?_⟩
      · intro c t
        rw [tool_clear]
        split_ifs
        · exact Numeric.empty
        · exact good.numeric c t
        · exact Numeric.empty
      · intro c t field
        exact (good.memory c t field).next memory fun _ queried => idle queried
      · intro c t field regular
        refine (good.store c t field regular).next (fun restarted => ?_) fun _ queried => idle queried
        obtain ⟨kept, readable⟩ := Bool.or_eq_false_iff.mp restarted
        have kept : ¬ Clears clientId toolName c t := of_decide_eq_false kept
        have readable : access.readable = true := Bool.not_eq_eq_eq_not.mp readable
        rw [tool_clear, if_neg kept, if_pos readable]

theorem step_bounded (s : StoreRun) (event : BudgetCall × StoreAccess)
    (good : s.Bounded analyzer policies) (_ : True) :
    (s.step analyzer policies event).Bounded analyzer policies := by
  obtain ⟨call, access⟩ := event
  cases call with
  | apply clientId toolName fields => exact apply_bounded good clientId toolName fields access
  | reset clientId toolName => exact reset_bounded good clientId toolName access

/-- Each accepted query is counted in memory or in the file. -/
theorem countedSince_accepted (restarts : StoreEntry → Bool) (c t field : JsString)
    (log : List StoreEntry) : countedSince restarts (·.accepted) c t field log =
      countedSince restarts (·.inMemory) c t field log +
        countedSince restarts (·.inStore) c t field log := by
  induction log with
  | nil => rfl
  | cons entry log ih =>
    have divided : entry.call.queries c t field entry.accepted =
        entry.call.queries c t field entry.inMemory + entry.call.queries c t field entry.inStore := by
      obtain ⟨call, accepted, written, readable⟩ := entry
      cases call with
      | reset clientId toolName => rfl
      | apply clientId toolName fields =>
        unfold BudgetCall.queries StoreEntry.inMemory StoreEntry.inStore
        cases accepted <;> cases written <;> simp
    rw [countedSince, countedSince, countedSince]
    split_ifs
    · rfl
    · rw [ih, divided]
      omega

/-- While the file is not rebuilt, its count restarts with a reset only. -/
theorem countedSince_kept {c t : JsString} {log : List StoreEntry}
    (kept : ∀ entry ∈ log.takeWhile (!·.resets c t), entry.rebuilds = false)
    (selected : StoreEntry → Bool) (field : JsString) :
    countedSince (storeRestarts c t) selected c t field log =
      countedSince (·.resets c t) selected c t field log := by
  induction log with
  | nil => rfl
  | cons entry log ih =>
    rw [countedSince, countedSince, storeRestarts]
    cases reset : entry.resets c t with
    | true => rfl
    | false =>
      rw [List.takeWhile_cons, reset, Bool.not_false, if_pos rfl] at kept
      obtain ⟨first, others⟩ := List.forall_mem_cons.mp kept
      rw [first, ih others]
      rfl

/-- In every run with failures, the queries on a field that are counted in memory since the last
reset stay within the limit, and so do those counted in the file since the last reset or the last
time the file was rebuilt; while it is not rebuilt, all of them stay within twice the limit. -/
theorem run_bounded (events : List (BudgetCall × StoreAccess)) (c : JsString) {t field : JsString}
    (regular : Regular t field) :
    let log := (Transition.run (StoreRun.step analyzer policies) .start events).log
    let limit := fieldLimitOf analyzer policies t field
    countedSince (·.resets c t) (·.inMemory) c t field log ≤ limit ∧
      countedSince (storeRestarts c t) (·.inStore) c t field log ≤ limit ∧
      ((∀ entry ∈ log.takeWhile (!·.resets c t), entry.rebuilds = false) →
        countedSince (·.resets c t) (·.accepted) c t field log ≤ 2 * limit) := by
  have good := Transition.run_invariant step_bounded
    (start_bounded : StoreRun.start.Bounded analyzer policies)
    (.of_forall (fun _ _ _ => trivial) StoreRun.start : Transition.Allowed _ _ _ events)
  have memory := (good.memory c t field).limited
  have store := (good.store c t field regular).limited
  refine ⟨memory, store, fun kept => ?_⟩
  rw [countedSince_kept kept] at store
  rw [countedSince_accepted]
  omega

end Laws

/-! ### Three queries in the file, one in memory -/

def fourthUnlocked (field : JsString) : List (BudgetCall × StoreAccess) :=
  let call := BudgetCall.apply (js "c") (js "t") [field]
  [(call, .working), (call, .working), (call, .working),
    (call, { StoreAccess.working with locked := false })]

theorem fourthUnlocked_bounded :
    countedSince (·.resets (js "c") (js "t")) (·.inMemory) (js "c") (js "t") (js "balance")
      (Transition.run (StoreRun.step (forbidding (js "balance")) fun _ => none) .start
        (fourthUnlocked (js "balance"))).log ≤ 3 := by
  have regular : Regular (js "t") (js "balance") :=
    ⟨by decide, fun function => absurd function (by decide)⟩
  have bounded := @run_bounded (forbidding (js "balance")) (fun _ => none)
    (fourthUnlocked (js "balance")) (js "c") _ _ regular
  exact bounded.1

/-- When the lock cannot be taken, a fourth query on a forbidden field is accepted. -/
theorem fourthUnlocked_accepted :
    let log := (Transition.run (StoreRun.step (forbidding (js "balance")) fun _ => none) .start
      (fourthUnlocked (js "balance"))).log
    countedSince (·.resets (js "c") (js "t")) (·.accepted) (js "c") (js "t") (js "balance") log = 4 ∧
      fieldLimitOf (forbidding (js "balance")) (fun _ => none) (js "t") (js "balance") = 3 := by
  decide +kernel

end NeuralMesh.Server
