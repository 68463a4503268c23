import NeuralMesh.Server.BudgetTables

/-! The query budget in a file. What a plain object inherits stands in for a count that was
never stored, so only fields that no object has by itself are counted as in memory. -/
namespace NeuralMesh.Server

open Js

/-! ### Counts in objects -/

inductive StoredCount where
  | number (n : Nat)
  /-- A function, or a text that is no number: it is below no limit and reaches none. -/
  | other
  deriving DecidableEq

/-- The content of the budget file. -/
abbrev BudgetStore := Budgets StoredCount

inductive ToolBudget where
  | own (counts : Table StoredCount)
  | inherited (parameters : Nat)

/-- `clientBudget[_toolName] || {}` -/
def readTool (clientBudget : Table (Table StoredCount)) (toolName : JsString) : ToolBudget :=
  match clientBudget.lookup toolName with
  | some counts => .own counts
  | none => (inheritedFunctions.lookup toolName).elim (.own ∅) .inherited

inductive Property where
  | absent
  | stored (count : StoredCount)
  | throws

def Property.count : Property → Option Nat
  | .absent => some 0
  | .stored (.number n) => some n
  | _ => none

/-- `toolBudget[field]` -/
def readField (toolBudget : ToolBudget) (field : JsString) : Property :=
  match toolBudget with
  | .own counts =>
    match counts.lookup field with
    | some count => .stored count
    | none => if field ∈ inheritedNames then .stored .other else .absent
  | .inherited parameters =>
    if field = js "length" then .stored (.number parameters)
    else if field = js "caller" ∨ field = js "arguments" then .throws
    else if field ∈ functionMembers ∨ field ∈ inheritedNames then .stored .other
    else .absent

/-- `{ ...toolBudget }` -/
def ToolBudget.spread : ToolBudget → Table StoredCount
  | .own counts => counts
  | .inherited _ => ∅

/-- An assignment to `__proto__` of a text does nothing. -/
def incrementStored (counts : Table StoredCount) (field : JsString) : Table StoredCount :=
  if field = js "__proto__" then counts
  else
    match readField (.own counts) field with
    | .stored (.number n) => counts.insert field (.number (n + 1))
    | .stored .other => counts.insert field .other
    | _ => counts.insert field (.number 1)

section Store

variable (analyzer : TaintAnalyzer)

/-- The first field whose count has reached its limit; `none` is an exception. -/
def exhaustedStored (toolBudget : ToolBudget) (policy : Option LogicExecutionPolicy) :
    List JsString → Option (Option JsString)
  | [] => some none
  | field :: fields =>
    let limit := analyzer.queryLimit policy field
    let reached (count : Nat) := if limit.queries ≤ count then some (some (budgetExceeded field limit))
      else exhaustedStored toolBudget policy fields
    match readField toolBudget field with
    | .absent => reached 0
    | .stored (.number n) => reached n
    | .stored .other => exhaustedStored toolBudget policy fields
    | .throws => none

/-- The action under the lock: a rejection leaves the store as it is. -/
def budgetAction (clientId toolName : JsString) (extractedFields : List JsString)
    (policy : Option LogicExecutionPolicy) (budget : BudgetStore) :
    Option (Option JsString × Option BudgetStore) :=
  let toolBudget := readTool (Table.inner budget clientId) toolName
  (exhaustedStored analyzer toolBudget policy extractedFields).map fun
    | some reason => (some reason, none)
    | none => (none, some (budget.setTool clientId toolName
        (extractedFields.foldl incrementStored toolBudget.spread)))

/-- How the lock and the file behave: the lock is taken, the file is read and parsed, the new
content is written and renamed. -/
structure StoreAccess where
  locked : Bool
  readable : Bool
  saved : Bool

def StoreAccess.working : StoreAccess := ⟨true, true, true⟩

/-- `none` is an exception. A file that is missing or cannot be read is taken as empty. -/
def executeWithBudgetLock {α : Type} (access : StoreAccess) (store : BudgetStore)
    (action : BudgetStore → Option (α × Option BudgetStore)) : Option (α × BudgetStore) :=
  if access.locked then
    (action (if access.readable then store else ∅)).bind fun
      | (result, none) => some (result, store)
      | (result, some updatedBudget) => if access.saved then some (result, updatedBudget) else none
  else none

structure BudgetQuery where
  clientId : JsString
  toolName : JsString
  extractedFields : List JsString
  policy : Option LogicExecutionPolicy

/-- The counts in memory and in the file. -/
structure BudgetCounters where
  memory : FieldQueryBudget
  store : BudgetStore

def BudgetCounters.start : BudgetCounters := ⟨∅, ∅⟩

def BudgetQuery.inMemory (query : BudgetQuery) (memory : FieldQueryBudget) :
    Option JsString × FieldQueryBudget :=
  memory.applyInMemoryBudget analyzer query.clientId query.toolName query.extractedFields
    query.policy

def BudgetQuery.locked (query : BudgetQuery) (access : StoreAccess) (store : BudgetStore) :
    Option (Option JsString × BudgetStore) :=
  executeWithBudgetLock access store
    (budgetAction analyzer query.clientId query.toolName query.extractedFields query.policy)

/-- The budget phase with a configured file. -/
def BudgetQuery.persistent (query : BudgetQuery) (access : StoreAccess) (s : BudgetCounters) :
    Option JsString × BudgetCounters :=
  match query.locked analyzer access s.store with
  | some (budgetError, store) => (budgetError, { s with store := store })
  | none =>
    let inMemory := query.inMemory analyzer s.memory
    (inMemory.1, { s with memory := inMemory.2 })

/-- The guard in front of either budget. -/
def BudgetQuery.guarded {σ : Type} (query : BudgetQuery) (s : σ)
    (budget : Option JsString × σ) : Option JsString × σ :=
  if query.extractedFields = [] then (none, s)
  else if query.clientId ∈ unsafeNames ∨ query.toolName ∈ unsafeNames then
    (some (js "Preflight policy rejected: invalid property key names (prototype pollution guard)."), s)
  else budget

/-- A preflight with a configured file. -/
def BudgetQuery.preflight (query : BudgetQuery) (access : StoreAccess) (s : BudgetCounters) :
    Option JsString × BudgetCounters :=
  query.guarded s (query.persistent analyzer access s)

/-- What the preflights answer with the file, and in memory. -/
def persistentAnswers (access : StoreAccess) : BudgetCounters → List BudgetQuery →
    List (Option JsString)
  | _, [] => []
  | s, query :: queries =>
    let answer := query.preflight analyzer access s
    answer.1 :: persistentAnswers access answer.2 queries

def memoryAnswers : FieldQueryBudget → List BudgetQuery → List (Option JsString)
  | _, [] => []
  | memory, query :: queries =>
    let answer := query.guarded memory (query.inMemory analyzer memory)
    answer.1 :: memoryAnswers answer.2 queries

end Store

/-! ### Fields that no object has by itself -/

theorem proto_inherited : js "__proto__" ∈ inheritedNames :=
  List.mem_map_of_mem (by simp)

theorem readField_own {field : JsString} (regular : field ∉ inheritedNames)
    (counts : Table StoredCount) :
    readField (.own counts) field = (counts.lookup field).elim .absent .stored := by
  rw [readField]
  cases counts.lookup field with
  | some count => rfl
  | none => exact if_neg regular

theorem readField_regular {toolName field : JsString} (regular : Regular toolName field)
    (budget : BudgetStore) (clientId : JsString) :
    readField (readTool (Table.inner budget clientId) toolName) field =
      ((budget.tool clientId toolName).lookup field).elim .absent .stored := by
  rw [readTool, Budgets.tool]
  cases stored : (Table.inner budget clientId).lookup toolName with
  | some counts =>
    have inner : (Table.inner budget clientId).inner toolName = counts := by
      rw [Table.inner, stored]
      rfl
    rw [inner]
    exact readField_own regular.1 counts
  | none =>
    have inner : (Table.inner budget clientId).inner toolName = ∅ := by
      rw [Table.inner, stored]
      rfl
    rw [inner, AList.lookup_empty]
    cases function : inheritedFunctions.lookup toolName with
    | none => exact readField_own regular.1 ∅
    | some parameters =>
      have other : field ∉ functionMembers := regular.2 (by rw [function]; rfl)
      have named {name : String} (member : js name ∈ functionMembers) : field ≠ js name :=
        fun same => other (same ▸ member)
      change readField (.inherited parameters) field = .absent
      rw [readField, if_neg (named (List.mem_map_of_mem (by simp))), if_neg, if_neg]
      · exact not_or.mpr ⟨other, regular.1⟩
      · exact not_or.mpr ⟨named (List.mem_map_of_mem (by simp)),
          named (List.mem_map_of_mem (by simp))⟩

theorem spread_readTool (budget : BudgetStore) (clientId toolName : JsString) :
    (readTool (Table.inner budget clientId) toolName).spread = budget.tool clientId toolName := by
  rw [readTool, Budgets.tool, Table.inner.eq_def (Table.inner budget clientId)]
  cases (Table.inner budget clientId).lookup toolName with
  | some counts => rfl
  | none => cases inheritedFunctions.lookup toolName <;> rfl

/-- The stored counts are the counts in memory. -/
def SameCounts (counts : Table Nat) (stored : Table StoredCount) : Prop :=
  ∀ field, stored.lookup field = (counts.lookup field).map .number

theorem SameCounts.increment {counts : Table Nat} {stored : Table StoredCount}
    (same : SameCounts counts stored) {field : JsString} (regular : field ∉ inheritedNames) :
    SameCounts (increment counts field) (incrementStored stored field) := by
  have ordinary : field ≠ js "__proto__" := fun proto => regular (proto ▸ proto_inherited)
  have next : incrementStored stored field =
      stored.insert field (.number ((counts.lookup field).getD 0 + 1)) := by
    rw [incrementStored, if_neg ordinary, readField_own regular, same field]
    cases counts.lookup field <;> rfl
  intro f
  rw [next, Server.increment]
  by_cases here : f = field
  · subst here
    rw [AList.lookup_insert, AList.lookup_insert]
    rfl
  · rw [AList.lookup_insert_ne here, AList.lookup_insert_ne here]
    exact same f

theorem SameCounts.increments {counts : Table Nat} {stored : Table StoredCount}
    (same : SameCounts counts stored) {fields : List JsString}
    (regular : ∀ field ∈ fields, field ∉ inheritedNames) :
    SameCounts (fields.foldl Server.increment counts) (fields.foldl incrementStored stored) := by
  induction fields generalizing counts stored with
  | nil => exact same
  | cons field fields ih =>
    obtain ⟨first, others⟩ := List.forall_mem_cons.mp regular
    exact ih (same.increment first) others

section Laws

variable {analyzer : TaintAnalyzer}

/-- Where each field reads as a number, the check is the one of memory. -/
theorem exhaustedStored_eq {toolBudget : ToolBudget} (policy : Option LogicExecutionPolicy)
    {count : JsString → Option Nat} {fields : List JsString}
    (reads : ∀ field ∈ fields, ∃ n, (readField toolBudget field).count = some n ∧
      count field = some n) :
    exhaustedStored analyzer toolBudget policy fields =
      some (exhausted analyzer count policy fields) := by
  induction fields with
  | nil => rfl
  | cons field fields ih =>
    obtain ⟨⟨n, read, counted⟩, others⟩ := List.forall_mem_cons.mp reads
    have later := ih others
    unfold exhausted at later ⊢
    rw [exhaustedStored, List.findSome?_cons, later]
    dsimp only
    rw [counted]
    cases found : readField toolBudget field with
    | absent =>
      obtain rfl : 0 = n := Option.some.inj ((congrArg Property.count found).symm.trans read)
      dsimp only
      by_cases reached : (analyzer.queryLimit policy field).queries ≤ 0
      · rw [if_pos reached, if_pos reached]
      · rw [if_neg reached, if_neg reached]
    | stored stored =>
      cases stored with
      | number m =>
        obtain rfl : m = n := Option.some.inj ((congrArg Property.count found).symm.trans read)
        dsimp only
        by_cases reached : (analyzer.queryLimit policy field).queries ≤ m
        · rw [if_pos reached, if_pos reached]
        · rw [if_neg reached, if_neg reached]
      | other => cases (congrArg Property.count found).symm.trans read
    | throws => cases (congrArg Property.count found).symm.trans read

variable (analyzer) in
theorem exhaustedStored_regular {budget : BudgetStore} {counts : Table Nat}
    {clientId toolName : JsString} (same : SameCounts counts (budget.tool clientId toolName))
    (policy : Option LogicExecutionPolicy) {fields : List JsString}
    (regular : ∀ field ∈ fields, Regular toolName field) :
    exhaustedStored analyzer (readTool (Table.inner budget clientId) toolName) policy fields =
      some (exhausted analyzer (fun field => some ((counts.lookup field).getD 0)) policy fields) := by
  apply exhaustedStored_eq
  intro field member
  refine ⟨_, ?_, rfl⟩
  rw [readField_regular (regular field member) budget clientId, same field]
  cases counts.lookup field <;> rfl

/-- The file holds the counts of memory. -/
def Mirrors (memory : FieldQueryBudget) (store : BudgetStore) : Prop :=
  ∀ clientId toolName, SameCounts (memory.tool clientId toolName) (store.tool clientId toolName)

theorem Mirrors.setTool {memory : FieldQueryBudget} {store : BudgetStore}
    (same : Mirrors memory store) {counts : Table Nat} {stored : Table StoredCount}
    (tools : SameCounts counts stored) (clientId toolName : JsString) :
    Mirrors (Budgets.setTool memory clientId toolName counts)
      (store.setTool clientId toolName stored) := by
  intro c t
  by_cases pair : c = clientId ∧ t = toolName
  · obtain ⟨rfl, rfl⟩ := pair
    rw [tool_setTool, tool_setTool]
    exact tools
  · rw [tool_setTool_ne pair, tool_setTool_ne pair]
    exact same c t

variable (analyzer) in
/-- A preflight answers alike, and the counts stay alike. -/
theorem persistent_inMemory {query : BudgetQuery}
    (regular : ∀ field ∈ query.extractedFields, Regular query.toolName field)
    {memory : FieldQueryBudget} {s : BudgetCounters} (same : Mirrors memory s.store) :
    (query.persistent analyzer .working s).1 = (query.inMemory analyzer memory).1 ∧
      Mirrors (query.inMemory analyzer memory).2 (query.persistent analyzer .working s).2.store := by
  have tools := same query.clientId query.toolName
  have checked := exhaustedStored_regular analyzer tools query.policy regular
  have fields : ∀ field ∈ query.extractedFields, field ∉ inheritedNames :=
    fun field member => (regular field member).1
  unfold BudgetQuery.persistent BudgetQuery.inMemory FieldQueryBudget.applyInMemoryBudget
  unfold BudgetQuery.locked executeWithBudgetLock budgetAction StoreAccess.working
  dsimp only
  rw [if_pos rfl, if_pos rfl, checked, spread_readTool]
  cases exhausted analyzer (fun field => some
      (((memory.tool query.clientId query.toolName).lookup field).getD 0)) query.policy
      query.extractedFields with
  | some reason =>
    refine ⟨rfl, ?_⟩
    intro c t
    by_cases pair : c = query.clientId ∧ t = query.toolName
    · obtain ⟨rfl, rfl⟩ := pair
      dsimp only
      rw [tool_setTool]
      exact tools
    · dsimp only
      rw [tool_setTool_ne pair]
      exact same c t
  | none => exact ⟨rfl, same.setTool (tools.increments fields) query.clientId query.toolName⟩

theorem answers_of_mirrors {queries : List BudgetQuery}
    (regular : ∀ query ∈ queries, ∀ field ∈ query.extractedFields, Regular query.toolName field)
    {memory : FieldQueryBudget} {s : BudgetCounters} (same : Mirrors memory s.store) :
    persistentAnswers analyzer .working s queries = memoryAnswers analyzer memory queries := by
  induction queries generalizing memory s with
  | nil => rfl
  | cons query queries ih =>
    obtain ⟨first, others⟩ := List.forall_mem_cons.mp regular
    obtain ⟨answer, next⟩ := persistent_inMemory analyzer first same
    rw [persistentAnswers, memoryAnswers, BudgetQuery.preflight, BudgetQuery.guarded,
      BudgetQuery.guarded]
    split_ifs
    · exact congrArg _ (ih others same)
    · exact congrArg _ (ih others same)
    · rw [answer, ih others next]

/-- A run whose fields no object has by itself is answered as in memory. -/
theorem persistent_eq_inMemory {queries : List BudgetQuery}
    (regular : ∀ query ∈ queries, ∀ field ∈ query.extractedFields, Regular query.toolName field) :
    persistentAnswers analyzer .working .start queries = memoryAnswers analyzer ∅ queries := by
  apply answers_of_mirrors regular
  intro clientId toolName field
  rfl

end Laws

/-! ### One field and one that is inherited -/

/-- Four queries on the field, where each field may be queried three times. -/
def fourQueries (field : JsString) : List BudgetQuery :=
  List.replicate 4 ⟨js "c", js "t", [field], none⟩

def forbidding (field : JsString) : TaintAnalyzer := ⟨fun _ _ _ => none, fun _ => [], id, [field], []⟩

theorem four_balances_alike :
    persistentAnswers (forbidding (js "balance")) .working .start (fourQueries (js "balance")) =
      memoryAnswers (forbidding (js "balance")) ∅ (fourQueries (js "balance")) := by
  apply persistent_eq_inMemory
  intro query member field queried
  cases List.eq_of_mem_replicate member
  cases List.mem_singleton.mp queried
  exact ⟨by decide, fun function => absurd function (by decide)⟩

/-- A field named like an inherited member is never exhausted in the file. -/
theorem constructor_unlimited :
    (persistentAnswers (forbidding (js "constructor")) .working .start
        (fourQueries (js "constructor"))).all (·.isNone) = true ∧
      (memoryAnswers (forbidding (js "constructor")) ∅ (fourQueries (js "constructor"))).all
        (·.isNone) = false := by
  decide +kernel

end NeuralMesh.Server
