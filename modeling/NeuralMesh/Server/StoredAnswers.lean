import NeuralMesh.Server.BudgetFailures

/-! What the budget file answers. A field that every object inherits is never counted there, and a
tool that is named like an inherited function starts with the members of that function. -/
namespace NeuralMesh.Server

open Js

/-! ### Fields that every object inherits -/

/-- A field that every object inherits has no number. -/
def Uncounted (tool : Table StoredCount) : Prop :=
  ∀ field ∈ inheritedNames, ∀ n, tool.lookup field ≠ some (.number n)

theorem Uncounted.empty : Uncounted ∅ := by
  intro field _ n found
  rw [AList.lookup_empty] at found
  cases found

theorem Uncounted.readField {tool : Table StoredCount} (uncounted : Uncounted tool)
    {field : JsString} (inherited : field ∈ inheritedNames) :
    readField (.own tool) field = .stored .other := by
  rw [Server.readField]
  cases found : tool.lookup field with
  | none => exact if_pos inherited
  | some count =>
    cases count with
    | number n => exact absurd found (uncounted field inherited n)
    | other => rfl

theorem Uncounted.increment {tool : Table StoredCount} (uncounted : Uncounted tool)
    (field : JsString) : Uncounted (incrementStored tool field) := by
  intro other inherited n found
  by_cases same : other = field
  · subst same
    rw [incrementStored, uncounted.readField inherited] at found
    split_ifs at found
    · exact uncounted other inherited n found
    · cases (AList.lookup_insert tool).symm.trans found
  · rw [lookup_incrementStored_ne tool same] at found
    exact uncounted other inherited n found

theorem Uncounted.increments {tool : Table StoredCount} (uncounted : Uncounted tool)
    (fields : List JsString) : Uncounted (fields.foldl incrementStored tool) := by
  induction fields generalizing tool with
  | nil => exact uncounted
  | cons field fields ih => exact ih (uncounted.increment field)

theorem not_inherited {name : JsString} (function : name ∈ functionMembers) :
    name ∉ inheritedNames := by
  have apart : functionMembers.all (fun name => !inheritedNames.contains name) = true := by
    decide +kernel
  intro inherited
  have absent := List.all_eq_true.mp apart name function
  rw [List.contains_iff_mem.mpr inherited] at absent
  cases absent

/-- The table that a query finds. -/
def readEntry (entry : Option (Table StoredCount)) (toolName : JsString) : ToolBudget :=
  entry.elim ((inheritedFunctions.lookup toolName).elim (.own ∅) .inherited) .own

theorem readTool_entry (budget : BudgetStore) (clientId toolName : JsString) :
    readTool (Table.inner budget clientId) toolName =
      readEntry (budget.entry clientId toolName) toolName := by
  rw [readTool, readEntry, Budgets.entry]
  cases (Table.inner budget clientId).lookup toolName <;> rfl

theorem readField_inherited {entry : Option (Table StoredCount)}
    (uncounted : Uncounted (entry.getD ∅)) (toolName : JsString) {field : JsString} (inherited : field ∈ inheritedNames) :
    readField (readEntry entry toolName) field = .stored .other := by
  have named {name : String} (member : js name ∈ functionMembers) : field ≠ js name :=
    fun same => not_inherited member (same ▸ inherited)
  cases entry with
  | some counts => exact uncounted.readField inherited
  | none =>
    rw [readEntry, Option.elim_none]
    cases inheritedFunctions.lookup toolName with
    | none => exact Uncounted.empty.readField inherited
    | some parameters =>
      rw [Option.elim_some, readField, if_neg (named (List.mem_map_of_mem (by simp))), if_neg,
        if_pos (.inr inherited)]
      exact not_or.mpr ⟨named (List.mem_map_of_mem (by simp)),
        named (List.mem_map_of_mem (by simp))⟩

/-! ### Answers -/

/-- The members of a function that throw when they are read. -/
def throwsOnRead (field : JsString) : Bool := field == js "caller" || field == js "arguments"

/-- The tool is named like a function that every object inherits, and the query asks for the
number of its parameters, which reaches the limit, before it asks for a member that throws. -/
def CountsParameters (analyzer : TaintAnalyzer) (query : BudgetQuery) : Prop :=
  ∃ parameters ∈ inheritedFunctions.lookup query.toolName,
    (analyzer.queryLimit query.policy (js "length")).queries ≤ parameters ∧
      js "length" ∈ query.extractedFields.takeWhile fun field => !throwsOnRead field

section Answers

variable {analyzer : TaintAnalyzer} {policy : Option LogicExecutionPolicy}

theorem exhaustedStored_reason {toolBudget : ToolBudget} {fields : List JsString}
    {reason : JsString}
    (refused : exhaustedStored analyzer toolBudget policy fields = some (some reason)) :
    ∃ field ∈ fields, reason = budgetExceeded field (analyzer.queryLimit policy field) := by
  induction fields with
  | nil => cases Option.some.inj refused
  | cons field fields ih =>
    have reached {limit count : Nat} (stopped : (if limit ≤ count then
        some (some (budgetExceeded field (analyzer.queryLimit policy field)))
        else exhaustedStored analyzer toolBudget policy fields) = some (some reason)) :
        reason = budgetExceeded field (analyzer.queryLimit policy field) ∨
          exhaustedStored analyzer toolBudget policy fields = some (some reason) := by
      by_cases full : limit ≤ count
      · rw [if_pos full] at stopped
        exact .inl (Option.some.inj (Option.some.inj stopped)).symm
      · rw [if_neg full] at stopped
        exact .inr stopped
    have here : reason = budgetExceeded field (analyzer.queryLimit policy field) ∨
        exhaustedStored analyzer toolBudget policy fields = some (some reason) := by
      rw [exhaustedStored] at refused
      dsimp only at refused
      split at refused
      · exact reached refused
      · exact reached refused
      · exact .inr refused
      · cases refused
    rcases here with same | later
    · exact ⟨field, List.mem_cons_self, same⟩
    · obtain ⟨other, member, same⟩ := ih later
      exact ⟨other, List.mem_cons_of_mem field member, same⟩

/-- Fields without a number pass. -/
theorem exhaustedStored_passes {toolBudget : ToolBudget} {fields : List JsString}
    (positive : ∀ field ∈ fields, 1 ≤ (analyzer.queryLimit policy field).queries)
    (each : ∀ field ∈ fields, readField toolBudget field = .absent ∨
      readField toolBudget field = .stored .other) :
    exhaustedStored analyzer toolBudget policy fields = some none := by
  induction fields with
  | nil => rfl
  | cons field fields ih =>
    obtain ⟨free, others⟩ := List.forall_mem_cons.mp positive
    obtain ⟨read, rest⟩ := List.forall_mem_cons.mp each
    rw [exhaustedStored]
    rcases read with absent | other
    · rw [absent]
      dsimp only
      rw [if_neg (Nat.not_le_of_lt free), ih others rest]
    · rw [other]
      exact ih others rest

theorem exhaustedStored_inherited {parameters : Nat} {fields : List JsString}
    (positive : ∀ field ∈ fields, 1 ≤ (analyzer.queryLimit policy field).queries) :
    (∃ reason, exhaustedStored analyzer (.inherited parameters) policy fields =
      some (some reason)) ↔
    (analyzer.queryLimit policy (js "length")).queries ≤ parameters ∧
      js "length" ∈ fields.takeWhile fun field => !throwsOnRead field := by
  induction fields with
  | nil =>
    constructor
    · rintro ⟨reason, ⟨⟩⟩
    · rintro ⟨-, ⟨⟩⟩
  | cons field fields ih =>
    obtain ⟨free, others⟩ := List.forall_mem_cons.mp positive
    have later := ih others
    rw [exhaustedStored, readField]
    by_cases length : field = js "length"
    · have kept : throwsOnRead field = false := by
        rw [length]
        decide
      rw [if_pos length, List.takeWhile_cons_of_pos (by rw [kept]; rfl)]
      dsimp only
      subst length
      by_cases full : (analyzer.queryLimit policy (js "length")).queries ≤ parameters
      · rw [if_pos full]
        exact ⟨fun _ => ⟨full, List.mem_cons_self⟩, fun _ => ⟨_, rfl⟩⟩
      · rw [if_neg full]
        exact ⟨fun refused => absurd (later.mp refused).1 full, fun all => absurd all.1 full⟩
    · rw [if_neg length]
      by_cases throws : field = js "caller" ∨ field = js "arguments"
      · have stops : throwsOnRead field = true := by
          rw [throwsOnRead, Bool.or_eq_true, beq_iff_eq, beq_iff_eq]
          exact throws
        rw [if_pos throws, List.takeWhile_cons_of_neg (by rw [stops]; exact Bool.false_ne_true)]
        constructor
        · rintro ⟨reason, ⟨⟩⟩
        · rintro ⟨-, ⟨⟩⟩
      · have kept : throwsOnRead field = false := by
          rw [← Bool.not_eq_true, throwsOnRead, Bool.or_eq_true, beq_iff_eq, beq_iff_eq]
          exact throws
        have continues : js "length" ∈ (field :: fields).takeWhile (fun f => !throwsOnRead f) ↔
            js "length" ∈ fields.takeWhile fun f => !throwsOnRead f := by
          rw [List.takeWhile_cons_of_pos (by rw [kept]; rfl), List.mem_cons]
          exact or_iff_right (Ne.symm length)
        rw [if_neg throws, continues, ← later]
        split_ifs
        · rfl
        · dsimp only
          rw [if_neg (Nat.not_le_of_lt free)]

/-- A query on a full field does not pass. -/
theorem exhaustedStored_reached {tool : Table StoredCount} {fields : List JsString}
    {field : JsString} (member : field ∈ fields) (regular : field ∉ inheritedNames)
    (full : (analyzer.queryLimit policy field).queries ≤ storedCount tool field)
    (number : tool.lookup field ≠ some .other) :
    ∃ reason, exhaustedStored analyzer (.own tool) policy fields = some (some reason) := by
  induction fields with
  | nil => cases member
  | cons f fields ih =>
    have stops {limit count : Nat} {reason : JsString}
        (last : limit ≤ count ∨ field ∈ fields) : ∃ r, (if limit ≤ count then some (some reason)
          else exhaustedStored analyzer (.own tool) policy fields) = some (some r) := by
      by_cases reached : limit ≤ count
      · exact ⟨reason, if_pos reached⟩
      · rw [if_neg reached]
        exact ih (last.resolve_left reached)
    rw [exhaustedStored]
    rcases List.mem_cons.mp member with rfl | later
    · rw [readField_own regular]
      rw [storedCount] at full
      cases found : tool.lookup field with
      | none =>
        rw [found] at full
        exact stops (.inl full)
      | some count =>
        rw [found] at full
        cases count with
        | number n => exact stops (.inl full)
        | other => exact absurd found number
    · dsimp only [readField]
      cases tool.lookup f with
      | none =>
        by_cases inherited : f ∈ inheritedNames
        · rw [if_pos inherited]
          exact ih later
        · rw [if_neg inherited]
          exact stops (.inr later)
      | some count =>
        cases count with
        | number n => exact stops (.inr later)
        | other => exact ih later

theorem inMemory_accepted {query : BudgetQuery} {memory : FieldQueryBudget}
    (positive : ∀ field ∈ query.extractedFields,
      1 ≤ (analyzer.queryLimit query.policy field).queries)
    (unqueried : ∀ field, memory.count query.clientId query.toolName field = 0) :
    (query.inMemory analyzer memory).1 = none := by
  have passed : exhausted analyzer
      (fun field => some (memory.count query.clientId query.toolName field)) query.policy
      query.extractedFields = none := by
    refine List.findSome?_eq_none_iff.mpr fun field member => ?_
    dsimp only
    rw [unqueried field, if_neg (Nat.not_le_of_lt (positive field member))]
  rw [BudgetQuery.inMemory, FieldQueryBudget.applyInMemoryBudget]
  unfold FieldQueryBudget.count at passed
  rw [passed]

variable (analyzer) in
/-- What the locked file answers. -/
theorem locked_working (query : BudgetQuery) (store : BudgetStore) :
    query.locked analyzer .working store =
    (exhaustedStored analyzer (readEntry (store.entry query.clientId query.toolName)
      query.toolName) query.policy query.extractedFields).map fun
      | some reason => (some reason, store)
      | none => (none, store.setTool query.clientId query.toolName
        (query.extractedFields.foldl incrementStored
          (store.tool query.clientId query.toolName))) := by
  unfold BudgetQuery.locked executeWithBudgetLock budgetAction StoreAccess.working
  dsimp only
  rw [if_pos rfl, if_pos rfl, spread_readTool, readTool_entry]
  cases exhaustedStored analyzer (readEntry (store.entry query.clientId query.toolName)
      query.toolName) query.policy query.extractedFields with
  | none => rfl
  | some answer => cases answer <;> rfl

end Answers

end NeuralMesh.Server
