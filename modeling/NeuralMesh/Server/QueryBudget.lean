import NeuralMesh.Server.ExtractLogic
import NeuralMesh.Server.OutputPolicy

/-! The checks before a run: patterns, the taint analysis and the query budget, which
counts how often a client has queried a field of a tool. -/
namespace NeuralMesh.Server

open Js

/-! ### Limits -/

inductive FieldSensitivity where
  | forbidden
  | sensitive
  | unrestricted

/-- The static analysis of a program, with the fields it classifies. -/
structure TaintAnalyzer where
  analyze : (logic : Text) → (recordCount : Nat) → (minMaxBlockThreshold : JsNumber) → Option JsString
  extractQueriedFields : (logic : Text) → List JsString
  toLowerCase : JsString → JsString
  piiFields : List JsString
  sensitiveKeys : List JsString

def TaintAnalyzer.classifyField (analyzer : TaintAnalyzer) (field : JsString)
    (policySensitiveKeys : List JsString) : FieldSensitivity :=
  let lowerField := analyzer.toLowerCase field
  if lowerField ∈ analyzer.piiFields then .forbidden
  else if lowerField ∈ analyzer.sensitiveKeys ∨
      lowerField ∈ policySensitiveKeys.map analyzer.toLowerCase then .sensitive
  else .unrestricted

structure QueryLimit where
  queries : Nat
  label : JsString

def TaintAnalyzer.queryLimit (analyzer : TaintAnalyzer) (policy : Option LogicExecutionPolicy)
    (field : JsString) : QueryLimit :=
  match policy.bind (·.queryBudgetPerField) with
  | some limit => ⟨limit, js "override"⟩
  | none =>
    match analyzer.classifyField field ((policy.map (·.sensitiveKeys)).getD []) with
    | .forbidden => ⟨3, js "forbidden"⟩
    | .sensitive => ⟨8, js "sensitive"⟩
    | .unrestricted => ⟨25, js "public"⟩

def budgetExceeded (field : JsString) (limit : QueryLimit) : JsString :=
  js "Preflight policy rejected: Query budget exceeded for field '" ++ field ++ js "' (max " ++
    ofText (natText limit.queries) ++ js " per session for " ++ limit.label ++
    js " fields). Rotate PQC session to reset budget."

/-! ### Counts -/

/-- The queries of a client on a field of a tool. -/
abbrev Counts := (clientId toolName field : JsString) → Nat

def charge (counts : Counts) (clientId toolName : JsString) (extractedFields : List JsString) :
    Counts :=
  fun c t f => counts c t f + if c = clientId ∧ t = toolName then extractedFields.count f else 0

/-- The counts in memory, and in the file at each path. -/
structure BudgetState where
  fieldQueryBudget : Counts
  persistent : (storePath : JsString) → Counts

/-- What happens to the locked file: it is used, it is read as empty, or an exception
leaves it as it was. -/
inductive StoreOutcome where
  | used
  | unreadable
  | failed

/-- What a plain object inherits under these names is no number. -/
def inheritedNames : List JsString :=
  ["constructor", "hasOwnProperty", "isPrototypeOf", "propertyIsEnumerable", "toLocaleString",
    "toString", "valueOf", "__proto__", "__defineGetter__", "__defineSetter__",
    "__lookupGetter__", "__lookupSetter__"].map js

/-- The functions of `Object.prototype` that the guard lets through as tools, with their
number of parameters. -/
def inheritedFunctions : List (JsString × Nat) :=
  [("hasOwnProperty", 1), ("isPrototypeOf", 1), ("propertyIsEnumerable", 1), ("toLocaleString", 0),
    ("toString", 0), ("valueOf", 0), ("__defineGetter__", 2), ("__defineSetter__", 2),
    ("__lookupGetter__", 1), ("__lookupSetter__", 1)].map fun f => (js f.1, f.2)

/-- What a function has, with what it inherits from `Function.prototype`. -/
def functionMembers : List JsString :=
  ["name", "length", "caller", "arguments", "apply", "bind", "call"].map js

/-- No object inherits the field; nor does a function, for a tool named like one. -/
def Regular (toolName field : JsString) : Prop :=
  field ∉ inheritedNames ∧ ((inheritedFunctions.lookup toolName).isSome → field ∉ functionMembers)

instance (toolName field : JsString) : Decidable (Regular toolName field) :=
  inferInstanceAs (Decidable (_ ∧ _))

section Budget

variable (analyzer : TaintAnalyzer)

/-- The first field whose count has reached its limit. -/
def exhausted (count : JsString → Option Nat) (policy : Option LogicExecutionPolicy)
    (extractedFields : List JsString) : Option JsString :=
  extractedFields.findSome? fun field =>
    let limit := analyzer.queryLimit policy field
    match count field with
    | some n => if limit.queries ≤ n then some (budgetExceeded field limit) else none
    | none => none

def applyInMemoryBudget (budgets : BudgetState) (clientId toolName : JsString)
    (extractedFields : List JsString) (policy : Option LogicExecutionPolicy) :
    Option JsString × BudgetState :=
  match exhausted analyzer (fun field => some (budgets.fieldQueryBudget clientId toolName field))
      policy extractedFields with
  | some reason => (some reason, budgets)
  | none => (none, { budgets with
      fieldQueryBudget := charge budgets.fieldQueryBudget clientId toolName extractedFields })

/-- `executeWithBudgetLock` with the check and the update of the stored counts, of which only
those of regular fields are kept exactly. -/
def applyPersistentBudget (budgets : BudgetState) (storePath : JsString) (stored : Counts)
    (clientId toolName : JsString) (extractedFields : List JsString)
    (policy : Option LogicExecutionPolicy) : Option JsString × BudgetState :=
  let count field := if Regular toolName field then some (stored clientId toolName field) else none
  match exhausted analyzer count policy extractedFields with
  | some reason => (some reason, budgets)
  | none => (none, { budgets with
      persistent := fun path =>
        if path = storePath then charge stored clientId toolName extractedFields
        else budgets.persistent path })

/-- `policy?.budgetStorePath || this.config?.budgetStorePath` -/
def budgetPath (configuredPath : JsString) (policy : Option LogicExecutionPolicy) : JsString :=
  let policyPath := (policy.map (·.budgetStorePath)).getD []
  if policyPath = [] then configuredPath else policyPath

def unsafeNames : List JsString := ["__proto__", "constructor", "prototype"].map js

def applyBudget (configuredPath : JsString) (outcome : StoreOutcome) (budgets : BudgetState)
    (clientId toolName : JsString) (extractedFields : List JsString)
    (policy : Option LogicExecutionPolicy) : Option JsString × BudgetState :=
  if extractedFields = [] then (none, budgets)
  else if clientId ∈ unsafeNames ∨ toolName ∈ unsafeNames then
    (some (js "Preflight policy rejected: invalid property key names (prototype pollution guard)."),
      budgets)
  else
    let storePath := budgetPath configuredPath policy
    let inMemory := applyInMemoryBudget analyzer budgets clientId toolName extractedFields policy
    if storePath = [] then inMemory
    else
      match outcome with
      | .used => applyPersistentBudget analyzer budgets storePath (budgets.persistent storePath)
          clientId toolName extractedFields policy
      | .unreadable => applyPersistentBudget analyzer budgets storePath (fun _ _ _ => 0)
          clientId toolName extractedFields policy
      | .failed => inMemory

end Budget

/-! ### The checks of a program -/

/-- `logic.replace(/\s+/g, " ")` -/
def compactSpaces : Text → Text
  | [] => []
  | c :: cs =>
    if isSpace c then
      match cs with
      | [] => [' ']
      | d :: _ => if isSpace d then compactSpaces cs else ' ' :: compactSpaces cs
    else c :: compactSpaces cs

/-- What `runPreflightPolicy` is configured with: the row patterns, the analyzer and the
path of the shared budget file. -/
structure PreflightConfig where
  exportsRecords : Text → Bool
  analyzer : TaintAnalyzer
  budgetStorePath : JsString

def patternViolation (config : PreflightConfig) (logic : Text) (policy : LogicExecutionPolicy) :
    Option JsString :=
  let compact := compactSpaces logic
  if AggregationFirst.isEnforced policy.enforceAggregationFirst ∧ config.exportsRecords compact then
    some (js "Preflight policy rejected: potential row-level export pattern detected.")
  else if policy.preflightDenyPatterns.any (· compact) then
    some (js "Preflight policy rejected: custom deny pattern matched.")
  else none

def minMaxThreshold (policy : Option LogicExecutionPolicy) : JsNumber :=
  let fifty := .finite (Decimal.normalize 50 0)
  match policy.bind (·.enforceAggregationFirst) with
  | some (.policy p) => p.minMaxBlockThreshold.getD fifty
  | _ => fifty

/-- The reason of a rejection; `none` is the result `null`. -/
def runPreflightPolicy (config : PreflightConfig) (recordsCount : Nat) (outcome : StoreOutcome)
    (budgets : BudgetState) (toolName : JsString) (logic : Text)
    (policy : Option LogicExecutionPolicy) (clientId : JsString) : Option JsString × BudgetState :=
  match policy.bind (patternViolation config logic) with
  | some reason => (some reason, budgets)
  | none =>
    match config.analyzer.analyze logic recordsCount (minMaxThreshold policy) with
    | some reason => (some (js "Preflight policy rejected: " ++ reason), budgets)
    | none => applyBudget config.analyzer config.budgetStorePath outcome budgets clientId toolName
        (config.analyzer.extractQueriedFields logic) policy

/-! ### Rejection and acceptance -/

section Laws

variable {analyzer : TaintAnalyzer} {outcome : StoreOutcome} {budgets after : BudgetState}
variable {clientId toolName : JsString} {policy : Option LogicExecutionPolicy}

theorem applyInMemoryBudget_rejected {fields : List JsString} {reason : JsString}
    (rejected : applyInMemoryBudget analyzer budgets clientId toolName fields policy =
      (some reason, after)) : after = budgets := by
  unfold applyInMemoryBudget at rejected
  split at rejected
  · exact (Prod.mk.inj rejected).2.symm
  · cases (Prod.mk.inj rejected).1

theorem applyPersistentBudget_rejected {storePath : JsString} {stored : Counts}
    {fields : List JsString} {reason : JsString}
    (rejected : applyPersistentBudget analyzer budgets storePath stored clientId toolName fields
      policy = (some reason, after)) : after = budgets := by
  unfold applyPersistentBudget at rejected
  dsimp only at rejected
  split at rejected
  · exact (Prod.mk.inj rejected).2.symm
  · cases (Prod.mk.inj rejected).1

/-- A rejected program is not charged. -/
theorem runPreflightPolicy_rejected {config : PreflightConfig} {recordsCount : Nat} {logic : Text}
    {reason : JsString}
    (rejected : runPreflightPolicy config recordsCount outcome budgets toolName logic policy
      clientId = (some reason, after)) : after = budgets := by
  unfold runPreflightPolicy at rejected
  split at rejected
  · exact (Prod.mk.inj rejected).2.symm
  · split at rejected
    · exact (Prod.mk.inj rejected).2.symm
    · unfold applyBudget at rejected
      dsimp only at rejected
      split_ifs at rejected
      · exact (Prod.mk.inj rejected).2.symm
      · exact (Prod.mk.inj rejected).2.symm
      · exact applyInMemoryBudget_rejected rejected
      · split at rejected
        · exact applyPersistentBudget_rejected rejected
        · exact applyPersistentBudget_rejected rejected
        · exact applyInMemoryBudget_rejected rejected

/-- The counts that a path selects: the file there, or memory. -/
def BudgetState.countAt (budgets : BudgetState) (storePath : JsString) : Counts :=
  if storePath = [] then budgets.fieldQueryBudget else budgets.persistent storePath

/-- An accepted query stays below each limit, and is counted on each of its fields. -/
structure Charged (analyzer : TaintAnalyzer) (budgets after : BudgetState) (storePath : JsString)
    (clientId toolName : JsString) (fields : List JsString)
    (policy : Option LogicExecutionPolicy) : Prop where
  below : ∀ field ∈ fields,
    budgets.countAt storePath clientId toolName field < (analyzer.queryLimit policy field).queries
  counted : ∀ field ∈ fields, budgets.countAt storePath clientId toolName field <
    after.countAt storePath clientId toolName field
  kept : ∀ path client tool field,
    budgets.countAt path client tool field ≤ after.countAt path client tool field

theorem charge_le (counts : Counts) (clientId toolName : JsString) (fields : List JsString)
    (c t f : JsString) : counts c t f ≤ charge counts clientId toolName fields c t f :=
  Nat.le_add_right _ _

theorem charge_lt (counts : Counts) (clientId toolName : JsString) {fields : List JsString}
    {field : JsString} (member : field ∈ fields) :
    counts clientId toolName field < charge counts clientId toolName fields clientId toolName field := by
  have once := List.count_pos_iff.mpr member
  rw [charge, if_pos ⟨rfl, rfl⟩]
  omega

theorem exhausted_none {count : JsString → Option Nat} {fields : List JsString}
    (passed : exhausted analyzer count policy fields = none) {field : JsString} {n : Nat}
    (member : field ∈ fields) (counted : count field = some n) :
    n < (analyzer.queryLimit policy field).queries := by
  have below := List.findSome?_eq_none_iff.mp passed field member
  simp only [counted] at below
  split_ifs at below with reached
  omega

theorem applyInMemoryBudget_accepted {fields : List JsString}
    (accepted : applyInMemoryBudget analyzer budgets clientId toolName fields policy =
      (none, after)) : Charged analyzer budgets after [] clientId toolName fields policy := by
  unfold applyInMemoryBudget at accepted
  split at accepted
  · cases (Prod.mk.inj accepted).1
  · next passed =>
    obtain rfl := (Prod.mk.inj accepted).2
    refine ⟨?_, ?_, ?_⟩
    · intro field member
      exact exhausted_none passed member rfl
    · intro field member
      exact charge_lt budgets.fieldQueryBudget clientId toolName member
    · intro path client tool field
      unfold BudgetState.countAt
      split_ifs
      · exact charge_le _ _ _ _ _ _ _
      · exact Nat.le_refl _

theorem applyPersistentBudget_accepted {storePath : JsString} {fields : List JsString}
    (stored : storePath ≠ []) (regular : ∀ field ∈ fields, Regular toolName field)
    (accepted : applyPersistentBudget analyzer budgets storePath (budgets.persistent storePath)
      clientId toolName fields policy = (none, after)) :
    Charged analyzer budgets after storePath clientId toolName fields policy := by
  unfold applyPersistentBudget at accepted
  dsimp only at accepted
  split at accepted
  · cases (Prod.mk.inj accepted).1
  · next passed =>
    obtain rfl := (Prod.mk.inj accepted).2
    refine ⟨?_, ?_, ?_⟩
    · intro field member
      rw [BudgetState.countAt, if_neg stored]
      exact exhausted_none passed member (if_pos (regular field member))
    · intro field member
      simp only [BudgetState.countAt, if_neg stored, if_true]
      exact charge_lt (budgets.persistent storePath) clientId toolName member
    · intro path client tool field
      unfold BudgetState.countAt
      dsimp only
      split_ifs with memory same
      · exact Nat.le_refl _
      · rw [same]
        exact charge_le _ _ _ _ _ _ _
      · exact Nat.le_refl _

/-- A budget file in use reads its counts as numbers and keeps them. -/
def StoreKept (configuredPath : JsString) (outcome : StoreOutcome)
    (toolName : JsString) (policy : Option LogicExecutionPolicy) (fields : List JsString) : Prop :=
  budgetPath configuredPath policy ≠ [] →
    outcome = .used ∧ ∀ field ∈ fields, Regular toolName field

theorem runPreflightPolicy_accepted {config : PreflightConfig} {recordsCount : Nat} {logic : Text}
    (store : StoreKept config.budgetStorePath outcome toolName policy
      (config.analyzer.extractQueriedFields logic))
    (accepted : runPreflightPolicy config recordsCount outcome budgets toolName logic policy
      clientId = (none, after)) :
    Charged config.analyzer budgets after (budgetPath config.budgetStorePath policy) clientId
      toolName (config.analyzer.extractQueriedFields logic) policy := by
  unfold runPreflightPolicy at accepted
  split at accepted
  · cases (Prod.mk.inj accepted).1
  · split at accepted
    · cases (Prod.mk.inj accepted).1
    · unfold applyBudget at accepted
      dsimp only at accepted
      split_ifs at accepted with empty unsafe' memory
      · obtain rfl := (Prod.mk.inj accepted).2
        rw [empty]
        refine ⟨?_, ?_, fun _ _ _ _ => Nat.le_refl _⟩
        · rintro field ⟨⟩
        · rintro field ⟨⟩
      · cases (Prod.mk.inj accepted).1
      · rw [memory]
        exact applyInMemoryBudget_accepted accepted
      · obtain ⟨rfl, regular⟩ := store memory
        exact applyPersistentBudget_accepted memory regular accepted

end Laws

end NeuralMesh.Server
