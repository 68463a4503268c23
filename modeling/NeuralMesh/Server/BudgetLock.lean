import NeuralMesh.Exclusion
import NeuralMesh.Server.BudgetFailures

/-! Server instances that share one budget file. The steps are the single operations on the lock
file, the temporary file and the budget file; the instances take them in any order. -/
namespace NeuralMesh.Server

open Js

/-- A query whose names no object has by itself. The analyzer extracts each field once. -/
structure OrdinaryQuery extends BudgetQuery where
  client_ordinary : clientId ∉ inheritedNames
  tool_ordinary : toolName ∉ inheritedNames
  fields_ordinary : ∀ field ∈ extractedFields, field ∉ inheritedNames
  distinct : extractedFields.Nodup

/-- The next operation of an instance. The result of the locked action waits for the release; no
result is an exception. -/
inductive LockPhase where
  | idle
  | acquiring (query : OrdinaryQuery) (attempts : Nat)
  | reading (query : OrdinaryQuery)
  | writing (query : OrdinaryQuery) (answer : Option JsString) (updatedBudget : BudgetStore)
  | moving (query : OrdinaryQuery) (answer : Option JsString)
  | testing (query : OrdinaryQuery) (result : Option (Option JsString))
  | unlinking (query : OrdinaryQuery) (result : Option (Option JsString))

/-- Between acquiring and releasing the lock. -/
def LockPhase.critical : LockPhase → Bool
  | .idle | .acquiring _ _ => false
  | _ => true

/-- A finished preflight, and whether it fell back to memory. -/
structure PreflightEntry where
  query : OrdinaryQuery
  answer : Option JsString
  fellBack : Bool

/-- The files and the instances. -/
structure SharedStore (I : Type) where
  lock : Bool
  store : Option BudgetStore
  temp : Option BudgetStore
  phase : I → LockPhase
  fieldQueryBudget : I → FieldQueryBudget
  log : List PreflightEntry

variable {I : Type} [DecidableEq I]

inductive SharedEvent (I : Type) where
  | preflight (i : I) (query : OrdinaryQuery)
  | proceed (i : I)

namespace SharedStore

def start : SharedStore I := ⟨false, none, none, fun _ => .idle, fun _ => ∅, []⟩

def goto (s : SharedStore I) (i : I) (phase : LockPhase) : SharedStore I :=
  { s with phase := Function.update s.phase i phase }

def maxRetries : Nat := 100

section Steps

variable (analyzer : I → TaintAnalyzer)

/-- The end of a preflight; an exception falls back to memory. -/
def finish (s : SharedStore I) (i : I) (query : OrdinaryQuery) (result : Option (Option JsString)) :
    SharedStore I :=
  match result with
  | some answer => { s.goto i .idle with log := ⟨query, answer, false⟩ :: s.log }
  | none =>
    let inMemory := query.inMemory (analyzer i) (s.fieldQueryBudget i)
    { s.goto i .idle with
      fieldQueryBudget := Function.update s.fieldQueryBudget i inMemory.2
      log := ⟨query, inMemory.1, true⟩ :: s.log }

/-- The next operation of an instance. -/
def proceed (s : SharedStore I) (i : I) : SharedStore I :=
  match s.phase i with
  | .idle => s
  | .acquiring query attempts =>
    if s.lock then
      if attempts + 1 < maxRetries then s.goto i (.acquiring query (attempts + 1))
      else s.finish analyzer i query none
    else { s.goto i (.reading query) with lock := true }
  | .reading query =>
    match budgetAction (analyzer i) query.clientId query.toolName query.extractedFields
        query.policy (s.store.getD ∅) with
    | some (answer, some updatedBudget) => s.goto i (.writing query answer updatedBudget)
    | some (answer, none) => s.goto i (.testing query (some answer))
    | none => s.goto i (.testing query none)
  | .writing query answer updatedBudget =>
    { s.goto i (.moving query answer) with temp := some updatedBudget }
  | .moving query answer =>
    match s.temp with
    | some budget => { s.goto i (.testing query (some answer)) with store := some budget, temp := none }
    | none => s.goto i (.testing query none)
  | .testing query result =>
    if s.lock then s.goto i (.unlinking query result) else s.finish analyzer i query result
  | .unlinking query result => { s.finish analyzer i query result with lock := false }

def step (s : SharedStore I) : SharedEvent I → SharedStore I
  | .preflight i query =>
    match s.phase i with
    | .idle =>
      -- The guard answers by itself, or the lock is to be taken.
      match query.guarded false (none, true) with
      | (_, true) => s.goto i (.acquiring query 0)
      | (answer, false) => { s with log := ⟨query, answer, false⟩ :: s.log }
    | _ => s
  | .proceed i => s.proceed analyzer i

end Steps

end SharedStore

/-! ### Ordinary queries -/

theorem inheritedFunctions_inherited {toolName : JsString}
    (function : (inheritedFunctions.lookup toolName).isSome) : toolName ∈ inheritedNames := by
  obtain ⟨parameters, found⟩ := Option.isSome_iff_exists.mp function
  obtain ⟨before, later, split, -⟩ := List.lookup_eq_some_iff.mp found
  have member : (toolName, parameters) ∈ inheritedFunctions := by
    rw [split]
    exact List.mem_append_right before List.mem_cons_self
  have inherited : ∀ function ∈ inheritedFunctions, function.1 ∈ inheritedNames := by
    decide +kernel
  exact inherited _ member

namespace OrdinaryQuery

theorem regular (query : OrdinaryQuery) : ∀ field ∈ query.extractedFields,
    Regular query.toolName field := by
  intro field member
  refine ⟨query.fields_ordinary field member, fun function => ?_⟩
  exact absurd (inheritedFunctions_inherited function) query.tool_ordinary

/-- The budget with the query counted. -/
def charged (query : OrdinaryQuery) (store : BudgetStore) : BudgetStore :=
  store.setTool query.clientId query.toolName
    (query.extractedFields.foldl incrementStored (store.tool query.clientId query.toolName))

def queries (query : OrdinaryQuery) (c t field : JsString) (accepted : Bool) : Nat :=
  (BudgetCall.apply query.clientId query.toolName query.extractedFields).queries c t field accepted

@[simp] theorem queries_false (query : OrdinaryQuery) (c t field : JsString) :
    query.queries c t field false = 0 := by
  rw [queries, BudgetCall.queries]
  exact if_neg fun all => Bool.false_ne_true all.1

theorem counts_charged (query : OrdinaryQuery) {store : BudgetStore}
    (numeric : ∀ c t, Numeric (store.tool c t)) (c t : JsString) {field : JsString}
    (ordinary : field ∉ inheritedNames) : (query.charged store).counts c t field =
      store.counts c t field + query.queries c t field true := by
  rw [BudgetStore.counts, charged, storedCount_setTool numeric _ _ _ _ _ ordinary]
  exact charge_of_nodup query.distinct c t field

theorem budgetAction_cases (analyzer : TaintAnalyzer) (query : OrdinaryQuery) {store : BudgetStore}
    (numeric : ∀ c t, Numeric (store.tool c t)) :
    (∃ reason, budgetAction analyzer query.clientId query.toolName query.extractedFields
      query.policy store = some (some reason, none)) ∨
    budgetAction analyzer query.clientId query.toolName query.extractedFields query.policy store =
      some (none, some (query.charged store)) := by
  rw [budgetAction, exhaustedStored_numeric analyzer numeric query.clientId query.policy query.regular]
  cases exhausted analyzer (fun field => if Regular query.toolName field then
      some (store.counts query.clientId query.toolName field) else none) query.policy
      query.extractedFields with
  | some reason => exact .inl ⟨reason, rfl⟩
  | none =>
    right
    rw [charged, ← spread_readTool]
    rfl

end OrdinaryQuery

/-! ### The invariant -/

namespace LockPhase

/-- An accepted query that is already in the file. -/
def unreported (c t field : JsString) : LockPhase → Nat
  | .testing query (some none) | .unlinking query (some none) => query.queries c t field true
  | _ => 0

/-- What the phase holds fits the files: the update is made from the current budget. -/
def Fits (store temp : Option BudgetStore) : LockPhase → Prop
  | .writing query answer updatedBudget =>
    answer = none ∧ updatedBudget = query.charged (store.getD ∅)
  | .moving query answer => answer = none ∧ temp = some (query.charged (store.getD ∅))
  | .testing _ result | .unlinking _ result => result ≠ none
  | _ => True

theorem fits_outside {phase : LockPhase} (outside : phase.critical = false)
    (store temp : Option BudgetStore) : phase.Fits store temp := by
  cases phase with
  | idle => trivial
  | acquiring query attempts => trivial
  | _ => cases outside

end LockPhase

/-- The queries on a field among the selected entries. -/
def queriesIn (selected : PreflightEntry → Bool) (c t field : JsString)
    (log : List PreflightEntry) : Nat :=
  (log.map fun entry => entry.query.queries c t field (selected entry)).sum

def PreflightEntry.accepted (entry : PreflightEntry) : Bool := entry.answer.isNone

def PreflightEntry.stored (entry : PreflightEntry) : Bool := entry.accepted && !entry.fellBack

namespace SharedStore

/-- The file holds the stored queries of the log, and these more. -/
def Counted (store : Option BudgetStore) (log : List PreflightEntry)
    (more : (c t field : JsString) → Nat) : Prop :=
  ∀ c t field, field ∉ inheritedNames → (store.getD ∅).counts c t field =
    queriesIn (·.stored) c t field log + more c t field

structure Synchronized (s : SharedStore I) : Prop where
  exclusive : Exclusive LockPhase.critical s.phase s.lock
  numeric : ∀ c t, Numeric (Budgets.tool (s.store.getD ∅) c t)
  fits : ∀ i, (s.phase i).Fits s.store s.temp
  free : s.lock = false → Counted s.store s.log fun _ _ _ => 0
  held : ∀ i, (s.phase i).critical = true →
    Counted s.store s.log fun c t field => (s.phase i).unreported c t field

omit [DecidableEq I] in
theorem start_synchronized : (start : SharedStore I).Synchronized where
  exclusive := .idle fun _ => rfl
  numeric := fun _ _ => Numeric.empty
  fits := fun _ => trivial
  free := fun _ _ _ _ _ => rfl
  held := fun _ inside => nomatch inside

section Moves

variable {s after : SharedStore I} {i : I} {next : LockPhase}

/-- A step of an instance outside of the lock, which stores no query. -/
theorem Synchronized.outside (good : s.Synchronized)
    (moved : after.phase = Function.update s.phase i next) (here : (s.phase i).critical = false)
    (there : next.critical = false) (lock : after.lock = s.lock) (store : after.store = s.store)
    (temp : after.temp = s.temp) (log : ∀ c t field,
      queriesIn (·.stored) c t field after.log = queriesIn (·.stored) c t field s.log) :
    after.Synchronized := by
  refine ⟨?_, ?_, ?_, ?_, ?_⟩
  · rw [moved, lock]
    exact good.exclusive.stay (there.trans here.symm)
  · rw [store]
    exact good.numeric
  · intro j
    rw [moved, store, temp, Function.update_apply]
    split_ifs
    · exact LockPhase.fits_outside there _ _
    · exact good.fits j
  · intro unlocked c t field ordinary
    rw [store, log]
    exact good.free (lock ▸ unlocked) c t field ordinary
  · intro j inside c t field ordinary
    rw [moved, Function.update_apply] at inside ⊢
    rw [store, log]
    split_ifs at inside ⊢
    · rw [there] at inside
      cases inside
    · exact good.held j inside c t field ordinary

omit [DecidableEq I] in
/-- Only the holder of the lock is in a critical phase. -/
theorem Synchronized.others_outside (good : s.Synchronized) (here : (s.phase i).critical = true)
    {j : I} (other : j ≠ i) : (s.phase j).critical = false := by
  rw [← Bool.not_eq_true]
  exact fun inside => other (good.exclusive.unique inside here)

theorem Synchronized.acquire (good : s.Synchronized) {query : OrdinaryQuery}
    (moved : after.phase = Function.update s.phase i (.reading query)) (unlocked : s.lock = false)
    (lock : after.lock = true) (store : after.store = s.store) (log : after.log = s.log) :
    after.Synchronized := by
  have exclusive : Exclusive LockPhase.critical s.phase false := unlocked ▸ good.exclusive
  refine ⟨?_, ?_, ?_, ?_, ?_⟩
  · rw [moved, lock]
    exact exclusive.acquire rfl
  · rw [store]
    exact good.numeric
  · intro j
    rw [moved, Function.update_apply]
    split_ifs
    · trivial
    · exact LockPhase.fits_outside (exclusive.outside j) _ _
  · intro free
    rw [lock] at free
    cases free
  · intro j inside c t field ordinary
    rw [moved, Function.update_apply] at inside ⊢
    rw [store, log]
    split_ifs at inside ⊢
    · exact good.free unlocked c t field ordinary
    · rw [exclusive.outside j] at inside
      cases inside

/-- A step of the holder of the lock. -/
theorem Synchronized.inside (good : s.Synchronized)
    (moved : after.phase = Function.update s.phase i next) (here : (s.phase i).critical = true)
    (there : next.critical = true) (lock : after.lock = s.lock)
    (numeric : ∀ c t, Numeric (Budgets.tool (after.store.getD ∅) c t))
    (fits : next.Fits after.store after.temp)
    (counted : Counted after.store after.log fun c t field => next.unreported c t field) :
    after.Synchronized := by
  refine ⟨?_, numeric, ?_, ?_, ?_⟩
  · rw [moved, lock]
    exact good.exclusive.stay (there.trans here.symm)
  · intro j
    rw [moved, Function.update_apply]
    split_ifs with self
    · exact fits
    · exact LockPhase.fits_outside (good.others_outside here self) _ _
  · intro free
    rw [lock, good.exclusive.locked_of_critical here] at free
    cases free
  · intro j inside
    rw [moved, Function.update_apply] at inside ⊢
    split_ifs at inside ⊢ with self
    · exact counted
    · rw [good.others_outside here self] at inside
      cases inside

theorem Synchronized.release (good : s.Synchronized)
    (moved : after.phase = Function.update s.phase i .idle) (here : (s.phase i).critical = true)
    (lock : after.lock = false) (store : after.store = s.store)
    (log : ∀ c t field, queriesIn (·.stored) c t field after.log =
      queriesIn (·.stored) c t field s.log + (s.phase i).unreported c t field) :
    after.Synchronized := by
  refine ⟨?_, ?_, ?_, ?_, ?_⟩
  · rw [moved, lock]
    exact good.exclusive.release here rfl
  · rw [store]
    exact good.numeric
  · intro j
    rw [moved, Function.update_apply]
    split_ifs with self
    · trivial
    · exact LockPhase.fits_outside (good.others_outside here self) _ _
  · intro _ c t field ordinary
    rw [store, log]
    exact good.held i here c t field ordinary
  · intro j inside
    rw [moved, Function.update_apply] at inside ⊢
    split_ifs at inside with self
    · cases inside
    · rw [good.others_outside here self] at inside
      cases inside

end Moves

section Runs

variable {analyzer : I → TaintAnalyzer} {s : SharedStore I}

theorem queriesIn_cons (selected : PreflightEntry → Bool) (entry : PreflightEntry)
    (log : List PreflightEntry) (c t field : JsString) : queriesIn selected c t field (entry :: log) =
      queriesIn selected c t field log + entry.query.queries c t field (selected entry) := by
  rw [queriesIn, List.map_cons, List.sum_cons, Nat.add_comm]
  rfl

/-- The entry of a preflight that stored nothing. -/
theorem queriesIn_unstored {entry : PreflightEntry} (unstored : entry.stored = false)
    (log : List PreflightEntry) (c t field : JsString) :
    queriesIn (·.stored) c t field (entry :: log) = queriesIn (·.stored) c t field log := by
  rw [queriesIn_cons, unstored, OrdinaryQuery.queries_false]
  rfl

theorem preflight_synchronized (good : s.Synchronized) (i : I) (query : OrdinaryQuery) :
    (s.step analyzer (.preflight i query)).Synchronized := by
  rw [step]
  split
  · next here =>
    have outside : (s.phase i).critical = false := by rw [here]; rfl
    have kept : Function.update s.phase i .idle = s.phase := by
      rw [← here, Function.update_eq_self]
    rw [BudgetQuery.guarded]
    split_ifs with empty refused
    · refine good.outside (i := i) kept.symm outside rfl rfl rfl rfl fun c t field => ?_
      rw [queriesIn_cons, OrdinaryQuery.queries, BudgetCall.queries, empty, if_neg]
      · rfl
      · exact fun queried => absurd queried.2.2 List.not_mem_nil
    · exact good.outside (i := i) kept.symm outside rfl rfl rfl rfl (queriesIn_unstored rfl s.log)
    · exact good.outside (i := i) rfl outside rfl rfl rfl rfl fun _ _ _ => rfl
  · exact good

theorem acquiring_synchronized (good : s.Synchronized) {i : I} {query : OrdinaryQuery}
    {attempts : Nat} (here : s.phase i = .acquiring query attempts) :
    (s.proceed analyzer i).Synchronized := by
  have outside : (s.phase i).critical = false := by rw [here]; rfl
  rw [proceed, here]
  dsimp only
  split_ifs with locked retries
  · exact good.outside (i := i) rfl outside rfl rfl rfl rfl fun _ _ _ => rfl
  · refine good.outside (i := i) rfl outside rfl rfl rfl rfl fun c t field => ?_
    exact @queriesIn_unstored ⟨query, _, true⟩ (Bool.and_false _) s.log c t field
  · exact good.acquire (i := i) rfl (Bool.not_eq_true _ ▸ locked) rfl rfl rfl

theorem reading_synchronized (good : s.Synchronized) {i : I} {query : OrdinaryQuery}
    (here : s.phase i = .reading query) : (s.proceed analyzer i).Synchronized := by
  have inside : (s.phase i).critical = true := by rw [here]; rfl
  have counted := good.held i inside
  rw [here] at counted
  rw [proceed, here]
  dsimp only
  rcases query.budgetAction_cases (analyzer i) good.numeric with
    ⟨reason, rejected⟩ | accepted
  · rw [rejected]
    exact good.inside (i := i) rfl inside rfl rfl good.numeric (Option.some_ne_none _) counted
  · rw [accepted]
    exact good.inside (i := i) rfl inside rfl rfl good.numeric ⟨rfl, rfl⟩ counted

theorem writing_synchronized (good : s.Synchronized) {i : I} {query : OrdinaryQuery}
    {answer : Option JsString} {updatedBudget : BudgetStore}
    (here : s.phase i = .writing query answer updatedBudget) :
    (s.proceed analyzer i).Synchronized := by
  have inside : (s.phase i).critical = true := by rw [here]; rfl
  have counted := good.held i inside
  have fits := good.fits i
  rw [here] at counted fits
  obtain ⟨passed, rfl⟩ := fits
  rw [proceed, here]
  exact good.inside (i := i) rfl inside rfl rfl good.numeric ⟨passed, rfl⟩ counted

theorem moving_synchronized (good : s.Synchronized) {i : I} {query : OrdinaryQuery}
    {answer : Option JsString} (here : s.phase i = .moving query answer) :
    (s.proceed analyzer i).Synchronized := by
  have inside : (s.phase i).critical = true := by rw [here]; rfl
  have counted := good.held i inside
  have fits := good.fits i
  rw [here] at counted fits
  obtain ⟨rfl, written⟩ := fits
  rw [proceed, here]
  dsimp only
  rw [written]
  refine good.inside (i := i) rfl inside rfl rfl ?_ (Option.some_ne_none _) ?_
  · intro c t
    exact numeric_setTool good.numeric
      ((good.numeric query.clientId query.toolName).increments query.extractedFields) _ _ c t
  · intro c t field ordinary
    rw [Option.getD_some, query.counts_charged good.numeric c t ordinary, counted c t field ordinary]
    rfl

theorem testing_synchronized (good : s.Synchronized) {i : I} {query : OrdinaryQuery}
    {result : Option (Option JsString)} (here : s.phase i = .testing query result) :
    (s.proceed analyzer i).Synchronized := by
  have inside : (s.phase i).critical = true := by rw [here]; rfl
  have locked := good.exclusive.locked_of_critical inside
  have counted := good.held i inside
  have fits := good.fits i
  rw [here] at counted fits
  rw [proceed, here]
  dsimp only
  rw [if_pos locked]
  refine good.inside (i := i) rfl inside rfl rfl good.numeric fits fun c t field ordinary => ?_
  have same : (LockPhase.unlinking query result).unreported c t field =
      (LockPhase.testing query result).unreported c t field := by
    rcases result with _ | _ | reason <;> rfl
  exact (counted c t field ordinary).trans (congrArg _ same.symm)

theorem unlinking_synchronized (good : s.Synchronized) {i : I} {query : OrdinaryQuery}
    {result : Option (Option JsString)} (here : s.phase i = .unlinking query result) :
    (s.proceed analyzer i).Synchronized := by
  have inside : (s.phase i).critical = true := by rw [here]; rfl
  have fits := good.fits i
  rw [here] at fits
  obtain ⟨answer, rfl⟩ := Option.ne_none_iff_exists'.mp fits
  rw [proceed, here]
  refine good.release (i := i) rfl inside rfl rfl fun c t field => ?_
  change queriesIn _ _ _ _ (_ :: _) = _
  rw [queriesIn_cons, here]
  cases answer with
  | none => rfl
  | some reason => exact congrArg _ (query.queries_false c t field)

theorem step_synchronized (s : SharedStore I) (event : SharedEvent I) (good : s.Synchronized)
    (_ : True) : (s.step analyzer event).Synchronized := by
  cases event with
  | preflight i query => exact preflight_synchronized good i query
  | proceed i =>
    rw [step]
    cases here : s.phase i with
    | idle =>
      rw [proceed, here]
      exact good
    | acquiring query attempts => exact acquiring_synchronized good here
    | reading query => exact reading_synchronized good here
    | writing query answer updatedBudget => exact writing_synchronized good here
    | moving query answer => exact moving_synchronized good here
    | testing query result => exact testing_synchronized good here
    | unlinking query result => exact unlinking_synchronized good here

/-- Without a fallback each accepted query is stored. -/
theorem queriesIn_accepted {log : List PreflightEntry}
    (acquired : ∀ entry ∈ log, entry.fellBack = false) (c t field : JsString) :
    queriesIn (·.accepted) c t field log = queriesIn (·.stored) c t field log := by
  refine congrArg List.sum (List.map_congr_left fun entry member => ?_)
  change _ = entry.query.queries c t field (entry.accepted && !entry.fellBack)
  rw [acquired entry member, Bool.not_false, Bool.and_true]

/-- In every interleaving at most one instance is between acquiring and releasing the lock; and
whenever no preflight is running and none has failed to acquire it, the stored counts are the numbers
of accepted queries. -/
theorem run_synchronized (events : List (SharedEvent I)) :
    let s := Transition.run (step analyzer) start events
    (∀ i j, (s.phase i).critical = true → (s.phase j).critical = true → i = j) ∧
      ((∀ i, s.phase i = .idle) → (∀ entry ∈ s.log, entry.fellBack = false) →
        ∀ c t field, field ∉ inheritedNames →
          (s.store.getD ∅).counts c t field = queriesIn (·.accepted) c t field s.log) := by
  have good := Transition.run_invariant step_synchronized start_synchronized
    (.of_forall (fun _ _ _ => trivial) start : Transition.Allowed (step analyzer) _ _ events)
  refine ⟨fun i j => good.exclusive.unique, fun idle acquired c t field ordinary => ?_⟩
  have unlocked := good.exclusive.unlocked fun i => congrArg LockPhase.critical (idle i)
  rw [good.free unlocked c t field ordinary, queriesIn_accepted acquired]
  rfl

end Runs

end SharedStore

/-! ### Two instances -/

def balanceQuery : OrdinaryQuery where
  clientId := js "c"
  toolName := js "t"
  extractedFields := [js "balance"]
  policy := none
  client_ordinary := by decide
  tool_ordinary := by decide
  fields_ordinary := fun field member => List.mem_singleton.mp member ▸ by decide
  distinct := List.nodup_singleton _

/-- The second instance finds the lock taken once and tries again. -/
def twoInstances : List (SharedEvent Bool) :=
  [.preflight false balanceQuery, .preflight true balanceQuery, .proceed false, .proceed true] ++
    List.replicate 5 (.proceed false) ++ List.replicate 6 (.proceed true)

theorem twoInstances_counted :
    let s := Transition.run (SharedStore.step fun _ => forbidding (js "balance")) .start twoInstances
    (s.store.getD ∅).counts (js "c") (js "t") (js "balance") =
      queriesIn (·.accepted) (js "c") (js "t") (js "balance") s.log ∧ s.log.length = 2 := by
  have counted := (@SharedStore.run_synchronized Bool _ (fun _ => forbidding (js "balance"))
    twoInstances).2
  refine ⟨counted ?_ ?_ (js "c") (js "t") (js "balance") (by decide), by decide +kernel⟩
  · intro i
    cases i <;> rfl
  · have stored : ((Transition.run (SharedStore.step fun _ => forbidding (js "balance")) .start
        twoInstances).log.all fun entry => !entry.fellBack) = true := by decide +kernel
    intro entry member
    exact Bool.not_eq_eq_eq_not.mp (List.all_eq_true.mp stored entry member)

end NeuralMesh.Server
