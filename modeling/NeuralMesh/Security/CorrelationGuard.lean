import NeuralMesh.Security.LogicProgram

/-! The correlation guard. It counts the places at which callbacks read a field, so that one
aggregation that reads a field twice counts like two that read it once. -/
namespace NeuralMesh.Security

open Js
open scoped List

/-! ### Counts over a list -/

/-- Two parts contribute, at different places, or one contributes twice. -/
theorem two_le_count_flatMap {α β : Type} [BEq β] [LawfulBEq β] {l : List α} {g : α → List β}
    {b : β} :
    2 ≤ (l.flatMap g).count b ↔
      (∃ x y, [x, y] <+ l ∧ b ∈ g x ∧ b ∈ g y) ∨ ∃ x ∈ l, 2 ≤ (g x).count b := by
  induction l with
  | nil => simp
  | cons a l ih =>
    have later : 0 < (l.flatMap g).count b ↔ ∃ y ∈ l, b ∈ g y := by
      simp only [List.count_pos_iff, List.mem_flatMap]
    simp only [List.flatMap_cons, List.count_append]
    constructor
    · intro twice
      by_cases both : 0 < (g a).count b ∧ 0 < (l.flatMap g).count b
      · obtain ⟨y, found, member⟩ := later.mp both.2
        exact .inl ⟨a, y, .cons_cons a (List.singleton_sublist.mpr found),
          List.count_pos_iff.mp both.1, member⟩
      · by_cases here : 2 ≤ (g a).count b
        · exact .inr ⟨a, List.mem_cons_self, here⟩
        · rcases ih.mp (by omega) with ⟨x, y, found, members⟩ | ⟨x, found, count⟩
          · exact .inl ⟨x, y, .cons a found, members⟩
          · exact .inr ⟨x, List.mem_cons_of_mem a found, count⟩
    · rintro (⟨x, y, found, inFirst, inSecond⟩ | ⟨x, found, count⟩)
      · cases found with
        | cons _ found =>
          have inner := ih.mpr (.inl ⟨x, y, found, inFirst, inSecond⟩)
          omega
        | cons_cons _ found =>
          have here := List.count_pos_iff.mpr inFirst
          have there := later.mpr ⟨y, List.singleton_sublist.mp found, inSecond⟩
          omega
      · rcases List.mem_cons.mp found with rfl | found
        · omega
        · have inner := ih.mpr (.inr ⟨x, found, count⟩)
          omega

theorem two_le_count_filterMap {α β : Type} [BEq β] [LawfulBEq β] {l : List α}
    {g : α → Option β} {b : β} :
    2 ≤ (l.filterMap g).count b ↔ ∃ x y, [x, y] <+ l ∧ g x = some b ∧ g y = some b := by
  have once (x : α) : ¬ 2 ≤ (g x).toList.count b := by
    have short := (g x).toList.count_le_length (a := b)
    have single := (g x).length_toList_le
    omega
  simp only [List.filterMap_eq_flatMap_toList, two_le_count_flatMap, once, and_false, exists_false,
    or_false, Option.mem_toList]

/-! ### Aggregations -/

/-- `env.records` or `records`, and what `slice`, `filter` and `toSorted` make of it. -/
inductive RecordsChain : Node → Prop
  | access {node : Node} : isEnvRecordsAccess node = true → RecordsChain node
  | derived {object property : Node} {computed : Bool} {arguments : List Node} {method : String} :
    method ∈ ["slice", "filter", "toSorted"] → getPropertyName property computed = some (js method) →
    RecordsChain object → RecordsChain (.callExpression (.memberExpression object property computed)
      arguments)

/-- The second parameter of a callback, or the only one. -/
def recordParam (params : List Node) : Option Node :=
  if 1 < params.length then params[1]? else params[0]?

/-- A `reduce` or `reduceRight` of the records by a function that names its record. -/
inductive Aggregates : Node → (paramName : JsString) → (body : Node) → Prop
  | call {object property : Node} {computed : Bool} {kind : FunctionKind} {id : Option JsString}
    {params arguments : List Node} {paramName : JsString} {body : Node} {method : String} :
    method ∈ ["reduce", "reduceRight"] → getPropertyName property computed = some (js method) →
    RecordsChain object → kind ≠ .declaration →
    recordParam params = some (.identifier paramName) →
    Aggregates (.callExpression (.memberExpression object property computed)
      (.function kind id params body :: arguments)) paramName body

/-- The node reads the field of the record; `length` is no field. -/
def ReadsField (paramName field : JsString) (node : Node) : Prop :=
  field ≠ js "length" ∧ ∃ property computed,
    node = .memberExpression (.identifier paramName) property computed ∧
      getPropertyName property computed = some field

/-- The call is an aggregation that reads the field. -/
def AggregatesField (field : JsString) (call : Node) : Prop :=
  ∃ paramName body, Aggregates call paramName body ∧
    ∃ node ∈ visited body, ReadsField paramName field node

/-- Two aggregations, at different places of the walk, read the field. -/
def Correlated (ast : Node) (field : JsString) : Prop :=
  ∃ first second, [first, second] <+ visited ast ∧
    AggregatesField field first ∧ AggregatesField field second

/-- One aggregation reads the field at two places. -/
def ReadTwice (ast : Node) (field : JsString) : Prop :=
  ∃ call ∈ visited ast, ∃ paramName body, Aggregates call paramName body ∧
    ∃ node node', [node, node'] <+ visited body ∧
      ReadsField paramName field node ∧ ReadsField paramName field node'

/-! ### What the detector counts -/

theorem propertyName_iff {property : Node} {computed : Bool} {name : JsString} :
    propertyName property computed = some name ↔
      getPropertyName property computed = some name ∧ name ≠ [] := by
  simp [propertyName, Option.filter_eq_some_iff]

/-- A method of a list of methods. -/
theorem method_iff {property : Node} {computed : Bool} {methods : List String}
    (nonempty : js "" ∉ methods.map js) :
    (propertyName property computed).any (· ∈ methods.map js) = true ↔
      ∃ method ∈ methods, getPropertyName property computed = some (js method) := by
  simp only [Option.any_eq_true, decide_eq_true_eq, List.mem_map, propertyName_iff]
  constructor
  · rintro ⟨name, ⟨named, _⟩, method, member, rfl⟩
    exact ⟨method, member, named⟩
  · rintro ⟨method, member, named⟩
    refine ⟨js method, ⟨named, fun empty => ?_⟩, method, member, rfl⟩
    exact nonempty (List.mem_map.mpr ⟨method, member, empty⟩)

theorem isEnvRecordsChain_iff {node : Node} : isEnvRecordsChain node = true ↔ RecordsChain node := by
  constructor
  · fun_induction isEnvRecordsChain node with
    | case1 object property computed arguments ih =>
      intro chain
      simp only [Bool.and_eq_true] at chain
      obtain ⟨method, member, named⟩ := (method_iff (by decide)).mp chain.1
      exact .derived member named (ih chain.2)
    | case2 node other => exact .access
  · intro chain
    induction chain with
    | @access node access =>
      cases node with
      | identifier | memberExpression => exact access
      | _ => cases access
    | derived member named _ ih =>
      simp only [isEnvRecordsChain, Bool.and_eq_true]
      exact ⟨(method_iff (by decide)).mpr ⟨_, member, named⟩, ih⟩

theorem fieldRead_iff {paramName field : JsString} {node : Node} (nonempty : field ≠ []) :
    fieldRead paramName node = some field ↔ ReadsField paramName field node := by
  unfold fieldRead ReadsField
  split
  · rename_i name property computed
    simp only [Node.memberExpression.injEq, Node.identifier.injEq]
    constructor
    · intro reads
      split_ifs at reads with same
      simp only [Option.filter_eq_some_iff, decide_eq_true_eq, propertyName_iff] at reads
      exact ⟨reads.2, property, computed, ⟨same, rfl, rfl⟩, reads.1.1⟩
    · rintro ⟨counted, _, _, ⟨rfl, rfl, rfl⟩, named⟩
      simp only [if_true, Option.filter_eq_some_iff, decide_eq_true_eq, propertyName_iff]
      exact ⟨⟨named, nonempty⟩, counted⟩
  · rename_i other
    constructor
    · rintro ⟨⟩
    · rintro ⟨_, property, computed, rfl, _⟩
      exact absurd rfl (other _ _ _)

theorem recordParam_iff {params : List Node} {paramName : JsString} :
    (recordParam params).bind Node.identifier? = some paramName ↔
      recordParam params = some (.identifier paramName) := by
  cases recordParam params with
  | none => simp
  | some node => cases node <;> simp [Node.identifier?]

theorem aggregation_iff {object property : Node} {computed : Bool} {kind : FunctionKind} :
    ((propertyName property computed).any (· ∈ REDUCE_METHODS) && isEnvRecordsChain object &&
        kind ≠ .declaration) = true ↔
      (∃ method ∈ ["reduce", "reduceRight"],
        getPropertyName property computed = some (js method)) ∧
        RecordsChain object ∧ kind ≠ .declaration := by
  rw [← method_iff (by decide), ← isEnvRecordsChain_iff]
  simp only [Bool.and_eq_true, decide_eq_true_eq, REDUCE_METHODS, and_assoc]
  rfl

/-- A call counts the fields that its callback reads, if it is an aggregation. -/
theorem aggregatedFields_iff {call : Node} {field : JsString} {count : Nat} (positive : 0 < count) :
    count ≤ (aggregatedFields call).count field ↔ ∃ paramName body,
      Aggregates call paramName body ∧ count ≤ (extractFieldsFromBody body paramName).count field := by
  constructor
  · intro counted
    unfold aggregatedFields at counted
    split at counted
    · rename_i object property computed kind id params body arguments
      split at counted
      · rename_i aggregation
        obtain ⟨⟨method, member, named⟩, chain, notDeclared⟩ := aggregation_iff.mp aggregation
        change count ≤ (((recordParam params).bind Node.identifier?).elim []
          (extractFieldsFromBody body)).count field at counted
        cases param : (recordParam params).bind Node.identifier? with
        | none =>
          simp only [param, Option.elim_none, List.count_nil] at counted
          omega
        | some paramName =>
          simp only [param, Option.elim_some] at counted
          exact ⟨paramName, body, .call member named chain notDeclared (recordParam_iff.mp param),
            counted⟩
      · simp only [List.count_nil] at counted
        omega
    · simp only [List.count_nil] at counted
      omega
  · rintro ⟨paramName, body, aggregates, counted⟩
    cases aggregates with
    | call member named chain notDeclared param =>
      have aggregation := aggregation_iff.mpr ⟨⟨_, member, named⟩, chain, notDeclared⟩
      rw [aggregatedFields, if_pos aggregation]
      change count ≤ (((recordParam _).bind Node.identifier?).elim []
        (extractFieldsFromBody body)).count field
      simpa only [recordParam_iff.mpr param, Option.elim_some] using counted

theorem aggregatesField_iff {call : Node} {field : JsString} (nonempty : field ≠ []) :
    field ∈ aggregatedFields call ↔ AggregatesField field call := by
  have member (fields : Names) : field ∈ fields ↔ 1 ≤ fields.count field := List.count_pos_iff.symm
  simp only [member, aggregatedFields_iff Nat.one_pos]
  simp only [← member, AggregatesField, extractFieldsFromBody, List.mem_filterMap,
    fieldRead_iff nonempty]

/-- No field with an empty name is counted. -/
theorem nonempty_of_counted {call : Node} {field : JsString} (member : field ∈ aggregatedFields call) :
    field ≠ [] := by
  obtain ⟨paramName, body, _, counted⟩ :=
    (aggregatedFields_iff Nat.one_pos).mp (List.count_pos_iff.mpr member)
  obtain ⟨node, _, read⟩ := List.mem_filterMap.mp (List.count_pos_iff.mp counted)
  unfold fieldRead at read
  split at read
  · split_ifs at read
    exact (propertyName_iff.mp (Option.filter_eq_some_iff.mp read).1).2
  · cases read

/-! ### The guard -/

/-- The guard reports a field that two aggregations read, or that one reads twice. -/
theorem detectCorrelatedAggregations_iff (ast : Node) :
    detectCorrelatedAggregations ast ≠ none ↔
      ∃ field ≠ [], Correlated ast field ∨ ReadTwice ast field := by
  have counted {field : JsString} (nonempty : field ≠ []) :
      2 ≤ ((visited ast).flatMap aggregatedFields).count field ↔
        Correlated ast field ∨ ReadTwice ast field := by
    simp only [two_le_count_flatMap, aggregatesField_iff nonempty, aggregatedFields_iff Nat.two_pos,
      extractFieldsFromBody, two_le_count_filterMap, fieldRead_iff nonempty, Correlated, ReadTwice]
  simp only [detectCorrelatedAggregations, ne_eq, Option.map_eq_none_iff, List.find?_eq_none,
    decide_eq_true_eq, not_forall, not_not]
  constructor
  · rintro ⟨field, member, twice⟩
    obtain ⟨call, _, inside⟩ := List.mem_flatMap.mp member
    have nonempty := nonempty_of_counted inside
    exact ⟨field, nonempty, (counted nonempty).mp twice⟩
  · rintro ⟨field, nonempty, reads⟩
    have twice := (counted nonempty).mpr reads
    exact ⟨field, List.count_pos_iff.mp (by omega), twice⟩

/-- The guard counts aggregations exactly if two aggregations share a field wherever one reads a
field twice, and wherever two share the field without a name. -/
theorem counts_aggregations_iff (ast : Node) :
    (detectCorrelatedAggregations ast ≠ none ↔ ∃ field, Correlated ast field) ↔
      ((∃ field ≠ [], ReadTwice ast field) → ∃ field, Correlated ast field) ∧
        (Correlated ast [] → ∃ field ≠ [], Correlated ast field ∨ ReadTwice ast field) := by
  rw [detectCorrelatedAggregations_iff]
  constructor
  · intro counts
    refine ⟨fun ⟨field, nonempty, twice⟩ => counts.mp ⟨field, nonempty, .inr twice⟩,
      fun unnamed => counts.mpr ⟨[], unnamed⟩⟩
  · rintro ⟨once, named⟩
    constructor
    · rintro ⟨field, nonempty, shared | twice⟩
      · exact ⟨field, shared⟩
      · exact once ⟨field, nonempty, twice⟩
    · rintro ⟨field, shared⟩
      by_cases unnamed : field = []
      · exact named (unnamed ▸ shared)
      · exact ⟨field, unnamed, .inl shared⟩

/-! ### One aggregation -/

def Node.isCall : Node → Bool
  | .callExpression _ _ => true
  | _ => false

theorem AggregatesField.isCall {field : JsString} {call : Node}
    (aggregates : AggregatesField field call) : call.isCall = true := by
  obtain ⟨_, _, ⟨⟩, _⟩ := aggregates
  rfl

/-- `return env.records.reduce((s, r) => s + r.x * r.x, 0);` -/
def squares : List (Statement JsValue) :=
  [.returning (some (.reduceFrom (.member (.identifier (js "env")) (js "records")) .reduce
    [.identifier (js "s"), .identifier (js "r")]
    (.binary .add (.identifier (js "s")) (.binary .multiply
      (.member (.identifier (js "r")) (js "x")) (.member (.identifier (js "r")) (js "x"))))
    (.literal (.num (.finite 0)))))]

def squaresTree : Node := programTree (js "liop_analysis_wrapper") squares

/-- The only aggregation is reported, because it reads a field twice. -/
theorem squares_reported : ¬ ∀ ast : Node,
    detectCorrelatedAggregations ast ≠ none ↔ ∃ field, Correlated ast field := by
  intro counts
  have reported : (detectCorrelatedAggregations squaresTree).isSome = true := rfl
  obtain ⟨field, first, second, places, inFirst, inSecond⟩ :=
    (counts squaresTree).mp (Option.isSome_iff_ne_none.mp reported)
  have calls := places.filter Node.isCall
  simp only [List.filter_cons, inFirst.isCall, inSecond.isCall, if_true, List.filter_nil] at calls
  have one : ((visited squaresTree).filter Node.isCall).length = 1 := rfl
  have two := calls.length_le
  simp only [one, List.length_cons, List.length_nil] at two
  omega

end NeuralMesh.Security
