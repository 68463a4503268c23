import NeuralMesh.Security.RecordShapes
import NeuralMesh.Server.QueryBudget

/-! The fields that a program reads and the fields that it is charged for. A program that reaches
records in the recognised ways is charged for every field; one that reads through an alias of the
records, for instance, is charged for nothing. -/
namespace NeuralMesh.Security

open Js

variable {D : Type}

/-- The tree that `extractQueriedFields` looks at. -/
def queriedTree (body : List (Statement D)) : Node := programTree (js "w") body

namespace Context

open Traced

variable {c : Context D} {allowed : JsString → Prop} {shapes : JsString → Shape} {bound : Names}
  {body : List (Statement D)}

theorem initialScopes_typed (keeps : KeepsShapes shapes bound body) :
    Typed shapes (c.initialScopes body) := by
  obtain ⟨env, records, _⟩ := keeps
  have own : Fit shapes ((allVarNames body).filter (· ≠ js "env") |>.map fun name =>
      (name, Value.data c.undefined)) := by
    intro entry member
    obtain ⟨name, _, rfl⟩ := List.mem_map.mp member
    exact (IsData.data _).hasShape _
  have others : Fit shapes ((js "env", Value.env) :: (js "records", c.allRecords) ::
      c.globals.map fun global => (global.1, .data global.2)) := by
    refine List.forall_mem_cons.mpr ⟨?_, List.forall_mem_cons.mpr ⟨?_, ?_⟩⟩
    · rw [env]
      exact .inr rfl
    · rw [records]
      exact allRecords_shape
    · intro entry member
      obtain ⟨global, _, rfl⟩ := List.mem_map.mp member
      exact (IsData.data _).hasShape _
  exact typed_bind own (List.append_nil (Scopes.bind _) ▸ typed_bind others (by rintro _ ⟨⟩))

/-- A program that keeps to the shapes reads allowed fields only, and ends with data. -/
theorem run_meets (keeps : KeepsShapes shapes bound body)
    (charged : Charged allowed bound (visitedAll (statementNodes body))) :
    Meets allowed IsData (HasShape · .data) (c.run body) := by
  refine (exec_meets (.block body) (initialScopes_typed keeps) keeps.2.2 ?_).bind
    fun completion finishes => Meets.pure ?_
  · simp only [Statement.node, visited, List.forall_mem_append]
    refine ⟨charged, ?_⟩
    intro node member field charge
    rw [List.mem_singleton.mp member] at charge
    cases charge
  · obtain ⟨after, returned⟩ := completion
    cases returned with
    | none => exact .data _
    | some v => exact finishes.returned v rfl

end Context

/-- A node that is visited is charged for the field that it reads. -/
theorem mem_queriedFields {ast node : Node} {field : JsString} (member : node ∈ visited ast)
    (reads : queriedField (identifyRecordBoundVars ast) node = some field) :
    field ∈ queriedFields ast := by
  rw [queriedFields, mem_foldl_setAdd]
  exact .inr (List.mem_filterMap.mpr ⟨node, member, reads⟩)

/-- `return env.records.map(r => r.age);` -/
def mappedAges : List (Statement JsValue) :=
  [.returning (some (.call (.member (.identifier (js "env")) (js "records")) .map
    [.identifier (js "r")] (.member (.identifier (js "r")) (js "age"))))]

def mappedShapes (name : JsString) : Shape :=
  if name = js "env" then .env
  else if name = js "records" then .records
  else if name = js "r" then .record
  else .data

/-- `const rs = env.records; return rs[0].salary;` -/
def aliasedRecords : List (Statement JsValue) :=
  [.declare .constant (.identifier (js "rs"))
      (some (.member (.identifier (js "env")) (js "records"))),
    .returning (some (.member (.index (.identifier (js "rs"))
      (.literal (.num (.finite (Decimal.normalize 0 0))))) (js "salary")))]

end NeuralMesh.Security
