import NeuralMesh.Js.Double
import NeuralMesh.Js.Indented
import NeuralMesh.Js.Object
import NeuralMesh.Codec.Utf8
import NeuralMesh.Transition

/-! The file of the query budget. A new content is written beside it and then takes its place, so a
save that fails at any point leaves what was there. -/
namespace NeuralMesh.Server

open Js Codec Transition

/-- A budget object: JSON data whose numbers are doubles. -/
structure BudgetObject extends JsonObject where
  doubles : asDoubles (.obj members) = .obj members

/-- The budget file and the file beside it. -/
structure BudgetFiles where
  store : Option Bytes
  temp : Option Bytes

/-- Where a save ends. -/
inductive SaveOutcome where
  /-- The writing fails after some bytes. -/
  | torn (bytes : Nat)
  | unrenamed
  | renamed
  deriving DecidableEq

structure Save where
  budget : BudgetObject
  outcome : SaveOutcome

def budgetBytes (budget : BudgetObject) : Bytes := utf8 (indentedText [] (.obj budget.members))

def savePersistentBudget (files : BudgetFiles) (save : Save) : BudgetFiles :=
  match save.outcome with
  | .torn bytes => { files with temp := some ((budgetBytes save.budget).take bytes) }
  | .unrenamed => { files with temp := some (budgetBytes save.budget) }
  | .renamed => ⟨some (budgetBytes save.budget), none⟩

def unsafeKeys : List JsString := [js "__proto__", js "constructor", js "prototype"]

/-- The entries of an array, under its indices. -/
def indexed : Nat → List JsValue → Members
  | _, [] => []
  | index, v :: vs => (ofText (natText index), v) :: indexed (index + 1) vs

def getPersistentBudget (files : BudgetFiles) : Members :=
  match files.store with
  | none => []
  | some bytes =>
    let content := decodeUtf8 bytes
    match parseDoubles (if content = [] then ['\x7b', '\x7d'] else content) with
    | some (.obj members) => without unsafeKeys members
    | some (.arr elements) => indexed 0 elements
    | _ => []

/-! ### What is read -/

theorem budgetBytes_read (budget : BudgetObject) :
    parseDoubles (decodeUtf8 (budgetBytes budget)) = some (.obj budget.members) := by
  rw [budgetBytes, decodeUtf8_utf8, parseDoubles, parse_indentedText budget.plain budget.ordered,
    Option.map_some, budget.doubles]

theorem budgetBytes_nonempty (budget : BudgetObject) :
    decodeUtf8 (budgetBytes budget) ≠ [] := by
  rw [budgetBytes, decodeUtf8_utf8]
  exact List.ne_nil_of_length_pos (indentedText_pos [] _)

theorem getPersistentBudget_saved (budget : BudgetObject) (temp : Option Bytes) :
    getPersistentBudget ⟨some (budgetBytes budget), temp⟩ = without unsafeKeys budget.members := by
  simp only [getPersistentBudget, if_neg (budgetBytes_nonempty budget), budgetBytes_read]

/-- The last budget whose save was completed. -/
def committed (saves : List Save) : Option BudgetObject :=
  ((saves.filter (·.outcome = .renamed)).map (·.budget)).getLast?

theorem committed_append (saves : List Save) (save : Save) :
    committed (saves ++ [save]) =
      if save.outcome = .renamed then some save.budget else committed saves := by
  rw [committed, List.filter_append]
  split_ifs with done
  · rw [List.filter_singleton]
    simp [done]
  · rw [List.filter_singleton]
    simp [done, committed]

theorem store_committed (saves : List Save) :
    (run savePersistentBudget ⟨none, none⟩ saves).store = (committed saves).map budgetBytes := by
  induction saves using List.reverseRecOn with
  | nil => rfl
  | append_singleton saves save ih =>
    rw [run_append, committed_append]
    cases outcome : save.outcome with
    | torn bytes | unrenamed =>
      simp only [run, List.foldl_cons, List.foldl_nil, savePersistentBudget, outcome,
        reduceCtorEq, if_false]
      exact ih
    | renamed =>
      simp only [run, List.foldl_cons, List.foldl_nil, savePersistentBudget, outcome, if_true,
        Option.map_some]

/-- Whatever saves fail on the way, the budget that is read is the last one that was saved, without
the keys that are refused. -/
theorem run_persistent (saves : List Save) :
    getPersistentBudget (run savePersistentBudget ⟨none, none⟩ saves) =
      ((committed saves).map fun budget => without unsafeKeys budget.members).getD [] := by
  have stored := store_committed saves
  cases last : committed saves with
  | none =>
    rw [last] at stored
    rw [getPersistentBudget, stored]
    rfl
  | some budget =>
    rw [last] at stored
    generalize run savePersistentBudget ⟨none, none⟩ saves = files at stored ⊢
    obtain ⟨store, temp⟩ := files
    obtain rfl : store = some (budgetBytes budget) := stored
    exact getPersistentBudget_saved budget temp

end NeuralMesh.Server
