import Mathlib.Data.List.Basic

/-! Runs of a machine with a step function. A property of states is an invariant
under a condition when every step taken from a good state, and allowed by the
condition there, leads to a good state. -/
namespace NeuralMesh.Transition

variable {S E : Type}

def run (step : S → E → S) (start : S) (events : List E) : S := events.foldl step start

/-- Each event satisfies the condition in the state in which it happens. -/
def Allowed (step : S → E → S) (condition : S → E → Prop) : S → List E → Prop
  | _, [] => True
  | s, e :: es => condition s e ∧ Allowed step condition (step s e) es

theorem Allowed.of_append {step : S → E → S} {condition : S → E → Prop} {start : S}
    {before later : List E} (allowed : Allowed step condition start (before ++ later)) :
    Allowed step condition start before := by
  induction before generalizing start with
  | nil => trivial
  | cons e before ih => exact ⟨allowed.1, ih allowed.2⟩

theorem Allowed.of_run {step : S → E → S} {condition : S → E → Prop} {start : S}
    {before later : List E} (allowed : Allowed step condition start (before ++ later)) :
    Allowed step condition (run step start before) later := by
  induction before generalizing start with
  | nil => exact allowed
  | cons e before ih => exact ih allowed.2

theorem Allowed.append {step : S → E → S} {condition : S → E → Prop} {start : S}
    {before later : List E} (first : Allowed step condition start before)
    (rest : Allowed step condition (run step start before) later) :
    Allowed step condition start (before ++ later) := by
  induction before generalizing start with
  | nil => exact rest
  | cons e before ih => exact ⟨first.1, ih first.2 rest⟩

theorem Allowed.imp {step : S → E → S} {condition weaker : S → E → Prop}
    (implies : ∀ s e, condition s e → weaker s e) {start : S} {events : List E}
    (allowed : Allowed step condition start events) : Allowed step weaker start events := by
  induction events generalizing start with
  | nil => trivial
  | cons e events ih => exact ⟨implies start e allowed.1, ih allowed.2⟩

/-- A condition on the events alone. -/
theorem Allowed.of_forall {step : S → E → S} {condition : S → E → Prop} {events : List E}
    (each : ∀ e ∈ events, ∀ s, condition s e) (start : S) :
    Allowed step condition start events := by
  induction events generalizing start with
  | nil => trivial
  | cons e events ih =>
    obtain ⟨first, others⟩ := List.forall_mem_cons.mp each
    exact ⟨first start, ih others (step start e)⟩

theorem run_append {step : S → E → S} {start : S} {before later : List E} :
    run step start (before ++ later) = run step (run step start before) later :=
  List.foldl_append

theorem run_invariant {step : S → E → S} {condition : S → E → Prop} {good : S → Prop}
    (preserved : ∀ s e, good s → condition s e → good (step s e)) {start : S}
    (initial : good start) {events : List E} (allowed : Allowed step condition start events) :
    good (run step start events) := by
  induction events generalizing start with
  | nil => exact initial
  | cons e events ih => exact ih (preserved start e initial allowed.1) allowed.2

/-- The same of a relation between the events so far and the state. -/
theorem run_history {step : S → E → S} {good : List E → S → Prop}
    (preserved : ∀ history s e, good history s → good (history ++ [e]) (step s e)) {start : S}
    {history : List E} (initial : good history start) (events : List E) :
    good (history ++ events) (run step start events) := by
  induction events generalizing history start with
  | nil =>
    rw [List.append_nil]
    exact initial
  | cons e events ih =>
    have later := ih (preserved history start e initial)
    rw [List.append_assoc, List.singleton_append] at later
    exact later

/-- An invariant that depends on the time of the last event, when the times do not go back. -/
theorem run_timed {step : S → E → S} {condition : S → E → Prop} {time : E → Nat}
    {good : Nat → S → Prop}
    (preserved : ∀ since s e, good since s → since ≤ time e → condition s e →
      good (time e) (step s e)) {since : Nat} {start : S} (initial : good since start)
    {events : List E} (ordered : (since :: events.map time).Pairwise (· ≤ ·))
    (allowed : Allowed step condition start events) :
    ∃ last, good last (run step start events) := by
  induction events generalizing since start with
  | nil => exact ⟨since, initial⟩
  | cons e events ih =>
    obtain ⟨first, others⟩ := List.pairwise_cons.mp ordered
    exact ih (preserved since start e initial (first _ List.mem_cons_self) allowed.1) others
      allowed.2

/-- The invariant holds in every state that the run visits. -/
theorem visited_invariant {step : S → E → S} {condition : S → E → Prop} {good : S → Prop}
    (preserved : ∀ s e, good s → condition s e → good (step s e)) {start : S}
    (initial : good start) {events before : List E}
    (allowed : Allowed step condition start events) (visited : before <+: events) :
    good (run step start before) := by
  obtain ⟨later, rfl⟩ := visited
  exact run_invariant preserved initial allowed.of_append

end NeuralMesh.Transition
