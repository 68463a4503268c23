import NeuralMesh.Transition

/-! Machines that answer each event. The trace of a run pairs its events with their answers; the
times of the events do not go back. -/
namespace NeuralMesh.Answers

open Transition

variable {S E A T : Type} {step : S → E → A × S}

def next (step : S → E → A × S) (s : S) (e : E) : S := (step s e).2

def trace (step : S → E → A × S) : S → List E → List (E × A)
  | _, [] => []
  | s, e :: es => (e, (step s e).1) :: trace step (next step s e) es

theorem trace_append {s : S} {before later : List E} :
    trace step s (before ++ later) =
      trace step s before ++ trace step (run (next step) s before) later := by
  induction before generalizing s with
  | nil => rfl
  | cons e before ih => exact congrArg _ ih

theorem trace_events {s : S} {events : List E} : (trace step s events).map Prod.fst = events := by
  induction events generalizing s with
  | nil => rfl
  | cons e events ih => exact congrArg _ ih

theorem trace_length {s : S} {events : List E} : (trace step s events).length = events.length := by
  rw [← List.length_map (f := Prod.fst), trace_events]

/-- What follows the first events. -/
theorem drop_trace {s : S} (before later : List E) :
    (trace step s (before ++ later)).drop before.length =
      trace step (run (next step) s before) later := by
  rw [trace_append, List.drop_append_of_le_length (Nat.le_of_eq trace_length.symm),
    List.drop_eq_nil_of_le (Nat.le_of_eq trace_length), List.nil_append]

theorem mem_events {s : S} {events : List E} {d : E × A} (member : d ∈ trace step s events) :
    d.1 ∈ events := by
  have image := List.mem_map_of_mem (f := Prod.fst) member
  rwa [trace_events] at image

/-- Each entry of a trace is the answer in the state in which its event happens. -/
theorem trace_split {s : S} {events : List E} {before later : List (E × A)} {e : E} {a : A}
    (traced : trace step s events = before ++ (e, a) :: later) :
    ∃ earlier rest, events = earlier ++ e :: rest ∧ before = trace step s earlier ∧
      a = (step (run (next step) s earlier) e).1 ∧
      later = trace step (next step (run (next step) s earlier) e) rest := by
  induction before generalizing s events with
  | nil =>
    cases events with
    | nil => cases traced
    | cons first events =>
      cases traced
      exact ⟨[], events, rfl, rfl, rfl, rfl⟩
  | cons done before ih =>
    cases events with
    | nil => cases traced
    | cons first events =>
      obtain ⟨same, traced⟩ := List.cons.inj traced
      obtain ⟨earlier, rest, split, answered, answer, others⟩ := ih traced
      refine ⟨first :: earlier, rest, congrArg _ split, ?_, answer, others⟩
      rw [trace, same, answered]

/-- An invariant that links what has been answered to the state. -/
theorem trace_kept {good : List (E × A) → S → Prop}
    (kept : ∀ done s e, good done s → good (done ++ [(e, (step s e).1)]) (next step s e))
    {done : List (E × A)} {s : S} (initial : good done s) (events : List E) :
    good (done ++ trace step s events) (run (next step) s events) := by
  induction events generalizing done s with
  | nil =>
    rw [trace, List.append_nil]
    exact initial
  | cons e events ih =>
    have result := ih (kept done s e initial)
    rw [List.append_assoc] at result
    exact result

section Times

variable [LE T] {time : E → T}

def Ordered (time : E → T) (events : List E) : Prop :=
  events.Pairwise fun first second => time first ≤ time second

instance [DecidableLE T] (events : List E) : Decidable (Ordered time events) :=
  inferInstanceAs (Decidable (List.Pairwise _ _))

/-- An invariant that links what has been answered to the state, in a run whose steps satisfy a
condition. -/
theorem trace_invariant {good : List (E × A) → S → Prop} {condition : S → E → Prop}
    (kept : ∀ done s e, good done s → (∀ d ∈ done, time d.1 ≤ time e) → condition s e →
      good (done ++ [(e, (step s e).1)]) (next step s e))
    {done : List (E × A)} {s : S} (initial : good done s) {events : List E}
    (ordered : Ordered time (done.map Prod.fst ++ events))
    (allowed : Allowed (next step) condition s events) :
    good (done ++ trace step s events) (run (next step) s events) := by
  induction events generalizing done s with
  | nil =>
    rw [trace, List.append_nil]
    exact initial
  | cons e events ih =>
    have earlier : ∀ d ∈ done, time d.1 ≤ time e := fun d member =>
      (List.pairwise_append.mp ordered).2.2 _ (List.mem_map_of_mem member) _ List.mem_cons_self
    have moved : Ordered time ((done ++ [(e, (step s e).1)]).map Prod.fst ++ events) := by
      rw [List.map_append, List.append_assoc]
      exact ordered
    have result := ih (kept done s e initial earlier allowed.1) moved allowed.2
    rw [List.append_assoc] at result
    exact result

theorem trace_good {good : List (E × A) → S → Prop}
    (kept : ∀ done s e, good done s → (∀ d ∈ done, time d.1 ≤ time e) →
      good (done ++ [(e, (step s e).1)]) (next step s e))
    {s : S} (initial : good [] s) {events : List E} (ordered : Ordered time events) :
    good (trace step s events) (run (next step) s events) :=
  trace_invariant (fun done s e good order _ => kept done s e good order) initial ordered
    (Allowed.of_forall (fun _ _ _ => trivial) s)

/-- Events that leave what another party sees can be left out of its trace. -/
theorem trace_filter (mine : E → Bool) {Alike : T → S → S → Prop}
    (hidden : ∀ since s t e, Alike since s t → since ≤ time e → mine e = false →
      Alike (time e) (next step s e) t)
    (shown : ∀ since s t e, Alike since s t → since ≤ time e → mine e = true →
      (step s e).1 = (step t e).1 ∧ Alike (time e) (next step s e) (next step t e))
    {since : T} {s t : S} (alike : Alike since s t) {events : List E}
    (ordered : Ordered time events) (later : ∀ e ∈ events, since ≤ time e) :
    (trace step s events).filter (fun entry => mine entry.1) =
      trace step t (events.filter mine) := by
  induction events generalizing since s t with
  | nil => rfl
  | cons e events ih =>
    obtain ⟨first, ordered⟩ := List.pairwise_cons.mp ordered
    have now := later e List.mem_cons_self
    cases own : mine e with
    | false =>
      rw [trace, List.filter_cons_of_neg (by simp [own]), List.filter_cons_of_neg (by simp [own])]
      exact ih (hidden since s t e alike now own) ordered first
    | true =>
      obtain ⟨answer, alike⟩ := shown since s t e alike now own
      rw [trace, List.filter_cons_of_pos (by simp [own]), List.filter_cons_of_pos (by simp [own]),
        trace, answer, ih alike ordered first]

end Times

end NeuralMesh.Answers
