import Mathlib.Logic.Function.Basic

/-! Mutual exclusion by a flag. The parties are in phases, some of which are critical; the flag is
up exactly while one party is in a critical phase. -/
namespace NeuralMesh

variable {I P : Type}

/-- The flag names its only holder. -/
def Exclusive (critical : P → Bool) (phase : I → P) (locked : Bool) : Prop :=
  ∃ holder : Option I, locked = holder.isSome ∧ ∀ i, critical (phase i) = true ↔ holder = some i

namespace Exclusive

variable {critical : P → Bool} {phase : I → P} {locked : Bool}

theorem idle (none : ∀ i, critical (phase i) = false) : Exclusive critical phase false := by
  refine ⟨.none, rfl, fun i => ?_⟩
  rw [none i]
  exact ⟨(nomatch ·), (nomatch ·)⟩

theorem unique (exclusive : Exclusive critical phase locked) {i j : I}
    (first : critical (phase i) = true) (second : critical (phase j) = true) : i = j := by
  obtain ⟨holder, -, holds⟩ := exclusive
  exact Option.some.inj (((holds i).mp first).symm.trans ((holds j).mp second))

theorem locked_of_critical (exclusive : Exclusive critical phase locked) {i : I}
    (inside : critical (phase i) = true) : locked = true := by
  obtain ⟨holder, raised, holds⟩ := exclusive
  rw [raised, (holds i).mp inside]
  rfl

theorem outside (exclusive : Exclusive critical phase false) (i : I) :
    critical (phase i) = false := by
  by_contra inside
  cases exclusive.locked_of_critical (Bool.not_eq_false _ ▸ inside)

theorem unlocked (exclusive : Exclusive critical phase locked)
    (none : ∀ i, critical (phase i) = false) : locked = false := by
  obtain ⟨holder, raised, holds⟩ := exclusive
  cases holder with
  | none => exact raised
  | some i => exact absurd ((holds i).mpr rfl) (none i ▸ Bool.false_ne_true)

variable [DecidableEq I] {i : I} {next : P}

/-- A step within the critical phases, or outside of them. -/
theorem stay (exclusive : Exclusive critical phase locked)
    (same : critical next = critical (phase i)) :
    Exclusive critical (Function.update phase i next) locked := by
  obtain ⟨holder, raised, holds⟩ := exclusive
  refine ⟨holder, raised, fun j => ?_⟩
  rw [← holds j]
  by_cases here : j = i
  · subst here
    rw [Function.update_self, same]
  · rw [Function.update_of_ne here]

theorem acquire (exclusive : Exclusive critical phase false) (enters : critical next = true) :
    Exclusive critical (Function.update phase i next) true := by
  refine ⟨some i, rfl, fun j => ?_⟩
  by_cases here : j = i
  · subst here
    rw [Function.update_self]
    exact ⟨fun _ => rfl, fun _ => enters⟩
  · rw [Function.update_of_ne here, exclusive.outside j]
    exact ⟨(nomatch ·), fun same => absurd (Option.some.inj same).symm here⟩

theorem release (exclusive : Exclusive critical phase locked) (inside : critical (phase i) = true)
    (leaves : critical next = false) : Exclusive critical (Function.update phase i next) false := by
  refine idle fun j => ?_
  by_cases here : j = i
  · subst here
    rw [Function.update_self, leaves]
  · rw [Function.update_of_ne here, ← Bool.not_eq_true]
    exact fun other => here (exclusive.unique other inside)

end Exclusive

end NeuralMesh
