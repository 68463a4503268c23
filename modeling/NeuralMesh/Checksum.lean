import Mathlib.Logic.Function.Basic

/-! Checks that read a word symbol by symbol. Where reading forgets nothing about the state, a
symbol that leads to another state leads to another result, whatever is read before and after. -/
namespace NeuralMesh

variable {A S : Type} {step : S → A → S} {a b : A}

/-- Reading a symbol keeps different states different. -/
def Reversible (step : S → A → S) : Prop := ∀ a, Function.Injective fun s => step s a

/-- The symbols lead to different states. -/
def Apart (step : S → A → S) (a b : A) : Prop := ∀ s, step s a ≠ step s b

theorem Reversible.foldl (reversible : Reversible step) (word : List A) :
    Function.Injective fun s => word.foldl step s := by
  induction word with
  | nil => exact fun _ _ same => same
  | cons a word ih => exact fun _ _ same => reversible a (ih same)

/-- A check from the left sees every change of one symbol into one that is apart from it. -/
theorem foldl_ne (reversible : Reversible step) (apart : Apart step a b) (before after : List A)
    (s : S) : (before ++ a :: after).foldl step s ≠ (before ++ b :: after).foldl step s := by
  rw [List.foldl_append, List.foldl_append, List.foldl_cons, List.foldl_cons]
  exact fun same => apart _ (reversible.foldl after same)

/-- The same of a check from the right. -/
theorem foldr_ne (reversible : Reversible step) (apart : Apart step a b) (before after : List A)
    (s : S) : (before ++ a :: after).foldr (fun a s => step s a) s ≠
      (before ++ b :: after).foldr (fun a s => step s a) s := by
  have turned := foldl_ne reversible apart after.reverse before.reverse s
  simpa only [List.foldr_eq_foldl_reverse, List.reverse_append, List.reverse_cons,
    List.append_assoc, List.singleton_append] using turned

end NeuralMesh
