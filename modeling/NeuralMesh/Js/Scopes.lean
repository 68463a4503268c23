import NeuralMesh.Js.StringText

/-! Variables in nested scopes, the innermost first. A name stands for the first slot of that name;
a slot without a value is declared, but not yet initialised. -/
namespace NeuralMesh.Js

structure Slot (V : Type) where
  name : JsString
  constant : Bool
  value : Option V

abbrev Scopes (V : Type) := List (Slot V)

namespace Scopes

variable {V : Type}

def lookup (name : JsString) (scopes : Scopes V) : Option (Slot V) :=
  scopes.find? fun slot => slot.name = name

def store (name : JsString) (v : V) : Scopes V → Scopes V
  | [] => []
  | slot :: scopes =>
    if slot.name = name then { slot with value := some v } :: scopes
    else slot :: store name v scopes

def storeAll (values : List (JsString × V)) (scopes : Scopes V) : Scopes V :=
  values.foldl (fun scopes (name, v) => store name v scopes) scopes

/-- Slots for names and their values. -/
def bind (values : List (JsString × V)) : Scopes V :=
  values.map fun (name, v) => ⟨name, false, some v⟩

/-! ### What all variables satisfy -/

def Holds (good : JsString → V → Prop) (scopes : Scopes V) : Prop :=
  ∀ slot ∈ scopes, ∀ v, slot.value = some v → good slot.name v

variable {good : JsString → V → Prop} {scopes : Scopes V}

theorem Holds.lookup (holds : Holds good scopes) {name : JsString} {slot : Slot V} {v : V}
    (found : lookup name scopes = some slot) (present : slot.value = some v) : good name v := by
  rw [Scopes.lookup] at found
  have named : slot.name = name := by simpa using List.find?_some found
  exact named ▸ holds slot (List.mem_of_find?_eq_some found) v present

theorem Holds.append {inner : Scopes V} (first : Holds good inner) (rest : Holds good scopes) :
    Holds good (inner ++ scopes) := by
  intro slot member
  rcases List.mem_append.mp member with early | late
  · exact first slot early
  · exact rest slot late

theorem Holds.drop (holds : Holds good scopes) (n : Nat) : Holds good (scopes.drop n) :=
  fun slot member => holds slot (List.mem_of_mem_drop member)

theorem Holds.store (holds : Holds good scopes) {name : JsString} {v : V} (fits : good name v) :
    Holds good (store name v scopes) := by
  induction scopes with
  | nil => exact holds
  | cons slot scopes ih =>
    obtain ⟨first, others⟩ := List.forall_mem_cons.mp holds
    rw [Scopes.store]
    split_ifs with named
    · refine List.forall_mem_cons.mpr ⟨?_, others⟩
      rintro _ ⟨⟩
      exact named ▸ fits
    · exact List.forall_mem_cons.mpr ⟨first, ih others⟩

theorem Holds.storeAll (holds : Holds good scopes) {values : List (JsString × V)}
    (fit : ∀ entry ∈ values, good entry.1 entry.2) : Holds good (storeAll values scopes) := by
  induction values generalizing scopes with
  | nil => exact holds
  | cons entry values ih =>
    obtain ⟨first, others⟩ := List.forall_mem_cons.mp fit
    exact ih (holds.store first) others

theorem holds_bind {values : List (JsString × V)} (fit : ∀ entry ∈ values, good entry.1 entry.2) :
    Holds good (bind values) := by
  intro slot member
  obtain ⟨entry, present, rfl⟩ := List.mem_map.mp member
  rintro _ ⟨⟩
  exact fit entry present

/-! ### Scopes of two runs -/

/-- One variable in both runs; its value is the same where the name is low. -/
structure SlotAgrees (low : JsString → Prop) (a b : Slot V) : Prop where
  name : a.name = b.name
  constant : a.constant = b.constant
  declared : a.value.isSome = b.value.isSome
  value : low a.name → a.value = b.value

abbrev Agree (low : JsString → Prop) : Scopes V → Scopes V → Prop :=
  List.Forall₂ (SlotAgrees low)

variable {low : JsString → Prop} {others : Scopes V}

theorem SlotAgrees.refl (slot : Slot V) : SlotAgrees low slot slot :=
  ⟨rfl, rfl, rfl, fun _ => rfl⟩

theorem agree_refl (scopes : Scopes V) : Agree low scopes scopes :=
  List.forall₂_same.mpr fun slot _ => SlotAgrees.refl slot

theorem Agree.lookup (agree : Agree low scopes others) (name : JsString) :
    lookup name scopes = none ∧ lookup name others = none ∨
      ∃ a b, lookup name scopes = some a ∧ lookup name others = some b ∧ a.name = name ∧
        SlotAgrees low a b := by
  induction agree with
  | nil => exact .inl ⟨rfl, rfl⟩
  | @cons a b scopes others both _ ih =>
    by_cases named : a.name = name
    · refine .inr ⟨a, b, ?_, ?_, named, both⟩
      · exact List.find?_cons_of_pos (decide_eq_true named)
      · exact List.find?_cons_of_pos (decide_eq_true (both.name ▸ named))
    · have left : Scopes.lookup name (a :: scopes) = Scopes.lookup name scopes :=
        List.find?_cons_of_neg (by simpa using named)
      have right : Scopes.lookup name (b :: others) = Scopes.lookup name others :=
        List.find?_cons_of_neg (by simpa using both.name ▸ named)
      rw [left, right]
      exact ih

theorem Agree.store (agree : Agree low scopes others) {name : JsString} {v w : V}
    (same : low name → v = w) : Agree low (store name v scopes) (store name w others) := by
  induction agree with
  | nil => exact .nil
  | @cons a b scopes others both rest ih =>
    rw [Scopes.store, Scopes.store]
    by_cases named : a.name = name
    · rw [if_pos named, if_pos (both.name ▸ named)]
      refine .cons ⟨both.name, both.constant, rfl, fun isLow => ?_⟩ rest
      exact congrArg some (same (named ▸ isLow))
    · rw [if_neg named, if_neg (both.name ▸ named)]
      exact .cons both ih

theorem Agree.append {inner inner' : Scopes V} (first : Agree low inner inner')
    (rest : Agree low scopes others) : Agree low (inner ++ scopes) (inner' ++ others) := by
  induction first with
  | nil => exact rest
  | cons both _ ih => exact .cons both ih

theorem Agree.drop (agree : Agree low scopes others) (n : Nat) :
    Agree low (scopes.drop n) (others.drop n) :=
  List.forall₂_drop n agree

end Scopes

end NeuralMesh.Js
