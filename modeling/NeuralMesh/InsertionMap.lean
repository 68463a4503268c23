import Mathlib.Data.List.Nodup

/-! Maps that keep the order in which their keys were first set. -/
namespace NeuralMesh

structure InsertionMap (α β : Type) where
  entries : List (α × β)
  distinct : (entries.map Prod.fst).Nodup

namespace InsertionMap

variable {α β : Type} [DecidableEq α]

/-- The value of a key in its place, or behind the others. -/
def setEntry (key : α) (value : β) : List (α × β) → List (α × β)
  | [] => [(key, value)]
  | (k, v) :: rest => if k = key then (key, value) :: rest else (k, v) :: setEntry key value rest

theorem mem_setEntry_keys {key k : α} {value : β} {entries : List (α × β)} :
    k ∈ (setEntry key value entries).map Prod.fst ↔ k = key ∨ k ∈ entries.map Prod.fst := by
  induction entries with
  | nil => simp only [setEntry, List.map_cons, List.map_nil, List.mem_singleton, List.not_mem_nil,
      or_false]
  | cons entry rest ih =>
    rw [setEntry]
    split_ifs with same
    · simp only [List.map_cons, List.mem_cons, same, or_self_left]
    · simp only [List.map_cons, List.mem_cons, ih]
      exact or_left_comm

theorem setEntry_distinct {entries : List (α × β)} (key : α) (value : β)
    (distinct : (entries.map Prod.fst).Nodup) :
    ((setEntry key value entries).map Prod.fst).Nodup := by
  induction entries with
  | nil => exact List.nodup_singleton key
  | cons entry rest ih =>
    obtain ⟨fresh, others⟩ := List.nodup_cons.mp distinct
    rw [setEntry]
    split_ifs with same
    · subst same
      exact distinct
    · refine List.nodup_cons.mpr ⟨fun member => ?_, ih others⟩
      exact (mem_setEntry_keys.mp member).elim same fresh

theorem lookup_entry (k other : α) (v : β) (rest : List (α × β)) :
    ((k, v) :: rest).lookup other = if other = k then some v else rest.lookup other := by
  rw [List.lookup_cons]
  split_ifs with same
  · rw [beq_iff_eq.mpr same]
  · rw [beq_false_of_ne same]

theorem lookup_setEntry (key other : α) (value : β) (entries : List (α × β)) :
    (setEntry key value entries).lookup other =
      if other = key then some value else entries.lookup other := by
  induction entries with
  | nil => exact lookup_entry key other value []
  | cons entry rest ih =>
    obtain ⟨k, v⟩ := entry
    rw [setEntry]
    by_cases found : k = key
    · subst found
      rw [if_pos rfl, lookup_entry, lookup_entry]
      split_ifs <;> rfl
    · rw [if_neg found, lookup_entry, lookup_entry, ih]
      by_cases same : other = k
      · have differ : other ≠ key := fun equal => found (same.symm.trans equal)
        rw [if_pos same, if_neg differ, if_pos same]
      · rw [if_neg same, if_neg same]

def set (map : InsertionMap α β) (key : α) (value : β) : InsertionMap α β :=
  ⟨setEntry key value map.entries, setEntry_distinct key value map.distinct⟩

def get? (map : InsertionMap α β) (key : α) : Option β := map.entries.lookup key

def values (map : InsertionMap α β) : List β := map.entries.map Prod.snd

instance : EmptyCollection (InsertionMap α β) := ⟨⟨[], List.nodup_nil⟩⟩

variable {map : InsertionMap α β} {key : α} {value : β}

@[simp] theorem get?_set : (map.set key value).get? key = some value :=
  (lookup_setEntry key key value map.entries).trans (if_pos rfl)

theorem get?_set_ne {other : α} (differ : other ≠ key) :
    (map.set key value).get? other = map.get? other :=
  (lookup_setEntry key other value map.entries).trans (if_neg differ)

/-- The entries are what the keys have. -/
theorem get?_eq_some_iff : map.get? key = some value ↔ (key, value) ∈ map.entries := by
  obtain ⟨entries, distinct⟩ := map
  unfold get?
  dsimp only
  induction entries with
  | nil => exact ⟨(nomatch ·), (nomatch ·)⟩
  | cons entry rest ih =>
    obtain ⟨k, v⟩ := entry
    obtain ⟨fresh, others⟩ := List.nodup_cons.mp distinct
    rw [lookup_entry, List.mem_cons, Prod.mk.injEq]
    by_cases same : key = k
    · subst same
      have absent : (key, value) ∉ rest := fun member =>
        fresh (List.mem_map.mpr ⟨(key, value), member, rfl⟩)
      simp only [if_true, Option.some.injEq, true_and, absent, or_false]
      exact eq_comm
    · simp only [same, if_false, false_and, false_or]
      exact ih others

end InsertionMap

end NeuralMesh
