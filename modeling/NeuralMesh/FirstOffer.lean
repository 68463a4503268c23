import Mathlib.Data.List.Nodup

/-! Walks that keep, for each key, the first element offered under it and skip the later ones and
those whose key was seen before. -/
namespace NeuralMesh

variable {α κ : Type} [DecidableEq κ] (key : α → κ)

def firstOffers : (seen : List κ) → List α → List α
  | _, [] => []
  | seen, a :: offers =>
    if key a ∈ seen then firstOffers seen offers else a :: firstOffers (key a :: seen) offers

namespace FirstOffers

variable {key} {seen : List κ} {offers : List α}

/-- What is kept is what a search for its key finds. -/
theorem mem_iff {a : α} :
    a ∈ firstOffers key seen offers ↔
      key a ∉ seen ∧ offers.find? (key · = key a) = some a := by
  induction offers generalizing seen with
  | nil => simp only [firstOffers, List.not_mem_nil, List.find?_nil, reduceCtorEq, and_false]
  | cons offer offers ih =>
    rw [firstOffers]
    by_cases same : key offer = key a
    · rw [List.find?_cons_of_pos (by simpa using same), Option.some.injEq]
      split_ifs with known
      · have listed : key a ∈ seen := same ▸ known
        simp only [ih, listed, not_true_eq_false, false_and]
      · have fresh : key a ∉ seen := same ▸ known
        simp only [List.mem_cons, ih, same, true_or, not_true_eq_false, false_and, or_false,
          fresh, not_false_eq_true, true_and]
        exact eq_comm
    · rw [List.find?_cons_of_neg (by simpa using same)]
      have differ : a ≠ offer := fun equal => same (congrArg key equal.symm)
      split_ifs with known
      · exact ih
      · simp only [List.mem_cons, differ, false_or, ih, Ne.symm same]

theorem nodup : ((firstOffers key seen offers).map key).Nodup := by
  induction offers generalizing seen with
  | nil => exact List.nodup_nil
  | cons offer offers ih =>
    rw [firstOffers]
    split_ifs with known
    · exact ih
    · refine List.nodup_cons.mpr ⟨fun again => ?_, ih⟩
      obtain ⟨a, member, same⟩ := List.mem_map.mp again
      have unseen := (mem_iff.mp member).1
      rw [same] at unseen
      exact unseen List.mem_cons_self

theorem mem_keys {k : κ} :
    k ∈ (firstOffers key seen offers).map key ↔ k ∉ seen ∧ k ∈ offers.map key := by
  simp only [List.mem_map]
  constructor
  · rintro ⟨a, member, rfl⟩
    obtain ⟨unseen, found⟩ := mem_iff.mp member
    exact ⟨unseen, a, List.mem_of_find?_eq_some found, rfl⟩
  · rintro ⟨unseen, a, member, rfl⟩
    have some_offer : (offers.find? (key · = key a)).isSome := by
      rw [List.find?_isSome]
      exact ⟨a, member, decide_eq_true rfl⟩
    obtain ⟨first, found⟩ := Option.isSome_iff_exists.mp some_offer
    have same : key first = key a := by simpa using List.find?_some found
    refine ⟨first, mem_iff.mpr ⟨same ▸ unseen, ?_⟩, same⟩
    rw [same]
    exact found

end FirstOffers

end NeuralMesh
