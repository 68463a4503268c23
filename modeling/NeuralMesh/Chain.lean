import Mathlib.Data.List.Forall2
import Mathlib.Data.List.Infix
import Mathlib.Data.List.Nodup

/-! Chains: each entry names the hash of the entry before it. Where equal hashes name equal
predecessors, a chain that is put together from copies of another's entries starts like it. -/
namespace NeuralMesh.Chain

variable {α η : Type} {prev hash : α → η}

/-- From this hash on, each entry names the hash before it. -/
def Linked (prev hash : α → η) : η → List α → Prop
  | _, [] => True
  | h, e :: es => prev e = h ∧ Linked prev hash (hash e) es

/-- The hash that the next entry names. -/
def lastHash (hash : α → η) : η → List α → η
  | h, [] => h
  | _, e :: es => lastHash hash (hash e) es

theorem linked_append {h : η} {before after : List α} :
    Linked prev hash h (before ++ after) ↔
      Linked prev hash h before ∧ Linked prev hash (lastHash hash h before) after := by
  induction before generalizing h with
  | nil => exact (and_iff_right trivial).symm
  | cons e before ih =>
    rw [List.cons_append, Linked, Linked, lastHash, ih]
    exact and_assoc.symm

theorem lastHash_append {h : η} (before : List α) (e : α) :
    lastHash hash h (before ++ [e]) = hash e := by
  induction before generalizing h with
  | nil => rfl
  | cons _ before ih => exact ih

theorem lastHash_mem (h : η) (es : List α) : lastHash hash h es ∈ h :: es.map hash := by
  induction es generalizing h with
  | nil => exact List.mem_cons_self
  | cons e es ih => exact List.mem_cons_of_mem h (ih (hash e))

theorem prev_mem {h : η} {es : List α} (linked : Linked prev hash h es) {e : α} (member : e ∈ es) :
    prev e ∈ h :: es.map hash := by
  induction es generalizing h with
  | nil => cases member
  | cons first es ih =>
    obtain ⟨named, linked⟩ := linked
    rcases List.mem_cons.mp member with rfl | later
    · rw [named]
      exact List.mem_cons_self
    · exact List.mem_cons_of_mem h (ih linked later)

/-- If a hash came back, so would the one before it, and so on to the first. -/
theorem hashes_nodup {h : η} {es : List α} (linked : Linked prev hash h es)
    (bound : ∀ a ∈ es, ∀ b ∈ es, hash a = hash b → prev a = prev b)
    (fresh : h ∉ es.map hash) : (h :: es.map hash).Nodup := by
  induction es generalizing h with
  | nil => exact List.nodup_singleton h
  | cons e es ih =>
    obtain ⟨named, linked⟩ := linked
    have later : hash e ∉ es.map hash := by
      intro again
      obtain ⟨e', member, same⟩ := List.mem_map.mp again
      have returned := bound e List.mem_cons_self e' (List.mem_cons_of_mem e member) same.symm
      apply fresh
      rw [← named, returned]
      exact prev_mem linked member
    have distinct := ih linked
      (fun a left b right => bound a (List.mem_cons_of_mem e left) b (List.mem_cons_of_mem e right))
      later
    exact List.nodup_cons.mpr ⟨fresh, distinct⟩

/-- The entry that names the last hash of the first part is the head of the second. -/
theorem head_of_prev {h : η} {before after : List α} (linked : Linked prev hash h (before ++ after))
    (distinct : (h :: (before ++ after).map hash).Nodup) {e : α} (member : e ∈ before ++ after)
    (names : prev e = lastHash hash h before) : after.head? = some e := by
  induction before generalizing h with
  | nil =>
    cases after with
    | nil => cases member
    | cons first after =>
      rcases List.mem_cons.mp member with rfl | later
      · rfl
      · have again := prev_mem linked.2 later
        rw [names] at again
        exact absurd again (List.nodup_cons.mp distinct).1
  | cons first before ih =>
    obtain ⟨fresh, distinct⟩ := List.nodup_cons.mp distinct
    rcases List.mem_cons.mp member with rfl | later
    · have again : h ∈ hash e :: before.map hash := by
        rw [← linked.1, names]
        exact lastHash_mem (hash e) before
      rw [List.cons_append, List.map_cons, List.map_append] at fresh
      exact absurd (List.mem_append_left (after.map hash) again) fresh
    · exact ih linked.2 distinct later names

variable {Copy : α → α → Prop}

/-- A chain of copies, from the end of the first part on, copies a beginning of the second. -/
theorem copies_of_linked (same : ∀ c e, Copy c e → prev c = prev e ∧ hash c = hash e) {h : η}
    {before after copies : List α} (linked : Linked prev hash h (before ++ after))
    (distinct : (h :: (before ++ after).map hash).Nodup)
    (copied : ∀ c ∈ copies, ∃ e ∈ before ++ after, Copy c e)
    (continued : Linked prev hash (lastHash hash h before) copies) :
    ∃ kept, kept <+: after ∧ List.Forall₂ Copy copies kept := by
  induction copies generalizing before after with
  | nil => exact ⟨[], List.nil_prefix, List.Forall₂.nil⟩
  | cons c copies ih =>
    obtain ⟨named, continued⟩ := continued
    obtain ⟨e, member, copy⟩ := copied c List.mem_cons_self
    obtain ⟨samePrev, sameHash⟩ := same c e copy
    have next := head_of_prev linked distinct member (samePrev.symm.trans named)
    obtain ⟨rest, rfl⟩ := List.head?_eq_some_iff.mp next
    have moved : before ++ e :: rest = (before ++ [e]) ++ rest := by
      rw [List.append_assoc, List.singleton_append]
    rw [moved] at linked distinct copied
    have last := @lastHash_append α η hash h before e
    rw [sameHash, ← last] at continued
    obtain ⟨kept, beginning, copies⟩ := ih linked distinct
      (fun c member => copied c (List.mem_cons_of_mem _ member)) continued
    exact ⟨e :: kept, List.cons_prefix_cons.mpr ⟨rfl, beginning⟩, List.Forall₂.cons copy copies⟩

theorem linked_of_copies (same : ∀ c e, Copy c e → prev c = prev e ∧ hash c = hash e) {h : η}
    {copies es : List α} (linked : Linked prev hash h es) (copied : List.Forall₂ Copy copies es) :
    Linked prev hash h copies := by
  induction copied generalizing h with
  | nil => trivial
  | cons copy _ ih =>
    obtain ⟨samePrev, sameHash⟩ := same _ _ copy
    obtain ⟨named, linked⟩ := linked
    refine ⟨samePrev.trans named, ?_⟩
    rw [sameHash]
    exact ih linked

/-- Copies of a chain's entries are a chain just when they are a beginning of it. -/
theorem linked_copies_iff (same : ∀ c e, Copy c e → prev c = prev e ∧ hash c = hash e) {h : η}
    {copies es : List α} (linked : Linked prev hash h es) (distinct : (h :: es.map hash).Nodup)
    (copied : ∀ c ∈ copies, ∃ e ∈ es, Copy c e) :
    Linked prev hash h copies ↔ ∃ kept, kept <+: es ∧ List.Forall₂ Copy copies kept := by
  constructor
  · exact @copies_of_linked _ _ _ _ _ same h [] es copies linked distinct copied
  · rintro ⟨kept, ⟨rest, rfl⟩, copies⟩
    exact linked_of_copies same (linked_append.mp linked).1 copies

end NeuralMesh.Chain
