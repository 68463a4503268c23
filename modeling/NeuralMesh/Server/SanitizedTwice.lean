import NeuralMesh.Server.OutputSanitizer

/-! Sanitising twice. The second pass changes a number whose rounding is not stable,
and anything in a container that the first pass met again and returned as it was. -/
namespace NeuralMesh.Server

open Js

mutual

/-- The numbers at the places that a copy keeps. -/
def keptNumbers : Node → List JsNumber
  | .scalar _ => []
  | .num n => [n]
  | .branch _ array entries => keptEntryNumbers array entries

def keptEntryNumbers (array : Bool) : Entries → List JsNumber
  | [] => []
  | (k, v) :: entries =>
    (if dropped array k then [] else keptNumbers v) ++ keptEntryNumbers array entries

end

mutual

/-- The containers at the places that a copy keeps that occur before, too. -/
def again (before : List Nat) : Node → List Node
  | .branch label array entries =>
    if isSeen before label then [.branch label array entries]
    else againEntries array (mark before label) entries
  | _ => []

def againEntries (array : Bool) (before : List Nat) : Entries → List Node
  | [] => []
  | (k, v) :: entries =>
    (if dropped array k then [] else again before v) ++
      againEntries array (v.labels ++ before) entries

end

/-- Rounding the rounded number again changes nothing. -/
def Stable (n : JsNumber) : Prop := sanitizeNumber (sanitizeNumber n) = sanitizeNumber n

-- 408100934375.51447 is rounded to 408100934375.5145, and that to 408100934375.5146
example : ¬ Stable (.finite (Decimal.normalize 40810093437551447 (-5))) := by
  unfold Stable
  decide +kernel

theorem Settled.stable {x : Node} (settled : Settled x) : ∀ n ∈ keptNumbers x, Stable n := by
  suffices all : (∀ x, Settled x → ∀ n ∈ keptNumbers x, Stable n) ∧
      ∀ entries, ∀ array, SettledEntries array entries →
        ∀ n ∈ keptEntryNumbers array entries, Stable n from all.1 x settled
  apply Node.induct
  · rintro s _ n ⟨⟩
  · intro m fixed n member
    rw [keptNumbers, List.mem_singleton] at member
    subst member
    exact congrArg sanitizeNumber fixed
  · intro label array entries ih settled
    exact ih array settled
  · rintro array _ n ⟨⟩
  · intro k v entries first rest array settled n member
    obtain ⟨_, here, later⟩ := settled
    rw [keptEntryNumbers, List.mem_append] at member
    rcases member with kept | member
    · split_ifs at kept
      · cases kept
      · exact first here n kept
    · exact rest array later n member

theorem isSeen_congr {seen before : List Nat} (same : ∀ j, j ∈ seen ↔ j ∈ before)
    (label : Option Nat) : isSeen seen label = isSeen before label := by
  cases label with
  | none => rfl
  | some l => simp [isSeen, same l]

theorem mem_mark_congr {seen before : List Nat} (same : ∀ j, j ∈ seen ↔ j ∈ before)
    (label : Option Nat) (j : Nat) : j ∈ mark seen label ↔ j ∈ mark before label := by
  rw [mem_mark, mem_mark, same]

/-- The copy is settled exactly if its numbers are stable and what was returned as it
was is settled. -/
theorem settled_walk {root : Node} (consistent : Consistent root) :
    (∀ x, Within x root → ∀ seen before bound, (∀ j, j ∈ seen ↔ j ∈ before) →
      Explored root seen bound → sizeOf x < bound →
      (Settled (walk seen x).1 ↔
        (∀ n ∈ keptNumbers x, Stable n) ∧ ∀ o ∈ again before x, Settled o)) ∧
    ∀ entries, (∀ k v, (k, v) ∈ entries → Within v root) → ∀ array seen before bound,
      (∀ j, j ∈ seen ↔ j ∈ before) → Explored root seen bound →
      (∀ k v, (k, v) ∈ entries → sizeOf v < bound) →
      (SettledEntries array (walkEntries array seen entries).1 ↔
        (∀ n ∈ keptEntryNumbers array entries, Stable n) ∧
          ∀ o ∈ againEntries array before entries, Settled o) := by
  apply Node.induct
  · intro s _ seen before bound _ _ _
    simp [walk, Settled, keptNumbers, again]
  · intro n _ seen before bound _ _ _
    simp [walk, Settled, keptNumbers, again, Stable]
  · intro label array entries ih inside seen before bound same explored small
    rw [walk, again, ← isSeen_congr same]
    split_ifs with met
    · rw [List.forall_mem_singleton]
      exact ⟨fun settled => ⟨settled.stable, settled⟩, fun both => both.2⟩
    · exact ih (fun k v member => (Within.entry member .self).trans inside) array _ _ _
        (mem_mark_congr same label) (explored.mark consistent inside small)
        (fun k v member => entry_size member label array)
  · intro _ array seen before bound _ _ _
    simp [walkEntries, SettledEntries, keptEntryNumbers, againEntries]
  · intro k v entries first rest inside array seen before bound same explored small
    have headInside := inside k v List.mem_cons_self
    have head := (walk_seen consistent).1 v headInside seen bound explored
      (small k v List.mem_cons_self)
    have sameAfter : ∀ j, j ∈ (walk seen v).2 ↔ j ∈ v.labels ++ before := by
      intro j
      rw [head, List.mem_append, same, or_comm]
    have here := first headInside seen before bound same explored (small k v List.mem_cons_self)
    have later := rest (fun k v member => inside k v (List.mem_cons_of_mem _ member)) array
      (walk seen v).2 (v.labels ++ before) bound sameAfter
      (explored.visited consistent headInside head)
      (fun k v member => small k v (List.mem_cons_of_mem _ member))
    rw [walkEntries, keptEntryNumbers, againEntries]
    dsimp only
    by_cases lost : dropped array k = true
    · rw [if_pos lost, if_pos lost, if_pos lost, List.nil_append, List.nil_append]
      exact later
    · rw [if_neg lost, if_neg lost, if_neg lost, SettledEntries, here, later,
        List.forall_mem_append, List.forall_mem_append]
      constructor
      · rintro ⟨_, ⟨numbers, repeats⟩, moreNumbers, moreRepeats⟩
        exact ⟨⟨numbers, moreNumbers⟩, repeats, moreRepeats⟩
      · rintro ⟨⟨numbers, moreNumbers⟩, repeats, moreRepeats⟩
        exact ⟨fun yes => absurd yes lost, ⟨numbers, repeats⟩, moreNumbers, moreRepeats⟩

/-- The labelled containers of a copy are containers of the value. -/
theorem within_walk {o : Node} {l : Nat} (labelled : HasLabel l o) :
    (∀ x seen, Within o (walk seen x).1 → Within o x) ∧
    ∀ entries, ∀ array seen k v, (k, v) ∈ (walkEntries array seen entries).1 → Within o v →
      ∃ k' v', (k', v') ∈ entries ∧ Within o v' := by
  apply Node.induct
  · intro s seen within
    exact within
  · intro n seen within
    obtain ⟨array, entries, rfl⟩ := labelled
    cases within
  · intro label array entries ih seen within
    rw [walk] at within
    split_ifs at within with met
    · exact within
    · cases within with
      | self =>
        obtain ⟨array', entries', same⟩ := labelled
        simp at same
      | entry member inner =>
        obtain ⟨k', v', member', inner'⟩ := ih array _ _ _ member inner
        exact .entry member' inner'
  · intro array seen k v member
    cases member
  · intro k v entries first rest array seen k' v' member within
    rw [walkEntries] at member
    dsimp only at member
    have later (member : (k', v') ∈ (walkEntries array (walk seen v).2 entries).1) :
        ∃ k'' v'', (k'', v'') ∈ (k, v) :: entries ∧ Within o v'' := by
      obtain ⟨k'', v'', old, inner⟩ := rest array _ k' v' member within
      exact ⟨k'', v'', List.mem_cons_of_mem _ old, inner⟩
    split_ifs at member
    · exact later member
    · rcases List.mem_cons.mp member with same | member
      · cases same
        exact ⟨k, v, List.mem_cons_self, first seen within⟩
      · exact later member

theorem consistent_sanitizeOutput {x : Node} (consistent : Consistent x) :
    Consistent (sanitizeOutput x) := by
  intro l o o' labelled labelled' within within'
  exact consistent l o o' labelled labelled' ((within_walk labelled).1 x [] within)
    ((within_walk labelled').1 x [] within')

/-- When a second pass leaves the transmitted value as it is. -/
theorem sanitized_twice (graph : Graph) :
    transmitted (sanitizeOutput (sanitizeOutput graph.root)).value =
        transmitted (sanitizeOutput graph.root).value ↔
      (∀ n ∈ keptNumbers graph.root, Stable n) ∧ ∀ o ∈ again [] graph.root, Settled o := by
  have consistent := consistent_sanitizeOutput graph.consistent
  have unseen : Explored graph.root [] (sizeOf graph.root + 1) := by
    rintro o l _ _ ⟨⟩
  rw [← (settled_walk graph.consistent).1 graph.root .self [] [] _ (fun _ => Iff.rfl) unseen
    (Nat.lt_succ_self _)]
  constructor
  · intro unchanged
    exact (settled_of_unchanged consistent).1 _ .self [] (by rintro o l _ _ ⟨⟩) unchanged
  · intro settled
    exact settled.unchanged []

end NeuralMesh.Server
