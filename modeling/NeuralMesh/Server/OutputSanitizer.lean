import NeuralMesh.Js.Double
import NeuralMesh.Js.Graph

/-! The output sanitiser: numbers are clamped and rounded, containers are copied. A
container met a second time is returned as it is, numbers included, so a second
pass may still change the result. -/
namespace NeuralMesh.Server

open Js Fraction

/-! ### The sanitiser -/

/-- `10 ** maxDecimalPlaces` -/
def factor : Nat := 10 ^ 4

def sanitizeNumber : JsNumber → JsNumber
  | .finite d =>
    let value := if d.coefficient < 0 then zero else (doubleMagnitude d).getD zero
    match (value.times factor).nearest with
    | none => .infinite false
    | some scaled => ofFraction false ⟨scaled.roundUp, factor⟩
  | n => n

def protoKey : JsString := js "__proto__"

/-- Assigning `result["__proto__"]` sets the prototype and creates no property. -/
def dropped (array : Bool) (key : JsString) : Bool := !array && key == protoKey

def isSeen (seen : List Nat) : Option Nat → Bool
  | none => false
  | some l => l ∈ seen

def mark (seen : List Nat) : Option Nat → List Nat
  | none => seen
  | some l => l :: seen

mutual

/-- The sanitised copy, and the containers seen by then. -/
def walk (seen : List Nat) : Node → Node × List Nat
  | .scalar s => (.scalar s, seen)
  | .num n => (.num (sanitizeNumber n), seen)
  | .branch label array entries =>
    if isSeen seen label then (.branch label array entries, seen)
    else
      let copied := walkEntries array (mark seen label) entries
      (.branch none array copied.1, copied.2)

def walkEntries (array : Bool) (seen : List Nat) : Entries → Entries × List Nat
  | [] => ([], seen)
  | (key, value) :: entries =>
    let first := walk seen value
    let rest := walkEntries array first.2 entries
    (if dropped array key then rest.1 else (key, first.1) :: rest.1, rest.2)

end

def sanitizeOutput (output : Node) : Node := (walk [] output).1

/-! ### What a pass visits -/

theorem isSeen_iff {seen : List Nat} {label : Option Nat} :
    isSeen seen label = true ↔ ∃ l, label = some l ∧ l ∈ seen := by
  cases label <;> simp [isSeen]

theorem mem_mark {seen : List Nat} {label : Option Nat} {j : Nat} :
    j ∈ mark seen label ↔ label = some j ∨ j ∈ seen := by
  cases label <;> simp [mark, eq_comm]

theorem walk_seen_of_mem (seen : List Nat) (x : Node) :
    ∀ j, j ∈ (walk seen x).2 → j ∈ seen ∨ j ∈ x.labels := by
  suffices all : (∀ x : Node, ∀ seen j, j ∈ (walk seen x).2 → j ∈ seen ∨ j ∈ x.labels) ∧
      ∀ entries, ∀ array seen j, j ∈ (walkEntries array seen entries).2 →
        j ∈ seen ∨ j ∈ Node.entryLabels entries from all.1 x seen
  apply Node.induct
  · intro s seen j member
    exact .inl member
  · intro n seen j member
    exact .inl member
  · intro label array entries ih seen j member
    rw [walk] at member
    split_ifs at member with met
    · exact .inl member
    · rw [Node.labels, List.mem_append, Option.mem_toList]
      rcases ih array _ j member with marked | inside
      · rcases mem_mark.mp marked with here | before
        · exact .inr (.inl here)
        · exact .inl before
      · exact .inr (.inr inside)
  · intro array seen j member
    exact .inl member
  · intro k v entries first rest array seen j member
    rw [Node.entryLabels, List.mem_append]
    rcases rest array _ j member with before | later
    · rcases first seen j before with start | here
      · exact .inl start
      · exact .inr (.inl here)
    · exact .inr (.inr later)

/-- Every smaller container that was seen was walked through. -/
def Explored (root : Node) (seen : List Nat) (bound : Nat) : Prop :=
  ∀ o l, HasLabel l o → Within o root → l ∈ seen → sizeOf o < bound → ∀ j ∈ o.labels, j ∈ seen

theorem Explored.visited {root x : Node} {seen after : List Nat} {bound : Nat}
    (consistent : Consistent root) (inside : Within x root) (explored : Explored root seen bound)
    (visited : ∀ j, j ∈ after ↔ j ∈ seen ∨ j ∈ x.labels) : Explored root after bound := by
  intro o l labelled within member small j inner
  rw [visited]
  rcases (visited l).mp member with before | here
  · exact .inl (explored o l labelled within before small j inner)
  · obtain ⟨o', labelled', within'⟩ := mem_labels.mp here
    have same := consistent l o o' labelled labelled' within (within'.trans inside)
    subst same
    obtain ⟨p, p_label, p_within⟩ := mem_labels.mp inner
    exact .inr (mem_labels.mpr ⟨p, p_label, p_within.trans within'⟩)

/-- A container that is being walked is not among the smaller ones. -/
theorem Explored.mark {root : Node} {seen : List Nat} {bound : Nat} {label : Option Nat}
    {array : Bool} {entries : Entries} (consistent : Consistent root)
    (inside : Within (.branch label array entries) root) (explored : Explored root seen bound)
    (small : sizeOf (Node.branch label array entries) < bound) :
    Explored root (mark seen label) (sizeOf (Node.branch label array entries)) := by
  intro o l labelled within member smaller i inner
  rcases mem_mark.mp member with same | before
  · have equal := consistent l o _ labelled ⟨array, entries, by rw [same]⟩ within inside
    rw [equal] at smaller
    exact absurd smaller (lt_irrefl _)
  · exact mem_mark.mpr (.inr (explored o l labelled within before (lt_trans smaller small) i inner))

/-- A pass visits all containers of the value. -/
theorem walk_seen {root : Node} (consistent : Consistent root) :
    (∀ x, Within x root → ∀ seen bound, Explored root seen bound → sizeOf x < bound →
      ∀ j, j ∈ (walk seen x).2 ↔ j ∈ seen ∨ j ∈ x.labels) ∧
    ∀ entries, (∀ k v, (k, v) ∈ entries → Within v root) → ∀ array seen bound,
      Explored root seen bound → (∀ k v, (k, v) ∈ entries → sizeOf v < bound) →
      ∀ j, j ∈ (walkEntries array seen entries).2 ↔ j ∈ seen ∨ j ∈ Node.entryLabels entries := by
  apply Node.induct
  · intro s _ seen bound _ _ j
    simp [walk, Node.labels]
  · intro n _ seen bound _ _ j
    simp [walk, Node.labels]
  · intro label array entries ih inside seen bound explored small j
    rw [walk]
    split_ifs with met
    · -- a container that was seen and is not being walked has been walked through
      obtain ⟨l, rfl, member⟩ := isSeen_iff.mp met
      constructor
      · intro before
        exact .inl before
      · rintro (before | here)
        · exact before
        · exact explored _ l ⟨array, entries, rfl⟩ inside member small j here
    · have entered := explored.mark consistent inside small
      have children : ∀ k v, (k, v) ∈ entries → Within v root :=
        fun k v member => (Within.entry member .self).trans inside
      rw [ih children array _ _ entered (fun k v member => entry_size member label array), mem_mark,
        Node.labels, List.mem_append, Option.mem_toList]
      constructor
      · rintro ((here | before) | inner)
        · exact .inr (.inl here)
        · exact .inl before
        · exact .inr (.inr inner)
      · rintro (before | here | inner)
        · exact .inl (.inr before)
        · exact .inl (.inl here)
        · exact .inr inner
  · intro _ array seen bound _ _ j
    simp [walkEntries, Node.entryLabels]
  · intro k v entries first rest inside array seen bound explored small j
    have head := first (inside k v List.mem_cons_self) seen bound explored (small k v List.mem_cons_self)
    have after := explored.visited consistent (inside k v List.mem_cons_self) head
    rw [walkEntries, Node.entryLabels, List.mem_append]
    dsimp only
    rw [rest (fun k v member => inside k v (List.mem_cons_of_mem _ member)) array _ bound after
      (fun k v member => small k v (List.mem_cons_of_mem _ member)), head]
    exact or_assoc

/-! ### Values that a pass leaves unchanged -/

mutual

/-- Sanitising changes no number and loses no property. -/
def Settled : Node → Prop
  | .scalar _ => True
  | .num n => sanitizeNumber n = n
  | .branch _ array entries => SettledEntries array entries

def SettledEntries (array : Bool) : Entries → Prop
  | [] => True
  | (k, v) :: entries =>
    (dropped array k = true → v = .scalar .undefined) ∧ Settled v ∧ SettledEntries array entries

end

theorem settledEntries_iff {array : Bool} {entries : Entries} : SettledEntries array entries ↔
    ∀ k v, (k, v) ∈ entries → (dropped array k = true → v = .scalar .undefined) ∧ Settled v := by
  induction entries with
  | nil => simp [SettledEntries]
  | cons e entries ih =>
    obtain ⟨k, v⟩ := e
    rw [SettledEntries, ih]
    constructor
    · rintro ⟨kept, here, later⟩ k' v' member
      rcases List.mem_cons.mp member with same | member
      · cases same
        exact ⟨kept, here⟩
      · exact later k' v' member
    · intro all
      refine ⟨(all k v List.mem_cons_self).1, (all k v List.mem_cons_self).2, ?_⟩
      intro k' v' member
      exact all k' v' (List.mem_cons_of_mem _ member)

theorem Settled.within {o x : Node} (settled : Settled x) (within : Within o x) : Settled o := by
  induction within with
  | self => exact settled
  | entry member _ ih => exact ih (settledEntries_iff.mp settled _ _ member).2

/-- What is transmitted of the copy is what is transmitted of the value. -/
def Unchanged (seen : List Nat) (x : Node) : Prop :=
  transmitted (walk seen x).1.value = transmitted x.value

theorem value_undefined {x : Node} : x.value = .undefined ↔ x = .scalar .undefined := by
  cases x with
  | scalar s => cases s <;> simp [Node.value, Scalar.value]
  | num n => simp [Node.value]
  | branch label array entries => cases array <;> simp [Node.value]

theorem walk_undefined {seen : List Nat} {x : Node} :
    (walk seen x).1 = .scalar .undefined ↔ x = .scalar .undefined := by
  cases x with
  | scalar s => rfl
  | num n => simp [walk]
  | branch label array entries =>
    rw [walk]
    split_ifs <;> simp

theorem walk_value_undefined {seen : List Nat} {x : Node} :
    (walk seen x).1.value = .undefined ↔ x.value = .undefined := by
  rw [value_undefined, walk_undefined, value_undefined]

theorem dropped_array (k : JsString) : dropped true k = false := rfl

theorem dropped_iff {k : JsString} : dropped false k = true ↔ k = protoKey := by
  simp [dropped]

/-- Settled values are unchanged, whatever was seen before. -/
theorem Settled.unchanged {x : Node} (settled : Settled x) (seen : List Nat) : Unchanged seen x := by
  suffices all : (∀ x, Settled x → ∀ seen, Unchanged seen x) ∧
      ∀ entries, ∀ array, SettledEntries array entries → ∀ seen,
        (array = true → transmittedAll (Node.elementValues (walkEntries array seen entries).1) =
          transmittedAll (Node.elementValues entries)) ∧
        (array = false → transmittedMembers (Node.memberValues (walkEntries array seen entries).1) =
          transmittedMembers (Node.memberValues entries)) from all.1 x settled seen
  apply Node.induct
  · intro s _ seen
    rfl
  · intro n fixed seen
    rw [Settled] at fixed
    rw [Unchanged, walk, fixed]
  · intro label array entries ih settled seen
    rw [Unchanged, walk]
    split_ifs with met
    · rfl
    · obtain ⟨elements, members⟩ := ih array settled (mark seen label)
      cases array with
      | true => simp only [Node.value, transmitted, elements rfl]
      | false => simp only [Node.value, transmitted, members rfl]
  · intro array _ seen
    exact ⟨fun _ => rfl, fun _ => rfl⟩
  · intro k v entries first rest array settled seen
    obtain ⟨kept, here, later⟩ := settled
    have head := first here seen
    obtain ⟨elements, members⟩ := rest array later (walk seen v).2
    rw [walkEntries]
    constructor
    · rintro rfl
      simp only [dropped_array, Bool.false_eq_true, if_false, Node.elementValues, transmittedAll]
      rw [elements rfl, head]
    · rintro rfl
      by_cases proto : dropped false k = true
      · obtain rfl := kept proto
        rw [if_pos proto]
        exact members rfl
      · rw [if_neg proto, Node.memberValues, Node.memberValues]
        by_cases absent : v.value = .undefined
        · rw [walk_value_undefined.mpr absent, absent]
          exact members rfl
        · rw [transmittedMembers_cons k _ absent,
            transmittedMembers_cons k _ (fun missing => absent (walk_value_undefined.mp missing)),
            members rfl, head]

theorem protoKey_not_mem (seen : List Nat) (entries : Entries) :
    ∀ m ∈ Node.memberValues (walkEntries false seen entries).1, m.1 ≠ protoKey := by
  induction entries generalizing seen with
  | nil => simp [walkEntries, Node.memberValues]
  | cons e entries ih =>
    obtain ⟨k, v⟩ := e
    intro m member
    rw [walkEntries] at member
    dsimp only at member
    split_ifs at member with proto
    · exact ih _ m member
    · rcases List.mem_cons.mp member with rfl | later
      · exact fun same => proto (dropped_iff.mpr same)
      · exact ih _ m later

theorem transmitted_finite {m : JsNumber} {d : Decimal}
    (same : transmitted (.num m) = .num (.finite d)) : m = .finite d := by
  cases m with
  | finite e => simpa [transmitted] using same
  | nan => simp [transmitted] at same
  | infinite negative => simp [transmitted] at same

theorem sanitizeNumber_transmitted {n : JsNumber}
    (same : transmitted (.num (sanitizeNumber n)) = transmitted (.num n)) : sanitizeNumber n = n := by
  cases n with
  | nan => rfl
  | infinite negative => rfl
  | finite d => exact transmitted_finite same

/-- An unchanged value is settled if what was seen of it before is. -/
theorem settled_of_unchanged {root : Node} (consistent : Consistent root) :
    (∀ x, Within x root → ∀ seen,
      (∀ o l, HasLabel l o → Within o x → l ∈ seen → Settled o) → Unchanged seen x → Settled x) ∧
    ∀ entries, (∀ k v, (k, v) ∈ entries → Within v root) → ∀ array seen,
      (∀ k v o l, (k, v) ∈ entries → HasLabel l o → Within o v → l ∈ seen → Settled o) →
      (array = true → transmittedAll (Node.elementValues (walkEntries array seen entries).1) =
        transmittedAll (Node.elementValues entries)) →
      (array = false → transmittedMembers (Node.memberValues (walkEntries array seen entries).1) =
        transmittedMembers (Node.memberValues entries)) → SettledEntries array entries := by
  apply Node.induct
  · intro s _ seen _ _
    trivial
  · intro n _ seen _ unchanged
    exact sanitizeNumber_transmitted unchanged
  · intro label array entries ih inside seen before unchanged
    rw [Unchanged, walk] at unchanged
    split_ifs at unchanged with met
    · obtain ⟨l, rfl, member⟩ := isSeen_iff.mp met
      exact before _ l ⟨array, entries, rfl⟩ .self member
    · apply ih (fun k v member => (Within.entry member .self).trans inside) array (mark seen label)
      · intro k v o l member labelled within marked
        rcases mem_mark.mp marked with same | earlier
        · have equal := consistent l o _ labelled ⟨array, entries, by rw [same]⟩
            (within.trans ((Within.entry member .self).trans inside)) inside
          have smaller := lt_of_le_of_lt within.size (entry_size member label array)
          rw [equal] at smaller
          exact absurd smaller (lt_irrefl _)
        · exact before o l labelled (.entry member within) earlier
      · rintro rfl
        simpa only [Node.value, transmitted, JsValue.arr.injEq] using unchanged
      · rintro rfl
        simpa only [Node.value, transmitted, JsValue.obj.injEq] using unchanged
  · intro _ array seen _ _ _
    trivial
  · intro k v entries first rest inside array seen before elements members
    have headInside := inside k v List.mem_cons_self
    have tailInside : ∀ k v, (k, v) ∈ entries → Within v root :=
      fun k v member => inside k v (List.mem_cons_of_mem _ member)
    have headBefore : ∀ o l, HasLabel l o → Within o v → l ∈ seen → Settled o :=
      fun o l => before k v o l List.mem_cons_self
    -- what the walk of the first entry has seen is in a settled value
    have tailBefore (settled : Settled v) : ∀ k' v' o l, (k', v') ∈ entries → HasLabel l o →
        Within o v' → l ∈ (walk seen v).2 → Settled o := by
      intro k' v' o l member labelled within visited
      rcases walk_seen_of_mem seen v l visited with earlier | here
      · exact before k' v' o l (List.mem_cons_of_mem _ member) labelled within earlier
      · obtain ⟨o', labelled', within'⟩ := mem_labels.mp here
        have same := consistent l o o' labelled labelled'
          (within.trans (tailInside k' v' member)) (within'.trans headInside)
        exact same ▸ settled.within within'
    have tail := rest tailInside array (walk seen v).2
    rw [walkEntries] at elements members
    dsimp only at elements members
    cases array with
    | true =>
      have lists := elements rfl
      simp only [dropped_array, Bool.false_eq_true, if_false, Node.elementValues, transmittedAll,
        List.cons.injEq] at lists
      have settled := first headInside seen headBefore lists.1
      exact ⟨by simp [dropped_array], settled, tail (tailBefore settled) (fun _ => lists.2) (by simp)⟩
    | false =>
      have lists := members rfl
      by_cases proto : dropped false k = true
      · rw [if_pos proto] at lists
        have absent : v = .scalar .undefined := by
          by_contra present
          rw [Node.memberValues,
            transmittedMembers_cons k _ (fun missing => present (value_undefined.mp missing))] at lists
          have member : (k, transmitted v.value) ∈ transmittedMembers
              (Node.memberValues (walkEntries false (walk seen v).2 entries).1) := by
            rw [lists]
            exact List.mem_cons_self
          obtain ⟨w, _, old, _⟩ := mem_transmittedMembers member
          exact protoKey_not_mem _ entries _ old (dropped_iff.mp proto)
        subst absent
        exact ⟨fun _ => rfl, trivial, tail (tailBefore trivial) (by simp) (fun _ => lists)⟩
      · rw [if_neg proto, Node.memberValues, Node.memberValues] at lists
        by_cases absent : v.value = .undefined
        · obtain rfl := value_undefined.mp absent
          exact ⟨fun _ => rfl, trivial, tail (tailBefore trivial) (by simp) (fun _ => lists)⟩
        · rw [transmittedMembers_cons k _ absent,
            transmittedMembers_cons k _ (fun missing => absent (walk_value_undefined.mp missing)),
            List.cons.injEq, Prod.mk.injEq] at lists
          have settled := first headInside seen headBefore lists.1.2
          exact ⟨fun yes => absurd yes proto, settled,
            tail (tailBefore settled) (by simp) (fun _ => lists.2)⟩

end NeuralMesh.Server
