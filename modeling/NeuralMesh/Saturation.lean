import Mathlib.Data.List.Basic
import Mathlib.Logic.Function.Iterate

/-! Walks over a list of rules, each of which adds to a set of names what it derives from the names
so far. A name is in the set after so many walks if it is derived in one of them, from names that
are derived at an earlier place of the walk or in an earlier walk. -/
namespace NeuralMesh.Saturation

variable {Name Rule : Type} {derives : List Name → Rule → Name → Prop}
  {step : List Name → Rule → List Name}

/-- A step adds what its rule derives, at the end. -/
structure Adds (derives : List Name → Rule → Name → Prop)
    (step : List Name → Rule → List Name) : Prop where
  extend : ∀ known rule, known <+: step known rule
  mem_iff : ∀ known rule name, name ∈ step known rule ↔ name ∈ known ∨ derives known rule name

/-- A rule derives no less from more names. -/
def Monotone (derives : List Name → Rule → Name → Prop) : Prop :=
  ∀ ⦃known known' : List Name⦄, known ⊆ known' → ∀ rule name,
    derives known rule name → derives known' rule name

def pass (step : List Name → Rule → List Name) (rules : List Rule) (known : List Name) :
    List Name :=
  rules.foldl step known

/-- Nothing is left to derive. -/
def Closed (derives : List Name → Rule → Name → Prop) (rules : List Rule) (known : List Name) :
    Prop :=
  ∀ rule ∈ rules, ∀ name, derives known rule name → name ∈ known

/-- The rule at the place derives the name, in the walk, from names that are derived earlier. -/
inductive Derived (derives : List Name → Rule → Name → Prop) (rules : List Rule) :
    (walk place : Nat) → Name → Prop
  | rule {walk place : Nat} {rule : Rule} {known : List Name} {name : Name}
      (walkOf placeOf : Name → Nat) (found : rules[place]? = some rule)
      (earlier : ∀ n ∈ known, walkOf n < walk ∨ walkOf n = walk ∧ placeOf n < place)
      (derived : ∀ n ∈ known, Derived derives rules (walkOf n) (placeOf n) n)
      (new : derives known rule name) : Derived derives rules walk place name

/-- What is known before the place in the walk. -/
def Knows (derives : List Name → Rule → Name → Prop) (rules : List Rule) (walk place : Nat)
    (known : List Name) : Prop :=
  ∀ name, name ∈ known ↔ ∃ w p, (w < walk ∨ w = walk ∧ p < place) ∧ Derived derives rules w p name

/-! ### Steps that only extend -/

theorem pass_extends (extend : ∀ known rule, known <+: step known rule) (rules : List Rule)
    (known : List Name) : known <+: pass step rules known := by
  induction rules generalizing known with
  | nil => exact List.prefix_rfl
  | cons rule rules ih => exact (extend known rule).trans (ih (step known rule))

/-- Steps that leave the set as it was in the end leave it each time. -/
theorem step_fixed (extend : ∀ known rule, known <+: step known rule) {rules : List Rule}
    {known : List Name} (fixed : pass step rules known = known) :
    ∀ rule ∈ rules, step known rule = known := by
  induction rules with
  | nil => rintro _ ⟨⟩
  | cons rule rules ih =>
    rw [pass, List.foldl_cons] at fixed
    have kept : step known rule = known := by
      have grown := (pass_extends extend rules (step known rule)).length_le
      rw [pass, fixed] at grown
      exact ((extend known rule).eq_of_length_le grown).symm
    rw [kept] at fixed
    exact List.forall_mem_cons.mpr ⟨kept, ih fixed⟩

/-! ### What is known -/

variable {rules : List Rule} {known : List Name} {walk place : Nat}

theorem Derived.place_lt {name : Name} (derived : Derived derives rules walk place name) :
    place < rules.length := by
  cases derived with
  | rule walkOf placeOf found earlier derived new => exact (List.getElem?_eq_some_iff.mp found).1

theorem Knows.of_step (adds : Adds derives step) (monotone : Monotone derives) {rule : Rule}
    (found : rules[place]? = some rule) (knows : Knows derives rules walk place known) :
    Knows derives rules walk (place + 1) (step known rule) := by
  intro name
  rw [adds.mem_iff]
  constructor
  · rintro (old | new)
    · obtain ⟨w, p, earlier, derived⟩ := (knows name).mp old
      exact ⟨w, p, earlier.imp_right fun ⟨same, before⟩ => ⟨same, by omega⟩, derived⟩
    · have origins : ∀ n, ∃ w p, n ∈ known →
          (w < walk ∨ w = walk ∧ p < place) ∧ Derived derives rules w p n := by
        intro n
        by_cases member : n ∈ known
        · obtain ⟨w, p, origin⟩ := (knows n).mp member
          exact ⟨w, p, fun _ => origin⟩
        · exact ⟨0, 0, fun impossible => absurd impossible member⟩
      choose walkOf placeOf origin using origins
      exact ⟨walk, place, .inr ⟨rfl, by omega⟩, .rule walkOf placeOf found
        (fun n member => (origin n member).1) (fun n member => (origin n member).2) new⟩
  · rintro ⟨w, p, earlier, derived⟩
    by_cases here : w = walk ∧ p = place
    · obtain ⟨rfl, rfl⟩ := here
      cases derived with
      | rule walkOf placeOf foundHere earlier derived new =>
        obtain rfl := Option.some.inj (foundHere.symm.trans found)
        refine .inr (monotone (fun n member => ?_) _ name new)
        exact (knows n).mpr ⟨walkOf n, placeOf n, earlier n member, derived n member⟩
    · exact .inl ((knows name).mpr ⟨w, p, by omega, derived⟩)

/-- One walk, from the place on. -/
theorem Knows.of_walk (adds : Adds derives step) (monotone : Monotone derives) (before : List Rule)
    {after : List Rule} (split : rules = before ++ after)
    (knows : Knows derives rules walk before.length known) :
    Knows derives rules walk rules.length (pass step after known) := by
  induction after generalizing before known with
  | nil =>
    rw [List.append_nil] at split
    subst split
    exact knows
  | cons rule after ih =>
    have found : rules[before.length]? = some rule := by
      rw [split, List.getElem?_append_right (Nat.le_refl _), Nat.sub_self, List.getElem?_cons_zero]
    refine ih (before ++ [rule]) (by rw [split, List.append_assoc, List.singleton_append]) ?_
    rw [List.length_append, List.length_singleton]
    exact knows.of_step adds monotone found

theorem Knows.next (knows : Knows derives rules walk rules.length known) :
    Knows derives rules (walk + 1) 0 known := by
  refine fun name => (knows name).trans (exists₂_congr fun w p => and_congr_left fun derived => ?_)
  have place := derived.place_lt
  omega

theorem knows_walks (adds : Adds derives step) (monotone : Monotone derives) (rules : List Rule)
    (walks : Nat) : Knows derives rules walks 0 ((pass step rules)^[walks] []) := by
  induction walks with
  | zero =>
    refine fun name => ⟨by rintro ⟨⟩, ?_⟩
    rintro ⟨w, p, earlier, _⟩
    omega
  | succ walks ih =>
    rw [Function.iterate_succ_apply']
    exact (ih.of_walk adds monotone [] rfl).next

theorem mem_walks (adds : Adds derives step) (monotone : Monotone derives) (rules : List Rule)
    (walks : Nat) (name : Name) :
    name ∈ (pass step rules)^[walks] [] ↔ ∃ w < walks, ∃ p, Derived derives rules w p name := by
  rw [knows_walks adds monotone rules walks name]
  constructor
  · rintro ⟨w, p, earlier, derived⟩
    exact ⟨w, by omega, p, derived⟩
  · rintro ⟨w, earlier, p, derived⟩
    exact ⟨w, p, .inl earlier, derived⟩

/-- A closed set has all that is derived. -/
theorem Closed.mem_of_derived (monotone : Monotone derives) (closed : Closed derives rules known)
    {name : Name} (derived : Derived derives rules walk place name) : name ∈ known := by
  induction derived with
  | rule walkOf placeOf found _ _ new ih =>
    exact closed _ (List.mem_of_getElem? found) _ (monotone ih _ _ new)

/-- So many walks leave a closed set if nothing is derived in later walks only. -/
theorem closed_walks_iff (adds : Adds derives step) (monotone : Monotone derives)
    (rules : List Rule) (walks : Nat) :
    Closed derives rules ((pass step rules)^[walks] []) ↔
      ∀ walk place name, Derived derives rules walk place name →
        ∃ w < walks, ∃ p, Derived derives rules w p name := by
  constructor
  · intro closed walk place name derived
    exact (mem_walks adds monotone rules walks name).mp (closed.mem_of_derived monotone derived)
  · intro within rule member name new
    obtain ⟨place, found⟩ := List.getElem?_of_mem member
    have origins : ∀ n, ∃ w p, n ∈ (pass step rules)^[walks] [] →
        w < walks ∧ Derived derives rules w p n := by
      intro n
      by_cases known : n ∈ (pass step rules)^[walks] []
      · obtain ⟨w, earlier, p, derived⟩ := (mem_walks adds monotone rules walks n).mp known
        exact ⟨w, p, fun _ => ⟨earlier, derived⟩⟩
      · exact ⟨0, 0, fun impossible => absurd impossible known⟩
    choose walkOf placeOf origin using origins
    have derived : Derived derives rules walks place name :=
      .rule walkOf placeOf found (fun n known => .inl (origin n known).1)
        (fun n known => (origin n known).2) new
    exact (mem_walks adds monotone rules walks name).mpr (within walks place name derived)

end NeuralMesh.Saturation
