import NeuralMesh.Js.ExactNumber
import NeuralMesh.Server.OutputSanitizer
import NeuralMesh.Server.PiiGraph

/-! The sanitiser on object graphs with shared and cyclic references, in exact arithmetic. An object
that is met again is returned as it is, so the result is sanitised everywhere exactly if the graph
is a tree. -/
namespace NeuralMesh.Server.GraphSanitizer

open Js

/-! ### Objects -/

structure GraphObject where
  array : Bool
  /-- The object that an assignment to `__proto__` has set. -/
  prototype : Option Nat
  /-- The keys of an array's entries are not used. -/
  entries : List (JsString × HeapValue)

abbrev GraphHeap := List GraphObject

def ref? : HeapValue → Option Nat
  | .ref address => some address
  | _ => none

/-- The copy: an object that is assigned to `__proto__` becomes the prototype. -/
def GraphObject.copy (object : GraphObject) (copies : List (JsString × HeapValue)) : GraphObject where
  array := object.array
  prototype := if object.array then none else (copies.find? (·.1 = protoKey)).bind (ref? ·.2)
  entries := copies.filter fun entry => !dropped object.array entry.1

/-- A graph whose references lead to its objects; the keys of an object are distinct. -/
structure SharedGraph where
  heap : GraphHeap
  root : HeapValue
  root_within : root.Within heap.length
  values_within : ∀ object ∈ heap, ∀ entry ∈ object.entries, entry.2.Within heap.length
  prototypes_within : ∀ object ∈ heap, ∀ address ∈ object.prototype, address < heap.length
  keys_distinct : ∀ object ∈ heap, object.array = false → (object.entries.map Prod.fst).Nodup

/-! ### The sanitiser -/

/-- Clamped, and rounded to four decimals. -/
def sanitizeNumber : JsNumber → JsNumber
  | .finite d => .finite (roundPlaces 4 d.maxZero.value)
  | n => n

def sanitizeScalar : HeapValue → HeapValue
  | .num n => .num (sanitizeNumber n)
  | v => v

/-- All objects, the new ones last, and those that were met. -/
structure WalkState where
  heap : GraphHeap
  seen : List Nat

/-- The entries in order; `none` when a visit does not end. -/
def copyEntries (visit : WalkState → HeapValue → Option (HeapValue × WalkState)) :
    WalkState → List (JsString × HeapValue) → Option (List (JsString × HeapValue) × WalkState)
  | state, [] => some ([], state)
  | state, (key, value) :: entries =>
    match visit state value with
    | none => none
    | some (copy, state) =>
      match copyEntries visit state entries with
      | none => none
      | some (copies, state) => some ((key, copy) :: copies, state)

/-- The copy and the state after the call, if it ends within a number of nested calls. -/
def walk : Nat → WalkState → HeapValue → Option (HeapValue × WalkState)
  | 0, _, _ => none
  | fuel + 1, state, .ref address =>
    if address ∈ state.seen then some (.ref address, state)
    else
      match state.heap[address]? with
      | none => some (.ref address, state)
      | some object =>
        match copyEntries (walk fuel) ⟨state.heap, address :: state.seen⟩ object.entries with
        | none => none
        | some (copies, after) =>
          some (.ref after.heap.length, ⟨after.heap ++ [object.copy copies], after.seen⟩)
  | _ + 1, state, v => some (sanitizeScalar v, state)

/-- A result of the sanitiser, with the heap that has the new objects. -/
def Sanitizes (heap : GraphHeap) (output : HeapValue) (result : HeapValue) (after : GraphHeap) : Prop :=
  ∃ fuel seen, walk fuel ⟨heap, []⟩ output = some (result, ⟨after, seen⟩)

/-! ### What a value leads to -/

/-- Through elements, members and prototypes. -/
inductive Reaches (heap : GraphHeap) : HeapValue → HeapValue → Prop
  | self {v : HeapValue} : Reaches heap v v
  | entry {address : Nat} {object : GraphObject} {key : JsString} {v w : HeapValue} :
    heap[address]? = some object → (key, v) ∈ object.entries → Reaches heap v w →
    Reaches heap (.ref address) w
  | prototype {address above : Nat} {object : GraphObject} {w : HeapValue} :
    heap[address]? = some object → object.prototype = some above → Reaches heap (.ref above) w →
    Reaches heap (.ref address) w

/-- Equal scalars, or containers of one kind with the same keys and related values. -/
inductive Matches (heap heap' : GraphHeap) (R : HeapValue → HeapValue → Prop) :
    HeapValue → HeapValue → Prop
  | scalar {v : HeapValue} : ref? v = none → Matches heap heap' R v v
  | container {address address' : Nat} {object object' : GraphObject} :
    heap[address]? = some object → heap'[address']? = some object' → object.array = object'.array →
    List.Forall₂ (fun entry entry' => entry.1 = entry'.1 ∧ R entry.2 entry'.2) object.entries
      object'.entries →
    Matches heap heap' R (.ref address) (.ref address')

/-- The two values cannot be told apart by their members. -/
def SameData (heap heap' : GraphHeap) (v v' : HeapValue) : Prop :=
  ∃ R : HeapValue → HeapValue → Prop, R v v' ∧ ∀ v v', R v v' → Matches heap heap' R v v'

mutual

/-- The value unfolds to a finite tree with these containers. -/
inductive Unfolds (heap : GraphHeap) : HeapValue → List Nat → Prop
  | scalar {v : HeapValue} : ref? v = none → Unfolds heap v []
  | container {address : Nat} {object : GraphObject} {addresses : List Nat} :
    heap[address]? = some object → UnfoldsAll heap object.entries addresses →
    Unfolds heap (.ref address) (address :: addresses)

inductive UnfoldsAll (heap : GraphHeap) : List (JsString × HeapValue) → List Nat → Prop
  | nil : UnfoldsAll heap [] []
  | cons {key : JsString} {v : HeapValue} {entries : List (JsString × HeapValue)}
    {first rest : List Nat} :
    Unfolds heap v first → UnfoldsAll heap entries rest →
    UnfoldsAll heap ((key, v) :: entries) (first ++ rest)

end

/-- No container is in two places, nor inside itself. -/
def IsTree (heap : GraphHeap) (v : HeapValue) : Prop :=
  ∃ addresses, Unfolds heap v addresses ∧ addresses.Nodup

/-- The result is sanitised everywhere, shares nothing with the graph, and sanitising it again
gives the same data. -/
def SanitizedEverywhere (graph : SharedGraph) : Prop :=
  ∃ result after, Sanitizes graph.heap graph.root result after ∧
    (∀ d, Reaches after result (.num (.finite d)) → 0 ≤ d.value ∧ -4 ≤ d.exponent) ∧
    (∀ address, Reaches graph.heap graph.root (.ref address) → ¬ Reaches after result (.ref address)) ∧
    ∃ again last, Sanitizes after result again last ∧ SameData after last result again

/-! ### Numbers -/

theorem sanitizeNumber_twice (n : JsNumber) :
    sanitizeNumber (sanitizeNumber n) = sanitizeNumber n := by
  cases n with
  | finite d =>
    have nonneg := roundPlaces_nonneg 4 (Decimal.maxZero_nonneg d)
    have kept : (roundPlaces 4 d.maxZero.value).maxZero = roundPlaces 4 d.maxZero.value := by
      rw [Decimal.maxZero, if_neg (not_lt.mpr (Decimal.value_nonneg.mp nonneg))]
    simp only [sanitizeNumber, kept, roundPlaces_roundPlaces]
  | nan | infinite => rfl

theorem sanitizeScalar_twice (v : HeapValue) :
    sanitizeScalar (sanitizeScalar v) = sanitizeScalar v := by
  cases v with
  | num n => exact congrArg HeapValue.num (sanitizeNumber_twice n)
  | _ => rfl

theorem ref?_sanitizeScalar (v : HeapValue) : ref? (sanitizeScalar v) = ref? v := by
  cases v <;> rfl

/-! ### Copies -/

mutual

/-- The second value is a copy of the first, made of new objects. -/
inductive CopyOf (heap later : GraphHeap) : HeapValue → HeapValue → Prop
  | scalar {v copy : HeapValue} : ref? v = none → copy = sanitizeScalar v →
    CopyOf heap later v copy
  | container {address new : Nat} {object : GraphObject} {copies : List (JsString × HeapValue)} :
    heap[address]? = some object → later[new]? = some (object.copy copies) → heap.length ≤ new →
    CopyOfAll heap later object.entries copies → CopyOf heap later (.ref address) (.ref new)

inductive CopyOfAll (heap later : GraphHeap) :
    List (JsString × HeapValue) → List (JsString × HeapValue) → Prop
  | nil : CopyOfAll heap later [] []
  | cons {key : JsString} {v copy : HeapValue} {entries copies : List (JsString × HeapValue)} :
    CopyOf heap later v copy → CopyOfAll heap later entries copies →
    CopyOfAll heap later ((key, v) :: entries) ((key, copy) :: copies)

end

theorem CopyOfAll.mem {heap later : GraphHeap} {entries copies : List (JsString × HeapValue)}
    (all : CopyOfAll heap later entries copies) {key : JsString} {copy : HeapValue}
    (member : (key, copy) ∈ copies) : ∃ v, (key, v) ∈ entries ∧ CopyOf heap later v copy := by
  induction copies generalizing entries with
  | nil => cases member
  | cons _ copies ih =>
    cases all with
    | cons first rest =>
      rcases List.mem_cons.mp member with same | member
      · cases same
        exact ⟨_, List.mem_cons_self, first⟩
      · obtain ⟨v, found, copied⟩ := ih rest member
        exact ⟨v, List.mem_cons_of_mem _ found, copied⟩

theorem mem_copy_entries {object : GraphObject} {copies : List (JsString × HeapValue)}
    {entry : JsString × HeapValue} : entry ∈ (object.copy copies).entries ↔
      entry ∈ copies ∧ dropped object.array entry.1 = false := by
  simp [GraphObject.copy]

theorem mem_of_prototype {object : GraphObject} {copies : List (JsString × HeapValue)} {above : Nat}
    (prototype : (object.copy copies).prototype = some above) :
    (protoKey, .ref above) ∈ copies := by
  simp only [GraphObject.copy] at prototype
  split_ifs at prototype
  obtain ⟨⟨key, v⟩, found, value⟩ := Option.bind_eq_some_iff.mp prototype
  have named : key = protoKey := by simpa using List.find?_some found
  have member := List.mem_of_find?_eq_some found
  cases v with
  | ref address =>
    obtain rfl := Option.some.inj value
    exact named ▸ member
  | _ => cases value

/-- A container among the scalars' copies there is none. -/
theorem CopyOf.container_iff {heap later : GraphHeap} {v : HeapValue} {new : Nat}
    (copied : CopyOf heap later v (.ref new)) : ∃ address object copies, v = .ref address ∧
      heap[address]? = some object ∧ later[new]? = some (object.copy copies) ∧
      heap.length ≤ new ∧ CopyOfAll heap later object.entries copies := by
  cases copied with
  | scalar isScalar same =>
    have none := ref?_sanitizeScalar v
    rw [← same, isScalar] at none
    cases none
  | container found copied fresh all => exact ⟨_, _, _, rfl, found, copied, fresh, all⟩

/-- What a copy leads to is a copy. -/
theorem CopyOf.reaches {heap later : GraphHeap} {v copy w : HeapValue}
    (copied : CopyOf heap later v copy) (reaches : Reaches later copy w) :
    ∃ v', CopyOf heap later v' w := by
  induction reaches generalizing v with
  | self => exact ⟨v, copied⟩
  | entry found member _ ih =>
    obtain ⟨_, object, copies, rfl, _, new, _, all⟩ := copied.container_iff
    obtain rfl := Option.some.inj (found.symm.trans new)
    obtain ⟨v', _, inner⟩ := all.mem (mem_copy_entries.mp member).1
    exact ih inner
  | prototype found above _ ih =>
    obtain ⟨_, object, copies, rfl, _, new, _, all⟩ := copied.container_iff
    obtain rfl := Option.some.inj (found.symm.trans new)
    obtain ⟨v', _, inner⟩ := all.mem (mem_of_prototype above)
    exact ih inner

theorem CopyOf.number {heap later : GraphHeap} {v : HeapValue} {d : Decimal}
    (copied : CopyOf heap later v (.num (.finite d))) : 0 ≤ d.value ∧ -4 ≤ d.exponent := by
  cases copied with
  | scalar isScalar same =>
    cases v with
    | num n =>
      cases n with
      | finite original =>
        simp only [sanitizeScalar, sanitizeNumber, HeapValue.num.injEq, JsNumber.finite.injEq] at same
        rw [same]
        exact ⟨roundPlaces_nonneg 4 (Decimal.maxZero_nonneg original), roundPlaces_exponent 4 _⟩
      | nan | infinite => cases same
    | _ => cases same

/-! ### The walk over a tree -/

/-- What a walk over a value that unfolds to these containers leaves. -/
structure Copied (heap : GraphHeap) (state : WalkState) (addresses : List Nat) (v copy : HeapValue)
    (after : WalkState) : Prop where
  grown : state.heap <+: after.heap
  seen : ∀ a, a ∈ after.seen ↔ a ∈ state.seen ∨ a ∈ addresses
  copied : ∀ later, after.heap <+: later → CopyOf heap later v copy
  tree : ∃ new, (∀ later, after.heap <+: later → Unfolds later copy new) ∧ new.Nodup ∧
    ∀ b ∈ new, state.heap.length ≤ b ∧ b < after.heap.length

structure CopiedAll (heap : GraphHeap) (state : WalkState) (addresses : List Nat)
    (entries copies : List (JsString × HeapValue)) (after : WalkState) : Prop where
  grown : state.heap <+: after.heap
  seen : ∀ a, a ∈ after.seen ↔ a ∈ state.seen ∨ a ∈ addresses
  copied : ∀ later, after.heap <+: later → CopyOfAll heap later entries copies
  tree : ∀ array, ∃ new, (∀ later, after.heap <+: later →
      UnfoldsAll later (copies.filter fun entry => !dropped array entry.1) new) ∧ new.Nodup ∧
    ∀ b ∈ new, state.heap.length ≤ b ∧ b < after.heap.length

theorem getElem_grown {heap later : GraphHeap} {address : Nat} {object : GraphObject}
    (grown : heap <+: later) (found : heap[address]? = some object) :
    later[address]? = some object := by
  obtain ⟨more, rfl⟩ := grown
  exact List.getElem?_append_left (List.getElem?_eq_some_iff.mp found).1 ▸ found

mutual

/-- A tree whose containers are not met yet is copied. -/
theorem Unfolds.walk {heap : GraphHeap} {v : HeapValue} {addresses : List Nat}
    (unfolds : Unfolds heap v addresses) (distinct : addresses.Nodup) (state : WalkState)
    (grown : heap <+: state.heap) (unseen : ∀ a ∈ addresses, a ∉ state.seen) (fuel : Nat)
    (enough : addresses.length < fuel) : ∃ copy after,
      GraphSanitizer.walk fuel state v = some (copy, after) ∧
        Copied heap state addresses v copy after := by
  cases fuel with
  | zero => omega
  | succ fuel =>
    cases unfolds with
    | scalar isScalar =>
      have visited : GraphSanitizer.walk (fuel + 1) state v = some (sanitizeScalar v, state) := by
        cases v with
        | ref => cases isScalar
        | _ => rfl
      refine ⟨_, _, visited, List.prefix_rfl, by simp, fun later _ => .scalar isScalar rfl, [], ?_⟩
      exact ⟨fun later _ => .scalar ((ref?_sanitizeScalar v).trans isScalar), List.nodup_nil, by simp⟩
    | @container address object inner found all =>
      obtain ⟨outer, distinct⟩ := List.nodup_cons.mp distinct
      have fresh := unseen address List.mem_cons_self
      have unmarked : ∀ a ∈ inner, a ∉ address :: state.seen := by
        intro a member marked
        rcases List.mem_cons.mp marked with rfl | before
        · exact outer member
        · exact unseen a (List.mem_cons_of_mem _ member) before
      obtain ⟨copies, after, visited, done⟩ := all.copyEntries distinct
        ⟨state.heap, address :: state.seen⟩ grown unmarked fuel (by simpa using enough)
      obtain ⟨new, tree, newDistinct, bounds⟩ := done.tree object.array
      have place (later : GraphHeap) (extended : after.heap ++ [object.copy copies] <+: later) :
          later[after.heap.length]? = some (object.copy copies) :=
        getElem_grown extended (by simp)
      have shorter : after.heap <+: after.heap ++ [object.copy copies] := List.prefix_append _ _
      refine ⟨.ref after.heap.length, ⟨after.heap ++ [object.copy copies], after.seen⟩, ?_,
        done.grown.trans shorter, fun a => ?_, fun later extended => ?_,
        after.heap.length :: new, fun later extended => ?_, ?_, fun b member => ?_⟩
      · simp only [GraphSanitizer.walk, fresh, if_false, getElem_grown grown found, visited]
      · simp only [done.seen, List.mem_cons, or_left_comm, or_assoc]
      · exact .container found (place later extended) (grown.trans done.grown).length_le
          (done.copied later (shorter.trans extended))
      · exact .container (place later extended) (tree later (shorter.trans extended))
      · refine List.nodup_cons.mpr ⟨fun member => ?_, newDistinct⟩
        exact absurd (bounds _ member).2 (lt_irrefl _)
      · have room := done.grown.length_le
        simp only [List.length_append, List.length_singleton]
        rcases List.mem_cons.mp member with rfl | member
        · exact ⟨room, by omega⟩
        · have bound := bounds b member
          exact ⟨bound.1, by omega⟩

theorem UnfoldsAll.copyEntries {heap : GraphHeap} {entries : List (JsString × HeapValue)}
    {addresses : List Nat} (unfolds : UnfoldsAll heap entries addresses)
    (distinct : addresses.Nodup) (state : WalkState) (grown : heap <+: state.heap)
    (unseen : ∀ a ∈ addresses, a ∉ state.seen) (fuel : Nat) (enough : addresses.length < fuel) :
    ∃ copies after,
      GraphSanitizer.copyEntries (GraphSanitizer.walk fuel) state entries = some (copies, after) ∧
        CopiedAll heap state addresses entries copies after := by
  cases unfolds with
  | nil =>
    exact ⟨[], state, rfl, List.prefix_rfl, by simp, fun _ _ => .nil,
      fun _ => ⟨[], fun _ _ => .nil, List.nodup_nil, by simp⟩⟩
  | @cons key v entries first rest head tail =>
    obtain ⟨firstDistinct, restDistinct, apart⟩ := List.nodup_append.mp distinct
    rw [List.length_append] at enough
    obtain ⟨copy, middle, visited, done⟩ := head.walk firstDistinct state grown
      (fun a member => unseen a (List.mem_append_left _ member)) fuel (by omega)
    have unmarked : ∀ a ∈ rest, a ∉ middle.seen := by
      intro a member marked
      rcases (done.seen a).mp marked with before | here
      · exact unseen a (List.mem_append_right _ member) before
      · exact apart a here a member rfl
    obtain ⟨copies, after, visitedAll, doneAll⟩ := tail.copyEntries restDistinct middle
      (grown.trans done.grown) unmarked fuel (by omega)
    refine ⟨(key, copy) :: copies, after, ?_, done.grown.trans doneAll.grown, fun a => ?_,
      fun later extended => ?_, fun array => ?_⟩
    · simp only [GraphSanitizer.copyEntries, visited, visitedAll]
    · simp only [doneAll.seen, done.seen, List.mem_append, or_assoc]
    · exact .cons (done.copied later (doneAll.grown.trans extended)) (doneAll.copied later extended)
    · obtain ⟨new, tree, newDistinct, bounds⟩ := done.tree
      obtain ⟨more, trees, moreDistinct, moreBounds⟩ := doneAll.tree array
      have before := done.grown.length_le
      have behind := doneAll.grown.length_le
      by_cases lost : dropped array key = true
      · refine ⟨more, fun later extended => ?_, moreDistinct, fun b member => ?_⟩
        · simpa only [List.filter_cons, lost, Bool.not_true, Bool.false_eq_true, if_false] using
            trees later extended
        · have bound := moreBounds b member
          omega
      · refine ⟨new ++ more, fun later extended => ?_, ?_, fun b member => ?_⟩
        · simp only [List.filter_cons, lost, Bool.not_false, if_true]
          exact .cons (tree later (doneAll.grown.trans extended)) (trees later extended)
        · refine List.nodup_append.mpr ⟨newDistinct, moreDistinct, fun a left b right same => ?_⟩
          have lower := (bounds a left).2
          have upper := (moreBounds b right).1
          omega
        · rcases List.mem_append.mp member with member | member
          · have bound := bounds b member
            omega
          · have bound := moreBounds b member
            omega

end

/-! ### A clean result comes from a tree -/

theorem Reaches.trans {heap : GraphHeap} {u v w : HeapValue} (first : Reaches heap u v)
    (rest : Reaches heap v w) : Reaches heap u w := by
  induction first with
  | self => exact rest
  | entry found member _ ih => exact .entry found member (ih rest)
  | prototype found above _ ih => exact .prototype found above (ih rest)

theorem SharedGraph.reaches_within (graph : SharedGraph) {v w : HeapValue}
    (reaches : Reaches graph.heap v w) (within : v.Within graph.heap.length) :
    w.Within graph.heap.length := by
  induction reaches with
  | self => exact within
  | entry found member _ ih =>
    exact ih (graph.values_within _ (List.mem_of_getElem? found) _ member)
  | prototype found above _ ih =>
    exact ih (graph.prototypes_within _ (List.mem_of_getElem? found) _ above)

theorem find_of_distinct {entries : List (JsString × HeapValue)} {key : JsString} {v : HeapValue}
    (distinct : (entries.map Prod.fst).Nodup) (member : (key, v) ∈ entries) :
    entries.find? (·.1 = key) = some (key, v) := by
  induction entries with
  | nil => cases member
  | cons entry entries ih =>
    obtain ⟨outer, distinct⟩ := List.nodup_cons.mp distinct
    rcases List.mem_cons.mp member with rfl | member
    · simp
    · have other : entry.1 ≠ key := by
        rintro rfl
        exact outer (List.mem_map.mpr ⟨_, member, rfl⟩)
      simp only [List.find?_cons, other, decide_false, ih distinct member]

/-- A copy leads to what its parts lead to. -/
theorem reaches_of_copy {later : GraphHeap} {new address : Nat} {object : GraphObject}
    {copies : List (JsString × HeapValue)} (found : later[new]? = some (object.copy copies))
    (distinct : object.array = false → (copies.map Prod.fst).Nodup) {key : JsString} {copy : HeapValue}
    (member : (key, copy) ∈ copies) (reaches : Reaches later copy (.ref address)) :
    Reaches later (.ref new) (.ref address) := by
  cases lost : dropped object.array key with
  | false => exact .entry found (mem_copy_entries.mpr ⟨member, lost⟩) reaches
  | true =>
    -- the copy of an object under `__proto__` is the prototype
    simp only [dropped, Bool.and_eq_true, Bool.not_eq_true', beq_iff_eq] at lost
    obtain ⟨notArray, rfl⟩ := lost
    have set := find_of_distinct (distinct notArray) member
    cases copy with
    | ref above =>
      refine .prototype found ?_ reaches
      simp only [GraphObject.copy, notArray, Bool.false_eq_true, if_false, set, Option.bind_some, ref?]
    | _ => cases reaches

theorem copyEntries_keys {visit : WalkState → HeapValue → Option (HeapValue × WalkState)}
    {state after : WalkState} {entries copies : List (JsString × HeapValue)}
    (visited : copyEntries visit state entries = some (copies, after)) :
    copies.map Prod.fst = entries.map Prod.fst := by
  induction entries generalizing state copies with
  | nil =>
    cases visited
    rfl
  | cons entry entries ih =>
    simp only [copyEntries] at visited
    split at visited
    · cases visited
    · split at visited
      · cases visited
      · rename_i inner
        cases visited
        exact congrArg (entry.1 :: ·) (ih inner)

theorem copyEntries_grown {visit : WalkState → HeapValue → Option (HeapValue × WalkState)}
    (grows : ∀ state v copy after, visit state v = some (copy, after) → state.heap <+: after.heap)
    {state after : WalkState} {entries copies : List (JsString × HeapValue)}
    (visited : copyEntries visit state entries = some (copies, after)) :
    state.heap <+: after.heap := by
  induction entries generalizing state copies with
  | nil =>
    cases visited
    exact List.prefix_rfl
  | cons entry entries ih =>
    simp only [copyEntries] at visited
    split at visited
    · cases visited
    · rename_i first
      split at visited
      · cases visited
      · rename_i inner
        cases visited
        exact (grows _ _ _ _ first).trans (ih inner)

/-- Objects are only added. -/
theorem walk_grown (fuel : Nat) (state : WalkState) (v copy : HeapValue) (after : WalkState)
    (visited : walk fuel state v = some (copy, after)) : state.heap <+: after.heap := by
  induction fuel generalizing state v copy after with
  | zero => cases visited
  | succ fuel ih =>
    cases v with
    | ref address =>
      simp only [walk] at visited
      split_ifs at visited
      · cases visited
        exact List.prefix_rfl
      · split at visited
        · cases visited
          exact List.prefix_rfl
        · split at visited
          · cases visited
          · rename_i inner
            cases visited
            exact (copyEntries_grown ih inner).trans (List.prefix_append _ _)
    | _ =>
      cases visited
      exact List.prefix_rfl

/-- The part of the input that was walked is a tree of containers that were not met before. -/
def Covers (unfolds : List Nat → Prop) (seen after : List Nat) : Prop :=
  ∃ addresses, unfolds addresses ∧ addresses.Nodup ∧ (∀ a ∈ addresses, a ∉ seen) ∧
    ∀ a, a ∈ after ↔ a ∈ seen ∨ a ∈ addresses

/-- Nothing that the graph leads to is reached from the value. -/
def Clean (graph : SharedGraph) (later : GraphHeap) (copy : HeapValue) : Prop :=
  ∀ address, Reaches graph.heap graph.root (.ref address) → ¬ Reaches later copy (.ref address)

theorem copyEntries_clean {graph : SharedGraph} {later : GraphHeap}
    {visit : WalkState → HeapValue → Option (HeapValue × WalkState)}
    (grows : ∀ state v copy after, visit state v = some (copy, after) → state.heap <+: after.heap)
    (covers : ∀ state v copy after, visit state v = some (copy, after) → graph.heap <+: state.heap →
      Reaches graph.heap graph.root v → after.heap <+: later → Clean graph later copy →
      Covers (Unfolds graph.heap v) state.seen after.seen)
    {state after : WalkState} {entries copies : List (JsString × HeapValue)}
    (visited : copyEntries visit state entries = some (copies, after))
    (grown : graph.heap <+: state.heap)
    (reached : ∀ entry ∈ entries, Reaches graph.heap graph.root entry.2)
    (extended : after.heap <+: later) (clean : ∀ entry ∈ copies, Clean graph later entry.2) :
    Covers (UnfoldsAll graph.heap entries) state.seen after.seen := by
  induction entries generalizing state copies with
  | nil =>
    cases visited
    exact ⟨[], .nil, List.nodup_nil, by simp, by simp⟩
  | cons entry entries ih =>
    simp only [copyEntries] at visited
    split at visited
    · cases visited
    · rename_i copy middle first
      split at visited
      · cases visited
      · rename_i inner
        cases visited
        obtain ⟨heads, unfolds, distinct, unseen, seen⟩ := covers _ _ _ _ first grown
          (reached entry List.mem_cons_self) ((copyEntries_grown grows inner).trans extended)
          (clean _ List.mem_cons_self)
        obtain ⟨rests, unfoldsAll, restDistinct, restUnseen, restSeen⟩ := ih inner
          (grown.trans (grows _ _ _ _ first))
          (fun entry member => reached entry (List.mem_cons_of_mem _ member))
          (fun entry member => clean entry (List.mem_cons_of_mem _ member))
        have apart : ∀ a ∈ rests, a ∉ state.seen ∧ a ∉ heads := fun a member =>
          not_or.mp fun before => restUnseen a member ((seen a).mpr before)
        refine ⟨heads ++ rests, .cons unfolds unfoldsAll, ?_, fun a member => ?_, fun a => ?_⟩
        · refine List.nodup_append.mpr ⟨distinct, restDistinct, fun a left b right same => ?_⟩
          exact (apart b right).2 (same ▸ left)
        · rcases List.mem_append.mp member with member | member
          · exact unseen a member
          · exact (apart a member).1
        · rw [restSeen, seen, List.mem_append, or_assoc]

/-- A walk with a clean result covers a tree. -/
theorem walk_clean {graph : SharedGraph} {later : GraphHeap} (fuel : Nat) (state : WalkState)
    (v copy : HeapValue) (after : WalkState) (visited : walk fuel state v = some (copy, after))
    (grown : graph.heap <+: state.heap) (reached : Reaches graph.heap graph.root v)
    (extended : after.heap <+: later) (clean : Clean graph later copy) :
    Covers (Unfolds graph.heap v) state.seen after.seen := by
  induction fuel generalizing state v copy after with
  | zero => cases visited
  | succ fuel ih =>
    cases v with
    | ref address =>
      have within : address < graph.heap.length := graph.reaches_within reached graph.root_within
      simp only [walk] at visited
      split_ifs at visited with met
      · cases visited
        exact absurd .self (clean address reached)
      · split at visited
        · cases visited
          exact absurd .self (clean address reached)
        · rename_i object found
          have here : graph.heap[address]? = some object := by
            obtain ⟨more, same⟩ := grown
            rw [← same, List.getElem?_append_left within] at found
            exact found
          split at visited
          · cases visited
          · rename_i copies after' inner
            cases visited
            have distinct (notArray : object.array = false) : (copies.map Prod.fst).Nodup := by
              rw [copyEntries_keys inner]
              exact graph.keys_distinct object (List.mem_of_getElem? here) notArray
            have new : later[after'.heap.length]? = some (object.copy copies) :=
              getElem_grown extended (by simp)
            obtain ⟨addresses, unfolds, nodup, unseen, seen⟩ := copyEntries_clean
              (walk_grown fuel) ih inner grown
              (fun entry member => reached.trans (.entry here member .self))
              ((List.prefix_append _ _).trans extended)
              (fun entry member a input output =>
                clean a input (reaches_of_copy new distinct member output))
            refine ⟨address :: addresses, .container here unfolds, ?_, fun a member => ?_, fun a => ?_⟩
            · exact List.nodup_cons.mpr
                ⟨fun member => unseen address member List.mem_cons_self, nodup⟩
            · rcases List.mem_cons.mp member with rfl | member
              · exact met
              · exact fun before => unseen a member (List.mem_cons_of_mem _ before)
            · simp only [seen, List.mem_cons, or_left_comm, or_assoc]
    | _ =>
      cases visited
      exact ⟨[], .scalar rfl, List.nodup_nil, by simp, by simp⟩

/-! ### The whole graph -/

/-- The second copy drops no entry of the first one. -/
theorem CopyOfAll.kept {heap later last : GraphHeap} {array : Bool}
    {entries copies : List (JsString × HeapValue)} (all : CopyOfAll later last entries copies)
    (settled : ∀ entry ∈ entries, dropped array entry.1 = false ∧ ∃ v, CopyOf heap later v entry.2) :
    List.Forall₂ (fun entry entry' => entry.1 = entry'.1 ∧
        (∃ v, CopyOf heap later v entry.2) ∧ CopyOf later last entry.2 entry'.2) entries
      (copies.filter fun entry => !dropped array entry.1) := by
  induction copies generalizing entries with
  | nil =>
    cases all
    exact .nil
  | cons _ copies ih =>
    cases all with
    | cons first rest =>
      obtain ⟨⟨stays, copied⟩, others⟩ := List.forall_mem_cons.mp settled
      simp only [List.filter_cons, stays, Bool.not_false, if_true]
      exact .cons ⟨rfl, copied, first⟩ (ih rest others)

theorem CopyOf.same {heap later last : GraphHeap} {v copy again : HeapValue}
    (first : CopyOf heap later v copy) (second : CopyOf later last copy again) :
    SameData later last copy again := by
  refine ⟨fun w w' => (∃ v, CopyOf heap later v w) ∧ CopyOf later last w w', ⟨⟨v, first⟩, second⟩, ?_⟩
  rintro w w' ⟨⟨v, copied⟩, again⟩
  cases again with
  | scalar isScalar same =>
    have settled : sanitizeScalar w = w := by
      cases copied with
      | scalar _ value => rw [value, sanitizeScalar_twice]
      | container => cases isScalar
    rw [same, settled]
    exact .scalar isScalar
  | @container address new object copies found placed fresh all =>
    obtain ⟨_, original, parts, _, _, made, _, allParts⟩ := copied.container_iff
    obtain rfl := Option.some.inj (found.symm.trans made)
    refine .container found placed rfl (all.kept fun entry member => ?_)
    obtain ⟨part, stays⟩ := mem_copy_entries.mp member
    obtain ⟨v, _, inner⟩ := allParts.mem part
    exact ⟨stays, v, inner⟩

/-- The result is sanitised everywhere exactly if no object of the graph is in two places. -/
theorem sanitizedEverywhere_iff (graph : SharedGraph) :
    SanitizedEverywhere graph ↔ IsTree graph.heap graph.root := by
  constructor
  · rintro ⟨result, after, ⟨fuel, seen, visited⟩, _, clean, _⟩
    obtain ⟨addresses, unfolds, distinct, _⟩ :=
      walk_clean fuel _ _ _ _ visited List.prefix_rfl .self List.prefix_rfl clean
    exact ⟨addresses, unfolds, distinct⟩
  · rintro ⟨addresses, unfolds, distinct⟩
    obtain ⟨result, after, visited, done⟩ := unfolds.walk distinct ⟨graph.heap, []⟩ List.prefix_rfl
      (by simp) _ (Nat.lt_succ_self _)
    have copied := done.copied after.heap List.prefix_rfl
    obtain ⟨new, tree, newDistinct, _⟩ := done.tree
    obtain ⟨again, last, revisited, redone⟩ := (tree after.heap List.prefix_rfl).walk newDistinct
      ⟨after.heap, []⟩ List.prefix_rfl (by simp) _ (Nat.lt_succ_self _)
    refine ⟨result, after.heap, ⟨_, after.seen, visited⟩, fun d reaches => ?_,
      fun address input output => ?_, again, last.heap, ⟨_, last.seen, revisited⟩,
      copied.same (redone.copied last.heap List.prefix_rfl)⟩
    · obtain ⟨_, number⟩ := copied.reaches reaches
      exact number.number
    · obtain ⟨_, container⟩ := copied.reaches output
      obtain ⟨_, _, _, _, _, _, fresh, _⟩ := container.container_iff
      have old : address < graph.heap.length := graph.reaches_within input graph.root_within
      omega

/-! ### A shared object -/

/-- `const r = { v: -5 }; [r, r]` -/
def sharedPair : SharedGraph where
  heap := [⟨false, none, [(js "v", .num (.finite (Decimal.ofInt (-5))))]⟩,
    ⟨true, none, [([], .ref 0), ([], .ref 0)]⟩]
  root := .ref 1
  root_within := Nat.one_lt_two
  values_within := by simp [HeapValue.Within]
  prototypes_within := by simp
  keys_distinct := by simp

theorem Unfolds.mem_address {heap : GraphHeap} {address : Nat} {addresses : List Nat}
    (unfolds : Unfolds heap (.ref address) addresses) : address ∈ addresses := by
  cases unfolds with
  | scalar isScalar => cases isScalar
  | container => exact List.mem_cons_self

/-- The second place has the object of the input, with the negative number. -/
theorem sharedPair_unsanitized : ¬ ∀ graph : SharedGraph, SanitizedEverywhere graph := by
  intro everywhere
  obtain ⟨result, after, ⟨fuel, seen, visited⟩, _, clean, _⟩ := everywhere sharedPair
  obtain ⟨addresses, unfolds, distinct, _⟩ :=
    walk_clean fuel _ _ _ _ visited List.prefix_rfl .self List.prefix_rfl clean
  cases unfolds with
  | scalar isScalar => cases isScalar
  | container found all =>
    obtain rfl := Option.some.inj found
    cases all with
    | cons first rest =>
      cases rest with
      | cons second rest =>
        obtain ⟨_, _, apart⟩ := List.nodup_append.mp (List.nodup_cons.mp distinct).2
        exact apart 0 first.mem_address 0 (List.mem_append_left _ second.mem_address) rfl

end NeuralMesh.Server.GraphSanitizer
