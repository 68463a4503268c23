import NeuralMesh.Js.RoundTrip
import Mathlib.Data.List.Perm.Basic
import Mathlib.Data.List.Lex
import Mathlib.Data.List.Pairwise

/-! Values up to the order of object keys. Sorting the keys at every level picks
one representative, so two values are the same data when they sort alike. -/
namespace NeuralMesh.Js

/-! ### Sorting by key -/

/-- The order of `Array.prototype.sort` on strings: code units, left to right. -/
def keyLe (a b : JsString) : Bool := decide (a.map UInt16.toNat ≤ b.map UInt16.toNat)

variable {β γ : Type}

def sortKeys (entries : List (JsString × β)) : List (JsString × β) :=
  entries.insertionSort fun a b => keyLe a.1 b.1 = true

theorem keyLe_antisymm {a b : JsString} (ab : keyLe a b = true) (ba : keyLe b a = true) :
    a = b := by
  simp only [keyLe, decide_eq_true_eq] at ab ba
  exact List.map_injective_iff.mpr (fun _ _ => UInt16.toNat_inj.mp) (le_antisymm ab ba)

instance keyLe_total : Std.Total fun a b : JsString × β => keyLe a.1 b.1 = true where
  total a b := by
    simp only [keyLe, decide_eq_true_eq]
    exact le_total _ _

instance keyLe_trans : IsTrans (JsString × β) fun a b => keyLe a.1 b.1 = true where
  trans a b c ab bc := by
    simp only [keyLe, decide_eq_true_eq] at ab bc ⊢
    exact le_trans ab bc

theorem sortKeys_perm (entries : List (JsString × β)) : (sortKeys entries).Perm entries :=
  List.perm_insertionSort _ entries

theorem sortKeys_sorted (entries : List (JsString × β)) :
    (sortKeys entries).Pairwise fun a b => keyLe a.1 b.1 = true :=
  List.pairwise_insertionSort _ entries

theorem sortKeys_map (f : β → γ) (entries : List (JsString × β)) :
    (sortKeys entries).map (fun m => (m.1, f m.2)) =
      sortKeys (entries.map fun m => (m.1, f m.2)) :=
  List.map_insertionSort _ _ (fun m : JsString × β => (m.1, f m.2)) entries
    fun _ _ _ _ => Iff.rfl

/-- Every key is listed once. -/
def UniqueKeys (entries : List (JsString × β)) : Prop :=
  entries.Pairwise fun a b => a.1 ≠ b.1

theorem UniqueKeys.perm {entries other : List (JsString × β)} (unique : UniqueKeys entries)
    (same : entries.Perm other) : UniqueKeys other :=
  List.Pairwise.perm unique same fun different => different.symm

theorem UniqueKeys.eq {entries : List (JsString × β)} (unique : UniqueKeys entries)
    {a b : JsString × β} (left : a ∈ entries) (right : b ∈ entries) (key : a.1 = b.1) : a = b := by
  have symmetric : Std.Symm fun a b : JsString × β => a.1 ≠ b.1 := ⟨fun _ _ => Ne.symm⟩
  by_contra different
  exact List.Pairwise.forall unique left right different key

/-- The result of sorting does not depend on the order of the entries. -/
theorem sortKeys_eq_of_perm {entries other : List (JsString × β)} (unique : UniqueKeys entries)
    (same : entries.Perm other) : sortKeys entries = sortKeys other := by
  have perm : (sortKeys entries).Perm (sortKeys other) :=
    (sortKeys_perm entries).trans (same.trans (sortKeys_perm other).symm)
  refine perm.eq_of_pairwise ?_ (sortKeys_sorted entries) (sortKeys_sorted other)
  intro a b left right ab ba
  exact unique.eq ((sortKeys_perm entries).mem_iff.mp left)
    (same.mem_iff.mpr ((sortKeys_perm other).mem_iff.mp right)) (keyLe_antisymm ab ba)

theorem sortKeys_of_sorted {entries : List (JsString × β)}
    (sorted : entries.Pairwise fun a b => keyLe a.1 b.1 = true) : sortKeys entries = entries :=
  List.Pairwise.insertionSort_eq sorted

/-! ### Sorting a value -/

mutual

def sortValue : JsValue → JsValue
  | .arr elements => .arr (sortElements elements)
  | .obj members => .obj (sortKeys (sortMembers members))
  | v => v

def sortElements : List JsValue → List JsValue
  | [] => []
  | v :: vs => sortValue v :: sortElements vs

def sortMembers : List (JsString × JsValue) → List (JsString × JsValue)
  | [] => []
  | (k, v) :: ms => (k, sortValue v) :: sortMembers ms

end

@[simp] theorem sortElements_eq (vs : List JsValue) : sortElements vs = vs.map sortValue := by
  induction vs with
  | nil => rfl
  | cons v vs ih => rw [sortElements, ih, List.map_cons]

@[simp] theorem sortMembers_eq (ms : List (JsString × JsValue)) :
    sortMembers ms = ms.map fun m => (m.1, sortValue m.2) := by
  induction ms with
  | nil => rfl
  | cons m ms ih => rw [sortMembers, ih, List.map_cons]

theorem sortValue_obj (ms : List (JsString × JsValue)) :
    sortValue (.obj ms) = .obj ((sortKeys ms).map fun m => (m.1, sortValue m.2)) := by
  rw [sortValue, sortMembers_eq, sortKeys_map]

theorem sortValue_undefined {v : JsValue} : sortValue v = .undefined ↔ v = .undefined := by
  cases v <;> simp [sortValue]

theorem isPlain_sortValue {v : JsValue} (plain : isPlain v = true) :
    isPlain (sortValue v) = true := by
  induction v with
  | undefined | null | bool | num | str => exact plain
  | arr elements ih =>
    simp only [isPlain, allPlain_iff] at plain
    simp only [sortValue, sortElements_eq, isPlain, allPlain_iff, List.mem_map]
    rintro _ ⟨v, member, rfl⟩
    exact ih v member (plain v member)
  | obj members ih =>
    simp only [isPlain, allMembersPlain_iff] at plain
    simp only [sortValue, sortMembers_eq, isPlain, allMembersPlain_iff,
      (sortKeys_perm _).mem_iff, List.mem_map]
    rintro _ ⟨m, member, rfl⟩
    exact ih m member (plain m member)

/-! ### The same data -/

mutual

/-- Equality up to the order of the members of every object. -/
def SameData : JsValue → JsValue → Prop
  | .arr elements, w => ∃ others, w = .arr others ∧ SameElements elements others
  | .obj members, w => ∃ others reordered, w = .obj others ∧ reordered.Perm others ∧
      SameMembers members reordered
  | v, w => v = w

def SameElements : List JsValue → List JsValue → Prop
  | [], ws => ws = []
  | v :: vs, ws => ∃ w others, ws = w :: others ∧ SameData v w ∧ SameElements vs others

def SameMembers : List (JsString × JsValue) → List (JsString × JsValue) → Prop
  | [], ns => ns = []
  | (k, v) :: ms, ns => ∃ w others, ns = (k, w) :: others ∧ SameData v w ∧ SameMembers ms others

end

mutual

/-- Every object lists each key once. -/
def hasUniqueKeys : JsValue → Prop
  | .arr elements => allUniqueKeys elements
  | .obj members => UniqueKeys members ∧ allMembersUniqueKeys members
  | _ => True

def allUniqueKeys : List JsValue → Prop
  | [] => True
  | v :: vs => hasUniqueKeys v ∧ allUniqueKeys vs

def allMembersUniqueKeys : List (JsString × JsValue) → Prop
  | [] => True
  | (_, v) :: ms => hasUniqueKeys v ∧ allMembersUniqueKeys ms

end

@[simp] theorem allUniqueKeys_iff (vs : List JsValue) :
    allUniqueKeys vs ↔ ∀ v ∈ vs, hasUniqueKeys v := by
  induction vs with
  | nil => simp [allUniqueKeys]
  | cons v vs ih => simp [allUniqueKeys, ih]

@[simp] theorem allMembersUniqueKeys_iff (ms : List (JsString × JsValue)) :
    allMembersUniqueKeys ms ↔ ∀ m ∈ ms, hasUniqueKeys m.2 := by
  induction ms with
  | nil => simp [allMembersUniqueKeys]
  | cons m ms ih => simp [allMembersUniqueKeys, ih]

theorem uniqueKeys_of_ordered {ms : List (JsString × JsValue)}
    (ordered : ms.Pairwise fun a b => precedes a.1 b.1 = true) : UniqueKeys ms :=
  ordered.imp precedes_ne

theorem hasUniqueKeys_of_ordered {v : JsValue} (ordered : isOrdered v = true) :
    hasUniqueKeys v := by
  induction v with
  | undefined | null | bool | num | str => trivial
  | arr elements ih =>
    simp only [isOrdered, allOrdered_iff] at ordered
    simp only [hasUniqueKeys, allUniqueKeys_iff]
    exact fun v member => ih v member (ordered v member)
  | obj members ih =>
    obtain ⟨sorted, ordered⟩ := (isOrdered_obj members).mp ordered
    simp only [hasUniqueKeys, allMembersUniqueKeys_iff]
    exact ⟨uniqueKeys_of_ordered sorted, fun m member => ih m member (ordered m member)⟩

theorem UniqueKeys.map {ms : List (JsString × β)} (unique : UniqueKeys ms) (f : β → γ) :
    UniqueKeys (ms.map fun m => (m.1, f m.2)) :=
  List.pairwise_map.mpr unique

theorem sortElements_eq_iff {vs ws : List JsValue}
    (each : ∀ v ∈ vs, ∀ w, hasUniqueKeys w → (sortValue v = sortValue w ↔ SameData v w))
    (unique : ∀ w ∈ ws, hasUniqueKeys w) :
    vs.map sortValue = ws.map sortValue ↔ SameElements vs ws := by
  induction vs generalizing ws with
  | nil =>
    simp only [List.map_nil, SameElements]
    exact ⟨fun same => List.map_eq_nil_iff.mp same.symm, fun empty => by rw [empty, List.map_nil]⟩
  | cons v vs ih =>
    cases ws with
    | nil => simp [SameElements]
    | cons w ws =>
      have first := each v List.mem_cons_self w (unique w List.mem_cons_self)
      have rest := ih (fun v member => each v (List.mem_cons_of_mem _ member))
        (fun w member => unique w (List.mem_cons_of_mem _ member))
      simp only [List.map_cons, List.cons.injEq, SameElements, first, rest]
      constructor
      · rintro ⟨head, tail⟩
        exact ⟨w, ws, ⟨rfl, rfl⟩, head, tail⟩
      · rintro ⟨_, _, ⟨rfl, rfl⟩, head, tail⟩
        exact ⟨head, tail⟩

theorem sortMembers_eq_iff {ms ns : List (JsString × JsValue)}
    (each : ∀ m ∈ ms, ∀ w, hasUniqueKeys w → (sortValue m.2 = sortValue w ↔ SameData m.2 w))
    (unique : ∀ n ∈ ns, hasUniqueKeys n.2) :
    ms.map (fun m => (m.1, sortValue m.2)) = ns.map (fun n => (n.1, sortValue n.2)) ↔
      SameMembers ms ns := by
  induction ms generalizing ns with
  | nil =>
    simp only [List.map_nil, SameMembers]
    exact ⟨fun same => List.map_eq_nil_iff.mp same.symm, fun empty => by rw [empty, List.map_nil]⟩
  | cons m ms ih =>
    obtain ⟨k, v⟩ := m
    cases ns with
    | nil => simp [SameMembers]
    | cons n ns =>
      obtain ⟨l, w⟩ := n
      have first : sortValue v = sortValue w ↔ SameData v w :=
        each (k, v) List.mem_cons_self w (unique (l, w) List.mem_cons_self)
      have rest := ih (fun m member => each m (List.mem_cons_of_mem _ member))
        (fun n member => unique n (List.mem_cons_of_mem _ member))
      simp only [List.map_cons, List.cons.injEq, Prod.mk.injEq, SameMembers, first, rest]
      constructor
      · rintro ⟨⟨rfl, head⟩, tail⟩
        exact ⟨w, ns, ⟨⟨rfl, rfl⟩, rfl⟩, head, tail⟩
      · rintro ⟨_, _, ⟨⟨rfl, rfl⟩, rfl⟩, head, tail⟩
        exact ⟨⟨rfl, head⟩, tail⟩

/-- Sorting picks one representative of the values that are the same data. -/
theorem sortValue_eq_iff {v w : JsValue} (left : hasUniqueKeys v) (right : hasUniqueKeys w) :
    sortValue v = sortValue w ↔ SameData v w := by
  induction v generalizing w with
  | undefined | null | bool | num | str => cases w <;> simp [sortValue, SameData]
  | arr elements ih =>
    simp only [hasUniqueKeys, allUniqueKeys_iff] at left
    cases w with
    | arr others =>
      simp only [hasUniqueKeys, allUniqueKeys_iff] at right
      have all := sortElements_eq_iff (fun v member w => ih v member (w := w) (left v member)) right
      simp only [sortValue, sortElements_eq, JsValue.arr.injEq, all, SameData]
      exact ⟨fun same => ⟨others, rfl, same⟩, fun ⟨_, same, data⟩ => same ▸ data⟩
    | _ => simp [sortValue, SameData]
  | obj members ih =>
    simp only [hasUniqueKeys, allMembersUniqueKeys_iff] at left
    obtain ⟨unique, left⟩ := left
    cases w with
    | obj others =>
      simp only [hasUniqueKeys, allMembersUniqueKeys_iff] at right
      obtain ⟨otherUnique, right⟩ := right
      have all {reordered : List (JsString × JsValue)} (perm : reordered.Perm others) :=
        sortMembers_eq_iff (fun m member w => ih m member (w := w) (left m member))
          fun n member => right n (perm.mem_iff.mp member)
      simp only [sortValue, sortMembers_eq, JsValue.obj.injEq, SameData]
      constructor
      · intro same
        have perm : (members.map fun m => (m.1, sortValue m.2)).Perm
            (others.map fun n => (n.1, sortValue n.2)) := by
          have sorted := sortKeys_perm (members.map fun m => (m.1, sortValue m.2))
          rw [same] at sorted
          exact sorted.symm.trans (sortKeys_perm _)
        -- a permutation of the sorted members comes from one of the members
        obtain ⟨reordered, map, reorder⟩ :=
          (congrFun (congrFun (List.eq_map_comp_perm _) _) _).mpr perm
        exact ⟨others, reordered, rfl, reorder, (all reorder).mp map⟩
      · rintro ⟨_, reordered, rfl, reorder, data⟩
        rw [(all reorder).mpr data]
        exact sortKeys_eq_of_perm ((otherUnique.perm reorder.symm).map sortValue)
          (reorder.map _)
    | _ => simp [sortValue, SameData]

end NeuralMesh.Js
