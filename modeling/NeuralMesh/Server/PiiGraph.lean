import NeuralMesh.Server.PiiKeys
import Mathlib.Data.Finset.Card
import Mathlib.Data.Finset.Range

/-! The scan of an object graph. Objects are visited once, by identity; the set of visited objects
goes through all calls, and documents that are parsed on the way are new objects. -/
namespace NeuralMesh.Server

open Js

/-! ### Objects -/

/-- A scalar, or the address of an object. -/
inductive HeapValue where
  | undefined
  | null
  | bool (b : Bool)
  | num (n : JsNumber)
  | str (s : JsString)
  | ref (address : Nat)

inductive HeapObject where
  | array (elements : List HeapValue)
  | object (entries : List (JsString × HeapValue))

abbrev Heap := List HeapObject

namespace HeapObject

def values : HeapObject → List HeapValue
  | array elements => elements
  | object entries => entries.map (·.2)

def keys : HeapObject → List JsString
  | array _ => []
  | object entries => entries.map (·.1)

end HeapObject

mutual

/-- The new objects of a parsed value, its parts first. -/
def allocate : JsValue → Heap → HeapValue × Heap
  | .undefined, heap => (.undefined, heap)
  | .null, heap => (.null, heap)
  | .bool b, heap => (.bool b, heap)
  | .num n, heap => (.num n, heap)
  | .str s, heap => (.str s, heap)
  | .arr elements, heap =>
    let (values, heap) := allocateAll elements heap
    (.ref heap.length, heap ++ [.array values])
  | .obj members, heap =>
    let (entries, heap) := allocateMembers members heap
    (.ref heap.length, heap ++ [.object entries])

def allocateAll : List JsValue → Heap → List HeapValue × Heap
  | [], heap => ([], heap)
  | v :: vs, heap =>
    let (value, heap) := allocate v heap
    let (values, heap) := allocateAll vs heap
    (value :: values, heap)

def allocateMembers : List (JsString × JsValue) → Heap → List (JsString × HeapValue) × Heap
  | [], heap => ([], heap)
  | (k, v) :: ms, heap =>
    let (value, heap) := allocate v heap
    let (entries, heap) := allocateMembers ms heap
    ((k, value) :: entries, heap)

end

/-! ### The scan -/

/-- A loop that returns at the first result; `none` when a visit does not end. -/
def firstFound {S α β : Type} (visit : S → α → Option (Option β × S)) :
    S → List α → Option (Option β × S)
  | s, [] => some (none, s)
  | s, x :: xs =>
    match visit s x with
    | none => none
    | some (some found, s) => some (some found, s)
    | some (none, s) => firstFound visit s xs

structure ScanState where
  heap : Heap
  seen : List Nat

/-- `seen.add` -/
def ScanState.add (state : ScanState) (address : Nat) : ScanState :=
  { state with seen := address :: state.seen }

/-- The key of an entry is checked before its value is scanned. -/
def visitEntry (check : JsString → Option JsString)
    (visit : ScanState → HeapValue → Option (Option JsString × ScanState)) (state : ScanState)
    (entry : JsString × HeapValue) : Option (Option JsString × ScanState) :=
  match check entry.1 with
  | some violation => some (some violation, state)
  | none => visit state entry.2

namespace PiiScanner

variable (scanner : PiiScanner)

/-- The result and the state after the call, if it ends within a number of nested calls. -/
def scanGraph : Nat → ScanState → HeapValue → Option (Option JsString × ScanState)
  | 0, _, _ => none
  | fuel + 1, state, .str input =>
    match jsonDocument input with
    | some parsed =>
      let (value, heap) := allocate parsed state.heap
      match scanGraph fuel { state with heap := heap } value with
      | none => none
      | some (some violation, state) => some (some violation, state)
      | some (none, state) => some (scanner.checkString input, state)
    | none => some (scanner.checkString input, state)
  | fuel + 1, state, .ref address =>
    if address ∈ state.seen then some (none, state)
    else
      let state := state.add address
      match state.heap[address]? with
      | some (.array elements) => firstFound (scanGraph fuel) state elements
      | some (.object entries) =>
        firstFound (visitEntry scanner.checkKey (scanGraph fuel)) state entries
      | none => some (none, state)
  | _ + 1, state, _ => some (none, state)

end PiiScanner

namespace HeapObject

/-- What the loop over an object visits: elements are like entries whose keys are not checked. -/
def entries : HeapObject → List (JsString × HeapValue)
  | array elements => elements.map fun v => ([], v)
  | object entries => entries

def check (scanner : PiiScanner) : HeapObject → JsString → Option JsString
  | array _ => fun _ => none
  | object _ => scanner.checkKey

theorem mem_values {object : HeapObject} {v : HeapValue} :
    v ∈ object.values ↔ ∃ e ∈ object.entries, e.2 = v := by
  cases object with
  | array elements => simp [values, entries]
  | object entries' => simp [values, entries]

theorem check_ne_none {scanner : PiiScanner} {object : HeapObject} :
    (∃ key ∈ object.keys, scanner.checkKey key ≠ none) ↔
      ∃ e ∈ object.entries, object.check scanner e.1 ≠ none := by
  cases object with
  | array elements => simp [keys, check]
  | object entries' => simp [keys, check, entries]

end HeapObject

theorem firstFound_map {S α β γ : Type} {visit : S → β → Option (Option γ × S)} {f : α → β}
    {xs : List α} {s : S} :
    firstFound visit s (xs.map f) = firstFound (fun s x => visit s (f x)) s xs := by
  induction xs generalizing s with
  | nil => rfl
  | cons x xs ih =>
    rw [List.map_cons, firstFound, firstFound]
    split
    · rfl
    · rfl
    · exact ih

/-- The elements of an array are visited like entries whose keys are not checked. -/
theorem firstFound_elements {visit : ScanState → HeapValue → Option (Option JsString × ScanState)}
    {entries : List (JsString × HeapValue)} {state : ScanState} :
    firstFound visit state (entries.map (·.2)) =
      firstFound (visitEntry (fun _ => none) visit) state entries :=
  firstFound_map

theorem firstFound_array {scanner : PiiScanner}
    {visit : ScanState → HeapValue → Option (Option JsString × ScanState)}
    {elements : List HeapValue} {state : ScanState} :
    firstFound (visitEntry ((HeapObject.array elements).check scanner) visit) state
      (HeapObject.array elements).entries = firstFound visit state elements :=
  firstFound_map

theorem scanGraph_fresh {scanner : PiiScanner} {fuel address : Nat} {state : ScanState}
    (fresh : address ∉ state.seen) : scanner.scanGraph (fuel + 1) state (.ref address) =
      match state.heap[address]? with
      | some object => firstFound (visitEntry (object.check scanner) (scanner.scanGraph fuel))
          (state.add address) object.entries
      | none => some (none, state.add address) := by
  have added : (state.add address).heap = state.heap := rfl
  simp only [PiiScanner.scanGraph, if_neg fresh, added]
  cases state.heap[address]? with
  | none => rfl
  | some object =>
    cases object with
    | array elements => exact firstFound_array.symm
    | object entries => rfl

/-! ### Graphs -/

def HeapValue.Within (n : Nat) : HeapValue → Prop
  | .ref address => address < n
  | _ => True

/-- A finite object graph, whose references lead to its objects. -/
structure ObjectGraph where
  heap : Heap
  root : HeapValue
  root_within : root.Within heap.length
  values_within : ∀ object ∈ heap, ∀ v ∈ object.values, v.Within heap.length

/-- `Linked heap v w`: the graph leads from `v` to `w`, through elements and members. -/
inductive Linked (heap : Heap) : HeapValue → HeapValue → Prop where
  | self {v : HeapValue} : Linked heap v v
  | value {address : Nat} {object : HeapObject} {v w : HeapValue} :
      heap[address]? = some object → v ∈ object.values → Linked heap v w →
      Linked heap (.ref address) w

namespace PiiScanner

variable (scanner : PiiScanner)

/-- A forbidden key, or a string that is flagged. -/
def Flags : JsValue → Prop
  | .obj members => ∃ m ∈ members, scanner.checkKey m.1 ≠ none
  | .str s => scanner.checkString s ≠ none
  | _ => False

/-- Documents in a string are in the graph too. -/
def FlagsAt (heap : Heap) : HeapValue → Prop
  | .ref address => ∃ object, heap[address]? = some object ∧
      ∃ key ∈ object.keys, scanner.checkKey key ≠ none
  | .str s => ∃ p, Part p (.str s) ∧ scanner.Flags p
  | _ => False

def FlagsGraph (graph : ObjectGraph) : Prop :=
  ∃ w, Linked graph.heap graph.root w ∧ scanner.FlagsAt graph.heap w

end PiiScanner

/-! ### Parsed documents -/

theorem scan_eq_none_iff (scanner : PiiScanner) (v : JsValue) :
    scanner.scan v = none ↔ ∀ p, Part p v → ¬ scanner.Flags p := by
  constructor
  · intro clean p part flagged
    have here := scan_part part clean
    cases p with
    | str s =>
      cases found : jsonDocument s with
      | none => exact flagged (scan_text scanner found ▸ here)
      | some document =>
        rw [scan_document scanner found] at here
        exact flagged (Option.or_eq_none_iff.mp here).2
    | obj members =>
      obtain ⟨m, member, forbidden⟩ := flagged
      rw [scan_obj, List.findSome?_eq_none_iff] at here
      exact forbidden (Option.or_eq_none_iff.mp (here m member)).1
    | _ => exact flagged
  · intro clean
    induction v using induct_documents with
    | text s absent =>
      rw [scan_text scanner absent]
      exact not_not.mp (clean _ .self)
    | document s v found ih =>
      rw [scan_document scanner found, ih fun p part => clean p (.document found part),
        Option.none_or]
      exact not_not.mp (clean _ .self)
    | arr elements ih =>
      rw [scan_arr, List.findSome?_eq_none_iff]
      exact fun v member => ih v member fun p part => clean p (.element member part)
    | obj members ih =>
      rw [scan_obj, List.findSome?_eq_none_iff]
      intro m member
      rw [ih m member fun p part => clean p (.member member part), Option.or_none]
      by_contra forbidden
      exact clean _ .self ⟨m, member, forbidden⟩
    | _ => simp [PiiScanner.scan]

def unnamed (elements : List JsValue) : Members := elements.map fun v => ([], v)

theorem allocateAll_eq (elements : List JsValue) (heap : Heap) :
    allocateAll elements heap = ((allocateMembers (unnamed elements) heap).1.map (·.2),
      (allocateMembers (unnamed elements) heap).2) := by
  induction elements generalizing heap with
  | nil => rfl
  | cons v vs ih =>
    simp only [allocateAll, ih, unnamed, List.map_cons, allocateMembers]

theorem allocateMembers_extends {members : Members}
    (each : ∀ m ∈ members, ∀ heap, heap <+: (allocate m.2 heap).2) (heap : Heap) :
    heap <+: (allocateMembers members heap).2 := by
  induction members generalizing heap with
  | nil => exact List.prefix_rfl
  | cons m members ih =>
    have first := each m List.mem_cons_self heap
    have rest := ih (fun m member => each m (List.mem_cons_of_mem _ member)) (allocate m.2 heap).2
    exact first.trans rest

theorem allocate_extends (v : JsValue) (heap : Heap) : heap <+: (allocate v heap).2 := by
  induction v generalizing heap with
  | arr elements ih =>
    rw [allocate, allocateAll_eq]
    refine (allocateMembers_extends ?_ heap).trans (List.prefix_append _ _)
    rintro _ mapped
    obtain ⟨v, member, rfl⟩ := List.mem_map.mp mapped
    exact ih v member
  | obj members ih =>
    rw [allocate]
    exact (allocateMembers_extends ih heap).trans (List.prefix_append _ _)
  | _ => exact List.prefix_rfl

/-- Visited objects exist. -/
def ScanState.Bounded (state : ScanState) : Prop := ∀ a ∈ state.seen, a < state.heap.length

/-- A step of the scan: new objects are added, and more are visited: some of a range of addresses,
and new ones. -/
structure Grows (lo hi : Nat) (before after : ScanState) : Prop where
  heap : before.heap <+: after.heap
  kept : ∀ a ∈ before.seen, a ∈ after.seen
  new : ∀ a ∈ after.seen, a ∈ before.seen ∨ (lo ≤ a ∧ a < hi) ∨ before.heap.length ≤ a
  bounded : after.Bounded

theorem Grows.refl {lo hi : Nat} {state : ScanState} (bounded : state.Bounded) :
    Grows lo hi state state :=
  ⟨List.prefix_rfl, fun _ seen => seen, fun _ seen => .inl seen, bounded⟩

theorem Grows.trans {lo mid hi : Nat} {first second third : ScanState} (lower : lo ≤ mid)
    (upper : mid ≤ hi) (one : Grows lo mid first second) (two : Grows mid hi second third) :
    Grows lo hi first third where
  heap := one.heap.trans two.heap
  kept a seen := two.kept a (one.kept a seen)
  new a seen := by
    have longer := one.heap.length_le
    rcases two.new a seen with before | inside | late
    · rcases one.new a before with before | inside | late
      · exact .inl before
      · exact .inr (.inl ⟨inside.1, by omega⟩)
      · exact .inr (.inr late)
    · exact .inr (.inl ⟨by omega, inside.2⟩)
    · exact .inr (.inr (by omega))
  bounded := two.bounded

/-- What a visit of an allocated value does: the scan of the value, on unvisited objects. -/
def VisitsAs (scanner : PiiScanner) (v : JsValue) : Prop :=
  ∀ fuel state heap, weight v ≤ fuel → (allocate v heap).2 <+: state.heap → state.Bounded →
    (∀ a ∈ state.seen, a < heap.length ∨ (allocate v heap).2.length ≤ a) →
    ∃ after, scanner.scanGraph fuel state (allocate v heap).1 = some (scanner.scan v, after) ∧
      Grows heap.length (allocate v heap).2.length state after

theorem visitEntries {scanner : PiiScanner} {members : Members} (check : JsString → Option JsString)
    (each : ∀ m ∈ members, VisitsAs scanner m.2) {fuel : Nat} {state : ScanState} {heap : Heap}
    (enough : memberWeights members ≤ fuel)
    (within : (allocateMembers members heap).2 <+: state.heap) (bounded : state.Bounded)
    (unseen : ∀ a ∈ state.seen, a < heap.length ∨ (allocateMembers members heap).2.length ≤ a) :
    ∃ after, firstFound (visitEntry check (scanner.scanGraph fuel)) state
        (allocateMembers members heap).1 =
          some (members.findSome? fun m => (check m.1).or (scanner.scan m.2), after) ∧
      Grows heap.length (allocateMembers members heap).2.length state after := by
  induction members generalizing state heap with
  | nil => exact ⟨state, rfl, .refl bounded⟩
  | cons m members ih =>
    obtain ⟨k, v⟩ := m
    rw [memberWeights] at enough
    have rest : (allocate v heap).2 <+: (allocateMembers members (allocate v heap).2).2 :=
      allocateMembers_extends (fun m _ => allocate_extends m.2) _
    have lower := (allocate_extends v heap).length_le
    have upper := rest.length_le
    have room := within.length_le
    simp only [allocateMembers] at within unseen room ⊢
    rw [firstFound, visitEntry, List.findSome?_cons]
    cases check k with
    | some violation => exact ⟨state, rfl, .refl bounded⟩
    | none =>
      obtain ⟨after, visited, grows⟩ := each (k, v) List.mem_cons_self fuel state heap
        (Nat.le_trans (Nat.le_add_right _ _) enough) (rest.trans within) bounded
        fun a seen => (unseen a seen).imp_right upper.trans
      dsimp only
      rw [visited, Option.none_or]
      cases scanner.scan v with
      | some violation => exact ⟨after, rfl, grows.trans lower upper (.refl grows.bounded)⟩
      | none =>
        have later : ∀ a ∈ after.seen, a < (allocate v heap).2.length ∨
            (allocateMembers members (allocate v heap).2).2.length ≤ a := by
          intro a seen
          rcases grows.new a seen with before | inside | late
          · exact (unseen a before).imp_left fun below => Nat.lt_of_lt_of_le below lower
          · exact .inl inside.2
          · exact .inr (room.trans late)
        obtain ⟨final, done, more⟩ := ih
          (fun m member => each m (List.mem_cons_of_mem _ member)) (by omega)
          (within.trans grows.heap) grows.bounded later
        exact ⟨final, done, grows.trans lower upper more⟩

/-- The object at an address that has just been added. -/
theorem getElem_allocated {heap later : Heap} {object : HeapObject}
    (within : heap ++ [object] <+: later) : later[heap.length]? = some object := by
  obtain ⟨rest, rfl⟩ := within
  simp

/-- The visit of the new object of a document. -/
theorem visitContainer {scanner : PiiScanner} {members : Members}
    (check : JsString → Option JsString) (each : ∀ m ∈ members, VisitsAs scanner m.2) {fuel : Nat}
    {state : ScanState} {heap : Heap} {object : HeapObject} (enough : memberWeights members ≤ fuel)
    (within : (allocateMembers members heap).2 ++ [object] <+: state.heap)
    (bounded : state.Bounded)
    (unseen : ∀ a ∈ state.seen, a < heap.length ∨
      ((allocateMembers members heap).2 ++ [object]).length ≤ a) :
    (allocateMembers members heap).2.length ∉ state.seen ∧
    state.heap[(allocateMembers members heap).2.length]? = some object ∧
    ∃ after, firstFound (visitEntry check (scanner.scanGraph fuel))
        (state.add (allocateMembers members heap).2.length) (allocateMembers members heap).1 =
          some (members.findSome? fun m => (check m.1).or (scanner.scan m.2), after) ∧
      Grows heap.length ((allocateMembers members heap).2 ++ [object]).length state after := by
  have lower : heap.length ≤ (allocateMembers members heap).2.length :=
    (allocateMembers_extends (fun m _ => allocate_extends m.2) heap).length_le
  have room := within.length_le
  have inner : (allocateMembers members heap).2 <+:
      (state.add (allocateMembers members heap).2.length).heap :=
    (List.prefix_append _ _).trans within
  rw [List.length_append, List.length_singleton] at unseen room ⊢
  have marked : (state.add (allocateMembers members heap).2.length).Bounded := by
    intro b seen
    rcases List.mem_cons.mp seen with rfl | before
    · exact room
    · exact bounded b before
  have away : ∀ b ∈ (state.add (allocateMembers members heap).2.length).seen,
      b < heap.length ∨ (allocateMembers members heap).2.length ≤ b := by
    intro b seen
    rcases List.mem_cons.mp seen with rfl | before
    · exact .inr (Nat.le_refl _)
    · exact (unseen b before).imp_right fun above => Nat.le_of_succ_le above
  obtain ⟨after, visited, grows⟩ := visitEntries check each enough inner marked away
  refine ⟨?_, getElem_allocated within, after, visited, ?_⟩
  · intro seen
    have apart := unseen _ seen
    omega
  · refine ⟨grows.heap, fun b seen => grows.kept b (List.mem_cons_of_mem _ seen), ?_,
      grows.bounded⟩
    intro b seen
    rcases grows.new b seen with before | inside | late
    · rcases List.mem_cons.mp before with rfl | before
      · exact .inr (.inl ⟨lower, Nat.lt_succ_self _⟩)
      · exact .inl before
    · exact .inr (.inl ⟨inside.1, Nat.lt_succ_of_lt inside.2⟩)
    · exact .inr (.inr late)

theorem memberWeights_unnamed (elements : List JsValue) :
    memberWeights (unnamed elements) = weights elements := by
  induction elements with
  | nil => rfl
  | cons v vs ih => rw [unnamed, List.map_cons, memberWeights, weights, ← unnamed, ih]

theorem visitsAs (scanner : PiiScanner) (v : JsValue) : VisitsAs scanner v := by
  induction v using induct_documents with
  | text s absent =>
    intro fuel state heap enough within bounded unseen
    cases fuel with
    | zero => cases enough
    | succ fuel =>
      refine ⟨state, ?_, .refl bounded⟩
      rw [allocate, PiiScanner.scanGraph, absent, scan_text scanner absent]
  | document s v found ih =>
    intro fuel state heap enough within bounded unseen
    cases fuel with
    | zero => cases enough
    | succ fuel =>
      have lighter := jsonDocument_weight found
      have longer := allocate_extends v state.heap
      obtain ⟨after, visited, grows⟩ := ih fuel { state with heap := (allocate v state.heap).2 }
        state.heap (by omega) List.prefix_rfl
        (fun a seen => Nat.lt_of_lt_of_le (bounded a seen) longer.length_le)
        fun a seen => .inl (bounded a seen)
      have grown : Grows heap.length heap.length state after := by
        refine ⟨longer.trans grows.heap, grows.kept, fun a seen => ?_, grows.bounded⟩
        rcases grows.new a seen with before | inside | late
        · exact .inl before
        · exact .inr (.inr inside.1)
        · exact .inr (.inr (longer.length_le.trans late))
      refine ⟨after, ?_, grown⟩
      rw [allocate, PiiScanner.scanGraph, found, scan_document scanner found]
      dsimp only
      rw [visited]
      cases scanner.scan v with
      | none => rfl
      | some violation => rfl
  | arr elements ih =>
    intro fuel state heap enough within bounded unseen
    cases fuel with
    | zero => simp [weight] at enough
    | succ fuel =>
      have lighter : memberWeights (unnamed elements) ≤ fuel := by
        rw [weight] at enough
        rw [memberWeights_unnamed]
        omega
      have each : ∀ m ∈ unnamed elements, VisitsAs scanner m.2 := by
        rintro _ mapped
        obtain ⟨v, member, rfl⟩ := List.mem_map.mp mapped
        exact ih v member
      rw [allocate, allocateAll_eq] at within unseen ⊢
      obtain ⟨fresh, here, after, visited, grows⟩ := visitContainer (fun _ => none) each lighter
        within bounded unseen
      refine ⟨after, ?_, grows⟩
      dsimp only
      rw [scanGraph_fresh fresh, here, scan_arr]
      dsimp only
      rw [firstFound_array, firstFound_elements, visited, unnamed, List.findSome?_map]
      rfl
  | obj members ih =>
    intro fuel state heap enough within bounded unseen
    cases fuel with
    | zero => simp [weight] at enough
    | succ fuel =>
      have lighter : memberWeights members ≤ fuel := by
        rw [weight] at enough
        omega
      rw [allocate] at within unseen ⊢
      obtain ⟨fresh, here, after, visited, grows⟩ := visitContainer scanner.checkKey ih lighter
        within bounded unseen
      refine ⟨after, ?_, grows⟩
      dsimp only
      rw [scanGraph_fresh fresh, here, scan_obj]
      exact visited
  | _ =>
    intro fuel state heap enough within bounded unseen
    cases fuel with
    | zero => cases enough
    | succ fuel =>
      refine ⟨state, ?_, .refl bounded⟩
      rw [allocate, PiiScanner.scanGraph, PiiScanner.scan] <;> simp

/-! ### More nested calls -/

theorem firstFound_imp {S α β : Type} {visit more : S → α → Option (Option β × S)}
    (implies : ∀ s x r, visit s x = some r → more s x = some r) {xs : List α} {s : S}
    {r : Option β × S} (found : firstFound visit s xs = some r) : firstFound more s xs = some r := by
  induction xs generalizing s with
  | nil => exact found
  | cons x xs ih =>
    rw [firstFound] at found ⊢
    cases visited : visit s x with
    | none =>
      rw [visited] at found
      cases found
    | some pair =>
      rw [implies s x pair visited]
      rw [visited] at found
      obtain ⟨_ | result, after⟩ := pair
      · exact ih found
      · exact found

/-- A scan that ends within a number of nested calls ends within more. -/
theorem scanGraph_succ {scanner : PiiScanner} {fuel : Nat} {state : ScanState} {v : HeapValue}
    {r : Option JsString × ScanState} (ends : scanner.scanGraph fuel state v = some r) :
    scanner.scanGraph (fuel + 1) state v = some r := by
  induction fuel generalizing state v r with
  | zero => cases ends
  | succ fuel ih =>
    cases v with
    | str s =>
      rw [PiiScanner.scanGraph] at ends ⊢
      cases found : jsonDocument s with
      | none => rwa [found] at ends
      | some parsed =>
        rw [found] at ends
        dsimp only at ends ⊢
        cases visited : scanner.scanGraph fuel { state with heap := (allocate parsed state.heap).2 }
            (allocate parsed state.heap).1 with
        | none =>
          rw [visited] at ends
          cases ends
        | some pair =>
          rw [ih visited]
          rwa [visited] at ends
    | ref address =>
      by_cases fresh : address ∈ state.seen
      · rwa [PiiScanner.scanGraph, if_pos fresh] at ends ⊢
      · rw [scanGraph_fresh fresh] at ends ⊢
        split at ends
        · refine firstFound_imp (fun state entry r visited => ?_) ends
          rw [visitEntry] at visited ⊢
          split at visited
          · exact visited
          · exact ih visited
        · exact ends
    | _ => rwa [PiiScanner.scanGraph] at ends ⊢ <;> simp

theorem scanGraph_le {scanner : PiiScanner} {fuel more : Nat} {state : ScanState} {v : HeapValue}
    {r : Option JsString × ScanState} (ends : scanner.scanGraph fuel state v = some r)
    (enough : fuel ≤ more) : scanner.scanGraph more state v = some r := by
  induction enough with
  | refl => exact ends
  | step _ ih => exact scanGraph_succ ih

/-! ### Visited parts are clean -/

/-- The objects of the heap that are not visited. -/
def unvisited (heap : Heap) (seen : List Nat) : Finset Nat :=
  (Finset.range heap.length).filter (· ∉ seen)

theorem unvisited_mono {heap : Heap} {seen later : List Nat} (kept : seen ⊆ later) :
    (unvisited heap later).card ≤ (unvisited heap seen).card := by
  apply Finset.card_le_card
  intro a member
  rw [unvisited, Finset.mem_filter] at member ⊢
  exact ⟨member.1, fun before => member.2 (kept before)⟩

theorem unvisited_cons {heap : Heap} {seen : List Nat} {a : Nat} (inside : a < heap.length)
    (fresh : a ∉ seen) : (unvisited heap (a :: seen)).card < (unvisited heap seen).card := by
  apply Finset.card_lt_card
  refine ⟨?_, fun reverse => ?_⟩
  · intro b member
    rw [unvisited, Finset.mem_filter] at member ⊢
    exact ⟨member.1, fun before => member.2 (List.mem_cons_of_mem _ before)⟩
  · have here : a ∈ unvisited heap seen := by
      rw [unvisited, Finset.mem_filter, Finset.mem_range]
      exact ⟨inside, fresh⟩
    have gone := reverse here
    rw [unvisited, Finset.mem_filter] at gone
    exact gone.2 List.mem_cons_self

/-- Nothing below the value is flagged, provided that the visited objects are clean. -/
def Covered (scanner : PiiScanner) (seen : List Nat) : HeapValue → Prop
  | .ref address => address ∈ seen
  | .str s => scanner.scan (.str s) = none
  | _ => True

def CleanAt (scanner : PiiScanner) (heap : Heap) (seen : List Nat) (address : Nat) : Prop :=
  ∀ object, heap[address]? = some object → ∀ e ∈ object.entries,
    object.check scanner e.1 = none ∧ Covered scanner seen e.2

/-- What the value leads to in the graph is flagged. -/
def LeadsToFlagged (scanner : PiiScanner) (heap : Heap) (v : HeapValue) : Prop :=
  ∃ w, Linked heap v w ∧ scanner.FlagsAt heap w

/-- What a call has found out about the heap: objects visited in it without a result are clean. -/
structure Explores (scanner : PiiScanner) (heap : Heap) (covered : List Nat → Prop) (flagged : Prop)
    (before : ScanState) (result : Option JsString) (after : ScanState) : Prop where
  grown : heap <+: after.heap
  kept : before.seen ⊆ after.seen
  bounded : after.Bounded
  covered : result = none → covered after.seen
  clean : result = none → ∀ a ∈ after.seen, a < heap.length →
    a ∈ before.seen ∨ CleanAt scanner heap after.seen a
  flagged : result ≠ none → flagged

theorem Covered.mono {scanner : PiiScanner} {seen later : List Nat} {v : HeapValue}
    (kept : seen ⊆ later) (covered : Covered scanner seen v) : Covered scanner later v := by
  cases v with
  | ref address => exact kept covered
  | _ => exact covered

theorem CleanAt.mono {scanner : PiiScanner} {heap : Heap} {seen later : List Nat} {a : Nat}
    (kept : seen ⊆ later) (clean : CleanAt scanner heap seen a) : CleanAt scanner heap later a :=
  fun object here e member =>
    ⟨(clean object here e member).1, (clean object here e member).2.mono kept⟩

/-- The state has the heap, and enough nested calls are left for its unvisited objects. -/
structure Ready (heap : Heap) (room fuel : Nat) (state : ScanState) : Prop where
  grown : heap <+: state.heap
  bounded : state.Bounded
  enough : (unvisited heap state.seen).card + room < fuel

theorem exploresEntries {scanner : PiiScanner} {heap : Heap} {room fuel : Nat}
    (check : JsString → Option JsString) {entries : List (JsString × HeapValue)}
    (each : ∀ e ∈ entries, ∀ state, Ready heap room fuel state →
      ∃ result after, scanner.scanGraph fuel state e.2 = some (result, after) ∧
        Explores scanner heap (fun seen => Covered scanner seen e.2)
          (LeadsToFlagged scanner heap e.2) state result after)
    {state : ScanState} (ready : Ready heap room fuel state) :
    ∃ result after, firstFound (visitEntry check (scanner.scanGraph fuel)) state entries =
        some (result, after) ∧
      Explores scanner heap
        (fun seen => ∀ e ∈ entries, check e.1 = none ∧ Covered scanner seen e.2)
        (∃ e ∈ entries, check e.1 ≠ none ∨ LeadsToFlagged scanner heap e.2) state result after := by
  induction entries generalizing state with
  | nil =>
    refine ⟨none, state, rfl, ready.grown, List.Subset.refl _, ready.bounded, ?_, ?_, ?_⟩
    · exact fun _ e member => nomatch member
    · exact fun _ a seen _ => .inl seen
    · exact fun found => absurd rfl found
  | cons e entries ih =>
    rw [firstFound, visitEntry]
    cases checked : check e.1 with
    | some violation =>
      refine ⟨some violation, state, rfl, ready.grown, List.Subset.refl _, ready.bounded, ?_, ?_, ?_⟩
      · intro none'
        cases none'
      · intro none'
        cases none'
      · intro _
        refine ⟨e, List.mem_cons_self, .inl ?_⟩
        rw [checked]
        exact Option.some_ne_none _
    | none =>
      obtain ⟨result, after, visited, first⟩ := each e List.mem_cons_self state ready
      dsimp only
      rw [visited]
      cases result with
      | some violation =>
        refine ⟨some violation, after, rfl, first.grown, first.kept, first.bounded, ?_, ?_, ?_⟩
        · intro none'
          cases none'
        · intro none'
          cases none'
        · exact fun found => ⟨e, List.mem_cons_self, .inr (first.flagged found)⟩
      | none =>
        have smaller := @unvisited_mono heap _ _ first.kept
        have again : Ready heap room fuel after :=
          ⟨first.grown, first.bounded, by have enough := ready.enough; omega⟩
        obtain ⟨result, final, done, rest⟩ :=
          ih (fun e member => each e (List.mem_cons_of_mem _ member)) again
        refine ⟨result, final, done, rest.grown, List.Subset.trans first.kept rest.kept, rest.bounded,
          ?_, ?_, ?_⟩
        · intro nothing e' member
          rcases List.mem_cons.mp member with rfl | later
          · exact ⟨checked, (first.covered rfl).mono rest.kept⟩
          · exact rest.covered nothing e' later
        · intro nothing a seen inside
          rcases rest.clean nothing a seen inside with before | clean
          · exact (first.clean rfl a before inside).imp_right (·.mono rest.kept)
          · exact .inr clean
        · intro found
          obtain ⟨e', member, flagged⟩ := rest.flagged found
          exact ⟨e', List.mem_cons_of_mem _ member, flagged⟩

def HeapValue.Fits (n room : Nat) : HeapValue → Prop
  | .ref address => address < n
  | .str s => weight (.str s) ≤ room
  | _ => True

/-- A visit that comes to nothing new. -/
theorem Explores.nothing {scanner : PiiScanner} {heap : Heap} {room fuel : Nat} {state : ScanState}
    {v : HeapValue} (ready : Ready heap room fuel state) (covered : Covered scanner state.seen v) :
    Explores scanner heap (fun seen => Covered scanner seen v) (LeadsToFlagged scanner heap v) state
      none state :=
  ⟨ready.grown, List.Subset.refl _, ready.bounded, fun _ => covered, fun _ _ seen _ => .inl seen,
    fun found => absurd rfl found⟩

/-- The visit of an object, from the visits of its entries. -/
theorem Explores.object {scanner : PiiScanner} {heap : Heap} {state after : ScanState}
    {address : Nat} {object : HeapObject} {result : Option JsString}
    (here : heap[address]? = some object)
    (entries : Explores scanner heap
      (fun seen => ∀ e ∈ object.entries, object.check scanner e.1 = none ∧
        Covered scanner seen e.2)
      (∃ e ∈ object.entries, object.check scanner e.1 ≠ none ∨ LeadsToFlagged scanner heap e.2)
      (state.add address) result after) :
    Explores scanner heap (fun seen => Covered scanner seen (.ref address))
      (LeadsToFlagged scanner heap (.ref address)) state result after where
  grown := entries.grown
  kept := fun a seen => entries.kept (List.mem_cons_of_mem _ seen)
  bounded := entries.bounded
  covered := fun _ => entries.kept List.mem_cons_self
  clean := by
    intro nothing a seen inside
    rcases entries.clean nothing a seen inside with before | clean
    · rcases List.mem_cons.mp before with rfl | before
      · right
        intro other same e member
        obtain rfl := Option.some.inj (here.symm.trans same)
        exact entries.covered nothing e member
      · exact .inl before
    · exact .inr clean
  flagged := by
    intro found
    obtain ⟨e, member, forbidden | ⟨w, linked, flagged⟩⟩ := entries.flagged found
    · exact ⟨_, .self, object, here, HeapObject.check_ne_none.mpr ⟨e, member, forbidden⟩⟩
    · exact ⟨w, .value here (HeapObject.mem_values.mpr ⟨e, member, rfl⟩) linked, flagged⟩

theorem explores {scanner : PiiScanner} {heap : Heap} {room : Nat}
    (fits : ∀ object ∈ heap, ∀ v ∈ object.values, v.Fits heap.length room) {fuel : Nat}
    {state : ScanState} {v : HeapValue} (fit : v.Fits heap.length room)
    (ready : Ready heap room fuel state) :
    ∃ result after, scanner.scanGraph fuel state v = some (result, after) ∧
      Explores scanner heap (fun seen => Covered scanner seen v) (LeadsToFlagged scanner heap v)
        state result after := by
  induction fuel generalizing state v with
  | zero => exact absurd ready.enough (Nat.not_lt_zero _)
  | succ fuel ih =>
    cases v with
    | str s =>
      have room' : weight (.str s) ≤ fuel + 1 := by
        have enough := ready.enough
        rw [HeapValue.Fits] at fit
        omega
      obtain ⟨after, visited, grows⟩ := visitsAs scanner (.str s) (fuel + 1) state [] room'
        List.nil_prefix ready.bounded fun a _ => .inr (Nat.zero_le a)
      refine ⟨_, after, visited, ready.grown.trans grows.heap, grows.kept, grows.bounded,
        id, ?_, ?_⟩
      · intro _ a seen inside
        rcases grows.new a seen with before | range | late
        · exact .inl before
        · exact absurd range.2 (Nat.not_lt_zero a)
        · exact absurd (Nat.lt_of_lt_of_le inside ready.grown.length_le) (Nat.not_lt.mpr late)
      · intro found
        rw [Ne, scan_eq_none_iff] at found
        push Not at found
        exact ⟨_, .self, found⟩
    | ref address =>
      by_cases fresh : address ∈ state.seen
      · refine ⟨none, state, ?_, .nothing ready fresh⟩
        rw [PiiScanner.scanGraph, if_pos fresh]
      · have inside : address < heap.length := fit
        have here : heap[address]? = some heap[address] := List.getElem?_eq_getElem inside
        have still : state.heap[address]? = some heap[address] := by
          obtain ⟨rest, same⟩ := ready.grown
          rw [← same, List.getElem?_append_left inside, here]
        have next : Ready heap room fuel (state.add address) := by
          refine ⟨ready.grown, ?_, ?_⟩
          · intro a seen
            rcases List.mem_cons.mp seen with rfl | before
            · exact Nat.lt_of_lt_of_le inside ready.grown.length_le
            · exact ready.bounded a before
          · have enough := ready.enough
            have fewer := unvisited_cons inside fresh
            change (unvisited heap (address :: state.seen)).card + room < fuel
            omega
        obtain ⟨result, after, visited, entries⟩ := exploresEntries
          (heap[address].check scanner) (fun e member state ready => ih (fits heap[address]
            (List.getElem_mem inside) e.2 (HeapObject.mem_values.mpr ⟨e, member, rfl⟩)) ready) next
        refine ⟨result, after, ?_, .object here entries⟩
        rw [scanGraph_fresh fresh, still]
        exact visited
    | _ => exact ⟨none, state, by simp [PiiScanner.scanGraph], .nothing ready trivial⟩

/-! ### The scan of a graph -/

theorem HeapValue.Fits.mono {n room more : Nat} {v : HeapValue} (fits : v.Fits n room)
    (larger : room ≤ more) : v.Fits n more := by
  cases v with
  | str s => exact Nat.le_trans fits larger
  | _ => exact fits

namespace ObjectGraph

variable (graph : ObjectGraph)

def values : List HeapValue := graph.root :: graph.heap.flatMap (·.values)

/-- The strings of the graph have a common bound. -/
theorem fits : ∃ room, ∀ v ∈ graph.values, v.Fits graph.heap.length room := by
  have within : ∀ v ∈ graph.values, v.Within graph.heap.length := by
    intro v member
    rcases List.mem_cons.mp member with rfl | inner
    · exact graph.root_within
    · obtain ⟨object, stored, inside⟩ := List.mem_flatMap.mp inner
      exact graph.values_within object stored v inside
  generalize graph.values = values at within
  induction values with
  | nil => exact ⟨0, fun v member => nomatch member⟩
  | cons v values ih =>
    obtain ⟨room, rest⟩ := ih fun w member => within w (List.mem_cons_of_mem _ member)
    obtain ⟨own, fits⟩ : ∃ own, v.Fits graph.heap.length own := by
      cases v with
      | str s => exact ⟨_, Nat.le_refl _⟩
      | ref address => exact ⟨0, within _ List.mem_cons_self⟩
      | _ => exact ⟨0, trivial⟩
    refine ⟨own + room, fun w member => ?_⟩
    rcases List.mem_cons.mp member with rfl | later
    · exact fits.mono (Nat.le_add_right _ _)
    · exact (rest w later).mono (Nat.le_add_left _ _)

end ObjectGraph

/-- Everything that a covered value leads to is covered, once every visited object is clean. -/
theorem covered_linked {scanner : PiiScanner} {graph : ObjectGraph} {seen : List Nat}
    (clean : ∀ a ∈ seen, a < graph.heap.length → CleanAt scanner graph.heap seen a)
    {v w : HeapValue} (linked : Linked graph.heap v w) (covered : Covered scanner seen v) :
    Covered scanner seen w := by
  induction linked with
  | self => exact covered
  | @value address object v w here member _ ih =>
    obtain ⟨inside, -⟩ := List.getElem?_eq_some_iff.mp here
    obtain ⟨e, entry, rfl⟩ := HeapObject.mem_values.mp member
    exact ih (clean address covered inside object here e entry).2

theorem not_flagged {scanner : PiiScanner} {graph : ObjectGraph} {seen : List Nat}
    (clean : ∀ a ∈ seen, a < graph.heap.length → CleanAt scanner graph.heap seen a)
    {w : HeapValue} (covered : Covered scanner seen w) : ¬ scanner.FlagsAt graph.heap w := by
  intro flagged
  cases w with
  | ref address =>
    obtain ⟨object, here, forbidden⟩ := flagged
    obtain ⟨inside, -⟩ := List.getElem?_eq_some_iff.mp here
    obtain ⟨e, entry, forbidden⟩ := HeapObject.check_ne_none.mp forbidden
    exact forbidden (clean address covered inside object here e entry).1
  | str s =>
    obtain ⟨p, part, flagged⟩ := flagged
    exact (scan_eq_none_iff scanner _).mp covered p part flagged
  | _ => exact flagged

/-- The scan of a finite graph ends, and returns `null` exactly if nothing that the graph leads to
has a forbidden key or is flagged. -/
theorem scanGraph_exact (text : TextFunctions) (forbiddenKeys : List JsString)
    (checkString : JsString → Option JsString) (graph : ObjectGraph) :
    ∃ fuel result after, (∀ more ≥ fuel, (text.piiScanner forbiddenKeys checkString).scanGraph more
        ⟨graph.heap, []⟩ graph.root = some (result, after)) ∧
      (result = none ↔ ¬ (text.piiScanner forbiddenKeys checkString).FlagsGraph graph) := by
  generalize text.piiScanner forbiddenKeys checkString = scanner
  obtain ⟨room, fits⟩ := graph.fits
  have stored : ∀ object ∈ graph.heap, ∀ v ∈ object.values, v.Fits graph.heap.length room :=
    fun object member v inside =>
      fits v (List.mem_cons_of_mem _ (List.mem_flatMap.mpr ⟨object, member, inside⟩))
  have ready : Ready graph.heap room ((unvisited graph.heap []).card + room + 1) ⟨graph.heap, []⟩ :=
    ⟨List.prefix_rfl, fun _ seen => absurd seen List.not_mem_nil, Nat.lt_succ_self _⟩
  obtain ⟨result, after, ends, explored⟩ := explores stored (fits _ List.mem_cons_self) ready
  refine ⟨_, result, after, fun more enough => scanGraph_le ends enough, ?_⟩
  constructor
  · rintro nothing ⟨w, linked, flagged⟩
    have clean : ∀ a ∈ after.seen, a < graph.heap.length →
        CleanAt scanner graph.heap after.seen a :=
      fun a seen inside => (explored.clean nothing a seen inside).resolve_left List.not_mem_nil
    exact not_flagged clean (covered_linked clean linked (explored.covered nothing)) flagged
  · intro unflagged
    by_contra found
    exact unflagged (explored.flagged found)

end NeuralMesh.Server
