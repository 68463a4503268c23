import NeuralMesh.Js.RoundTrip

/-! Values with identity: the unfolded tree of an acyclic object graph, in which a
label marks the places of one container. Cyclic graphs have no JSON text and are
left out. -/
namespace NeuralMesh.Js

inductive Scalar where
  | undefined
  | null
  | bool (value : Bool)
  | str (value : JsString)

def Scalar.value : Scalar → JsValue
  | undefined => .undefined
  | null => .null
  | bool b => .bool b
  | str s => .str s

inductive Node where
  | scalar (value : Scalar)
  | num (value : JsNumber)
  /-- An array or an object; a container without a label is in one place only. The
  keys of an array's entries are not used. -/
  | branch (label : Option Nat) (array : Bool) (entries : List (JsString × Node))

abbrev Entries := List (JsString × Node)

namespace Node

/-- One property for nodes and one for lists of entries. -/
theorem induct {P : Node → Prop} {Q : Entries → Prop} (scalar : ∀ s, P (.scalar s))
    (num : ∀ n, P (.num n)) (branch : ∀ label array entries, Q entries → P (.branch label array entries))
    (nil : Q []) (cons : ∀ k v entries, P v → Q entries → Q ((k, v) :: entries)) :
    (∀ x, P x) ∧ ∀ entries, Q entries := by
  have node (x : Node) : P x :=
    Node.rec (motive_1 := P) (motive_2 := Q) (motive_3 := fun e => P e.2) scalar num branch nil
      (fun e entries first rest => cons e.1 e.2 entries first rest) (fun _ _ ih => ih) x
  refine ⟨node, ?_⟩
  intro entries
  induction entries with
  | nil => exact nil
  | cons e entries ih => exact cons e.1 e.2 entries (node e.2) ih

mutual

/-- The value without identities. -/
def value : Node → JsValue
  | scalar s => s.value
  | num n => .num n
  | branch _ true entries => .arr (elementValues entries)
  | branch _ false entries => .obj (memberValues entries)

def elementValues : Entries → List JsValue
  | [] => []
  | (_, v) :: entries => v.value :: elementValues entries

def memberValues : Entries → List (JsString × JsValue)
  | [] => []
  | (k, v) :: entries => (k, v.value) :: memberValues entries

end

mutual

def labels : Node → List Nat
  | branch label _ entries => label.toList ++ entryLabels entries
  | _ => []

def entryLabels : Entries → List Nat
  | [] => []
  | (_, v) :: entries => v.labels ++ entryLabels entries

end

end Node

/-- `Within o x`: the node `o` occurs in `x`. -/
inductive Within (o : Node) : Node → Prop where
  | self : Within o o
  | entry {label : Option Nat} {array : Bool} {entries : Entries} {k : JsString} {v : Node} :
      (k, v) ∈ entries → Within o v → Within o (.branch label array entries)

theorem Within.trans {a b c : Node} (inner : Within a b) (outer : Within b c) : Within a c := by
  induction outer with
  | self => exact inner
  | entry member _ ih => exact .entry member ih

theorem entry_size {k : JsString} {v : Node} {entries : Entries} (member : (k, v) ∈ entries)
    (label : Option Nat) (array : Bool) : sizeOf v < sizeOf (Node.branch label array entries) := by
  have inList := List.sizeOf_lt_of_mem member
  simp only [Prod.mk.sizeOf_spec, Node.branch.sizeOf_spec] at *
  omega

theorem Within.size {o x : Node} (within : Within o x) : sizeOf o ≤ sizeOf x := by
  induction within with
  | self => exact le_refl _
  | @entry label array entries k v member _ ih =>
    exact le_of_lt (lt_of_le_of_lt ih (entry_size member label array))

/-- The label `l` is on the container `o`. -/
def HasLabel (l : Nat) (o : Node) : Prop := ∃ array entries, o = .branch (some l) array entries

theorem mem_entryLabels {l : Nat} {entries : Entries} :
    l ∈ Node.entryLabels entries ↔ ∃ k v, (k, v) ∈ entries ∧ l ∈ v.labels := by
  induction entries with
  | nil => simp [Node.entryLabels]
  | cons e entries ih =>
    obtain ⟨k, v⟩ := e
    rw [Node.entryLabels, List.mem_append, ih]
    constructor
    · rintro (here | ⟨k', v', member, there⟩)
      · exact ⟨k, v, List.mem_cons_self, here⟩
      · exact ⟨k', v', List.mem_cons_of_mem _ member, there⟩
    · rintro ⟨k', v', member, there⟩
      rcases List.mem_cons.mp member with same | later
      · cases same
        exact .inl there
      · exact .inr ⟨k', v', later, there⟩

theorem mem_labels {l : Nat} {x : Node} : l ∈ x.labels ↔ ∃ o, HasLabel l o ∧ Within o x := by
  constructor
  · suffices all : (∀ x : Node, l ∈ x.labels → ∃ o, HasLabel l o ∧ Within o x) ∧
        ∀ entries, l ∈ Node.entryLabels entries →
          ∃ k v o, (k, v) ∈ entries ∧ HasLabel l o ∧ Within o v from all.1 x
    apply Node.induct
    · rintro s ⟨⟩
    · rintro n ⟨⟩
    · intro label array entries ih member
      rw [Node.labels, List.mem_append, Option.mem_toList] at member
      rcases member with here | inside
      · exact ⟨_, ⟨array, entries, by rw [here]⟩, .self⟩
      · obtain ⟨k, v, o, entry, labelled, within⟩ := ih inside
        exact ⟨o, labelled, .entry entry within⟩
    · rintro ⟨⟩
    · intro k v entries first rest member
      rw [Node.entryLabels, List.mem_append] at member
      rcases member with here | later
      · obtain ⟨o, labelled, within⟩ := first here
        exact ⟨k, v, o, List.mem_cons_self, labelled, within⟩
      · obtain ⟨k', v', o, entry, labelled, within⟩ := rest later
        exact ⟨k', v', o, List.mem_cons_of_mem _ entry, labelled, within⟩
  · rintro ⟨o, labelled, within⟩
    induction within with
    | self =>
      obtain ⟨array, entries, rfl⟩ := labelled
      simp [Node.labels]
    | entry member _ ih =>
      rw [Node.labels, List.mem_append]
      exact .inr (mem_entryLabels.mpr ⟨_, _, member, ih⟩)

/-- Equal labels are on equal containers. -/
def Consistent (root : Node) : Prop :=
  ∀ l o o', HasLabel l o → HasLabel l o' → Within o root → Within o' root → o = o'

/-- A value of the heap. -/
structure Graph where
  root : Node
  consistent : Consistent root

end NeuralMesh.Js
