import NeuralMesh.Worker.LogicExecution

/-! JSON in a program. An object literal evaluates to what its text denotes, but for
`__proto__`; noise and sanitising then give the value back exactly if they leave every
number as it is. -/
namespace NeuralMesh.Worker

open Js Server

/-! ### Evaluation -/

mutual

/-- The value of a JSON text as an expression: `__proto__: value` creates no property. -/
def literalNode : JsValue → Node
  | .undefined => .scalar .undefined
  | .null => .scalar .null
  | .bool b => .scalar (.bool b)
  | .num n => .num n
  | .str s => .scalar (.str s)
  | .arr elements => .branch none true (literalElements elements)
  | .obj members => .branch none false (literalEntries members)

def literalElements : List JsValue → Entries
  | [] => []
  | v :: vs => ([], literalNode v) :: literalElements vs

def literalEntries : Members → Entries
  | [] => []
  | (k, v) :: ms => if k = protoKey then literalEntries ms else (k, literalNode v) :: literalEntries ms

end

mutual

/-- The names of the properties in a value. -/
def keys : JsValue → List JsString
  | .arr elements => keysAll elements
  | .obj members => memberKeys members
  | _ => []

def keysAll : List JsValue → List JsString
  | [] => []
  | v :: vs => keys v ++ keysAll vs

def memberKeys : Members → List JsString
  | [] => []
  | (k, v) :: ms => k :: (keys v ++ memberKeys ms)

end

mutual

def numbers : JsValue → List JsNumber
  | .num n => [n]
  | .arr elements => numbersAll elements
  | .obj members => memberNumbers members
  | _ => []

def numbersAll : List JsValue → List JsNumber
  | [] => []
  | v :: vs => numbers v ++ numbersAll vs

def memberNumbers : Members → List JsNumber
  | [] => []
  | (_, v) :: ms => numbers v ++ memberNumbers ms

end

mutual

/-- A tree of JSON data without identities and without `__proto__`. -/
def Tidy : Node → Prop
  | .scalar s => s ≠ .undefined
  | .num n => ∃ d, n = .finite d
  | .branch label array entries => label = none ∧ TidyEntries array entries

def TidyEntries (array : Bool) : Entries → Prop
  | [] => True
  | (k, v) :: entries => dropped array k = false ∧ Tidy v ∧ TidyEntries array entries

end

theorem tidy_literalNode (v : JsValue) (plain : isPlain v = true) : Tidy (literalNode v) := by
  induction v with
  | undefined => cases plain
  | null | bool | str => simp [literalNode, Tidy]
  | num n =>
    cases n with
    | finite d => exact ⟨d, rfl⟩
    | nan | infinite => cases plain
  | arr elements ih =>
    simp only [isPlain, allPlain_iff] at plain
    refine ⟨rfl, ?_⟩
    induction elements with
    | nil => trivial
    | cons v vs rest =>
      simp only [List.forall_mem_cons] at ih plain
      exact ⟨rfl, ih.1 plain.1, rest ih.2 plain.2⟩
  | obj members ih =>
    simp only [isPlain, allMembersPlain_iff] at plain
    refine ⟨rfl, ?_⟩
    induction members with
    | nil => trivial
    | cons m ms rest =>
      obtain ⟨k, v⟩ := m
      simp only [List.forall_mem_cons] at ih plain
      have later := rest ih.2 plain.2
      rw [literalEntries]
      split_ifs with proto
      · exact later
      · exact ⟨by simp [dropped, proto], ih.1 plain.1, later⟩

theorem value_literalNode (v : JsValue) (named : protoKey ∉ keys v) : (literalNode v).value = v := by
  induction v with
  | undefined | null | bool | num | str => rfl
  | arr elements ih =>
    rw [literalNode, Node.value, JsValue.arr.injEq]
    rw [keys] at named
    induction elements with
    | nil => rfl
    | cons v vs rest =>
      rw [keysAll, List.mem_append, not_or] at named
      rw [List.forall_mem_cons] at ih
      rw [literalElements, Node.elementValues, ih.1 named.1, rest ih.2 named.2]
  | obj members ih =>
    rw [literalNode, Node.value, JsValue.obj.injEq]
    rw [keys] at named
    induction members with
    | nil => rfl
    | cons m ms rest =>
      obtain ⟨k, v⟩ := m
      simp only [memberKeys, List.mem_cons, List.mem_append, not_or] at named
      rw [List.forall_mem_cons] at ih
      rw [literalEntries, if_neg (Ne.symm named.1), Node.memberValues, ih.1 named.2.1,
        rest ih.2 named.2.2]

/-- The keys that a copy may not assign are among the names. -/
theorem hasReadOnly_literalNode (readOnly : JsString → Bool) (v : JsValue)
    (named : protoKey ∉ keys v) :
    hasReadOnly readOnly (literalNode v) = false ↔ ∀ k ∈ keys v, readOnly k = false := by
  induction v with
  | undefined | null | bool | num | str => simp [literalNode, hasReadOnly, keys]
  | arr elements ih =>
    rw [literalNode, hasReadOnly, keys]
    rw [keys] at named
    induction elements with
    | nil => simp [literalElements, entriesHaveReadOnly, keysAll]
    | cons v vs rest =>
      rw [keysAll, List.mem_append, not_or] at named
      rw [List.forall_mem_cons] at ih
      rw [literalElements, entriesHaveReadOnly, keysAll, List.forall_mem_append, ← ih.1 named.1,
        ← rest ih.2 named.2]
      simp
  | obj members ih =>
    rw [literalNode, hasReadOnly, keys]
    rw [keys] at named
    induction members with
    | nil => simp [literalEntries, entriesHaveReadOnly, memberKeys]
    | cons m ms rest =>
      obtain ⟨k, v⟩ := m
      simp only [memberKeys, List.mem_cons, List.mem_append, not_or] at named
      rw [List.forall_mem_cons] at ih
      rw [literalEntries, if_neg (Ne.symm named.1), entriesHaveReadOnly, memberKeys,
        List.forall_mem_cons, List.forall_mem_append, ← ih.1 named.2.1, ← rest ih.2 named.2.2]
      simp [and_assoc]

/-! ### Noise and sanitising -/

section Noise

variable (noisy : Option JsString → Decimal → Nat → JsNumber × Nat)

mutual

/-- Sanitising takes the noise off every number again. -/
def Undone (currentKey : Option JsString) (counter : Nat) : Node → Prop
  | .num (.finite d) => sanitizeNumber (noisy currentKey d counter).1 = .finite d
  | .branch _ array entries => UndoneEntries currentKey array counter entries
  | _ => True

def UndoneEntries (currentKey : Option JsString) (array : Bool) (counter : Nat) : Entries → Prop
  | [] => True
  | (key, value) :: entries =>
    let inherited := if array then currentKey else some key
    Undone inherited counter value ∧
      UndoneEntries currentKey array (walkAndNoise noisy inherited counter value).2 entries

end

/-- The worker's output for a tree. -/
def noisyCopy (currentKey : Option JsString) (counter : Nat) (seen : List Nat) (x : Node) : Node :=
  (walk seen (walkAndNoise noisy currentKey counter x).1).1

theorem walk_unlabelled (seen : List Nat) (array : Bool) (entries : Entries) :
    walk seen (.branch none array entries) =
      (.branch none array (walkEntries array seen entries).1, (walkEntries array seen entries).2) := by
  rw [walk, if_neg (by simp [isSeen])]
  rfl

theorem noisyCopy_undefined {x : Node} (tidy : Tidy x) (currentKey : Option JsString) (counter : Nat)
    (seen : List Nat) : (noisyCopy noisy currentKey counter seen x).value ≠ .undefined := by
  intro absent
  have same := walk_undefined.mp (value_undefined.mp absent)
  cases x with
  | scalar s => exact tidy (Node.scalar.inj same)
  | num n =>
    obtain ⟨d, rfl⟩ := tidy
    cases same
  | branch label array entries => cases same

variable {noisy}

theorem noisyCopy_of_undone {x : Node} (tidy : Tidy x) {currentKey : Option JsString} {counter : Nat}
    (undone : Undone noisy currentKey counter x) (seen : List Nat) :
    noisyCopy noisy currentKey counter seen x = x := by
  suffices all : (∀ x, Tidy x → ∀ currentKey counter, Undone noisy currentKey counter x →
      ∀ seen, noisyCopy noisy currentKey counter seen x = x) ∧
      ∀ entries, ∀ array, TidyEntries array entries → ∀ currentKey counter,
        UndoneEntries noisy currentKey array counter entries → ∀ seen,
          (walkEntries array seen (walkEntriesAndNoise noisy currentKey array counter entries).1).1 =
            entries from all.1 x tidy currentKey counter undone seen
  apply Node.induct
  · intro s _ currentKey counter _ seen
    rfl
  · rintro _ ⟨d, rfl⟩ currentKey counter undone seen
    exact congrArg Node.num undone
  · rintro _ array entries ih ⟨rfl, tidy⟩ currentKey counter undone seen
    rw [noisyCopy, walkAndNoise, walk_unlabelled]
    exact congrArg _ (ih array tidy currentKey counter undone seen)
  · intro array _ currentKey counter _ seen
    rfl
  · rintro k v entries first rest array ⟨kept, here, later⟩ currentKey counter ⟨undone, undoneLater⟩
      seen
    have head := first here _ _ undone seen
    have tail := rest array later _ _ undoneLater
    rw [noisyCopy] at head
    simp only [walkEntriesAndNoise, kept, walkEntries, head, tail, Bool.false_eq_true, if_false]

theorem undone_of_noisyCopy {x : Node} (tidy : Tidy x) {currentKey : Option JsString} {counter : Nat}
    {seen : List Nat}
    (same : transmitted (noisyCopy noisy currentKey counter seen x).value = x.value) :
    Undone noisy currentKey counter x := by
  suffices all : (∀ x, Tidy x → ∀ currentKey counter seen,
      transmitted (noisyCopy noisy currentKey counter seen x).value = x.value →
        Undone noisy currentKey counter x) ∧
      ∀ entries, ∀ array, TidyEntries array entries → ∀ currentKey counter seen,
        (array = true → transmittedAll (Node.elementValues (walkEntries array seen
          (walkEntriesAndNoise noisy currentKey array counter entries).1).1) =
            Node.elementValues entries) →
        (array = false → transmittedMembers (Node.memberValues (walkEntries array seen
          (walkEntriesAndNoise noisy currentKey array counter entries).1).1) =
            Node.memberValues entries) →
        UndoneEntries noisy currentKey array counter entries from
    all.1 x tidy currentKey counter seen same
  apply Node.induct
  · intro s _ currentKey counter seen _
    trivial
  · rintro _ ⟨d, rfl⟩ currentKey counter seen same
    exact transmitted_finite same
  · rintro _ array entries ih ⟨rfl, tidy⟩ currentKey counter seen same
    rw [noisyCopy, walkAndNoise, walk_unlabelled] at same
    apply ih array tidy currentKey counter seen
    · rintro rfl
      exact JsValue.arr.inj same
    · rintro rfl
      exact JsValue.obj.inj same
  · intro array _ currentKey counter seen _ _
    trivial
  · rintro k v entries first rest array ⟨kept, here, later⟩ currentKey counter seen elements members
    simp only [walkEntriesAndNoise, kept, walkEntries, Bool.false_eq_true, if_false] at elements members
    cases array with
    | true =>
      obtain ⟨head, tail⟩ := List.cons.inj (elements rfl)
      exact ⟨first here _ _ _ head, rest true later _ _ _ (fun _ => tail) (by simp)⟩
    | false =>
      have present := noisyCopy_undefined noisy here (if false = true then currentKey else some k)
        counter seen
      have both := members rfl
      rw [noisyCopy] at present
      rw [Node.memberValues, transmittedMembers_cons k _ present] at both
      obtain ⟨head, tail⟩ := List.cons.inj both
      exact ⟨first here _ _ _ (Prod.mk.inj head).2, rest false later _ _ _ (by simp) (fun _ => tail)⟩

end Noise

/-- No property of a copy is named `__proto__`. -/
theorem protoKey_not_mem_keys {x : Node} (unshared : x.labels = []) (seen : List Nat) :
    protoKey ∉ keys (transmitted (walk seen x).1.value) := by
  suffices all : (∀ x : Node, x.labels = [] → ∀ seen,
      protoKey ∉ keys (transmitted (walk seen x).1.value)) ∧
      ∀ entries, Node.entryLabels entries = [] → ∀ seen,
        protoKey ∉ keysAll (transmittedAll (Node.elementValues (walkEntries true seen entries).1)) ∧
        protoKey ∉ memberKeys (transmittedMembers
          (Node.memberValues (walkEntries false seen entries).1)) from all.1 x unshared seen
  apply Node.induct
  · intro s _ seen
    cases s <;> simp [walk, Node.value, Scalar.value, transmitted, keys]
  · intro n _ seen
    rw [walk]
    cases sanitizeNumber n <;> simp [Node.value, transmitted, keys]
  · intro label array entries ih unshared seen
    rw [Node.labels, List.append_eq_nil_iff, Option.toList_eq_nil_iff] at unshared
    obtain ⟨rfl, inner⟩ := unshared
    obtain ⟨elements, members⟩ := ih inner seen
    rw [walk_unlabelled]
    cases array with
    | true => exact elements
    | false => exact members
  · intro _ seen
    exact ⟨List.not_mem_nil, List.not_mem_nil⟩
  · intro k v entries first rest unshared seen
    rw [Node.entryLabels, List.append_eq_nil_iff] at unshared
    have head := first unshared.1 seen
    obtain ⟨elements, members⟩ := rest unshared.2 (walk seen v).2
    constructor
    · simp only [walkEntries, dropped_array, Bool.false_eq_true, if_false, Node.elementValues,
        transmittedAll, keysAll, List.mem_append, not_or]
      exact ⟨head, elements⟩
    · rw [walkEntries]
      dsimp only
      split_ifs with proto
      · exact members
      · rw [Node.memberValues]
        by_cases absent : (walk seen v).1.value = .undefined
        · rw [absent]
          exact members
        · simp only [transmittedMembers_cons k _ absent, memberKeys, List.mem_cons, List.mem_append,
            not_or]
          exact ⟨fun same => proto (dropped_iff.mpr same.symm), head, members⟩

/-! ### Without noise -/

/-- The noise of a run that adds none. -/
def silent (_currentKey : Option JsString) (d : Decimal) (counter : Nat) : JsNumber × Nat :=
  (.finite d, counter)

theorem walkAndNoise_silent {x : Node} (tidy : Tidy x) (currentKey : Option JsString) (counter : Nat) :
    walkAndNoise silent currentKey counter x = (x, counter) := by
  suffices all : (∀ x, Tidy x → ∀ currentKey counter,
      walkAndNoise silent currentKey counter x = (x, counter)) ∧
      ∀ entries, ∀ array, TidyEntries array entries → ∀ currentKey counter,
        walkEntriesAndNoise silent currentKey array counter entries = (entries, counter) from
    all.1 x tidy currentKey counter
  apply Node.induct
  · intro s _ currentKey counter
    rfl
  · rintro _ ⟨d, rfl⟩ currentKey counter
    rfl
  · rintro _ array entries ih ⟨rfl, tidy⟩ currentKey counter
    rw [walkAndNoise, ih array tidy]
  · intro array _ currentKey counter
    rfl
  · rintro k v entries first rest array ⟨kept, here, later⟩ currentKey counter
    rw [walkEntriesAndNoise]
    rw [first here, rest array later, kept]
    rfl

/-- A number that rounding leaves as it is. -/
def IsRounded (n : JsNumber) : Prop := sanitizeNumber n = n

theorem undone_silent (v : JsValue) (plain : isPlain v = true) (named : protoKey ∉ keys v)
    (currentKey : Option JsString) (counter : Nat) :
    Undone silent currentKey counter (literalNode v) ↔ ∀ n ∈ numbers v, IsRounded n := by
  induction v generalizing currentKey counter with
  | undefined | null | bool | str => simp [literalNode, Undone, numbers]
  | num n =>
    cases n with
    | finite d => simp [literalNode, Undone, numbers, silent, IsRounded]
    | nan | infinite => cases plain
  | arr elements ih =>
    simp only [isPlain, allPlain_iff] at plain
    rw [keys] at named
    rw [literalNode, Undone, numbers]
    induction elements generalizing counter with
    | nil => simp [literalElements, UndoneEntries, numbersAll]
    | cons v vs rest =>
      rw [keysAll, List.mem_append, not_or] at named
      rw [List.forall_mem_cons] at ih plain
      rw [literalElements, UndoneEntries, numbersAll, List.forall_mem_append]
      rw [walkAndNoise_silent (tidy_literalNode v plain.1), ih.1 plain.1 named.1,
        rest ih.2 named.2 counter plain.2]
  | obj members ih =>
    simp only [isPlain, allMembersPlain_iff] at plain
    rw [keys] at named
    rw [literalNode, Undone, numbers]
    induction members generalizing counter with
    | nil => simp [literalEntries, UndoneEntries, memberNumbers]
    | cons m ms rest =>
      obtain ⟨k, v⟩ := m
      simp only [memberKeys, List.mem_cons, List.mem_append, not_or] at named
      rw [List.forall_mem_cons] at ih plain
      rw [literalEntries, if_neg (Ne.symm named.1), UndoneEntries, memberNumbers,
        List.forall_mem_append]
      rw [walkAndNoise_silent (tidy_literalNode v plain.1), ih.1 plain.1 named.2.1,
        rest ih.2 named.2.2 counter plain.2]

/-! ### A second pass -/

mutual

def mapNumbers (f : JsNumber → JsNumber) : JsValue → JsValue
  | .num n => .num (f n)
  | .arr elements => .arr (mapAllNumbers f elements)
  | .obj members => .obj (mapMemberNumbers f members)
  | v => v

def mapAllNumbers (f : JsNumber → JsNumber) : List JsValue → List JsValue
  | [] => []
  | v :: vs => mapNumbers f v :: mapAllNumbers f vs

def mapMemberNumbers (f : JsNumber → JsNumber) : Members → Members
  | [] => []
  | (k, v) :: ms => (k, mapNumbers f v) :: mapMemberNumbers f ms

end

theorem walk_literalNode (v : JsValue) (named : protoKey ∉ keys v) (seen : List Nat) :
    (walk seen (literalNode v)).1.value = mapNumbers sanitizeNumber v := by
  induction v generalizing seen with
  | undefined | null | bool | num | str => rfl
  | arr elements ih =>
    rw [keys] at named
    rw [literalNode, walk_unlabelled, Node.value, mapNumbers, JsValue.arr.injEq]
    induction elements generalizing seen with
    | nil => rfl
    | cons v vs rest =>
      rw [keysAll, List.mem_append, not_or] at named
      rw [List.forall_mem_cons] at ih
      simp only [literalElements, walkEntries, dropped_array, Bool.false_eq_true, if_false,
        Node.elementValues, mapAllNumbers]
      rw [ih.1 named.1, rest ih.2 named.2]
  | obj members ih =>
    rw [keys] at named
    rw [literalNode, walk_unlabelled, Node.value, mapNumbers, JsValue.obj.injEq]
    induction members generalizing seen with
    | nil => rfl
    | cons m ms rest =>
      obtain ⟨k, v⟩ := m
      simp only [memberKeys, List.mem_cons, List.mem_append, not_or] at named
      rw [List.forall_mem_cons] at ih
      have kept : dropped false k = false := by simp [dropped, Ne.symm named.1]
      simp only [literalEntries, if_neg (Ne.symm named.1), walkEntries, kept, Bool.false_eq_true,
        if_false, Node.memberValues, mapMemberNumbers]
      rw [ih.1 named.2.1, rest ih.2 named.2.2]

theorem mapMemberNumbers_eq (f : JsNumber → JsNumber) (ms : Members) :
    mapMemberNumbers f ms = ms.map fun m => (m.1, mapNumbers f m.2) := by
  induction ms with
  | nil => rfl
  | cons m ms ih => rw [mapMemberNumbers, ih, List.map_cons]

theorem mapAllNumbers_eq (f : JsNumber → JsNumber) (vs : List JsValue) :
    mapAllNumbers f vs = vs.map (mapNumbers f) := by
  induction vs with
  | nil => rfl
  | cons v vs ih => rw [mapAllNumbers, ih, List.map_cons]

theorem isOrdered_mapNumbers (f : JsNumber → JsNumber) {v : JsValue} (ordered : isOrdered v = true) :
    isOrdered (mapNumbers f v) = true := by
  induction v with
  | undefined | null | bool | num | str => exact ordered
  | arr elements ih =>
    simp only [isOrdered, allOrdered_iff] at ordered
    simp only [mapNumbers, mapAllNumbers_eq, isOrdered, allOrdered_iff, List.forall_mem_map]
    exact fun v member => ih v member (ordered v member)
  | obj members ih =>
    obtain ⟨sorted, ordered⟩ := (isOrdered_obj _).mp ordered
    rw [mapNumbers, mapMemberNumbers_eq, isOrdered_obj, List.pairwise_map, List.forall_mem_map]
    exact ⟨sorted, fun m member => ih m member (ordered m member)⟩

/-- The number is there again after it was rounded, written and read. -/
def ReadsBack (n : JsNumber) : Prop := asDoubles (transmitted (.num (sanitizeNumber n))) = .num n

theorem mapNumbers_readsBack (v : JsValue) (plain : isPlain v = true) :
    asDoubles (transmitted (mapNumbers sanitizeNumber v)) = v ↔ ∀ n ∈ numbers v, ReadsBack n := by
  induction v with
  | undefined => cases plain
  | null | bool | str => simp [mapNumbers, transmitted, asDoubles, numbers]
  | num n => simp [mapNumbers, numbers, ReadsBack]
  | arr elements ih =>
    simp only [isPlain, allPlain_iff] at plain
    rw [mapNumbers, transmitted, asDoubles, JsValue.arr.injEq, numbers]
    induction elements with
    | nil => simp [mapAllNumbers, asDoublesAll, numbersAll]
    | cons v vs rest =>
      rw [List.forall_mem_cons] at ih plain
      rw [mapAllNumbers, transmittedAll, asDoublesAll, List.cons.injEq, numbersAll,
        List.forall_mem_append, ih.1 plain.1, rest ih.2 plain.2]
  | obj members ih =>
    simp only [isPlain, allMembersPlain_iff] at plain
    rw [mapNumbers, transmitted, asDoubles, JsValue.obj.injEq, numbers]
    induction members with
    | nil => simp [mapMemberNumbers, transmittedMembers, asDoublesMembers, memberNumbers]
    | cons m ms rest =>
      obtain ⟨k, v⟩ := m
      rw [List.forall_mem_cons] at ih plain
      have present : mapNumbers sanitizeNumber v ≠ .undefined := by
        cases v with
        | undefined => cases plain.1
        | _ => simp [mapNumbers]
      rw [mapMemberNumbers, transmittedMembers_cons k _ present, asDoublesMembers, List.cons.injEq,
        Prod.mk.injEq, memberNumbers, List.forall_mem_append, ih.1 plain.1, rest ih.2 plain.2]
      simp

end NeuralMesh.Worker
