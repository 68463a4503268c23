import NeuralMesh.Js.KeyOrder

/-! Own properties of an object: reading, assigning and leaving out, and what
each does to enumeration order and to the transmitted value. -/
namespace NeuralMesh.Js

variable {β : Type}

abbrev Members := List (JsString × JsValue)

/-- `object[key]`, for an own property. -/
def property (key : JsString) : Members → JsValue
  | [] => .undefined
  | (k, v) :: ms => if k = key then v else property key ms

/-- Conversion to a boolean. -/
def truthy : JsValue → Bool
  | .undefined | .null => false
  | .bool b => b
  | .num (.finite d) => d != 0
  | .num .nan => false
  | .num (.infinite _) => true
  | .str s => s != []
  | .arr _ | .obj _ => true

/-- A named property of any value; only objects have named own properties. -/
def member (key : JsString) : JsValue → JsValue
  | .obj ms => property key ms
  | _ => .undefined

/-- Assigns properties one after the other, as a spread does. -/
def assign (entries ms : List (JsString × β)) : List (JsString × β) :=
  entries.foldl (fun ms e => setProperty e.1 e.2 ms) ms

/-- The rest of an object destructured into the listed keys. -/
def without (keys : List JsString) (ms : Members) : Members := ms.filter fun m => m.1 ∉ keys

/-- The own properties of an object. -/
structure JsObject where
  members : Members
  ordered : isOrdered (.obj members) = true

/-- The own properties of a JSON object. -/
structure JsonObject extends JsObject where
  plain : isPlain (.obj members) = true

@[simp] theorem without_nil (keys : List JsString) : without keys [] = [] := rfl

theorem without_mem {keys : List JsString} {k : JsString} (left_out : k ∈ keys) (v : JsValue)
    (ms : Members) : without keys ((k, v) :: ms) = without keys ms := by
  simp [without, left_out]

theorem without_kept {keys : List JsString} {k : JsString} (kept : k ∉ keys) (v : JsValue)
    (ms : Members) : without keys ((k, v) :: ms) = (k, v) :: without keys ms := by
  simp [without, kept]

theorem arrayIndex_precedes {k key : JsString} (named : arrayIndex key = none)
    (different : k ≠ key) : precedes k key = true := by
  unfold precedes
  cases arrayIndex k <;> simp [named, different]

@[simp] theorem property_setProperty (key : JsString) (value : JsValue) (ms : Members) :
    property key (setProperty key value ms) = value := by
  induction ms with
  | nil => simp [setProperty, property]
  | cons m ms ih =>
    obtain ⟨k, v⟩ := m
    simp only [setProperty]
    split_ifs with same before <;> simp_all [property]

theorem property_setProperty_ne {key other : JsString} (different : other ≠ key)
    (value : JsValue) (ms : Members) :
    property other (setProperty key value ms) = property other ms := by
  induction ms with
  | nil => simp [setProperty, property, different.symm]
  | cons m ms ih =>
    obtain ⟨k, v⟩ := m
    simp only [setProperty]
    split_ifs with same before
    · subst same
      simp [property, different.symm]
    · simp [property, ih]
    · simp [property, different.symm]

/-- Assigning the value that a property already has changes nothing. -/
theorem setProperty_same {key : JsString} (named : arrayIndex key = none) {value : JsValue}
    (present : value ≠ .undefined) {ms : Members} (same : property key ms = value) :
    setProperty key value ms = ms := by
  induction ms with
  | nil => exact absurd same.symm present
  | cons m ms ih =>
    obtain ⟨k, v⟩ := m
    by_cases found : k = key
    · rw [property, if_pos found] at same
      rw [setProperty, if_pos found, same]
    · rw [property, if_neg found] at same
      rw [setProperty, if_neg found, if_pos (arrayIndex_precedes named found), ih same]

theorem without_setProperty {keys : List JsString} {key : JsString} (left_out : key ∈ keys)
    (value : JsValue) (ms : Members) :
    without keys (setProperty key value ms) = without keys ms := by
  induction ms with
  | nil => exact without_mem left_out value []
  | cons m ms ih =>
    obtain ⟨k, v⟩ := m
    simp only [setProperty]
    split_ifs with same before
    · subst same
      rw [without_mem left_out, without_mem left_out]
    · by_cases kept : k ∈ keys
      · rw [without_mem kept, without_mem kept, ih]
      · rw [without_kept kept, without_kept kept, ih]
    · exact without_mem left_out value _

theorem mem_setProperty {key : JsString} {value : β} {ms : List (JsString × β)}
    {m : JsString × β} (member : m ∈ setProperty key value ms) : m = (key, value) ∨ m ∈ ms := by
  induction ms with
  | nil => simpa [setProperty] using member
  | cons first ms ih =>
    obtain ⟨k, v⟩ := first
    simp only [setProperty] at member
    split_ifs at member with same before
    · subst same
      rcases List.mem_cons.mp member with rfl | later
      · exact .inl rfl
      · exact .inr (List.mem_cons_of_mem _ later)
    · rcases List.mem_cons.mp member with rfl | later
      · exact .inr List.mem_cons_self
      · exact (ih later).imp_right (List.mem_cons_of_mem _)
    · exact List.mem_cons.mp member

theorem mem_setProperty_self (key : JsString) (value : β) (ms : List (JsString × β)) :
    (key, value) ∈ setProperty key value ms := by
  induction ms with
  | nil => exact List.mem_singleton_self _
  | cons first ms ih =>
    obtain ⟨k, v⟩ := first
    simp only [setProperty]
    split_ifs with same before
    · rw [same]
      exact List.mem_cons_self
    · exact List.mem_cons_of_mem _ ih
    · exact List.mem_cons_self

theorem mem_setProperty_of_ne {key : JsString} (value : β) {ms : List (JsString × β)}
    {m : JsString × β} (old : m ∈ ms) (different : m.1 ≠ key) : m ∈ setProperty key value ms := by
  induction ms with
  | nil => cases old
  | cons first ms ih =>
    obtain ⟨k, v⟩ := first
    simp only [setProperty]
    split_ifs with same before
    · rcases List.mem_cons.mp old with rfl | later
      · exact absurd same different
      · exact List.mem_cons_of_mem _ later
    · rcases List.mem_cons.mp old with rfl | later
      · exact List.mem_cons_self
      · exact List.mem_cons_of_mem _ (ih later)
    · exact List.mem_cons_of_mem _ old

theorem setProperty_pairwise (key : JsString) (value : β) {ms : List (JsString × β)}
    (sorted : ms.Pairwise fun a b => precedes a.1 b.1 = true) :
    (setProperty key value ms).Pairwise fun a b => precedes a.1 b.1 = true := by
  induction sorted with
  | nil => exact List.pairwise_singleton _ _
  | @cons m ms before sorted ih =>
    obtain ⟨k, v⟩ := m
    simp only [setProperty]
    split_ifs with same first
    · exact List.pairwise_cons.mpr ⟨before, sorted⟩
    · refine List.pairwise_cons.mpr ⟨fun b member => ?_, ih⟩
      rcases mem_setProperty member with rfl | old
      · exact first
      · exact before b old
    · obtain ⟨head, tail⟩ := precedes_of_not same (by simpa using first)
      refine List.pairwise_cons.mpr ⟨fun b member => ?_, List.pairwise_cons.mpr ⟨before, sorted⟩⟩
      rcases List.mem_cons.mp member with rfl | later
      · exact head
      · exact tail b.1 (before b later)

theorem setProperty_replaces {key : JsString} {value : β} {ms : List (JsString × β)}
    (sorted : ms.Pairwise fun a b => precedes a.1 b.1 = true) {m : JsString × β}
    (member : m ∈ setProperty key value ms) (same : m.1 = key) : m = (key, value) := by
  have unique : UniqueKeys (setProperty key value ms) :=
    (setProperty_pairwise key value sorted).imp precedes_ne
  exact unique.eq member (mem_setProperty_self key value ms) same

theorem mem_of_mem_assign {entries ms : List (JsString × β)} {m : JsString × β}
    (member : m ∈ assign entries ms) : m ∈ entries ∨ m ∈ ms := by
  induction entries generalizing ms with
  | nil => exact .inr member
  | cons e entries ih =>
    rcases ih member with later | earlier
    · exact .inl (List.mem_cons_of_mem _ later)
    · rcases mem_setProperty earlier with rfl | old
      · exact .inl List.mem_cons_self
      · exact .inr old

theorem assign_pairwise (entries : List (JsString × β)) {ms : List (JsString × β)}
    (sorted : ms.Pairwise fun a b => precedes a.1 b.1 = true) :
    (assign entries ms).Pairwise fun a b => precedes a.1 b.1 = true := by
  induction entries generalizing ms with
  | nil => exact sorted
  | cons e entries ih => exact ih (setProperty_pairwise e.1 e.2 sorted)

theorem assign_sorted {entries : List (JsString × β)}
    (sorted : entries.Pairwise fun a b => precedes a.1 b.1 = true) : assign entries [] = entries :=
  foldl_setProperty sorted

/-- Assigning a list of properties: the assigned ones, and what they left. -/
theorem mem_assign {entries ms : List (JsString × β)} (unique : UniqueKeys entries)
    (sorted : ms.Pairwise fun a b => precedes a.1 b.1 = true) (m : JsString × β) :
    m ∈ assign entries ms ↔ m ∈ entries ∨ m ∈ ms ∧ ∀ e ∈ entries, m.1 ≠ e.1 := by
  induction entries generalizing ms with
  | nil => simp [assign]
  | cons e entries ih =>
    obtain ⟨fresh, unique⟩ := List.pairwise_cons.mp unique
    rw [assign, List.foldl_cons, ← assign, ih unique (setProperty_pairwise e.1 e.2 sorted)]
    constructor
    · rintro (later | ⟨member, apart⟩)
      · exact .inl (List.mem_cons_of_mem _ later)
      · rcases mem_setProperty member with rfl | old
        · exact .inl List.mem_cons_self
        · by_cases same : m.1 = e.1
          · rw [setProperty_replaces sorted member same]
            exact .inl List.mem_cons_self
          · exact .inr ⟨old, List.forall_mem_cons.mpr ⟨same, apart⟩⟩
    · rintro (member | ⟨old, apart⟩)
      · rcases List.mem_cons.mp member with rfl | later
        · exact .inr ⟨mem_setProperty_self _ _ _, fresh⟩
        · exact .inl later
      · obtain ⟨different, apart⟩ := List.forall_mem_cons.mp apart
        exact .inr ⟨mem_setProperty_of_ne _ old different, apart⟩

theorem setProperty_ordered (key : JsString) {value : JsValue} {ms : Members}
    (valueOrdered : isOrdered value = true) (ordered : isOrdered (.obj ms) = true) :
    isOrdered (.obj (setProperty key value ms)) = true := by
  obtain ⟨sorted, each⟩ := (isOrdered_obj ms).mp ordered
  refine (isOrdered_obj _).mpr ⟨setProperty_pairwise key value sorted, fun m member => ?_⟩
  rcases mem_setProperty member with rfl | old
  · exact valueOrdered
  · exact each m old

theorem without_ordered {ms : Members} (keys : List JsString)
    (ordered : isOrdered (.obj ms) = true) : isOrdered (.obj (without keys ms)) = true := by
  obtain ⟨sorted, each⟩ := (isOrdered_obj ms).mp ordered
  exact (isOrdered_obj _).mpr
    ⟨sorted.filter _, fun m member => each m (List.mem_of_mem_filter member)⟩

theorem without_plain {ms : Members} (keys : List JsString) (plain : isPlain (.obj ms) = true) :
    isPlain (.obj (without keys ms)) = true := by
  simp only [isPlain, allMembersPlain_iff] at plain ⊢
  exact fun m member => plain m (List.mem_of_mem_filter member)

theorem without_transmittedMembers (keys : List JsString) (ms : Members) :
    without keys (transmittedMembers ms) = transmittedMembers (without keys ms) := by
  induction ms with
  | nil => rfl
  | cons m ms ih =>
    obtain ⟨k, v⟩ := m
    by_cases kept : k ∈ keys
    · rw [without_mem kept, ← ih]
      by_cases absent : v = .undefined
      · rw [absent]
        rfl
      · rw [transmittedMembers_cons k ms absent, without_mem kept]
    · rw [without_kept kept]
      by_cases absent : v = .undefined
      · subst absent
        exact ih
      · rw [transmittedMembers_cons k ms absent, transmittedMembers_cons k _ absent,
          without_kept kept, ih]

theorem property_transmittedMembers {key : JsString} {ms : Members}
    (present : property key ms ≠ .undefined) :
    property key (transmittedMembers ms) = transmitted (property key ms) := by
  induction ms with
  | nil => exact absurd rfl present
  | cons m ms ih =>
    obtain ⟨k, v⟩ := m
    by_cases same : k = key
    · simp only [property, same, if_true] at present ⊢
      rw [transmittedMembers_cons key ms present, property, if_pos rfl]
    · simp only [property, same, if_false] at present ⊢
      by_cases absent : v = .undefined
      · subst absent
        exact ih present
      · rw [transmittedMembers_cons k ms absent, property, if_neg same, ih present]

theorem without_sameMembers {ms ns : Members} (keys : List JsString)
    (same : SameMembers ms ns) : SameMembers (without keys ms) (without keys ns) := by
  induction ms generalizing ns with
  | nil =>
    simp only [SameMembers] at same
    subst same
    rfl
  | cons m ms ih =>
    obtain ⟨k, v⟩ := m
    obtain ⟨w, others, rfl, value, rest⟩ := same
    by_cases kept : k ∈ keys
    · rw [without_mem kept, without_mem kept]
      exact ih rest
    · rw [without_kept kept, without_kept kept]
      exact ⟨w, _, rfl, value, ih rest⟩

/-- Leaving out keys does not tell apart objects that are the same data. -/
theorem without_sameData {ms ns : Members} (keys : List JsString)
    (same : SameData (.obj ms) (.obj ns)) :
    SameData (.obj (without keys ms)) (.obj (without keys ns)) := by
  simp only [SameData, JsValue.obj.injEq] at same ⊢
  obtain ⟨_, reordered, rfl, reorder, members⟩ := same
  exact ⟨_, without keys reordered, rfl, reorder.filter _, without_sameMembers keys members⟩

/-! ### What `JSON.parse` returns -/

theorem assign_ordered {entries ms : Members} (each : ∀ e ∈ entries, isOrdered e.2 = true)
    (ordered : isOrdered (.obj ms) = true) : isOrdered (.obj (assign entries ms)) = true := by
  obtain ⟨sorted, old⟩ := (isOrdered_obj ms).mp ordered
  refine (isOrdered_obj _).mpr ⟨assign_pairwise entries sorted, fun m member => ?_⟩
  rcases mem_of_mem_assign member with new | kept
  · exact each m new
  · exact old m kept

theorem assign_plain {entries ms : Members} (each : ∀ e ∈ entries, isPlain e.2 = true)
    (plain : ∀ m ∈ ms, isPlain m.2 = true) : isPlain (.obj (assign entries ms)) = true := by
  simp only [isPlain, allMembersPlain_iff]
  intro m member
  rcases mem_of_mem_assign member with new | kept
  · exact each m new
  · exact plain m kept

theorem isOrdered_settle (v : JsValue) : isOrdered (settle v) = true := by
  induction v with
  | undefined | null | bool | num | str => rfl
  | arr elements ih =>
    simp only [settle, settleAll_eq, isOrdered, allOrdered_iff, List.mem_map]
    rintro _ ⟨v, member, rfl⟩
    exact ih v member
  | obj members ih =>
    apply assign_ordered
    · rw [settleMembers_eq]
      rintro _ mapped
      obtain ⟨m, member, rfl⟩ := List.mem_map.mp mapped
      exact ih m member
    · rfl

theorem lookup_iff {ms : List (JsString × β)} (unique : UniqueKeys ms) {key : JsString} {v : β} :
    ms.lookup key = some v ↔ (key, v) ∈ ms := by
  induction ms with
  | nil => simp
  | cons m ms ih =>
    obtain ⟨k, w⟩ := m
    obtain ⟨fresh, unique⟩ := List.pairwise_cons.mp unique
    by_cases same : key = k
    · subst same
      have absent : (key, v) ∉ ms := fun member => fresh _ member rfl
      simp [absent, eq_comm]
    · simp [List.lookup_cons, beq_false_of_ne same, ih unique, same]

theorem lookup_of_property {ms : Members} {key : JsString} (present : property key ms ≠ .undefined) :
    ms.lookup key = some (property key ms) := by
  induction ms with
  | nil => exact absurd rfl present
  | cons m ms ih =>
    obtain ⟨k, v⟩ := m
    by_cases same : k = key
    · simp [property, same]
    · rw [property, if_neg same] at present ⊢
      rw [List.lookup_cons, beq_false_of_ne (Ne.symm same)]
      exact ih present

theorem mem_of_property {ms : Members} {key : JsString} {v : JsValue}
    (found : property key ms = v) (present : v ≠ .undefined) : (key, v) ∈ ms := by
  induction ms with
  | nil => exact absurd found.symm present
  | cons m ms ih =>
    obtain ⟨k, w⟩ := m
    rw [property] at found
    split_ifs at found with same
    · rw [same, found]
      exact List.mem_cons_self
    · exact List.mem_cons_of_mem _ (ih found)

theorem property_of_mem {ms : Members} (unique : UniqueKeys ms) {key : JsString} {v : JsValue}
    (member : (key, v) ∈ ms) : property key ms = v := by
  induction ms with
  | nil => cases member
  | cons m ms ih =>
    obtain ⟨k, w⟩ := m
    obtain ⟨fresh, unique⟩ := List.pairwise_cons.mp unique
    rcases List.mem_cons.mp member with first | later
    · cases first
      exact if_pos rfl
    · exact (if_neg fun same => fresh _ later same).trans (ih unique later)

end NeuralMesh.Js
