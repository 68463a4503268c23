import Mathlib.Data.List.Basic
import Mathlib.Logic.Relation

/-! Named fields as a text: a mark between name and value, and a mark between fields. Marks within
names and values are not escaped, so that one text has several readings; two lists of fields have
the same text exactly when marks moved between the parts lead from one to the other. -/
namespace NeuralMesh.Codec

variable {α : Type} (colon bar : α)

def fieldText (field : List α × List α) : List α := field.1 ++ colon :: field.2

def fieldsText (fields : List (List α × List α)) : List α :=
  [bar].intercalate (fields.map (fieldText colon))

/-- The fields after a first one. -/
def laterText (fields : List (List α × List α)) : List α :=
  fields.flatMap fun field => bar :: fieldText colon field

/-- One mark is taken for part of a name or of a value. -/
inductive Respelling : List (List α × List α) → List (List α × List α) → Prop where
  /-- The value begins behind a later colon. -/
  | colon (front back : List (List α × List α)) (name more value : List α) :
      Respelling (front ++ (name, more ++ colon :: value) :: back)
        (front ++ (name ++ colon :: more, value) :: back)
  /-- The next field belongs to the value. -/
  | bar (front back : List (List α × List α)) (name value : List α) (next : List α × List α) :
      Respelling (front ++ (name, value) :: next :: back)
        (front ++ (name, value ++ bar :: fieldText colon next) :: back)

def Respelled : List (List α × List α) → List (List α × List α) → Prop :=
  Relation.EqvGen (Respelling colon bar)

/-! ### Texts -/

variable {colon bar : α}

@[simp] theorem laterText_nil : laterText colon bar [] = [] := rfl

@[simp] theorem laterText_cons (field : List α × List α) (fields : List (List α × List α)) :
    laterText colon bar (field :: fields) =
      bar :: (fieldText colon field ++ laterText colon bar fields) := rfl

theorem fieldsText_cons (field : List α × List α) (fields : List (List α × List α)) :
    fieldsText colon bar (field :: fields) =
      fieldText colon field ++ laterText colon bar fields := by
  unfold fieldsText
  induction fields generalizing field with
  | nil => rw [List.map_singleton, List.intercalate_singleton, laterText_nil, List.append_nil]
  | cons next fields ih =>
    have rest := ih next
    rw [List.map_cons] at rest
    rw [List.map_cons, List.map_cons, List.intercalate_cons_cons, rest, laterText_cons,
      List.append_assoc, List.singleton_append]

theorem laterText_append (front back : List (List α × List α)) :
    laterText colon bar (front ++ back) = laterText colon bar front ++ laterText colon bar back :=
  List.flatMap_append

/-- Fields with the same text can stand for each other before and after any others. -/
theorem fieldsText_between {field other : List α × List α} {fields others : List (List α × List α)}
    (same : fieldsText colon bar (field :: fields) = fieldsText colon bar (other :: others))
    (front : List (List α × List α)) :
    fieldsText colon bar (front ++ field :: fields) =
      fieldsText colon bar (front ++ other :: others) := by
  cases front with
  | nil => exact same
  | cons first front =>
    rw [fieldsText_cons, fieldsText_cons] at same
    rw [List.cons_append, List.cons_append, fieldsText_cons, fieldsText_cons, laterText_append,
      laterText_append, laterText_cons, laterText_cons, same]

theorem Respelling.same_text {fields others : List (List α × List α)}
    (respelling : Respelling colon bar fields others) :
    fieldsText colon bar fields = fieldsText colon bar others := by
  cases respelling with
  | colon front back name more value =>
    refine fieldsText_between ?_ front
    simp only [fieldsText_cons, fieldText, List.append_assoc, List.cons_append]
  | bar front back name value next =>
    refine fieldsText_between ?_ front
    simp only [fieldsText_cons, fieldText, laterText_cons, List.append_assoc, List.cons_append]

/-! ### The plainest reading -/

/-- All fields are read as one. -/
theorem respelled_one (name value : List α) (fields : List (List α × List α)) :
    Respelled colon bar ((name, value) :: fields)
      [(name, value ++ laterText colon bar fields)] := by
  induction fields generalizing value with
  | nil =>
    rw [laterText_nil, List.append_nil]
    exact .refl _
  | cons next fields ih =>
    have joined : Respelled colon bar ((name, value) :: next :: fields)
        ((name, value ++ bar :: fieldText colon next) :: fields) :=
      .rel _ _ (.bar [] fields name value next)
    have rest := ih (value ++ bar :: fieldText colon next)
    rw [List.append_assoc, List.cons_append] at rest
    exact .trans _ _ _ joined rest

/-- A name without a colon, of a text that has one. -/
theorem exists_named (name value : List α) : ∃ short rest, colon ∉ short ∧
    fieldText colon (name, value) = short ++ colon :: rest ∧
    Respelled colon bar [(name, value)] [(short, rest)] := by
  classical
  by_cases held : colon ∈ name
  · obtain ⟨short, more, rfl, first⟩ := List.eq_append_cons_of_mem held
    refine ⟨short, more ++ colon :: value, first, ?_, ?_⟩
    · rw [fieldText, List.append_assoc, List.cons_append]
    · exact .symm _ _ (.rel _ _ (.colon [] [] short more value))
  · exact ⟨name, value, held, rfl, .refl _⟩

/-- A text is cut at its first colon in one way. -/
theorem cut_unique {short short' rest rest' : List α} (first : colon ∉ short)
    (first' : colon ∉ short') (same : short ++ colon :: rest = short' ++ colon :: rest') :
    short = short' ∧ rest = rest' := by
  induction short generalizing short' with
  | nil =>
    cases short' with
    | nil => exact ⟨rfl, (List.cons.inj same).2⟩
    | cons c short' => exact absurd ((List.cons.inj same).1 ▸ List.mem_cons_self) first'
  | cons c short ih =>
    cases short' with
    | nil => exact absurd ((List.cons.inj same).1 ▸ List.mem_cons_self) first
    | cons c' short' =>
      obtain ⟨rfl, tails⟩ := List.cons.inj same
      obtain ⟨rfl, rests⟩ := ih (fun held => first (List.mem_cons_of_mem c held))
        (fun held => first' (List.mem_cons_of_mem c held)) tails
      exact ⟨rfl, rests⟩

theorem exists_plainest (field : List α × List α) (fields : List (List α × List α)) :
    ∃ short rest, colon ∉ short ∧
      fieldsText colon bar (field :: fields) = short ++ colon :: rest ∧
      Respelled colon bar (field :: fields) [(short, rest)] := by
  obtain ⟨name, value⟩ := field
  obtain ⟨short, rest, first, text, respelled⟩ :=
    @exists_named _ colon bar name (value ++ laterText colon bar fields)
  refine ⟨short, rest, first, ?_, .trans _ _ _ (respelled_one name value fields) respelled⟩
  rw [← text, fieldsText_cons, fieldText, fieldText, List.append_assoc, List.cons_append]

theorem fieldsText_ne_nil (field : List α × List α) (fields : List (List α × List α)) :
    fieldsText colon bar (field :: fields) ≠ [] := by
  rw [fieldsText_cons, fieldText]
  simp

/-- Two lists of fields have the same text exactly when one is a respelling of the other. -/
theorem respelled_iff {fields others : List (List α × List α)} :
    Respelled colon bar fields others ↔
      fieldsText colon bar fields = fieldsText colon bar others := by
  constructor
  · intro respelled
    induction respelled with
    | rel _ _ respelling => exact respelling.same_text
    | refl _ => rfl
    | symm _ _ _ ih => exact ih.symm
    | trans _ _ _ _ _ first second => exact first.trans second
  · intro same
    cases fields with
    | nil =>
      cases others with
      | nil => exact .refl _
      | cons other others => exact absurd same.symm (fieldsText_ne_nil other others)
    | cons field fields =>
      cases others with
      | nil => exact absurd same (fieldsText_ne_nil field fields)
      | cons other others =>
        obtain ⟨short, rest, first, text, respelled⟩ := @exists_plainest _ colon bar field fields
        obtain ⟨short', rest', first', text', respelled'⟩ :=
          @exists_plainest _ colon bar other others
        rw [text, text'] at same
        obtain ⟨rfl, rfl⟩ := cut_unique first first' same
        exact .trans _ _ _ respelled (.symm _ _ respelled')

end NeuralMesh.Codec
