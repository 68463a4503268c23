import NeuralMesh.Js.RoundTrip

/-! `JSON.stringify` with an indent of two spaces, as files are written. The reader skips the
spaces, so it reads the same value as from the compact text. -/
namespace NeuralMesh.Js

/-- The entries of an array or an object on lines of their own, with commas between them. -/
def entryLines (lead : Text) : List Text → Text
  | [] => []
  | [entry] => lead ++ entry
  | entry :: entries => lead ++ entry ++ ',' :: entryLines lead entries

/-- An array or an object; without entries it takes no lines. -/
def bracketed (opening closing : Char) (indent : Text) (entries : List Text) : Text :=
  if entries = [] then [opening, closing]
  else opening :: (entryLines ('\n' :: ' ' :: ' ' :: indent) entries ++ '\n' :: indent ++ [closing])

mutual

/-- `SerializeJSONProperty` with the gap of `JSON.stringify(value, null, 2)`. -/
def indentedText (indent : Text) : JsValue → Text
  | .undefined => nullText
  | .null => nullText
  | .bool b => boolText b
  | .num n => n.jsonText
  | .str s => quote s
  | .arr elements => bracketed '[' ']' indent (indentedElements (' ' :: ' ' :: indent) elements)
  | .obj members => bracketed '\x7b' '\x7d' indent (indentedMembers (' ' :: ' ' :: indent) members)

def indentedElements (indent : Text) : List JsValue → List Text
  | [] => []
  | v :: vs => indentedText indent v :: indentedElements indent vs

def indentedMembers (indent : Text) : List (JsString × JsValue) → List Text
  | [] => []
  | (_, .undefined) :: ms => indentedMembers indent ms
  | (k, v) :: ms => (quote k ++ ':' :: ' ' :: indentedText indent v) :: indentedMembers indent ms

end

theorem indentedElements_eq (indent : Text) (vs : List JsValue) :
    indentedElements indent vs = vs.map (indentedText indent) := by
  induction vs with
  | nil => rfl
  | cons v vs ih => rw [indentedElements, ih, List.map_cons]

theorem indentedMembers_present (indent : Text) {ms : List (JsString × JsValue)}
    (present : ∀ m ∈ ms, m.2 ≠ .undefined) : indentedMembers indent ms =
      ms.map fun m => quote m.1 ++ ':' :: ' ' :: indentedText indent m.2 := by
  induction ms with
  | nil => rfl
  | cons m ms ih =>
    obtain ⟨first, others⟩ := List.forall_mem_cons.mp present
    obtain ⟨k, v⟩ := m
    rw [List.map_cons, ← ih others]
    cases v <;> first | rfl | exact absurd rfl first

/-! ### White space -/

def Spaces (text : Text) : Prop := ∀ c ∈ text, isJsonSpace c = true

theorem skipSpace_spaces {spaces : Text} (blank : Spaces spaces) (rest : Text) :
    skipSpace (spaces ++ rest) = skipSpace rest := by
  induction spaces with
  | nil => rfl
  | cons c spaces ih =>
    obtain ⟨first, others⟩ := List.forall_mem_cons.mp blank
    simp only [skipSpace, List.cons_append, List.dropWhile_cons, first, if_true]
    exact ih others

theorem Spaces.cons {c : Char} {spaces : Text} (first : isJsonSpace c = true)
    (blank : Spaces spaces) : Spaces (c :: spaces) :=
  List.forall_mem_cons.mpr ⟨first, blank⟩

theorem readValue_spaces {spaces : Text} (blank : Spaces spaces) (fuel : Nat) (rest : Text) :
    readValue fuel (spaces ++ rest) = readValue fuel rest := by
  cases fuel with
  | zero => rfl
  | succ fuel => rw [readValue, readValue, skipSpace_spaces blank]

theorem endsNumber_newline (rest : Text) : EndsNumber ('\n' :: rest) := by
  intro d head
  obtain rfl : '\n' = d := by simpa using head
  decide

/-! ### Reading lines -/

/-- The text reads as the value, wherever a value ends. -/
def ReadsAs (text : Text) (v : JsValue) : Prop :=
  ∀ fuel rest, text.length ≤ fuel → EndsNumber rest →
    readValue fuel (text ++ rest) = some (v, rest)

section Lines

variable {lead indent : Text} (blank : Spaces lead) (margin : Spaces indent)
include blank margin

theorem readElements_lines {text : JsValue → Text} {vs : List JsValue} (nonempty : vs ≠ [])
    (each : ∀ v ∈ vs, ReadsAs (text v) v) (fuel : Nat) (rest : Text)
    (enough : (entryLines lead (vs.map text)).length + 1 ≤ fuel) :
    readElements fuel (entryLines lead (vs.map text) ++ '\n' :: (indent ++ ']' :: rest)) =
      some (vs, rest) := by
  induction vs generalizing fuel with
  | nil => exact absurd rfl nonempty
  | cons v vs ih =>
    obtain ⟨fuel, rfl⟩ := Nat.exists_eq_add_of_le' (Nat.lt_of_lt_of_le (Nat.succ_pos _) enough)
    have first := each v List.mem_cons_self fuel
    refine readElements_iff.mpr ?_
    cases vs with
    | nil =>
      simp only [List.map_cons, List.map_nil, entryLines, List.length_append] at enough ⊢
      have read := first ('\n' :: (indent ++ ']' :: rest)) (by omega) (endsNumber_newline _)
      have ending : skipSpace ('\n' :: (indent ++ ']' :: rest)) = ']' :: rest :=
        (skipSpace_spaces (margin.cons (by decide)) _).trans (skipSpace_of_head (by decide))
      rw [List.append_assoc]
      refine .last ((readValue_spaces blank _ _).trans read) ?_ ?_
      · rw [ending, readWord_ne _ _ (by decide)]
      · rw [ending, readWord_cons]
    | cons w vs =>
      have later := ih (by simp) (fun v member => each v (List.mem_cons_of_mem _ member)) fuel
      simp only [List.map_cons, entryLines, List.length_append, List.length_cons] at enough later ⊢
      rw [List.append_assoc, List.append_assoc, List.cons_append]
      exact .more ((readValue_spaces blank _ _).trans
          (first _ (by omega) (endsNumber_of_closes (.inl rfl) _)))
        (readWord_mark (by decide) _) (later (by omega))

omit margin in
theorem memberRead_line {fuel : Nat} {k : JsString} {v : JsValue} {tail after : Text}
    (value : readValue fuel tail = some (v, after)) :
    MemberRead fuel (lead ++ (quote k ++ ':' :: ' ' :: tail)) after k v := by
  have whole : quote k ++ ':' :: ' ' :: tail =
      '"' :: (quoteBody k ++ '"' :: ':' :: ' ' :: tail) := by
    simp only [quote, List.cons_append, List.append_assoc, List.nil_append]
  have space : Spaces [' '] := fun c member => List.mem_singleton.mp member ▸ by decide
  rw [whole]
  refine .intro ?_ (readString_quoteBody k _) (readWord_mark (by decide) _)
    ((readValue_spaces space fuel tail).trans value)
  rw [skipSpace_spaces blank, skipSpace_of_head (by decide), readWord_cons]
  rfl

theorem readMembers_lines {text : JsValue → Text} {ms : List (JsString × JsValue)}
    (nonempty : ms ≠ []) (each : ∀ m ∈ ms, ReadsAs (text m.2) m.2) (fuel : Nat) (rest : Text)
    (enough : (entryLines lead (ms.map fun m =>
      quote m.1 ++ ':' :: ' ' :: text m.2)).length + 1 ≤ fuel) :
    readMembers fuel (entryLines lead (ms.map fun m => quote m.1 ++ ':' :: ' ' :: text m.2) ++
      '\n' :: (indent ++ '\x7d' :: rest)) = some (ms, rest) := by
  induction ms generalizing fuel with
  | nil => exact absurd rfl nonempty
  | cons m ms ih =>
    obtain ⟨k, v⟩ := m
    obtain ⟨fuel, rfl⟩ := Nat.exists_eq_add_of_le' (Nat.lt_of_lt_of_le (Nat.succ_pos _) enough)
    have first : ReadsAs (text v) v := each (k, v) List.mem_cons_self
    refine readMembers_iff.mpr ?_
    cases ms with
    | nil =>
      simp only [List.map_cons, List.map_nil, entryLines, List.length_append,
        List.length_cons] at enough ⊢
      have read := first fuel ('\n' :: (indent ++ '\x7d' :: rest)) (by omega)
        (endsNumber_newline _)
      have ending : skipSpace ('\n' :: (indent ++ '\x7d' :: rest)) = '\x7d' :: rest :=
        (skipSpace_spaces (margin.cons (by decide)) _).trans (skipSpace_of_head (by decide))
      rw [List.append_assoc, List.append_assoc, List.cons_append, List.cons_append]
      refine .last (memberRead_line blank read) ?_ ?_
      · rw [ending, readWord_ne _ _ (by decide)]
      · rw [ending, readWord_cons]
    | cons m ms =>
      have later := ih (by simp) (fun m member => each m (List.mem_cons_of_mem _ member)) fuel
      simp only [List.map_cons, entryLines, List.length_append, List.length_cons] at enough later ⊢
      rw [List.append_assoc, List.append_assoc, List.append_assoc, List.cons_append,
        List.cons_append, List.cons_append]
      exact .more (memberRead_line blank
          (first fuel _ (by omega) (endsNumber_of_closes (.inl rfl) _)))
        (readWord_mark (by decide) _) (later (by omega))

end Lines

/-! ### Reading values -/

theorem bracketed_cons (opening closing : Char) (indent entry : Text) (entries : List Text)
    (rest : Text) : bracketed opening closing indent (entry :: entries) ++ rest =
      opening :: (entryLines ('\n' :: ' ' :: ' ' :: indent) (entry :: entries) ++
        '\n' :: (indent ++ closing :: rest)) := by
  rw [bracketed, if_neg (List.cons_ne_nil entry entries)]
  simp only [List.cons_append, List.append_assoc, List.nil_append]

theorem entryLines_head (lead entry : Text) (entries : List Text) (rest : Text) :
    ∃ tail, entryLines lead (entry :: entries) ++ rest = lead ++ (entry ++ tail) := by
  cases entries with
  | nil => exact ⟨rest, by rw [entryLines, List.append_assoc]⟩
  | cons other entries =>
    exact ⟨',' :: entryLines lead (other :: entries) ++ rest, by
      simp only [entryLines, List.append_assoc]⟩

theorem bracketed_head (opening closing : Char) (indent : Text) (entries : List Text)
    (rest : Text) : ∃ tail, bracketed opening closing indent entries ++ rest = opening :: tail := by
  cases entries with
  | nil => exact ⟨_, rfl⟩
  | cons entry entries => exact ⟨_, bracketed_cons opening closing indent entry entries rest⟩

theorem indentedText_head (indent : Text) (v : JsValue) (rest : Text) :
    ∃ c cs, indentedText indent v ++ rest = c :: cs ∧ Opens c := by
  cases v with
  | arr elements =>
    obtain ⟨tail, text⟩ := bracketed_head '[' ']' indent
      (indentedElements (' ' :: ' ' :: indent) elements) rest
    exact ⟨_, tail, text, ⟨by decide, by decide, by decide, by decide⟩⟩
  | obj members =>
    obtain ⟨tail, text⟩ := bracketed_head '\x7b' '\x7d' indent
      (indentedMembers (' ' :: ' ' :: indent) members) rest
    exact ⟨_, tail, text, ⟨by decide, by decide, by decide, by decide⟩⟩
  | undefined => exact jsonText_head .undefined rest
  | null => exact jsonText_head .null rest
  | bool b => exact jsonText_head (.bool b) rest
  | num n => exact jsonText_head (.num n) rest
  | str s => exact jsonText_head (.str s) rest

theorem indentedText_pos (indent : Text) (v : JsValue) : 0 < (indentedText indent v).length := by
  obtain ⟨c, cs, text, -⟩ := indentedText_head indent v []
  rw [List.append_nil] at text
  rw [text]
  exact Nat.succ_pos _

theorem two_spaces {indent : Text} (margin : Spaces indent) :
    Spaces (' ' :: ' ' :: indent) := (margin.cons (by decide)).cons (by decide)

/-- Reading the indented text of a plain value returns the value and leaves the rest. -/
theorem readsAs_indentedText (v : JsValue) (plain : isPlain v = true) {indent : Text}
    (margin : Spaces indent) : ReadsAs (indentedText indent v) v := by
  induction v generalizing indent with
  | undefined => simp [isPlain] at plain
  | null => exact fun fuel rest => readValue_jsonText .null plain fuel rest
  | bool b => exact fun fuel rest => readValue_jsonText (.bool b) plain fuel rest
  | num n => exact fun fuel rest => readValue_jsonText (.num n) plain fuel rest
  | str s => exact fun fuel rest => readValue_jsonText (.str s) plain fuel rest
  | arr elements ih =>
    intro fuel rest enough ends
    obtain ⟨fuel, rfl⟩ :=
      Nat.exists_eq_add_of_le' (Nat.lt_of_lt_of_le (indentedText_pos _ _) enough)
    simp only [isPlain, allPlain_iff] at plain
    rw [indentedText, indentedElements_eq] at enough ⊢
    cases elements with
    | nil => rfl
    | cons v vs =>
      have deeper := two_spaces margin
      have lines : Spaces ('\n' :: ' ' :: ' ' :: indent) := deeper.cons (by decide)
      rw [List.map_cons, bracketed_cons]
      have length := congrArg List.length (bracketed_cons '[' ']' indent
        (indentedText (' ' :: ' ' :: indent) v)
        (vs.map (indentedText (' ' :: ' ' :: indent))) [])
      simp only [List.append_nil, List.length_cons, List.length_append] at length
      rw [List.map_cons] at enough
      have bound : (entryLines ('\n' :: ' ' :: ' ' :: indent)
          ((v :: vs).map (indentedText (' ' :: ' ' :: indent)))).length + 1 ≤ fuel := by
        rw [List.map_cons]
        omega
      have read := readElements_lines lines margin (List.cons_ne_nil v vs)
        (fun w member => ih w member (plain w member) deeper) fuel rest bound
      rw [List.map_cons] at read
      obtain ⟨tail, front⟩ := entryLines_head ('\n' :: ' ' :: ' ' :: indent)
        (indentedText (' ' :: ' ' :: indent) v)
        (vs.map (indentedText (' ' :: ' ' :: indent))) ('\n' :: (indent ++ ']' :: rest))
      obtain ⟨c, cs, text, opens⟩ := indentedText_head (' ' :: ' ' :: indent) v tail
      refine readValue_iff.mpr (.array (skipSpace_of_head (by decide)) ?_ read)
      rw [front, skipSpace_spaces lines, text]
      exact readWord_otherMark opens.space opens.bracket.symm _
  | obj members ih =>
    intro fuel rest enough ends
    obtain ⟨fuel, rfl⟩ :=
      Nat.exists_eq_add_of_le' (Nat.lt_of_lt_of_le (indentedText_pos _ _) enough)
    simp only [isPlain, allMembersPlain_iff] at plain
    rw [indentedText, indentedMembers_present _ fun m member => plain_present (plain m member)]
      at enough ⊢
    cases members with
    | nil => rfl
    | cons m ms =>
      have deeper := two_spaces margin
      have lines : Spaces ('\n' :: ' ' :: ' ' :: indent) := deeper.cons (by decide)
      rw [List.map_cons, bracketed_cons]
      have length := congrArg List.length (bracketed_cons '\x7b' '\x7d' indent
        (quote m.1 ++ ':' :: ' ' :: indentedText (' ' :: ' ' :: indent) m.2)
        (ms.map fun m => quote m.1 ++ ':' :: ' ' :: indentedText (' ' :: ' ' :: indent) m.2) [])
      simp only [List.append_nil, List.length_cons, List.length_append] at length
      rw [List.map_cons] at enough
      have read := readMembers_lines lines margin (List.cons_ne_nil m ms)
        (fun w member => ih w member (plain w member) deeper) fuel rest
        (by rw [List.map_cons]; omega)
      rw [List.map_cons] at read
      obtain ⟨tail, front⟩ := entryLines_head ('\n' :: ' ' :: ' ' :: indent)
        (quote m.1 ++ ':' :: ' ' :: indentedText (' ' :: ' ' :: indent) m.2)
        (ms.map fun m => quote m.1 ++ ':' :: ' ' :: indentedText (' ' :: ' ' :: indent) m.2)
        ('\n' :: (indent ++ '\x7d' :: rest))
      refine readValue_iff.mpr (.object (skipSpace_of_head (by decide)) ?_ read)
      rw [front, skipSpace_spaces lines, List.append_assoc, quote, List.cons_append]
      exact readWord_otherMark (by decide) (by decide) _

/-- A file that was written with an indent is read as what was written. -/
theorem parse_indentedText {v : JsValue} (plain : isPlain v = true) (ordered : isOrdered v = true) :
    parse (indentedText [] v) = some v := by
  have empty : Spaces [] := fun c member => absurd member List.not_mem_nil
  have read := readsAs_indentedText v plain empty ((indentedText [] v).length + 1) [] (by omega)
    endsNumber_nil
  rw [List.append_nil] at read
  simp [parse, read, skipSpace, settle_ordered ordered]

end NeuralMesh.Js
