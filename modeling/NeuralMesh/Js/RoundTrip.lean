import NeuralMesh.Js.Parse

/-! The reader inverts `JSON.stringify` on JSON values, so JSON texts are read in
one way only. -/
namespace NeuralMesh.Js

/-! ### White space -/

theorem skipSpace_of_head {c : Char} {cs : Text} (h : isJsonSpace c = false) :
    skipSpace (c :: cs) = c :: cs := by
  simp [skipSpace, h]

theorem readWord_mark {c : Char} (visible : isJsonSpace c = false) (rest : Text) :
    readWord [c] (skipSpace (c :: rest)) = some rest := by
  rw [skipSpace_of_head visible, readWord_cons]

theorem readWord_otherMark {c d : Char} (visible : isJsonSpace d = false) (differ : c ≠ d)
    (rest : Text) : readWord [c] (skipSpace (d :: rest)) = none := by
  rw [skipSpace_of_head visible, readWord_ne _ _ differ]

/-- A character that starts no value and no space, so it ends a value. -/
def Closes (c : Char) : Prop := c = ',' ∨ c = ']' ∨ c = '}'

theorem endsNumber_of_closes {c : Char} (closes : Closes c) (rest : Text) :
    EndsNumber (c :: rest) := by
  intro d head
  obtain rfl : c = d := by simpa using head
  rcases closes with rfl | rfl | rfl <;> decide

theorem endsNumber_nil : EndsNumber [] := by
  intro c head
  simp at head

/-! ### First characters -/

/-- Every JSON text of a value starts with a character that opens values. -/
structure Opens (c : Char) : Prop where
  space : isJsonSpace c = false
  bracket : c ≠ ']'
  brace : c ≠ '}'
  comma : c ≠ ','

theorem opens_digit {c : Char} (digit : isDigit c = true) : Opens c := by
  simp only [isDigit, Bool.and_eq_true, decide_eq_true_eq] at digit
  have apart (d : Char) (outside : d.toNat < 48 ∨ 57 < d.toNat) : c ≠ d := by
    rintro rfl
    omega
  refine ⟨?_, apart _ (by decide), apart _ (by decide), apart _ (by decide)⟩
  simp only [isJsonSpace, Bool.or_eq_false_iff, beq_eq_false_iff_ne]
  exact ⟨⟨⟨apart _ (by decide), apart _ (by decide)⟩, apart _ (by decide)⟩, apart _ (by decide)⟩

theorem numberText_head (d : Decimal) (rest : Text) :
    ∃ c cs, numberText d ++ rest = c :: cs ∧ (c = '-' ∨ isDigit c = true) := by
  unfold numberText
  split_ifs
  · exact ⟨'-', _, rfl, .inl rfl⟩
  · obtain ⟨c, cs, text, digit⟩ := magnitudeText_head d.coefficient.natAbs d.exponent rest
    exact ⟨c, cs, text, .inr digit⟩

theorem jsonText_head (v : JsValue) (rest : Text) :
    ∃ c cs, jsonText v ++ rest = c :: cs ∧ Opens c := by
  have constant (c : Char) (h : Opens c) (cs : Text) :
      ∃ d ds, c :: cs = d :: ds ∧ Opens d := ⟨c, cs, rfl, h⟩
  cases v with
  | undefined | null => exact constant 'n' ⟨by decide, by decide, by decide, by decide⟩ _
  | bool b =>
    cases b
    · exact constant 'f' ⟨by decide, by decide, by decide, by decide⟩ _
    · exact constant 't' ⟨by decide, by decide, by decide, by decide⟩ _
  | num n =>
    cases n with
    | finite d =>
      obtain ⟨c, cs, text, first⟩ := numberText_head d rest
      refine ⟨c, cs, text, ?_⟩
      rcases first with rfl | digit
      · exact ⟨by decide, by decide, by decide, by decide⟩
      · exact opens_digit digit
    | nan | infinite => exact constant 'n' ⟨by decide, by decide, by decide, by decide⟩ _
  | str s => exact constant '"' ⟨by decide, by decide, by decide, by decide⟩ _
  | arr => exact constant '[' ⟨by decide, by decide, by decide, by decide⟩ _
  | obj => exact constant '\x7b' ⟨by decide, by decide, by decide, by decide⟩ _

theorem jsonText_length (v : JsValue) : 0 < (jsonText v).length := by
  obtain ⟨c, cs, text, _⟩ := jsonText_head v []
  rw [List.append_nil] at text
  simp [text]

/-! ### Reading back -/

theorem readScalar_number (d : Decimal) (ends : EndsNumber rest) :
    readScalar (numberText d ++ rest) = some (.num (.finite d), rest) := by
  have read := readNumber_numberText d ends
  obtain ⟨c, cs, text, first⟩ := numberText_head d rest
  have apart (w : Char) (word : Text) (h : w ≠ '-' ∧ isDigit w = false) :
      readWord (w :: word) (numberText d ++ rest) = none := by
    rw [text]
    apply readWord_ne
    rintro rfl
    rcases first with rfl | digit
    · exact h.1 rfl
    · simp [h.2] at digit
  simp only [readScalar, nullText, boolText, apart 'n' _ (by decide), apart 't' _ (by decide),
    apart 'f' _ (by decide), read, Option.map_some]

theorem readValue_scalar {c : Char} {cs rest : Text} {v : JsValue} (fuel : Nat)
    (opens : Opens c) (plain : c ≠ '"' ∧ c ≠ '[' ∧ c ≠ '\x7b')
    (read : readScalar (c :: cs) = some (v, rest)) :
    readValue (fuel + 1) (c :: cs) = some (v, rest) :=
  readValue_iff.mpr (.scalar (skipSpace_of_head opens.space) plain read)

/-- The elements of an array are read back, given that each element is. -/
theorem readElements_texts {vs : List JsValue} (nonempty : vs ≠ [])
    (each : ∀ v ∈ vs, ∀ fuel rest, (jsonText v).length ≤ fuel → EndsNumber rest →
      readValue fuel (jsonText v ++ rest) = some (v, rest))
    (fuel : Nat) (rest : Text) (enough : (commaJoin (vs.map jsonText)).length + 1 ≤ fuel) :
    readElements fuel (commaJoin (vs.map jsonText) ++ ']' :: rest) = some (vs, rest) := by
  induction vs generalizing fuel with
  | nil => exact absurd rfl nonempty
  | cons v vs ih =>
    cases fuel with
    | zero => omega
    | succ fuel =>
      have first := each v List.mem_cons_self fuel
      refine readElements_iff.mpr ?_
      cases vs with
      | nil =>
        simp only [List.map_cons, List.map_nil, commaJoin] at enough ⊢
        exact .last (first _ (by omega) (endsNumber_of_closes (.inr (.inl rfl)) rest))
          (readWord_otherMark (by decide) (by decide) _) (readWord_mark (by decide) _)
      | cons w vs =>
        have later := ih (by simp) (fun v member => each v (List.mem_cons_of_mem _ member)) fuel
        have positive := jsonText_length v
        simp only [List.map_cons, commaJoin, List.length_append, List.length_cons] at enough later ⊢
        rw [List.append_assoc, List.cons_append]
        exact .more (first _ (by omega) (endsNumber_of_closes (.inl rfl) _))
          (readWord_mark (by decide) _) (later (by omega))

theorem memberRead_quote {fuel : Nat} {k : JsString} {v : JsValue} {tail after : Text}
    (value : readValue fuel tail = some (v, after)) :
    MemberRead fuel (quote k ++ ':' :: tail) after k v := by
  have whole : quote k ++ ':' :: tail = '"' :: (quoteBody k ++ '"' :: ':' :: tail) := by
    simp only [quote, List.cons_append, List.append_assoc, List.nil_append]
  rw [whole]
  exact .intro (readWord_mark (by decide) _) (readString_quoteBody k _)
    (readWord_mark (by decide) _) value

theorem readMembers_texts {ms : List (JsString × JsValue)} (nonempty : ms ≠ [])
    (each : ∀ m ∈ ms, ∀ fuel rest, (jsonText m.2).length ≤ fuel → EndsNumber rest →
      readValue fuel (jsonText m.2 ++ rest) = some (m.2, rest))
    (fuel : Nat) (rest : Text)
    (enough : (commaJoin (ms.map fun m => quote m.1 ++ ':' :: jsonText m.2)).length + 1 ≤ fuel) :
    readMembers fuel (commaJoin (ms.map fun m => quote m.1 ++ ':' :: jsonText m.2) ++ '\x7d' :: rest) =
      some (ms, rest) := by
  induction ms generalizing fuel with
  | nil => exact absurd rfl nonempty
  | cons m ms ih =>
    obtain ⟨k, v⟩ := m
    cases fuel with
    | zero => omega
    | succ fuel =>
      have first : ∀ rest, (jsonText v).length ≤ fuel → EndsNumber rest →
          readValue fuel (jsonText v ++ rest) = some (v, rest) :=
        each (k, v) List.mem_cons_self fuel
      refine readMembers_iff.mpr ?_
      cases ms with
      | nil =>
        simp only [List.map_cons, List.map_nil, commaJoin, List.length_append,
          List.length_cons] at enough ⊢
        rw [List.append_assoc, List.cons_append]
        have value := first _ (by omega) (endsNumber_of_closes (.inr (.inr rfl)) rest)
        exact .last (memberRead_quote value) (readWord_otherMark (by decide) (by decide) _)
          (readWord_mark (by decide) _)
      | cons m ms =>
        have later := ih (by simp) (fun m member => each m (List.mem_cons_of_mem _ member)) fuel
        simp only [List.map_cons, commaJoin, List.length_append, List.length_cons] at enough later ⊢
        rw [List.append_assoc, List.append_assoc, List.cons_append, List.cons_append]
        exact .more (memberRead_quote (first _ (by omega) (endsNumber_of_closes (.inl rfl) _)))
          (readWord_mark (by decide) _) (later (by omega))

/-- Reading the text of a plain value returns the value and leaves the rest. -/
theorem readValue_jsonText (v : JsValue) (plain : isPlain v = true) (fuel : Nat) (rest : Text)
    (enough : (jsonText v).length ≤ fuel) (ends : EndsNumber rest) :
    readValue fuel (jsonText v ++ rest) = some (v, rest) := by
  induction v generalizing fuel rest with
  | undefined => simp [isPlain] at plain
  | null =>
    obtain ⟨fuel, rfl⟩ := Nat.exists_eq_add_of_le' (Nat.lt_of_lt_of_le (jsonText_length _) enough)
    exact readValue_scalar fuel ⟨by decide, by decide, by decide, by decide⟩ (by decide) rfl
  | bool b =>
    obtain ⟨fuel, rfl⟩ := Nat.exists_eq_add_of_le' (Nat.lt_of_lt_of_le (jsonText_length _) enough)
    cases b <;>
      exact readValue_scalar fuel ⟨by decide, by decide, by decide, by decide⟩ (by decide) rfl
  | num n =>
    obtain ⟨fuel, rfl⟩ := Nat.exists_eq_add_of_le' (Nat.lt_of_lt_of_le (jsonText_length _) enough)
    cases n with
    | finite d =>
      have read := readScalar_number d ends
      obtain ⟨c, cs, text, first⟩ := numberText_head d rest
      have opens : Opens c := by
        rcases first with rfl | digit
        · exact ⟨by decide, by decide, by decide, by decide⟩
        · exact opens_digit digit
      have scalar : c ≠ '"' ∧ c ≠ '[' ∧ c ≠ '\x7b' := by
        rcases first with rfl | digit
        · decide
        · refine ⟨?_, ?_, ?_⟩ <;> (rintro rfl; simp [isDigit] at digit)
      rw [text] at read
      simpa only [jsonText, JsNumber.jsonText, text] using readValue_scalar fuel opens scalar read
    | nan | infinite => simp [isPlain] at plain
  | str s =>
    obtain ⟨fuel, rfl⟩ := Nat.exists_eq_add_of_le' (Nat.lt_of_lt_of_le (jsonText_length _) enough)
    simp only [jsonText, quote, List.cons_append, List.append_assoc, List.nil_append]
    exact readValue_iff.mpr (.string (skipSpace_of_head (by decide)) (readString_quoteBody s rest))
  | arr elements ih =>
    obtain ⟨fuel, rfl⟩ := Nat.exists_eq_add_of_le' (Nat.lt_of_lt_of_le (jsonText_length _) enough)
    simp only [isPlain, allPlain_iff] at plain
    simp only [jsonText, elementTexts_eq, List.length_cons, List.length_append] at enough ⊢
    cases elements with
    | nil => rfl
    | cons v vs =>
      have read := readElements_texts (List.cons_ne_nil v vs)
        (fun w member fuel rest => ih w member (plain w member) fuel rest) fuel rest
        (by simpa using enough)
      obtain ⟨c, cs, text, opens⟩ := jsonText_head v (commaTail (vs.map jsonText) ++ ']' :: rest)
      rw [List.map_cons, commaJoin_cons, List.append_assoc, text] at read
      simp only [List.map_cons, commaJoin_cons, List.cons_append, List.append_assoc, List.nil_append, text]
      exact readValue_iff.mpr (.array (skipSpace_of_head (by decide))
        (readWord_otherMark opens.space opens.bracket.symm _) read)
  | obj members ih =>
    obtain ⟨fuel, rfl⟩ := Nat.exists_eq_add_of_le' (Nat.lt_of_lt_of_le (jsonText_length _) enough)
    simp only [isPlain, allMembersPlain_iff] at plain
    simp only [jsonText, memberTexts_present fun m member => plain_present (plain m member), List.length_cons, List.length_append]
      at enough ⊢
    cases members with
    | nil => rfl
    | cons m ms =>
      have read := readMembers_texts (List.cons_ne_nil m ms)
        (fun w member fuel rest => ih w member (plain w member) fuel rest) fuel rest
        (by simpa using enough)
      rw [List.map_cons, commaJoin_cons] at read ⊢
      simp only [quote, List.cons_append, List.append_assoc, List.nil_append] at read ⊢
      exact readValue_iff.mpr (.object (skipSpace_of_head (by decide))
        (readWord_otherMark (by decide) (by decide) _) read)

/-- Two plain values with the same text are the same value. -/
theorem jsonText_injective {v w : JsValue} (left : isPlain v = true) (right : isPlain w = true)
    (same : jsonText v = jsonText w) : v = w := by
  have read := readValue_jsonText v left (jsonText v).length [] le_rfl endsNumber_nil
  rw [same, readValue_jsonText w right _ [] le_rfl endsNumber_nil] at read
  simpa [eq_comm] using read

/-! ### Own properties -/

theorem setProperty_last {key : JsString} {ms : List (JsString × β)}
    (after : ∀ m ∈ ms, precedes m.1 key = true) (value : β) :
    setProperty key value ms = ms ++ [(key, value)] := by
  induction ms with
  | nil => rfl
  | cons m ms ih =>
    obtain ⟨k, v⟩ := m
    have before : precedes k key = true := after (k, v) List.mem_cons_self
    simp only [setProperty, precedes_ne before, if_false, before, if_true, List.cons_append,
      ih fun m member => after m (List.mem_cons_of_mem _ member)]

theorem foldl_setProperty {ms : List (JsString × β)}
    (ordered : ms.Pairwise fun a b => precedes a.1 b.1 = true) :
    ms.foldl (fun created m => setProperty m.1 m.2 created) [] = ms := by
  induction ms using List.reverseRecOn with
  | nil => rfl
  | append_singleton ms m ih =>
    obtain ⟨initial, _, before⟩ := List.pairwise_append.mp ordered
    rw [List.foldl_append, ih initial]
    exact setProperty_last (fun a member => before a member m (List.mem_singleton_self m)) m.2

theorem createProperties_ordered {ms : List (JsString × JsValue)}
    (ordered : ms.Pairwise fun a b => precedes a.1 b.1 = true) : createProperties ms = ms :=
  foldl_setProperty ordered

@[simp] theorem settleAll_eq (vs : List JsValue) : settleAll vs = vs.map settle := by
  induction vs with
  | nil => rfl
  | cons v vs ih => rw [settleAll, ih, List.map_cons]

@[simp] theorem settleMembers_eq (ms : List (JsString × JsValue)) :
    settleMembers ms = ms.map fun m => (m.1, settle m.2) := by
  induction ms with
  | nil => rfl
  | cons m ms ih => rw [settleMembers, ih, List.map_cons]

theorem settle_ordered {v : JsValue} (ordered : isOrdered v = true) : settle v = v := by
  induction v with
  | undefined | null | bool | num | str => rfl
  | arr elements ih =>
    simp only [isOrdered, allOrdered_iff] at ordered
    rw [settle, settleAll_eq, List.map_congr_left fun v member => ih v member (ordered v member),
      List.map_id']
  | obj members ih =>
    obtain ⟨sorted, ordered⟩ := (isOrdered_obj members).mp ordered
    have same : members.map (fun m => (m.1, settle m.2)) = members := by
      conv_rhs => rw [← List.map_id' members]
      exact List.map_congr_left fun m member =>
        Prod.ext rfl (ih m member (ordered m member))
    rw [settle, settleMembers_eq, same, createProperties_ordered sorted]

theorem parse_plain {v : JsValue} (plain : isPlain v = true) :
    parse (jsonText v) = some (settle v) := by
  have read := readValue_jsonText v plain ((jsonText v).length + 1) [] (by omega) endsNumber_nil
  rw [List.append_nil] at read
  simp [parse, read, skipSpace]

theorem parse_jsonText {v : JsValue} (plain : isPlain v = true) (ordered : isOrdered v = true) :
    parse (jsonText v) = some v := by
  rw [parse_plain plain, settle_ordered ordered]

/-! ### What a JSON text carries -/

mutual

/-- The value that `JSON.stringify` writes: absent members are left out, other
unserialisable values become `null`. -/
def transmitted : JsValue → JsValue
  | .undefined => .null
  | .num (.finite d) => .num (.finite d)
  | .num _ => .null
  | .null => .null
  | .bool b => .bool b
  | .str s => .str s
  | .arr elements => .arr (transmittedAll elements)
  | .obj members => .obj (transmittedMembers members)

def transmittedAll : List JsValue → List JsValue
  | [] => []
  | v :: vs => transmitted v :: transmittedAll vs

def transmittedMembers : List (JsString × JsValue) → List (JsString × JsValue)
  | [] => []
  | (_, .undefined) :: ms => transmittedMembers ms
  | (k, v) :: ms => (k, transmitted v) :: transmittedMembers ms

end

@[simp] theorem transmittedAll_eq (vs : List JsValue) : transmittedAll vs = vs.map transmitted := by
  induction vs with
  | nil => rfl
  | cons v vs ih => rw [transmittedAll, ih, List.map_cons]

theorem transmittedMembers_cons {v : JsValue} (k : JsString) (ms : List (JsString × JsValue))
    (present : v ≠ .undefined) :
    transmittedMembers ((k, v) :: ms) = (k, transmitted v) :: transmittedMembers ms := by
  cases v <;> first | rfl | exact absurd rfl present

theorem transmittedMembers_eq (ms : List (JsString × JsValue)) : transmittedMembers ms =
    ms.filterMap fun m => if isUndefined m.2 then none else some (m.1, transmitted m.2) := by
  induction ms with
  | nil => rfl
  | cons m ms ih =>
    obtain ⟨k, v⟩ := m
    cases v <;> rw [transmittedMembers, ih] <;> first | rfl | simp

theorem mem_transmittedMembers {m : JsString × JsValue} {ms : List (JsString × JsValue)}
    (member : m ∈ transmittedMembers ms) :
    ∃ v, v ≠ .undefined ∧ (m.1, v) ∈ ms ∧ m.2 = transmitted v := by
  induction ms with
  | nil => cases member
  | cons first ms ih =>
    obtain ⟨k, v⟩ := first
    by_cases absent : v = .undefined
    · subst absent
      obtain ⟨w, present, old, value⟩ := ih member
      exact ⟨w, present, List.mem_cons_of_mem _ old, value⟩
    · rw [transmittedMembers_cons k ms absent] at member
      rcases List.mem_cons.mp member with rfl | later
      · exact ⟨v, absent, List.mem_cons_self, rfl⟩
      · obtain ⟨w, present, old, value⟩ := ih later
        exact ⟨w, present, List.mem_cons_of_mem _ old, value⟩

theorem isPlain_transmitted (v : JsValue) : isPlain (transmitted v) = true := by
  induction v with
  | undefined | null | bool | str => rfl
  | num n => cases n <;> rfl
  | arr elements ih =>
    simp only [transmitted, transmittedAll_eq, isPlain, allPlain_iff, List.mem_map]
    rintro _ ⟨v, member, rfl⟩
    exact ih v member
  | obj members ih =>
    simp only [transmitted, isPlain, allMembersPlain_iff]
    intro m member
    obtain ⟨v, _, old, value⟩ := mem_transmittedMembers member
    rw [value]
    exact ih (m.1, v) old

theorem transmitted_present {v : JsValue} (present : v ≠ .undefined) :
    transmitted v ≠ .undefined := by
  cases v with
  | undefined => exact absurd rfl present
  | num n => cases n <;> simp [transmitted]
  | _ => simp [transmitted]

theorem jsonText_transmitted (v : JsValue) : jsonText (transmitted v) = jsonText v := by
  induction v with
  | undefined | null | bool | str => rfl
  | num n => cases n <;> rfl
  | arr elements ih =>
    simp only [transmitted, transmittedAll_eq, jsonText, elementTexts_eq, List.map_map]
    have same : elements.map (jsonText ∘ transmitted) = elements.map jsonText :=
      List.map_congr_left fun v member => ih v member
    rw [same]
  | obj members ih =>
    have same : memberTexts (transmittedMembers members) = memberTexts members := by
      induction members with
      | nil => rfl
      | cons m ms rest =>
        obtain ⟨k, v⟩ := m
        have others := rest fun m member => ih m (List.mem_cons_of_mem _ member)
        by_cases absent : v = .undefined
        · subst absent
          exact others
        · have value : jsonText (transmitted v) = jsonText v := ih (k, v) List.mem_cons_self
          rw [transmittedMembers_cons k ms absent, memberTexts_cons k _ (transmitted_present absent),
            memberTexts_cons k ms absent, value, others]
    simp only [transmitted, jsonText, same]

theorem transmittedMembers_pairwise (R : JsString → JsString → Prop)
    {ms : List (JsString × JsValue)} (sorted : ms.Pairwise fun a b => R a.1 b.1) :
    (transmittedMembers ms).Pairwise fun a b => R a.1 b.1 := by
  induction sorted with
  | nil => exact List.Pairwise.nil
  | @cons m ms before _ ih =>
    obtain ⟨k, v⟩ := m
    by_cases absent : v = .undefined
    · subst absent
      exact ih
    · rw [transmittedMembers_cons k ms absent]
      refine List.pairwise_cons.mpr ⟨fun b member => ?_, ih⟩
      obtain ⟨w, _, old, _⟩ := mem_transmittedMembers member
      exact before (b.1, w) old

theorem isOrdered_transmitted {v : JsValue} (ordered : isOrdered v = true) :
    isOrdered (transmitted v) = true := by
  induction v with
  | undefined | null | bool | str => rfl
  | num n => cases n <;> rfl
  | arr elements ih =>
    simp only [isOrdered, allOrdered_iff] at ordered
    simp only [transmitted, transmittedAll_eq, isOrdered, allOrdered_iff, List.mem_map]
    rintro _ ⟨v, member, rfl⟩
    exact ih v member (ordered v member)
  | obj members ih =>
    obtain ⟨sorted, ordered⟩ := (isOrdered_obj members).mp ordered
    rw [transmitted, isOrdered_obj]
    refine ⟨transmittedMembers_pairwise (fun a b => precedes a b = true) sorted, fun m member => ?_⟩
    obtain ⟨v, _, old, value⟩ := mem_transmittedMembers member
    rw [value]
    exact ih (m.1, v) old (ordered (m.1, v) old)

theorem transmitted_plain {v : JsValue} (plain : isPlain v = true) : transmitted v = v :=
  jsonText_injective (isPlain_transmitted v) plain (jsonText_transmitted v)

theorem jsonText_eq_iff {v w : JsValue} : jsonText v = jsonText w ↔ transmitted v = transmitted w := by
  constructor
  · intro same
    rw [← jsonText_transmitted v, ← jsonText_transmitted w] at same
    exact jsonText_injective (isPlain_transmitted v) (isPlain_transmitted w) same
  · intro same
    rw [← jsonText_transmitted v, same, jsonText_transmitted]

/-- `JSON.parse(JSON.stringify(v))`. -/
theorem parse_transmitted {v : JsValue} (ordered : isOrdered v = true) :
    parse (jsonText v) = some (transmitted v) := by
  rw [← jsonText_transmitted]
  exact parse_jsonText (isPlain_transmitted v) (isOrdered_transmitted ordered)

end NeuralMesh.Js
