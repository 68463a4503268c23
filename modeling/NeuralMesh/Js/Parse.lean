import NeuralMesh.Js.Value

/-! `JSON.parse`. The reader keeps the members of an object as written; the
properties are created afterwards, a later member replacing an earlier one. -/
namespace NeuralMesh.Js

def isJsonSpace (c : Char) : Bool := c == ' ' || c == '\t' || c == '\n' || c == '\r'

def skipSpace (cs : Text) : Text := cs.dropWhile isJsonSpace

/-- Removes the literal `word` from the front. -/
def readWord (word cs : Text) : Option Text :=
  if word.isPrefixOf cs then some (cs.drop word.length) else none

@[simp] theorem readWord_append (word rest : Text) : readWord word (word ++ rest) = some rest := by
  simp [readWord]

theorem readWord_cons (c : Char) (rest : Text) : readWord [c] (c :: rest) = some rest := by
  simp [readWord]

theorem readWord_ne {c d : Char} (word cs : Text) (different : c ≠ d) :
    readWord (c :: word) (d :: cs) = none := by
  simp [readWord, different]

theorem readWord_eq_some {word cs rest : Text} :
    readWord word cs = some rest ↔ cs = word ++ rest := by
  constructor
  · intro read
    unfold readWord at read
    split_ifs at read with found
    obtain ⟨after, rfl⟩ := List.isPrefixOf_iff_prefix.mp found
    simpa using read
  · rintro rfl
    exact readWord_append word rest

def readScalar (cs : Text) : Option (JsValue × Text) :=
  match readWord nullText cs, readWord (boolText true) cs, readWord (boolText false) cs with
  | some rest, _, _ => some (.null, rest)
  | _, some rest, _ => some (.bool true, rest)
  | _, _, some rest => some (.bool false, rest)
  | _, _, _ => (readNumber cs).map fun (d, rest) => (.num (.finite d), rest)

mutual

def readValue : Nat → Text → Option (JsValue × Text)
  | 0, _ => none
  | fuel + 1, cs =>
    match skipSpace cs with
    | [] => none
    | c :: rest =>
      if c = '"' then (readString rest).map fun (s, rest) => (.str s, rest)
      else if c = '[' then
        match readWord [']'] (skipSpace rest) with
        | some rest => some (.arr [], rest)
        | none => (readElements fuel rest).map fun (vs, rest) => (.arr vs, rest)
      else if c = '{' then
        match readWord ['}'] (skipSpace rest) with
        | some rest => some (.obj [], rest)
        | none => (readMembers fuel rest).map fun (ms, rest) => (.obj ms, rest)
      else readScalar (c :: rest)

/-- At least one element, up to the closing bracket. -/
def readElements : Nat → Text → Option (List JsValue × Text)
  | 0, _ => none
  | fuel + 1, cs =>
    (readValue fuel cs).bind fun (v, rest) =>
      match readWord [','] (skipSpace rest) with
      | some rest => (readElements fuel rest).map fun (vs, rest) => (v :: vs, rest)
      | none => (readWord [']'] (skipSpace rest)).map fun rest => ([v], rest)

/-- At least one member, up to the closing brace. -/
def readMembers : Nat → Text → Option (List (JsString × JsValue) × Text)
  | 0, _ => none
  | fuel + 1, cs =>
    (readWord ['"'] (skipSpace cs)).bind fun rest =>
      (readString rest).bind fun (k, rest) =>
        (readWord [':'] (skipSpace rest)).bind fun rest =>
          (readValue fuel rest).bind fun (v, rest) =>
            match readWord [','] (skipSpace rest) with
            | some rest => (readMembers fuel rest).map fun (ms, rest) => ((k, v) :: ms, rest)
            | none => (readWord ['}'] (skipSpace rest)).map fun rest => ([(k, v)], rest)

end

/-! ### What is read

One step of a reader, by what it finds. -/

section Reads

/-- A value, by the first character after the spaces. -/
inductive ValueRead (fuel : Nat) (cs rest : Text) : JsValue → Prop where
  | string {tail : Text} {s : JsString} (opened : skipSpace cs = '"' :: tail)
      (inner : readString tail = some (s, rest)) : ValueRead fuel cs rest (.str s)
  | emptyArray {tail : Text} (opened : skipSpace cs = '[' :: tail)
      (closed : readWord [']'] (skipSpace tail) = some rest) : ValueRead fuel cs rest (.arr [])
  | array {tail : Text} {vs : List JsValue} (opened : skipSpace cs = '[' :: tail)
      (filled : readWord [']'] (skipSpace tail) = none)
      (inner : readElements fuel tail = some (vs, rest)) : ValueRead fuel cs rest (.arr vs)
  | emptyObject {tail : Text} (opened : skipSpace cs = '\x7b' :: tail)
      (closed : readWord ['\x7d'] (skipSpace tail) = some rest) : ValueRead fuel cs rest (.obj [])
  | object {tail : Text} {ms : List (JsString × JsValue)} (opened : skipSpace cs = '\x7b' :: tail)
      (filled : readWord ['\x7d'] (skipSpace tail) = none)
      (inner : readMembers fuel tail = some (ms, rest)) : ValueRead fuel cs rest (.obj ms)
  | scalar {c : Char} {tail : Text} {v : JsValue} (opened : skipSpace cs = c :: tail)
      (plain : c ≠ '"' ∧ c ≠ '[' ∧ c ≠ '\x7b') (inner : readScalar (c :: tail) = some (v, rest)) :
      ValueRead fuel cs rest v

/-- An element, and others behind a comma. -/
inductive ElementsRead (fuel : Nat) (cs rest : Text) : List JsValue → Prop where
  | more {v : JsValue} {after later : Text} {vs : List JsValue}
      (first : readValue fuel cs = some (v, after))
      (comma : readWord [','] (skipSpace after) = some later)
      (others : readElements fuel later = some (vs, rest)) : ElementsRead fuel cs rest (v :: vs)
  | last {v : JsValue} {after : Text} (first : readValue fuel cs = some (v, after))
      (noComma : readWord [','] (skipSpace after) = none)
      (close : readWord [']'] (skipSpace after) = some rest) : ElementsRead fuel cs rest [v]

/-- A key with its value. -/
inductive MemberRead (fuel : Nat) (cs after : Text) (k : JsString) (v : JsValue) : Prop where
  | intro {opened named colon : Text} (quoted : readWord ['"'] (skipSpace cs) = some opened)
      (key : readString opened = some (k, named))
      (separated : readWord [':'] (skipSpace named) = some colon)
      (value : readValue fuel colon = some (v, after))

/-- A member, and others behind a comma. -/
inductive MembersRead (fuel : Nat) (cs rest : Text) : List (JsString × JsValue) → Prop where
  | more {k : JsString} {v : JsValue} {after later : Text} {ms : List (JsString × JsValue)}
      (first : MemberRead fuel cs after k v)
      (comma : readWord [','] (skipSpace after) = some later)
      (others : readMembers fuel later = some (ms, rest)) : MembersRead fuel cs rest ((k, v) :: ms)
  | last {k : JsString} {v : JsValue} {after : Text} (first : MemberRead fuel cs after k v)
      (noComma : readWord [','] (skipSpace after) = none)
      (close : readWord ['\x7d'] (skipSpace after) = some rest) : MembersRead fuel cs rest [(k, v)]

variable {fuel : Nat} {cs rest : Text}

theorem readValue_iff {v : JsValue} :
    readValue (fuel + 1) cs = some (v, rest) ↔ ValueRead fuel cs rest v := by
  rw [readValue]
  constructor
  · intro read
    split at read
    · cases read
    · next c tail opened =>
      split_ifs at read with string array object
      · obtain ⟨⟨s, after⟩, inner, same⟩ := Option.map_eq_some_iff.mp read
        cases same
        exact .string (string ▸ opened) inner
      · split at read
        · next after closed =>
          cases read
          exact .emptyArray (array ▸ opened) closed
        · next filled =>
          obtain ⟨⟨vs, after⟩, inner, same⟩ := Option.map_eq_some_iff.mp read
          cases same
          exact .array (array ▸ opened) filled inner
      · split at read
        · next after closed =>
          cases read
          exact .emptyObject (object ▸ opened) closed
        · next filled =>
          obtain ⟨⟨ms, after⟩, inner, same⟩ := Option.map_eq_some_iff.mp read
          cases same
          exact .object (object ▸ opened) filled inner
      · exact .scalar opened ⟨string, array, object⟩ read
  · intro read
    cases read with
    | string opened inner => simp only [opened, if_true, inner, Option.map_some]
    | emptyArray opened closed =>
      simp only [opened, if_neg (by decide : ¬ '[' = '"'), if_true, closed]
    | array opened filled inner =>
      simp only [opened, if_neg (by decide : ¬ '[' = '"'), if_true, filled, inner, Option.map_some]
    | emptyObject opened closed =>
      simp only [opened, if_neg (by decide : ¬ '\x7b' = '"'), if_neg (by decide : ¬ '\x7b' = '['),
        if_true, closed]
    | object opened filled inner =>
      simp only [opened, if_neg (by decide : ¬ '\x7b' = '"'), if_neg (by decide : ¬ '\x7b' = '['),
        if_true, filled, inner, Option.map_some]
    | scalar opened plain inner =>
      simp only [opened, if_neg plain.1, if_neg plain.2.1, if_neg plain.2.2, inner]

theorem readElements_iff {vs : List JsValue} :
    readElements (fuel + 1) cs = some (vs, rest) ↔ ElementsRead fuel cs rest vs := by
  rw [readElements]
  constructor
  · intro read
    obtain ⟨⟨v, after⟩, first, read⟩ := Option.bind_eq_some_iff.mp read
    dsimp only at read
    split at read
    · next later comma =>
      obtain ⟨⟨ws, last⟩, others, same⟩ := Option.map_eq_some_iff.mp read
      cases same
      exact .more first comma others
    · next noComma =>
      obtain ⟨last, close, same⟩ := Option.map_eq_some_iff.mp read
      cases same
      exact .last first noComma close
  · intro read
    cases read with
    | more first comma others =>
      simp only [first, Option.bind_some, comma, others, Option.map_some]
    | last first noComma close =>
      simp only [first, Option.bind_some, noComma, close, Option.map_some]

theorem readMembers_iff {ms : List (JsString × JsValue)} :
    readMembers (fuel + 1) cs = some (ms, rest) ↔ MembersRead fuel cs rest ms := by
  rw [readMembers]
  constructor
  · intro read
    obtain ⟨opened, quoted, read⟩ := Option.bind_eq_some_iff.mp read
    obtain ⟨⟨k, named⟩, key, read⟩ := Option.bind_eq_some_iff.mp read
    obtain ⟨colon, separated, read⟩ := Option.bind_eq_some_iff.mp read
    obtain ⟨⟨v, after⟩, value, read⟩ := Option.bind_eq_some_iff.mp read
    have first : MemberRead fuel cs after k v := .intro quoted key separated value
    dsimp only at read
    split at read
    · next later comma =>
      obtain ⟨⟨ns, last⟩, others, same⟩ := Option.map_eq_some_iff.mp read
      cases same
      exact .more first comma others
    · next noComma =>
      obtain ⟨last, close, same⟩ := Option.map_eq_some_iff.mp read
      cases same
      exact .last first noComma close
  · intro read
    cases read with
    | more first comma others =>
      obtain ⟨quoted, key, separated, value⟩ := first
      simp only [quoted, key, separated, value, Option.bind_some, comma, others, Option.map_some]
    | last first noComma close =>
      obtain ⟨quoted, key, separated, value⟩ := first
      simp only [quoted, key, separated, value, Option.bind_some, noComma, close, Option.map_some]

end Reads

/-! ### Own properties -/

def setProperty (key : JsString) (value : β) : List (JsString × β) → List (JsString × β)
  | [] => [(key, value)]
  | (k, v) :: ms =>
    if k = key then (k, value) :: ms
    else if precedes k key then (k, v) :: setProperty key value ms
    else (key, value) :: (k, v) :: ms

def createProperties (members : List (JsString × JsValue)) : List (JsString × JsValue) :=
  members.foldl (fun ms m => setProperty m.1 m.2 ms) []

mutual

/-- Turns the members as written into the own properties of each object. -/
def settle : JsValue → JsValue
  | .arr elements => .arr (settleAll elements)
  | .obj members => .obj (createProperties (settleMembers members))
  | v => v

def settleAll : List JsValue → List JsValue
  | [] => []
  | v :: vs => settle v :: settleAll vs

def settleMembers : List (JsString × JsValue) → List (JsString × JsValue)
  | [] => []
  | (k, v) :: ms => (k, settle v) :: settleMembers ms

end

/-- `JSON.parse`; `none` is a `SyntaxError`. -/
def parse (text : Text) : Option JsValue :=
  match readValue (text.length + 1) text with
  | some (v, rest) => if skipSpace rest = [] then some (settle v) else none
  | none => none

end NeuralMesh.Js
