import NeuralMesh.Gateway.ProxyExtraction

/-! A name that the verifier reads back is plain. A quote in the name ends the string
early, and what follows it is read as more of the object; but then every string up to the
arguments is shorter than the name. The proof follows the reader from within the name over
the quote that closes it. -/
namespace NeuralMesh.Gateway

open Js Codec Worker

/-! ### Crossing the quote after the name -/

/-- From the quote that closes the name on. -/
def closing (args : Text) : Text := '"' :: nameTail args [';']

/-- From the key of the arguments on, without its quote. -/
def openKey (args : Text) : Text := argsKey ++ '"' :: argumentTail args [';']

/-- The text is within the name or at its end. -/
def InName (args : Text) (room : Nat) (cs : Text) : Prop :=
  ∃ inner, cs = inner ++ closing args ∧ units inner ≤ room

/-- Where the reader can be after a value that began in the name. -/
inductive Stop (args : Text) (room : Nat) : Text → Prop where
  | within {cs : Text} (inName : InName args room cs) : Stop args room cs
  /-- The closing quote closed a string. -/
  | closed : Stop args room (nameTail args [';'])
  /-- The quote before the key of the arguments closed a string. -/
  | key : Stop args room (openKey args)
  | finished : Stop args room [';']

variable {args : Text} {room : Nat}

theorem InName.mono {cs : Text} {more : Nat} (inName : InName args room cs) (le : room ≤ more) :
    InName args more cs := by
  obtain ⟨inner, same, bound⟩ := inName
  exact ⟨inner, same, bound.trans le⟩

theorem Stop.mono {cs : Text} {more : Nat} (stop : Stop args room cs) (le : room ≤ more) :
    Stop args more cs := by
  cases stop with
  | within inName => exact .within (inName.mono le)
  | closed => exact .closed
  | key => exact .key
  | finished => exact .finished

theorem InName.skipSpace {cs : Text} (inName : InName args room cs) :
    InName args room (skipSpace cs) := by
  obtain ⟨inner, rfl, bound⟩ := inName
  refine ⟨inner.dropWhile isJsonSpace, ?_, ?_⟩
  · rw [Js.skipSpace, List.dropWhile_append]
    split_ifs with blank
    · rw [List.isEmpty_iff.mp blank]
      rfl
    · rfl
  · obtain ⟨spaces, whole⟩ := List.dropWhile_suffix isJsonSpace (l := inner)
    rw [← whole, units_append] at bound
    omega

/-- A string from within the name. -/
theorem readString_closing {inner rest : Text} {s : JsString}
    (read : readString (inner ++ closing args) = some (s, rest)) :
    (∃ later, rest = later ++ closing args ∧ s.length + units later < units inner) ∨
      (rest = nameTail args [';'] ∧ Literal inner s) ∨ rest = openKey args := by
  obtain ⟨lit, literal, whole⟩ := readString_literal read
  rw [closing] at whole
  rcases List.append_eq_append_iff.mp whole with ⟨between, rfl, tail⟩ | ⟨between, rfl, tail⟩
  · rcases between with _ | ⟨a, _ | ⟨b, _ | ⟨c, _ | ⟨d, between⟩⟩⟩⟩
    · rw [List.append_nil] at literal
      exact .inr (.inl ⟨(List.cons.inj tail).2.symm, literal⟩)
    · cases (List.cons.inj (List.cons.inj tail).2).1
    · cases (List.cons.inj (List.cons.inj (List.cons.inj tail).2).2).1
    · exact .inr (.inr (List.cons.inj (List.cons.inj (List.cons.inj
        (List.cons.inj tail).2).2).2).2.symm)
    · -- a quote after a blank would stand within the literal
      simp only [nameTail, List.cons_append, List.cons.injEq] at tail
      obtain ⟨rfl, rfl, rfl, rfl, -⟩ := tail
      have split : inner ++ '"' :: ',' :: ' ' :: '"' :: between =
          (inner ++ ['"', ',']) ++ ' ' :: '"' :: between := by simp
      rw [split] at literal
      exact absurd literal.quote (by decide)
  · cases between with
    | nil =>
      refine .inr (.inl ⟨(List.cons.inj tail).2, ?_⟩)
      rwa [List.append_nil]
    | cons _ later =>
      simp only [List.cons_append, List.cons.injEq] at tail
      obtain ⟨rfl, rfl⟩ := tail
      refine .inl ⟨later, rfl, ?_⟩
      have bound := literal.length_le
      have quote := utf16_length '"'
      rw [units_append, units_cons]
      omega

theorem takesScalar_closing {inner rest : Text} (taken : TakesScalar (inner ++ closing args) rest) :
    InName args (units inner) rest := by
  obtain ⟨used, whole, scalar⟩ := taken
  rcases List.append_eq_append_iff.mp whole with ⟨between, rfl, tail⟩ | ⟨between, rfl, tail⟩
  · cases between with
    | nil => exact ⟨[], tail.symm, Nat.zero_le _⟩
    | cons c between =>
      -- the closing quote is of no scalar
      obtain ⟨rfl, -⟩ := List.cons.inj tail
      cases scalar '"' (List.mem_append_right _ List.mem_cons_self)
  · refine ⟨between, tail, ?_⟩
    rw [units_append]
    omega

theorem InName.readWord {c : Char} (plain : c ≠ '"') {cs rest : Text} (inName : InName args room cs)
    (read : readWord [c] (Js.skipSpace cs) = some rest) : InName args room rest := by
  obtain ⟨inner, same, bound⟩ := inName.skipSpace
  rw [readWord_eq_some.mp read] at same
  cases inner with
  | nil => exact absurd (List.cons.inj same).1 plain
  | cons d inner =>
    obtain ⟨-, rfl⟩ := List.cons.inj same
    refine ⟨inner, rfl, ?_⟩
    rw [units_cons] at bound
    omega

/-- A separator is read within the name, or it is the comma before the key of the arguments. -/
theorem Stop.readWord {c : Char} (separator : c ∈ [',', ':', ']', '\x7d']) {cs rest : Text}
    (stop : Stop args room cs) (read : readWord [c] (skipSpace cs) = some rest) :
    InName args room rest ∨
      c = ',' ∧ rest = ' ' :: '"' :: openKey args := by
  have first := readWord_eq_some.mp read
  rw [List.singleton_append] at first
  cases stop with
  | within inName =>
    have plain : c ≠ '"' := by
      rintro rfl
      simp at separator
    exact .inl (inName.readWord plain read)
  | closed =>
    rw [nameTail, skipSpace_of_head (show isJsonSpace ',' = false by decide)] at first
    obtain ⟨rfl, rfl⟩ := List.cons.inj first
    exact .inr ⟨rfl, rfl⟩
  | key =>
    have head : skipSpace (openKey args) = openKey args :=
      skipSpace_of_head (show isJsonSpace '_' = false by decide)
    rw [head] at first
    obtain ⟨rfl, -⟩ := List.cons.inj (show '_' :: _ = c :: rest from first)
    simp at separator
  | finished =>
    rw [skipSpace_of_head (show isJsonSpace ';' = false by decide)] at first
    obtain ⟨rfl, -⟩ := List.cons.inj first
    simp at separator

/-! ### The reader within the name -/

/-- The string is shorter than the room that was there, unless the reader stops after it. -/
def Short (args : Text) (room : Nat) (rest : Text) (s : JsString) : Prop :=
  rest = openKey args ∨ s.length < room

theorem InName.readString {cs mid rest : Text} {s : JsString} (inName : InName args room cs)
    (quoted : Js.readWord ['"'] (Js.skipSpace cs) = some mid) (read : Js.readString mid = some (s, rest)) :
    Stop args room rest ∧ Short args room rest s := by
  obtain ⟨inner, same, bound⟩ := inName.skipSpace
  rw [readWord_eq_some.mp quoted] at same
  cases inner with
  | nil =>
    -- the closing quote opens a string of two characters
    obtain ⟨-, rfl⟩ := List.cons.inj same
    have opened : Js.readString (nameTail args [';']) = some (ofText [',', ' '], openKey args) :=
      (@literal_plain [',', ' '] (plain_of_all (by decide))).readString _
    rw [opened] at read
    cases read
    exact ⟨.key, .inl rfl⟩
  | cons quote inner =>
    obtain ⟨rfl, rfl⟩ := List.cons.inj same
    have first := utf16_length '"'
    rw [units_cons] at bound
    rcases readString_closing read with ⟨later, rfl, shorter⟩ | ⟨rfl, literal⟩ | rfl
    · exact ⟨.within ⟨later, rfl, by omega⟩, .inr (by omega)⟩
    · have length := literal.length_le
      exact ⟨.closed, .inr (by omega)⟩
    · exact ⟨.key, .inl rfl⟩

theorem readElements_openKey (fuel : Nat) : readElements fuel (' ' :: '"' :: openKey args) = none := by
  match fuel with
  | 0 => rfl
  | 1 => rfl
  | fuel + 2 =>
    rw [readElements, readValue_space, openKey, readValue_literal (literal_plain (plain_of_all (by decide))),
      Option.bind_some]
    dsimp only
    rw [argumentTail, skipSpace_of_head (show isJsonSpace ':' = false by decide),
      readWord_ne _ _ (by decide), readWord_ne _ _ (by decide)]
    rfl

theorem readMembers_openKey {args : Arguments} {fuel : Nat} {rest : Text} {ms : Members}
    (read : readMembers fuel (' ' :: '"' :: openKey args.text) = some (ms, rest)) :
    ms = [(ofText argsKey, args.value)] ∧ rest = [';'] := by
  have more := (read_append fuel (args.text.length + 1) []).2.2 read
  have whole := readMembers_arguments args (fuel + args.text.length) (Nat.le_add_left _ _) [';']
  rw [List.append_nil, List.append_nil, ← Nat.add_assoc] at more
  rw [← openKey, more] at whole
  cases whole
  exact ⟨rfl, rfl⟩

/-- The strings among the values of the members are short. -/
def ShortMembers (room : Nat) (ms : Members) : Prop :=
  ∀ k s, (k, JsValue.str s) ∈ ms → s.length < room

theorem ShortMembers.cons {m : JsString × JsValue} {ms : Members} (first : ShortMembers room [m])
    (rest : ShortMembers room ms) : ShortMembers room (m :: ms) := by
  intro k s member
  rcases List.mem_cons.mp member with here | later
  · exact first k s (List.mem_singleton.mpr here)
  · exact rest k s later

/-- The reader goes on after a member only if its string is short. -/
theorem shortMembers_of_stop {k : JsString} {v : JsValue} {c : Char} {after later : Text}
    (short : ∀ s, v = .str s → Short args room after s) (letter : c ≠ '_')
    (read : readWord [c] (skipSpace after) = some later) : ShortMembers room [(k, v)] := by
  intro k' s member
  cases List.mem_singleton.mp member
  refine (short s rfl).resolve_left ?_
  rintro rfl
  have head : skipSpace (openKey args) = openKey args :=
    skipSpace_of_head (show isJsonSpace '_' = false by decide)
  rw [head] at read
  exact letter (List.cons.inj (show '_' :: _ = c :: later from readWord_eq_some.mp read)).1.symm

/-- A value that begins in the name ends in it, or at one of the quotes after it; no
string on the way is as long as the name. -/
theorem read_inName (args : Arguments) (fuel : Nat) :
    (∀ {room cs rest v}, InName args.text room cs → readValue fuel cs = some (v, rest) →
      Stop args.text room rest ∧ ∀ s, v = .str s → Short args.text room rest s) ∧
    (∀ {room cs rest vs}, InName args.text room cs → readElements fuel cs = some (vs, rest) →
      InName args.text room rest) ∧
    ∀ {room cs rest ms}, InName args.text room cs → readMembers fuel cs = some (ms, rest) →
      (InName args.text room rest ∨ rest = [';']) ∧ ShortMembers room ms := by
  induction fuel with
  | zero => exact ⟨by simp [readValue], by simp [readElements], by simp [readMembers]⟩
  | succ fuel ih =>
    obtain ⟨value, elements, members⟩ := ih
    refine ⟨?_, ?_, ?_⟩
    · intro room cs rest v inName read
      have inside {c : Char} {tail : Text} (opened : skipSpace cs = c :: tail) (plain : c ≠ '"') :
          InName args.text room tail :=
        inName.readWord plain (by rw [opened, readWord_cons])
      cases readValue_iff.mp read with
      | @string tail s opened inner =>
        have quoted : readWord ['"'] (skipSpace cs) = some tail := by rw [opened, readWord_cons]
        obtain ⟨stop, short⟩ := inName.readString quoted inner
        refine ⟨stop, ?_⟩
        rintro _ ⟨⟩
        exact short
      | emptyArray opened closed | emptyObject opened closed =>
        refine ⟨.within ((inside opened (by decide)).readWord (by decide) closed), ?_⟩
        rintro _ ⟨⟩
      | array opened _ inner =>
        refine ⟨.within (elements (inside opened (by decide)) inner), ?_⟩
        rintro _ ⟨⟩
      | object opened _ inner =>
        refine ⟨?_, by rintro _ ⟨⟩⟩
        rcases (members (inside opened (by decide)) inner).1 with within | rfl
        · exact .within within
        · exact .finished
      | scalar opened _ inner =>
        obtain ⟨before, same, bound⟩ := inName.skipSpace
        rw [← opened, same] at inner
        have after := (takesScalar_closing (readScalar_takesScalar inner)).mono bound
        refine ⟨.within after, ?_⟩
        rintro s rfl
        exact absurd inner readScalar_not_string
    · intro room cs rest vs inName read
      cases readElements_iff.mp read with
      | more first comma others =>
        rcases (value inName first).1.readWord (by decide) comma with within | ⟨-, rfl⟩
        · exact elements within others
        · rw [readElements_openKey] at others
          cases others
      | last first _ close =>
        rcases (value inName first).1.readWord (by decide) close with within | ⟨differs, -⟩
        · exact within
        · cases differs
    · intro room cs rest ms inName read
      have member {after : Text} {k : JsString} {v : JsValue}
          (first : MemberRead fuel cs after k v) :
          Stop args.text room after ∧ ∀ s, v = .str s → Short args.text room after s := by
        obtain ⟨quoted, key, separated, inner⟩ := first
        rcases (inName.readString quoted key).1.readWord (by decide) separated
          with within | ⟨differs, -⟩
        · exact value within inner
        · cases differs
      cases readMembers_iff.mp read with
      | @more k v after later ms first comma others =>
        obtain ⟨stop, short⟩ := member first
        have here : ShortMembers room [(k, v)] := shortMembers_of_stop short (by decide) comma
        rcases stop.readWord (by decide) comma with within | ⟨-, rfl⟩
        · obtain ⟨finish, later⟩ := members within others
          exact ⟨finish, here.cons later⟩
        · obtain ⟨rfl, rfl⟩ := readMembers_openKey others
          refine ⟨.inr rfl, here.cons ?_⟩
          simp [ShortMembers, Arguments.value]
      | last first _ close =>
        obtain ⟨stop, short⟩ := member first
        refine ⟨?_, shortMembers_of_stop short (by decide) close⟩
        rcases stop.readWord (by decide) close with within | ⟨differs, -⟩
        · exact .inl within
        · cases differs

/-! ### The name that is read back -/

/-- What the reader makes of the request: the name ends at its quote, or its strings are short. -/
theorem readValue_requestText (args : Arguments) {name rest : Text} {fuel : Nat} {ms : Members}
    (read : readValue fuel (requestText name args.text [';']) = some (.obj ms, rest)) :
    ShortMembers (units name) ms ∨
      ∃ s, Literal name s ∧ ms = [(ofText proxyKey, .str s), (ofText argsKey, args.value)] := by
  match fuel with
  | 0 => cases read
  | 1 => cases read
  | 2 => cases read
  | fuel + 3 =>
    rw [requestText, readObject, readMembers_key (literal_plain (plain_of_all (by decide)))] at read
    obtain ⟨⟨ns, last⟩, inner, same⟩ := Option.map_eq_some_iff.mp read
    cases same
    obtain ⟨⟨v, after⟩, first, inner⟩ := Option.bind_eq_some_iff.mp inner
    dsimp only at inner
    rw [readValue, skipSpace_of_head (show isJsonSpace '"' = false by decide)] at first
    dsimp only at first
    rw [if_pos rfl] at first
    obtain ⟨⟨s, end'⟩, string, same⟩ := Option.map_eq_some_iff.mp first
    cases same
    rcases readString_closing string with ⟨later, rfl, shorter⟩ | ⟨rfl, literal⟩ | rfl
    · -- the name has a quote that ends the string
      have here : ShortMembers (units name) [(ofText proxyKey, .str s)] := by
        intro k t member
        cases List.mem_singleton.mp member
        omega
      have within : InName args.text (units name) (later ++ closing args.text) :=
        ⟨later, rfl, by omega⟩
      refine .inl ?_
      cases comma : readWord [','] (skipSpace (later ++ closing args.text)) with
      | some start =>
        rw [comma] at inner
        obtain ⟨⟨ns, _⟩, others, same⟩ := Option.map_eq_some_iff.mp inner
        cases same
        exact here.cons ((read_inName args _).2.2 (within.readWord (by decide) comma) others).2
      | none =>
        rw [comma] at inner
        obtain ⟨_, -, same⟩ := Option.map_eq_some_iff.mp inner
        cases same
        exact here
    · rw [nameTail, skipSpace_of_head (show isJsonSpace ',' = false by decide), readWord_cons] at inner
      obtain ⟨⟨ns, _⟩, others, same⟩ := Option.map_eq_some_iff.mp inner
      cases same
      obtain ⟨rfl, -⟩ := readMembers_openKey others
      exact .inr ⟨s, literal, rfl⟩
    · have head : skipSpace (openKey args.text) = openKey args.text :=
        skipSpace_of_head (show isJsonSpace '_' = false by decide)
      have comma : readWord [','] (openKey args.text) = none := readWord_ne _ _ (by decide)
      have close : readWord ['\x7d'] (openKey args.text) = none := readWord_ne _ _ (by decide)
      rw [head, comma, close] at inner
      cases inner

theorem settle_str {v : JsValue} {s : JsString} (same : settle v = .str s) : v = .str s := by
  cases v with
  | str t => exact same
  | _ => cases same

theorem asDoubles_str {v : JsValue} {s : JsString} (same : asDoubles v = .str s) : v = .str s := by
  cases v with
  | str t => exact same
  | num n => cases n <;> cases same
  | _ => cases same

/-- A string among the properties was written as a member. -/
theorem written_of_property {key s : JsString} {ms : Members}
    (found : member key (asDoubles (settle (.obj ms))) = .str s) : ∃ k, (k, JsValue.str s) ∈ ms := by
  rw [settle, asDoubles, settleMembers_eq, asDoublesMembers_eq, member] at found
  obtain ⟨⟨k, v⟩, created, same⟩ := List.mem_map.mp (mem_of_property found (by simp))
  obtain ⟨rfl, double⟩ := Prod.mk.inj same
  obtain rfl := asDoubles_str double
  rcases mem_of_mem_assign created with settled | none'
  · obtain ⟨⟨k', w⟩, written, same⟩ := List.mem_map.mp settled
    obtain ⟨rfl, value⟩ := Prod.mk.inj same
    obtain rfl := settle_str value
    exact ⟨_, written⟩
  · cases none'

/-- A character is taken before what the scanner takes next, or it closes the text. -/
theorem balanced_cons (s : Scan) (c : Char) (cs : Text) :
    balanced s (c :: cs) = some [c] ∨
      ∃ next, balanced s (c :: cs) = (balanced next cs).map (c :: ·) := by
  have step (next : Scan) : (balanced next cs).map (c :: ·) = some [c] ∨
      ∃ n, (balanced next cs).map (c :: ·) = (balanced n cs).map (c :: ·) := .inr ⟨next, rfl⟩
  rw [balanced]
  by_cases escaped : s.escaped = true
  · rw [if_pos escaped]
    exact step _
  rw [if_neg escaped]
  by_cases backslash : c = '\\'
  · rw [if_pos backslash]
    exact step _
  rw [if_neg backslash]
  by_cases double : c = '"' ∧ !s.inSingleQuote ∧ !s.inBacktick
  · rw [if_pos double]
    exact step _
  rw [if_neg double]
  by_cases single : c = '\x27' ∧ !s.inDoubleQuote ∧ !s.inBacktick
  · rw [if_pos single]
    exact step _
  rw [if_neg single]
  by_cases backtick : c = '\x60' ∧ !s.inDoubleQuote ∧ !s.inSingleQuote
  · rw [if_pos backtick]
    exact step _
  rw [if_neg backtick]
  by_cases outside : !s.inDoubleQuote ∧ !s.inSingleQuote ∧ !s.inBacktick
  · rw [if_pos outside]
    by_cases opening : c = '\x7b'
    · rw [if_pos opening]
      exact step _
    rw [if_neg opening]
    by_cases closing : c = '\x7d'
    · rw [if_pos closing]
      by_cases last : s.braceCount - 1 = 0
      · rw [if_pos last]
        exact .inl rfl
      · rw [if_neg last]
        exact step _
    · rw [if_neg closing]
      exact step _
  · rw [if_neg outside]
    exact step _

theorem balanced_prefix {s : Scan} {cs t : Text} (taken : balanced s cs = some t) : t <+: cs := by
  induction cs generalizing s t with
  | nil => cases taken
  | cons c cs ih =>
    rcases balanced_cons s c cs with closed | ⟨next, passed⟩
    · obtain rfl := Option.some.inj (closed.symm.trans taken)
      exact List.cons_prefix_cons.mpr ⟨rfl, List.nil_prefix⟩
    · obtain ⟨u, inner, rfl⟩ := Option.map_eq_some_iff.mp (passed.symm.trans taken)
      exact List.cons_prefix_cons.mpr ⟨rfl, ih inner⟩

/-- The verifier reads the name back only if it is plain. -/
theorem plain_of_tryExtract (args : Arguments) {text : Text} {name : JsString} {request : JsValue}
    (length : name.length = units text)
    (extracted : tryExtractProxyOutput (utf8 (proxySource text args.text)) = some request)
    (named : member (ofText proxyKey) request = .str name) :
    name = ofText text ∧ text ≠ [] ∧ ∀ c ∈ text, IsPlainChar c := by
  rw [tryExtract_source] at extracted
  obtain ⟨jsonStr, taken, extracted⟩ := Option.bind_eq_some_iff.mp extracted
  obtain ⟨parsed, read, truthful⟩ := Option.bind_eq_some_iff.mp extracted
  split_ifs at truthful with nonempty
  obtain rfl := Option.some.inj truthful
  obtain ⟨extra, whole⟩ := balanced_prefix taken
  obtain ⟨u, once, rfl⟩ := Option.map_eq_some_iff.mp read
  unfold parse at once
  split at once
  · next v rest value =>
    split_ifs at once with blank
    obtain rfl := Option.some.inj once
    cases jsonStr with
    | nil => cases value
    | cons c cs =>
      obtain rfl : c = '\x7b' := by
        rw [requestText] at whole
        exact (List.cons.inj whole).1
      obtain ⟨ms, rfl, -⟩ := readValue_object value
      have more := (read_append _ 0 extra).1 value (.inr rfl)
      rw [whole] at more
      obtain ⟨k, written⟩ := written_of_property named
      rcases readValue_requestText args more with short | ⟨s, literal, rfl⟩
      · have bound := short k name written
        omega
      · simp only [Arguments.value, List.mem_cons, Prod.mk.injEq, JsValue.str.injEq, reduceCtorEq,
          and_false, List.not_mem_nil, or_false] at written
        obtain ⟨-, rfl⟩ := written
        rcases literal.plain_or_shorter with ⟨same, plain⟩ | shorter
        · refine ⟨same, ?_, plain⟩
          rintro rfl
          rw [named, same] at nonempty
          cases nonempty
        · omega
  · cases once

end NeuralMesh.Gateway
