import NeuralMesh.Js.Double
import NeuralMesh.Js.Object
import NeuralMesh.Js.RoundTrip
import NeuralMesh.Js.Trim

/-! Strings that hold a JSON document, as the policies read them: `JSON.parse` of the
trimmed string when it has the braces of an object or an array. The weight of a value
bounds the length of the documents within it, so that reading a document inside a
document ends. -/
namespace NeuralMesh.Js

def isSurrogate (u : CodeUnit) : Bool := isHigh u || isLow u

/-- A lone surrogate is spelled as its escape; after a backslash it is no escape. -/
def spellUnit (escaped : Bool) (u : CodeUnit) : Text :=
  if isSurrogate u then if escaped then [Char.ofNat 0xFFFD] else '\\' :: 'u' :: hex4 u.toNat
  else [Char.ofNat u.toNat]

def spelledFrom : (escaped : Bool) → JsString → Text
  | _, [] => []
  | escaped, [u] => spellUnit escaped u
  | escaped, u :: v :: rest =>
    if isHigh u && isLow v then pairChar u v :: spelledFrom false rest
    else spellUnit escaped u ++ spelledFrom (!escaped && u == 0x5C) (v :: rest)

/-- A text that `JSON.parse` reads like the string. -/
def spelled (s : JsString) : Text := spelledFrom false s

/-- Starts and ends with the braces of an object or the brackets of an array. -/
def isBraced (t : Text) : Bool :=
  (t.head? == some '{' && t.getLast? == some '}') || (t.head? == some '[' && t.getLast? == some ']')

/-- `JSON.parse(input.trim())` of a braced string; `none` also for a `SyntaxError`. -/
def jsonDocument (s : JsString) : Option JsValue :=
  let trimmed := trim (spelled s)
  if isBraced trimmed then parseDoubles trimmed else none

/-! ### Width of a string -/

def unitWidth (u : CodeUnit) : Nat := if isSurrogate u then 6 else 1

/-- The length of the shortest document text of the string. -/
def width : JsString → Nat
  | [] => 0
  | [u] => unitWidth u
  | u :: v :: rest => if isHigh u && isLow v then 1 + width rest else unitWidth u + width (v :: rest)

theorem not_high_of_low {u : CodeUnit} (low : isLow u = true) : isHigh u = false := by
  simp only [isLow, isHigh, Bool.and_eq_true, decide_eq_true_eq, Bool.and_eq_false_iff,
    decide_eq_false_iff_not] at low ⊢
  omega

theorem width_of_not_high {u : CodeUnit} (single : isHigh u = false) (s : JsString) :
    width (u :: s) = unitWidth u + width s := by
  cases s with
  | nil => rfl
  | cons v rest => rw [width, if_neg (by simp [single])]

theorem width_cons_le (u : CodeUnit) (s : JsString) : width (u :: s) ≤ unitWidth u + width s := by
  cases s with
  | nil => exact Nat.le_refl _
  | cons v rest =>
    rw [width]
    split_ifs with pair
    · obtain ⟨high, low⟩ := Bool.and_eq_true_iff.mp pair
      rw [width_of_not_high (not_high_of_low low), unitWidth, unitWidth, isSurrogate, isSurrogate,
        high, low, Bool.or_true, Bool.true_or, if_pos rfl]
      omega
    · exact Nat.le_refl _

theorem width_append_le (s t : JsString) : width (s ++ t) ≤ width s + width t := by
  induction s using width.induct with
  | case1 => simp [width]
  | case2 u => exact width_cons_le u t
  | case3 u v rest pair ih =>
    rw [List.cons_append, List.cons_append, width, width, if_pos pair, if_pos pair]
    omega
  | case4 u v rest pair ih =>
    rw [List.cons_append] at ih ⊢
    rw [List.cons_append, width, width, if_neg pair, if_neg pair]
    omega

theorem unitWidth_le (u : CodeUnit) : unitWidth u ≤ 6 := by
  rw [unitWidth]
  split_ifs <;> decide

theorem width_utf16 (c : Char) : width (utf16 c) ≤ 1 := by
  rw [utf16]
  have scalar := char_not_surrogate c
  split_ifs with small
  · have value := unit_ofNat small
    rw [width, unitWidth, if_neg]
    simp only [isSurrogate, isHigh, isLow, value, Bool.or_eq_true, Bool.and_eq_true,
      decide_eq_true_eq]
    omega
  · have upper : 0xD800 + (c.toNat - 0x10000) / 0x400 < 65536 := by omega
    have lower : 0xDC00 + (c.toNat - 0x10000) % 0x400 < 65536 := by omega
    have pair : (isHigh (UInt16.ofNat (0xD800 + (c.toNat - 0x10000) / 0x400)) &&
        isLow (UInt16.ofNat (0xDC00 + (c.toNat - 0x10000) % 0x400))) = true := by
      rw [isHigh, isLow, unit_ofNat upper, unit_ofNat lower, Bool.and_eq_true, Bool.and_eq_true,
        Bool.and_eq_true, decide_eq_true_eq, decide_eq_true_eq, decide_eq_true_eq, decide_eq_true_eq]
      omega
    rw [width, if_pos pair, width]

theorem spellUnit_length (escaped : Bool) (u : CodeUnit) :
    (spellUnit escaped u).length ≤ unitWidth u := by
  rw [spellUnit, unitWidth]
  cases escaped <;> split_ifs <;> simp [hex4]

theorem spelledFrom_length (escaped : Bool) (s : JsString) :
    (spelledFrom escaped s).length ≤ width s := by
  induction escaped, s using spelledFrom.induct with
  | case1 => exact Nat.zero_le _
  | case2 escaped u => exact spellUnit_length escaped u
  | case3 escaped u v rest pair ih =>
    rw [spelledFrom, width, if_pos pair, if_pos pair, List.length_cons]
    omega
  | case4 escaped u v rest pair ih =>
    have unit := spellUnit_length escaped u
    rw [spelledFrom, width, if_neg pair, if_neg pair, List.length_append]
    omega

/-! ### Weight of a value -/

mutual

def weight : JsValue → Nat
  | .str s => width s + 1
  | .arr elements => 1 + weights elements
  | .obj members => 1 + memberWeights members
  | _ => 1

def weights : List JsValue → Nat
  | [] => 0
  | v :: vs => weight v + weights vs

def memberWeights : List (JsString × JsValue) → Nat
  | [] => 0
  | (_, v) :: ms => weight v + memberWeights ms

end

theorem weight_le_of_mem {v : JsValue} {vs : List JsValue} (member : v ∈ vs) :
    weight v ≤ weights vs := by
  induction vs with
  | nil => cases member
  | cons w vs ih =>
    rw [weights]
    rcases List.mem_cons.mp member with rfl | later
    · omega
    · have bound := ih later
      omega

theorem weight_le_of_mem_members {m : JsString × JsValue} {ms : List (JsString × JsValue)}
    (member : m ∈ ms) : weight m.2 ≤ memberWeights ms := by
  induction ms with
  | nil => cases member
  | cons n ms ih =>
    rw [memberWeights]
    rcases List.mem_cons.mp member with rfl | later
    · omega
    · have bound := ih later
      omega

/-! ### Reading takes up text -/

theorem skipSpace_length (cs : Text) : (skipSpace cs).length ≤ cs.length :=
  (List.dropWhile_suffix isJsonSpace).length_le

theorem readWord_length {word cs rest : Text} (read : readWord word cs = some rest) :
    word.length + rest.length = cs.length := by
  rw [readWord_eq_some.mp read, List.length_append]

theorem readString_width {cs rest : Text} {s : JsString} (read : readString cs = some (s, rest)) :
    width s + rest.length < cs.length := by
  induction cs using readString.induct generalizing s rest with
  | case1 => cases read
  | case2 cs =>
    cases read
    simp [width]
  | case3 a b c d cs u hex ih =>
    rw [readString, hex] at read
    obtain ⟨⟨t, after⟩, inner, same⟩ := Option.map_eq_some_iff.mp read
    cases same
    have bound := ih inner
    have more := (width_cons_le u t).trans (Nat.add_le_add_right (unitWidth_le u) _)
    simp only [List.length_cons]
    omega
  | case4 a b c d cs hex =>
    rw [readString, hex] at read
    cases read
  | case5 c cs other u short ih =>
    rw [readString, short] at read
    · obtain ⟨⟨t, after⟩, inner, same⟩ := Option.map_eq_some_iff.mp read
      cases same
      have bound := ih inner
      have plain : unitWidth u = 1 := by
        unfold readShortEscape at short
        split_ifs at short <;> (obtain rfl := Option.some.inj short; decide)
      have more := width_cons_le u t
      simp only [List.length_cons]
      omega
    · exact other
  | case6 c cs other short =>
    rw [readString, short] at read
    · cases read
    · exact other
  | case7 => cases read
  | case8 c cs _ _ _ _ control =>
    rw [readString, if_pos control] at read <;> first | cases read | assumption
  | case9 c cs _ _ _ _ control ih =>
    rw [readString, if_neg control] at read <;> try assumption
    obtain ⟨⟨t, after⟩, inner, same⟩ := Option.map_eq_some_iff.mp read
    cases same
    have bound := ih inner
    have more := width_append_le (utf16 c) t
    have unit := width_utf16 c
    simp only [List.length_cons]
    omega

theorem readFraction_length {cs digits rest : Text} (read : readFraction cs = some (digits, rest)) :
    rest.length ≤ cs.length := by
  unfold readFraction at read
  split at read
  · next after =>
    split_ifs at read
    obtain ⟨rfl, rfl⟩ := Prod.mk.inj (Option.some.inj read)
    have bound := (List.dropWhile_suffix isDigit (l := after)).length_le
    rw [List.length_cons]
    omega
  · cases read
    exact Nat.le_refl _

theorem readExponentDigits_length {negative : Bool} {cs rest : Text} {n : Int}
    (read : readExponentDigits negative cs = some (n, rest)) : rest.length ≤ cs.length := by
  unfold readExponentDigits at read
  split_ifs at read <;>
    (obtain ⟨rfl, rfl⟩ := Prod.mk.inj (Option.some.inj read)
     exact (List.dropWhile_suffix isDigit).length_le)

theorem readExponent_length {cs rest : Text} {n : Int} (read : readExponent cs = some (n, rest)) :
    rest.length ≤ cs.length := by
  have signed {cs : Text} (read : readExponentSign cs = some (n, rest)) :
      rest.length ≤ cs.length := by
    unfold readExponentSign at read
    split at read
    · exact (readExponentDigits_length read).trans (Nat.le_succ _)
    · exact (readExponentDigits_length read).trans (Nat.le_succ _)
    · exact readExponentDigits_length read
  unfold readExponent at read
  split at read
  · exact (signed read).trans (Nat.le_succ _)
  · exact (signed read).trans (Nat.le_succ _)
  · cases read
    exact Nat.le_refl _

theorem readMagnitude_length {cs rest : Text} {m : Nat} {e : Int}
    (read : readMagnitude cs = some (m, e, rest)) : rest.length < cs.length := by
  unfold readMagnitude at read
  dsimp only at read
  split_ifs at read with valid
  obtain ⟨⟨fraction, after⟩, first, read⟩ := Option.bind_eq_some_iff.mp read
  dsimp only at read
  obtain ⟨⟨exponent, last⟩, second, same⟩ := Option.map_eq_some_iff.mp read
  obtain ⟨-, -, rfl⟩ : _ ∧ _ ∧ last = rest := by simpa only [Prod.mk.injEq] using same
  have whole := congrArg List.length (List.takeWhile_append_dropWhile (p := isDigit) (l := cs))
  have nonempty : 0 < (cs.takeWhile isDigit).length := by
    rw [List.length_pos_iff]
    intro empty
    rw [empty] at valid
    cases valid
  have one := readFraction_length first
  have two := readExponent_length second
  rw [List.length_append] at whole
  omega

theorem readNumber_length {cs rest : Text} {d : Decimal} (read : readNumber cs = some (d, rest)) :
    rest.length < cs.length := by
  unfold readNumber at read
  split at read
  · obtain ⟨⟨m, e, after⟩, inner, same⟩ := Option.map_eq_some_iff.mp read
    cases same
    exact (readMagnitude_length inner).trans (Nat.lt_succ_self _)
  · obtain ⟨⟨m, e, after⟩, inner, same⟩ := Option.map_eq_some_iff.mp read
    cases same
    exact readMagnitude_length inner

theorem readScalar_weight {cs rest : Text} {v : JsValue} (read : readScalar cs = some (v, rest)) :
    weight v + rest.length ≤ cs.length := by
  have word {w : Text} (nonempty : 0 < w.length) (read : readWord w cs = some rest) :
      1 + rest.length ≤ cs.length := by
    have length := readWord_length read
    omega
  unfold readScalar at read
  cases null : readWord nullText cs with
  | some after =>
    rw [null] at read
    cases read
    exact word (by decide) null
  | none =>
    cases yes : readWord (boolText true) cs with
    | some after =>
      rw [null, yes] at read
      cases read
      exact word (by decide) yes
    | none =>
      cases no : readWord (boolText false) cs with
      | some after =>
        rw [null, yes, no] at read
        cases read
        exact word (by decide) no
      | none =>
        rw [null, yes, no] at read
        dsimp only at read
        obtain ⟨⟨d, after⟩, inner, same⟩ := Option.map_eq_some_iff.mp read
        cases same
        have length := readNumber_length inner
        simp only [weight]
        omega

/-- A value that is read weighs no more than the text that was read. -/
theorem read_weight (fuel : Nat) :
    (∀ {cs rest v}, readValue fuel cs = some (v, rest) → weight v + rest.length ≤ cs.length) ∧
    (∀ {cs rest vs}, readElements fuel cs = some (vs, rest) →
      weights vs + rest.length < cs.length) ∧
    ∀ {cs rest ms}, readMembers fuel cs = some (ms, rest) →
      memberWeights ms + rest.length < cs.length := by
  induction fuel with
  | zero => exact ⟨by simp [readValue], by simp [readElements], by simp [readMembers]⟩
  | succ fuel ih =>
    obtain ⟨value, elements, members⟩ := ih
    refine ⟨?_, ?_, ?_⟩
    · intro cs rest v read
      have skipped := skipSpace_length cs
      cases readValue_iff.mp read with
      | string opened inner =>
        rw [opened, List.length_cons] at skipped
        have bound := readString_width inner
        rw [weight]
        omega
      | @emptyArray tail opened closed =>
        rw [opened, List.length_cons] at skipped
        have before := skipSpace_length tail
        have length := readWord_length closed
        simp only [weight, weights, List.length_cons, List.length_nil] at length ⊢
        omega
      | array opened _ inner =>
        rw [opened, List.length_cons] at skipped
        have bound := elements inner
        rw [weight]
        omega
      | @emptyObject tail opened closed =>
        rw [opened, List.length_cons] at skipped
        have before := skipSpace_length tail
        have length := readWord_length closed
        simp only [weight, memberWeights, List.length_cons, List.length_nil] at length ⊢
        omega
      | object opened _ inner =>
        rw [opened, List.length_cons] at skipped
        have bound := members inner
        rw [weight]
        omega
      | scalar opened _ inner =>
        rw [opened] at skipped
        exact (readScalar_weight inner).trans skipped
    · intro cs rest vs read
      cases readElements_iff.mp read with
      | @more v after later vs first comma others =>
        have head := value first
        have skipped := skipSpace_length after
        have length := readWord_length comma
        have bound := elements others
        simp only [weights, List.length_cons, List.length_nil] at length ⊢
        omega
      | @last v after first _ close =>
        have head := value first
        have skipped := skipSpace_length after
        have length := readWord_length close
        simp only [weights, List.length_cons, List.length_nil] at length ⊢
        omega
    · intro cs rest ms read
      have member {after : Text} {k : JsString} {v : JsValue}
          (first : MemberRead fuel cs after k v) : weight v + after.length < cs.length := by
        obtain @⟨opened, named, colon, quoted, key, separated, inner⟩ := first
        have one := readWord_length quoted
        have two := readString_width key
        have three := readWord_length separated
        have head := value inner
        have before := skipSpace_length cs
        have between := skipSpace_length named
        simp only [List.length_cons, List.length_nil] at one three
        omega
      cases readMembers_iff.mp read with
      | @more k v after later ms first comma others =>
        have head := member first
        have skipped := skipSpace_length after
        have length := readWord_length comma
        have bound := members others
        simp only [memberWeights, List.length_cons, List.length_nil] at length ⊢
        omega
      | @last k v after first _ close =>
        have head := member first
        have skipped := skipSpace_length after
        have length := readWord_length close
        simp only [memberWeights, List.length_cons, List.length_nil] at length ⊢
        omega

/-! ### Properties and numbers of the document -/

theorem memberWeights_setProperty (key : JsString) (v : JsValue) (ms : Members) :
    memberWeights (setProperty key v ms) ≤ weight v + memberWeights ms := by
  induction ms with
  | nil => exact Nat.le_refl _
  | cons m ms ih =>
    obtain ⟨k, w⟩ := m
    rw [setProperty]
    split_ifs <;> simp only [memberWeights] <;> omega

theorem memberWeights_createProperties (ms : Members) :
    memberWeights (createProperties ms) ≤ memberWeights ms := by
  have general (ms initial : Members) :
      memberWeights (ms.foldl (fun ms m => setProperty m.1 m.2 ms) initial) ≤
        memberWeights ms + memberWeights initial := by
    induction ms generalizing initial with
    | nil => exact (Nat.zero_add _).ge
    | cons m ms ih =>
      have step := ih (setProperty m.1 m.2 initial)
      have one := memberWeights_setProperty m.1 m.2 initial
      rw [List.foldl_cons, memberWeights]
      omega
  exact general ms []

theorem weights_map_le {f : JsValue → JsValue} {vs : List JsValue}
    (each : ∀ v ∈ vs, weight (f v) ≤ weight v) : weights (vs.map f) ≤ weights vs := by
  induction vs with
  | nil => exact Nat.le_refl _
  | cons v vs ih =>
    rw [List.map_cons, weights, weights]
    exact Nat.add_le_add (each v List.mem_cons_self)
      (ih fun w member => each w (List.mem_cons_of_mem _ member))

theorem memberWeights_map_le {f : JsValue → JsValue} {ms : Members}
    (each : ∀ m ∈ ms, weight (f m.2) ≤ weight m.2) :
    memberWeights (ms.map fun m => (m.1, f m.2)) ≤ memberWeights ms := by
  induction ms with
  | nil => exact Nat.le_refl _
  | cons m ms ih =>
    rw [List.map_cons, memberWeights, memberWeights]
    exact Nat.add_le_add (each m List.mem_cons_self)
      (ih fun n member => each n (List.mem_cons_of_mem _ member))

theorem weight_settle (v : JsValue) : weight (settle v) ≤ weight v := by
  induction v with
  | undefined | null | bool | num | str => exact Nat.le_refl _
  | arr elements ih =>
    rw [settle, settleAll_eq, weight, weight]
    exact Nat.add_le_add_left (weights_map_le ih) 1
  | obj members ih =>
    rw [settle, settleMembers_eq, weight, weight]
    exact Nat.add_le_add_left
      ((memberWeights_createProperties _).trans (memberWeights_map_le ih)) 1

@[simp] theorem asDoublesAll_eq (vs : List JsValue) : asDoublesAll vs = vs.map asDoubles := by
  induction vs with
  | nil => rfl
  | cons v vs ih => rw [asDoublesAll, ih, List.map_cons]

@[simp] theorem asDoublesMembers_eq (ms : Members) :
    asDoublesMembers ms = ms.map fun m => (m.1, asDoubles m.2) := by
  induction ms with
  | nil => rfl
  | cons m ms ih => rw [asDoublesMembers, ih, List.map_cons]

theorem weight_asDoubles (v : JsValue) : weight (asDoubles v) ≤ weight v := by
  induction v with
  | undefined | null | bool | str => exact Nat.le_refl _
  | num n => cases n <;> exact Nat.le_refl _
  | arr elements ih =>
    rw [asDoubles, asDoublesAll_eq, weight, weight]
    exact Nat.add_le_add_left (weights_map_le ih) 1
  | obj members ih =>
    rw [asDoubles, asDoublesMembers_eq, weight, weight]
    exact Nat.add_le_add_left (memberWeights_map_le ih) 1

theorem parseDoubles_weight {t : Text} {v : JsValue} (read : parseDoubles t = some v) :
    weight v ≤ t.length := by
  obtain ⟨u, parsed, rfl⟩ := Option.map_eq_some_iff.mp read
  unfold parse at parsed
  split at parsed
  · next w rest value =>
    split_ifs at parsed
    obtain rfl := Option.some.inj parsed
    have bound := (read_weight _).1 value
    exact ((weight_asDoubles _).trans (weight_settle w)).trans (by omega)
  · cases parsed

/-- The document in a string weighs less than the string. -/
theorem jsonDocument_weight {s : JsString} {v : JsValue} (read : jsonDocument s = some v) :
    weight v < weight (.str s) := by
  unfold jsonDocument at read
  dsimp only at read
  split_ifs at read
  have value := parseDoubles_weight read
  have trimmed := trim_length_le (spelled s)
  have text := spelledFrom_length false s
  rw [weight]
  exact Nat.lt_succ_of_le (value.trans (trimmed.trans text))

/-- Induction on a value and the documents in its strings. -/
theorem induct_documents {P : JsValue → Prop} (undefined : P .undefined) (null : P .null)
    (bool : ∀ b, P (.bool b)) (num : ∀ n, P (.num n))
    (text : ∀ s, jsonDocument s = none → P (.str s))
    (document : ∀ s v, jsonDocument s = some v → P v → P (.str s))
    (arr : ∀ elements, (∀ v ∈ elements, P v) → P (.arr elements))
    (obj : ∀ members, (∀ m ∈ members, P m.2) → P (.obj members)) (v : JsValue) : P v := by
  induction size : weight v using Nat.strong_induction_on generalizing v with
  | _ n ih =>
    subst size
    cases v with
    | undefined => exact undefined
    | null => exact null
    | bool b => exact bool b
    | num n => exact num n
    | str s =>
      cases found : jsonDocument s with
      | none => exact text s found
      | some v => exact document s v found (ih _ (jsonDocument_weight found) v rfl)
    | arr elements =>
      refine arr elements fun v member => ih _ ?_ v rfl
      have bound := weight_le_of_mem member
      rw [weight]
      omega
    | obj members =>
      refine obj members fun m member => ih _ ?_ m.2 rfl
      have bound := weight_le_of_mem_members member
      rw [weight]
      omega

/-- `typeof value === "object" && value !== null` -/
def isContainer : JsValue → Bool
  | .arr _ | .obj _ => true
  | _ => false

/-- The document in a string is an array or an object. -/
theorem jsonDocument_container {s : JsString} {v : JsValue} (read : jsonDocument s = some v) :
    isContainer v = true := by
  unfold jsonDocument at read
  dsimp only at read
  split_ifs at read with braced
  obtain ⟨u, parsed, rfl⟩ := Option.map_eq_some_iff.mp read
  have container {w : JsValue} (shape : isContainer w = true) :
      isContainer (asDoubles (settle w)) = true := by
    cases w with
    | arr elements => rfl
    | obj members => rfl
    | _ => cases shape
  obtain ⟨c, cs, text, opens⟩ : ∃ c cs, trim (spelled s) = c :: cs ∧ (c = '[' ∨ c = '{') := by
    cases text : trim (spelled s) with
    | nil =>
      rw [text] at braced
      cases braced
    | cons c cs =>
      refine ⟨c, cs, rfl, ?_⟩
      simp only [isBraced, text, List.head?_cons, Bool.or_eq_true, Bool.and_eq_true, beq_iff_eq,
        Option.some.injEq] at braced
      rcases braced with ⟨first, _⟩ | ⟨first, _⟩
      · exact .inr first
      · exact .inl first
  have value {rest : Text} {w : JsValue} (fuel : Nat)
      (read : readValue fuel (c :: cs) = some (w, rest)) : isContainer w = true := by
    cases fuel with
    | zero => cases read
    | succ fuel =>
      have space : isJsonSpace c = false := by rcases opens with rfl | rfl <;> rfl
      rw [readValue, skipSpace_of_head space] at read
      rcases opens with rfl | rfl
      · simp only [if_neg (by decide : ¬ '[' = '"'), if_true] at read
        split at read
        · cases read
          rfl
        · obtain ⟨_, _, same⟩ := Option.map_eq_some_iff.mp read
          cases same
          rfl
      · simp only [if_neg (by decide : ¬ '{' = '"'), if_neg (by decide : ¬ '{' = '['), if_true] at read
        split at read
        · cases read
          rfl
        · obtain ⟨_, _, same⟩ := Option.map_eq_some_iff.mp read
          cases same
          rfl
  rw [text] at parsed
  unfold parse at parsed
  split at parsed
  · next w rest found =>
    split_ifs at parsed
    cases parsed
    exact container (value _ found)
  · cases parsed

/-- `Inner p v`: the value `p` is in `v`, at some depth. -/
inductive Inner (p : JsValue) : JsValue → Prop where
  | self : Inner p p
  | element {v : JsValue} {elements : List JsValue} :
      v ∈ elements → Inner p v → Inner p (.arr elements)
  | member {m : JsString × JsValue} {members : Members} :
      m ∈ members → Inner p m.2 → Inner p (.obj members)

theorem weight_property {key : JsString} {ms : Members} (present : property key ms ≠ .undefined) :
    weight (property key ms) ≤ memberWeights ms := by
  induction ms with
  | nil => exact absurd rfl present
  | cons m ms ih =>
    obtain ⟨k, v⟩ := m
    rw [property, memberWeights]
    rw [property] at present
    split_ifs at present ⊢
    · omega
    · have bound := ih present
      omega

/-! ### What `JSON.parse` returns -/

theorem isOrdered_asDoubles {v : JsValue} (ordered : isOrdered v = true) :
    isOrdered (asDoubles v) = true := by
  induction v with
  | undefined | null | bool | str => exact ordered
  | num n => cases n <;> rfl
  | arr elements ih =>
    simp only [isOrdered, allOrdered_iff] at ordered
    simp only [asDoubles, asDoublesAll_eq, isOrdered, allOrdered_iff, List.mem_map]
    rintro _ ⟨v, member, rfl⟩
    exact ih v member (ordered v member)
  | obj members ih =>
    obtain ⟨sorted, ordered⟩ := (isOrdered_obj _).mp ordered
    rw [asDoubles, asDoublesMembers_eq, isOrdered_obj, List.pairwise_map]
    refine ⟨sorted, ?_⟩
    rintro _ mapped
    obtain ⟨m, member, rfl⟩ := List.mem_map.mp mapped
    exact ih m member (ordered m member)

theorem readScalar_present {cs rest : Text} {v : JsValue} (read : readScalar cs = some (v, rest)) :
    v ≠ .undefined := by
  unfold readScalar at read
  split at read
  · cases read
    simp
  · cases read
    simp
  · cases read
    simp
  · obtain ⟨⟨d, after⟩, -, same⟩ := Option.map_eq_some_iff.mp read
    cases same
    simp

theorem readValue_present {fuel : Nat} {cs rest : Text} {v : JsValue}
    (read : readValue fuel cs = some (v, rest)) : v ≠ .undefined := by
  cases fuel with
  | zero => cases read
  | succ fuel =>
    cases readValue_iff.mp read with
    | string | emptyArray | array | emptyObject | object => simp
    | scalar _ _ inner => exact readScalar_present inner

/-- A parsed value is defined, and its objects list their keys in order. -/
theorem parseDoubles_value {t : Text} {v : JsValue} (read : parseDoubles t = some v) :
    isOrdered v = true ∧ v ≠ .undefined := by
  obtain ⟨u, parsed, rfl⟩ := Option.map_eq_some_iff.mp read
  unfold parse at parsed
  split at parsed
  · next w rest value =>
    split_ifs at parsed
    obtain rfl := Option.some.inj parsed
    refine ⟨isOrdered_asDoubles (isOrdered_settle w), ?_⟩
    have present := readValue_present value
    cases w with
    | undefined => exact absurd rfl present
    | num n => cases n <;> simp [settle, asDoubles]
    | _ => simp [settle, asDoubles]
  · cases parsed

end NeuralMesh.Js
