import NeuralMesh.Gateway.ProxyExtraction
import NeuralMesh.Js.Encoding

/-! The request that the verifier reads off a text around it. What stands before the first brace
and after the closing one does not matter; an object of any depth is read back whole. -/
namespace NeuralMesh.Gateway

open Js Codec Worker

/-! ### The bytes -/

theorem wellFormed_append (p s : JsString) {u : CodeUnit} (low : isLow u = false) :
    wellFormed (p ++ u :: s) = wellFormed p ++ wellFormed (u :: s) := by
  induction p using quoteBody.induct with
  | case1 => rfl
  | case2 first =>
    have apart : ¬ (isHigh first && isLow u) = true := by
      rw [low, Bool.and_false]
      exact Bool.false_ne_true
    have cut : wellFormed (first :: u :: s) =
        (if isHigh first || isLow first then replacement else Char.ofNat first.toNat) ::
          wellFormed (u :: s) := by
      rw [wellFormed, if_neg apart]
    rw [List.singleton_append, cut, wellFormed]
    split_ifs <;> rfl
  | case3 first second rest pair ih =>
    rw [List.cons_append, List.cons_append, wellFormed, wellFormed, if_pos pair, if_pos pair, ih]
    rfl
  | case4 first second rest pair ih =>
    rw [List.cons_append] at ih ⊢
    rw [List.cons_append, wellFormed, wellFormed, if_neg pair, if_neg pair, ih]
    rfl

/-- The units of a character come from the string, unless it replaces one of them. -/
def Comes (s : JsString) (c : Char) : Prop := c = replacement ∨ ∀ u ∈ utf16 c, u ∈ s

theorem comes_unit {s : JsString} {u : CodeUnit} (member : u ∈ s) :
    Comes s (if isHigh u || isLow u then replacement else Char.ofNat u.toNat) := by
  split_ifs with paired
  · exact .inl rfl
  · obtain ⟨high, low⟩ := Bool.or_eq_false_iff.mp (Bool.not_eq_true _ ▸ paired)
    refine .inr fun v held => ?_
    rw [(utf16_unit high low).2] at held
    rwa [List.mem_singleton.mp held]

theorem Comes.mono {s t : JsString} {c : Char} (comes : Comes s c) (within : ∀ u ∈ s, u ∈ t) :
    Comes t c :=
  comes.imp_right fun units u member => within u (units u member)

theorem wellFormed_comes (s : JsString) : ∀ c ∈ wellFormed s, Comes s c := by
  induction s using quoteBody.induct with
  | case1 => exact fun c member => absurd member List.not_mem_nil
  | case2 u =>
    have single : wellFormed [u] =
        [if isHigh u || isLow u then replacement else Char.ofNat u.toNat] := by
      rw [wellFormed]
      split_ifs <;> rfl
    intro c member
    rw [single] at member
    rw [List.mem_singleton.mp member]
    exact comes_unit List.mem_cons_self
  | case3 u v rest pair ih =>
    obtain ⟨high, low⟩ := Bool.and_eq_true_iff.mp pair
    intro c member
    rw [wellFormed, if_pos pair] at member
    rcases List.mem_cons.mp member with first | later
    · rw [first]
      refine .inr fun w held => ?_
      rw [utf16_pairChar high low] at held
      exact List.mem_append_left rest held
    · exact (ih c later).mono fun w held => List.mem_append_right [u, v] held
  | case4 u v rest pair ih =>
    intro c member
    rw [wellFormed, if_neg pair] at member
    rcases List.mem_cons.mp member with rfl | later
    · exact comes_unit List.mem_cons_self
    · exact (ih c later).mono fun w held => List.mem_cons_of_mem u held

theorem no_brace {p : JsString} (unopened : 0x7B ∉ p) : '\x7b' ∉ wellFormed p := by
  intro member
  rcases wellFormed_comes p _ member with replaced | units
  · exact absurd replaced (by decide)
  · exact unopened (units 0x7B (by decide))

/-! ### The text -/

theorem commaJoin_infix {ts : List Text} {t : Text} (member : t ∈ ts) :
    ∃ before after, commaJoin ts = before ++ (t ++ after) := by
  obtain ⟨first, last, rfl⟩ := List.append_of_mem member
  cases first with
  | nil => exact ⟨[], commaTail last, commaJoin_cons t last⟩
  | cons u us =>
    refine ⟨u ++ commaTail us ++ [','], commaTail last, ?_⟩
    rw [List.cons_append, commaJoin_cons, commaTail, List.flatMap_append, List.flatMap_cons]
    simp only [List.append_assoc, List.cons_append, List.nil_append]
    rfl

theorem mem_memberTexts_of_mem {k : JsString} {v : JsValue} {ms : Members} (member : (k, v) ∈ ms)
    (defined : v ≠ .undefined) : quote k ++ ':' :: jsonText v ∈ memberTexts ms := by
  induction ms with
  | nil => cases member
  | cons m ms ih =>
    obtain ⟨k', v'⟩ := m
    rcases List.mem_cons.mp member with same | later
    · cases same
      rw [memberTexts_cons k ms defined]
      exact List.mem_cons_self
    · by_cases absent : v' = .undefined
      · subst absent
        exact ih later
      · rw [memberTexts_cons k' ms absent]
        exact List.mem_cons_of_mem _ (ih later)

/-- The text of an object without its braces. -/
def innerText (ms : Members) : Text := commaJoin (memberTexts ms)

theorem jsonText_braced (ms : Members) :
    jsonText (.obj ms) = '\x7b' :: (innerText ms ++ ['\x7d']) := by
  rw [jsonText, innerText]

theorem passes_innerText (ms : Members) : Passes (outside 1) (innerText ms) := by
  apply passes_commaJoin
  intro t member
  obtain ⟨m, _, rfl⟩ := mem_memberTexts member
  exact (passes_quote 1 m.1).append
    (.cons (passes_neutral 1 neutral_separators.2.1) (passes_jsonText m.2 1 le_rfl))

/-- The scanner stops at the brace that closes the object. -/
theorem balanced_object (ms : Members) (rest : Text) :
    balanced .start (jsonText (.obj ms) ++ rest) = some (jsonText (.obj ms)) := by
  have opening (cs : Text) : balanced .start ('\x7b' :: cs) =
      (balanced (outside 1) cs).map ('\x7b' :: ·) := by
    simp [balanced, Scan.start, outside]
  have closing : balanced (outside 1) ('\x7d' :: rest) = some ['\x7d'] := by
    simp [balanced, outside]
  rw [jsonText_braced, List.cons_append, opening, List.append_assoc, passes_innerText,
    List.singleton_append, closing]
  rfl

/-- An object with the member has its key in its text. -/
theorem includes_proxyKey {ms : Members} (set : truthy (property (ofText proxyKey) ms) = true)
    (before after : Text) : includes proxyKey (before ++ (jsonText (.obj ms) ++ after)) = true := by
  have defined : property (ofText proxyKey) ms ≠ .undefined := by
    intro absent
    rw [absent] at set
    cases set
  obtain ⟨front, back, whole⟩ :=
    commaJoin_infix (mem_memberTexts_of_mem (mem_of_property rfl defined) defined)
  have key : quote (ofText proxyKey) = '"' :: (proxyKey ++ ['"']) := by decide
  have found := @includes_append proxyKey (by decide) (before ++ '\x7b' :: (front ++ ['"']))
    ('"' :: ':' :: (jsonText (property (ofText proxyKey) ms) ++ (back ++ '\x7d' :: after)))
  rw [jsonText_braced, innerText, whole, key]
  simpa only [List.append_assoc, List.cons_append, List.nil_append] using found

/-! ### The extraction -/

/-- The text around an object, as the bytes give it. -/
theorem wellFormed_around (p s : JsString) (ms : Members) :
    wellFormed (p ++ (jsonString (.obj ms) ++ s)) =
      wellFormed p ++ (jsonText (.obj ms) ++ wellFormed s) := by
  have opens : jsonString (.obj ms) ++ s = 0x7B :: (ofText (innerText ms ++ ['\x7d']) ++ s) := by
    rw [jsonString, jsonText_braced]
    rfl
  have low : isLow 0x7B = false := by decide
  have whole : wellFormed (jsonString (.obj ms) ++ s) = jsonText (.obj ms) ++ wellFormed s :=
    wellFormed_ofText_append _ s
  rw [opens] at whole ⊢
  rw [wellFormed_append p _ low, whole]

theorem jsonText_tight (ms : Members) : Tight (jsonText (.obj ms)) := by
  rw [jsonText_braced]
  constructor
  · intro c head
    obtain rfl : '\x7b' = c := Option.some.inj head
    decide
  · intro c last
    rw [← List.cons_append, List.getLast?_concat] at last
    obtain rfl := Option.some.inj last
    decide

/-- What stands before the first brace is skipped. -/
theorem dropped_front {front : Text} (unopened : '\x7b' ∉ front) (ms : Members) (after : Text) :
    (front ++ (jsonText (.obj ms) ++ after)).dropWhile (· != '\x7b') =
      '\x7b' :: (innerText ms ++ ['\x7d'] ++ after) := by
  have inside : ∀ c ∈ front, (c != '\x7b') = true := by
    intro c member
    exact bne_iff_ne.mpr fun same => unopened (same ▸ member)
  rw [jsonText_braced, List.cons_append]
  refine (span_exact inside ?_).2
  intro c head
  obtain rfl : '\x7b' = c := Option.some.inj head
  rfl

theorem parse_object (o : Arguments) : parseDoubles (jsonText (.obj o.members)) = some o.value := by
  have parsed := parse_jsonText o.plain o.ordered
  rw [parseDoubles, parsed, Option.map_some, o.doubles, Arguments.value]

/-- An object with a proxy member, after a text without an opening brace and before any text, is
read back exactly. -/
theorem tryExtract_around (o : Arguments) (p s : JsString) (unopened : 0x7B ∉ p)
    (set : truthy (member (ofText proxyKey) o.value) = true) :
    tryExtractProxyOutput (stringBytes (p ++ (jsonString o.value ++ s))) = some o.value := by
  have nonempty : jsonText (.obj o.members) ≠ [] := by
    rw [jsonText_braced]
    exact List.cons_ne_nil _ _
  have trimmed := trim_within (wellFormed p) (wellFormed s) (jsonText_tight o.members) nonempty
  have front : '\x7b' ∉ (wellFormed p).dropWhile isSpace :=
    fun member => no_brace unopened ((List.dropWhile_sublist _).mem member)
  have dropped := dropped_front front o.members ((wellFormed s).rdropWhile isSpace)
  have scanned := balanced_object o.members ((wellFormed s).rdropWhile isSpace)
  rw [jsonText_braced, List.cons_append, ← jsonText_braced] at scanned
  rw [tryExtractProxyOutput, stringBytes, decodeUtf8_utf8, Arguments.value, wellFormed_around,
    trimmed, if_pos (includes_proxyKey set _ _), dropped]
  dsimp only
  rw [scanned, Option.bind_some, parse_object, Option.bind_some, if_pos set, Arguments.value]

/-- A request whose name holds a quote, a backslash and both braces. -/
def quotedRequest : Arguments where
  members := [(ofText proxyKey, .str (js "\"\\\x7b\x60\x7d")), (ofText argsKey, .obj [])]
  ordered := rfl
  plain := rfl
  doubles := by simp [asDoubles]

theorem quoted_request_around :
    0x7B ∉ js "return (" ∧ truthy (member (ofText proxyKey) quotedRequest.value) = true ∧
      tryExtractProxyOutput (stringBytes
        (js "return (" ++ (jsonString quotedRequest.value ++ js "); \x7d"))) =
          some quotedRequest.value := by
  have unopened : 0x7B ∉ js "return (" := by decide
  exact ⟨unopened, rfl, tryExtract_around quotedRequest _ _ unopened rfl⟩

end NeuralMesh.Gateway
