import NeuralMesh.Gateway.Transcoding
import NeuralMesh.Js.Reading

/-! The request that the verifier reads off the logic of a proxied call. The tool's name
stands in the logic as it is, between two quotes; the arguments stand there as JSON. -/
namespace NeuralMesh.Gateway

open Js Codec Worker

/-! ### The text -/

def argsKey : Text := "__liop_proxy_args".toList

/-- The arguments of a tool call, as `JSON.parse` gives them. -/
structure Arguments extends JsonObject where
  doubles : asDoubles (.obj members) = .obj members

namespace Arguments

variable (args : Arguments)

def value : JsValue := .obj args.members

def text : Text := jsonText args.value

end Arguments

/-- The text from the colon on that separates the arguments from their name. -/
def argumentTail (args rest : Text) : Text := ':' :: ' ' :: (args ++ ' ' :: '\x7d' :: rest)

/-- The text after the quote that closes the name. -/
def nameTail (args rest : Text) : Text :=
  ',' :: ' ' :: '"' :: (argsKey ++ '"' :: argumentTail args rest)

/-- The object literal from its brace on. -/
def requestText (name args rest : Text) : Text :=
  '\x7b' :: ' ' :: '"' :: (proxyKey ++ '"' :: ':' :: ' ' :: '"' :: (name ++ '"' :: nameTail args rest))

def returnText : Text := ['r', 'e', 't', 'u', 'r', 'n', ' ']

def proxySource (name args : Text) : Text := returnText ++ requestText name args [';']

/-- `{ __liop_proxy_tool: name, __liop_proxy_args: args }` -/
def proxyRequest (name : JsString) (args : JsValue) : JsValue :=
  .obj [(ofText proxyKey, .str name), (ofText argsKey, args)]

theorem ofText_append (a b : Text) : ofText (a ++ b) = ofText a ++ ofText b :=
  List.flatMap_append

theorem wellFormed_ofText_append (t : Text) (s : JsString) :
    wellFormed (ofText t ++ s) = t ++ wellFormed s := by
  induction t with
  | nil => rfl
  | cons c t ih =>
    rw [ofText, List.flatMap_cons, ← ofText, List.append_assoc, wellFormed_utf16, ih,
      List.cons_append]

theorem wellFormed_before_quote (s : JsString) (t : Text) :
    wellFormed (s ++ ofText ('"' :: t)) = wellFormed s ++ '"' :: t := by
  have quote : ofText ('"' :: t) = 0x22 :: ofText t := rfl
  have closed : wellFormed (0x22 :: ofText t) = '"' :: t := wellFormed_ofText ('"' :: t)
  rw [quote]
  induction s using quoteBody.induct with
  | case1 => exact closed
  | case2 u =>
    have apart : ¬ (isHigh u && isLow 0x22) = true := by
      rw [show isLow 0x22 = false from rfl, Bool.and_false]
      exact Bool.false_ne_true
    have first : wellFormed (u :: 0x22 :: ofText t) =
        (if isHigh u || isLow u then replacement else Char.ofNat u.toNat) ::
          wellFormed (0x22 :: ofText t) := by
      rw [wellFormed, if_neg apart]
    rw [List.singleton_append, first, closed, wellFormed]
    split_ifs <;> rfl
  | case3 u v rest pair ih =>
    rw [List.cons_append, List.cons_append, wellFormed, wellFormed, if_pos pair, if_pos pair, ih]
    rfl
  | case4 u v rest pair ih =>
    rw [List.cons_append] at ih ⊢
    rw [List.cons_append, wellFormed, wellFormed, if_neg pair, if_neg pair, ih]
    rfl

theorem source_before_name : js "return \x7b \"__liop_proxy_tool\": \"" =
    ofText (returnText ++ '\x7b' :: ' ' :: '"' :: (proxyKey ++ ['"', ':', ' ', '"'])) := by
  decide

theorem source_after_name (args : Text) :
    js "\", \"__liop_proxy_args\": " ++ (ofText args ++ js " \x7d;") =
      ofText ('"' :: nameTail args [';']) := by
  simp only [js, ← ofText_append]
  exact congrArg ofText rfl

/-- The bytes of the logic decode to the source with the well-formed name. -/
theorem wellFormed_proxyText (name : JsString) (args : Text) :
    wellFormed (proxyText name (ofText args)) = proxySource (wellFormed name) args := by
  have whole : proxyText name (ofText args) =
      ofText (returnText ++ '\x7b' :: ' ' :: '"' :: (proxyKey ++ ['"', ':', ' ', '"'])) ++
        (name ++ ofText ('"' :: nameTail args [';'])) := by
    unfold proxyText
    simp only [List.append_assoc]
    exact congrArg₂ _ source_before_name (congrArg _ (source_after_name args))
  rw [whole, wellFormed_ofText_append, wellFormed_before_quote]
  unfold proxySource requestText
  simp only [List.append_assoc, List.cons_append, List.nil_append]

theorem units_wellFormed (s : JsString) : units (wellFormed s) = s.length := by
  have single (u : CodeUnit) (t : Text) :
      units ((if isHigh u || isLow u then replacement else Char.ofNat u.toNat) :: t) =
        1 + units t := by
    have small : (if isHigh u || isLow u then replacement else Char.ofNat u.toNat).toNat < 0x10000 := by
      split_ifs with surrogate
      · decide
      · have bound := unit_bound u
        by_cases valid : u.toNat.isValidChar
        · rwa [char_ofNat valid]
        · simp [Char.ofNat, valid]
    rw [units_cons, utf16, if_pos small, List.length_singleton]
  induction s using quoteBody.induct with
  | case1 => rfl
  | case2 u =>
    have one := single u []
    rw [wellFormed]
    split_ifs at one ⊢ <;> exact one
  | case3 u v rest pair ih =>
    obtain ⟨high, low⟩ := Bool.and_eq_true_iff.mp pair
    rw [wellFormed, if_pos pair, units_cons, utf16_pairChar high low, ih]
    simp only [List.length_cons, List.length_nil]
    omega
  | case4 u v rest pair ih =>
    rw [wellFormed, if_neg pair, single, ih, List.length_cons (a := u)]
    omega

/-! ### The scanner on JSON -/

/-- The scanner outside quotes, in so many braces. -/
def outside (braces : Int) : Scan := ⟨braces, false, false, false, false⟩

def quoted (braces : Int) : Scan := ⟨braces, true, false, false, false⟩

/-- The scanner takes the text and is in the same state after it. -/
def Passes (s : Scan) (t : Text) : Prop :=
  ∀ rest, balanced s (t ++ rest) = (balanced s rest).map (t ++ ·)

theorem passes_nil (s : Scan) : Passes s [] := by
  intro rest
  simp

theorem Passes.append {s : Scan} {t u : Text} (first : Passes s t) (second : Passes s u) :
    Passes s (t ++ u) := by
  intro rest
  rw [List.append_assoc, first, second, Option.map_map]
  exact congrFun (congrArg _ (funext fun x => (List.append_assoc t u x).symm)) _

theorem Passes.cons {s : Scan} {c : Char} {t : Text} (first : Passes s [c]) (second : Passes s t) :
    Passes s (c :: t) := first.append second

theorem passes_flatMap {s : Scan} {f : α → Text} {xs : List α} (each : ∀ x ∈ xs, Passes s (f x)) :
    Passes s (xs.flatMap f) := by
  induction xs with
  | nil => exact passes_nil s
  | cons x xs ih =>
    rw [List.flatMap_cons]
    exact (each x List.mem_cons_self).append (ih fun y member => each y (List.mem_cons_of_mem _ member))

/-- A character that means nothing to the scanner. -/
def IsNeutral (c : Char) : Prop :=
  c ≠ '\\' ∧ c ≠ '"' ∧ c ≠ '\x27' ∧ c ≠ '\x60' ∧ c ≠ '\x7b' ∧ c ≠ '\x7d'

theorem passes_neutral (braces : Int) {c : Char} (neutral : IsNeutral c) :
    Passes (outside braces) [c] := by
  intro rest
  obtain ⟨backslash, double, single, backtick, opening, closing⟩ := neutral
  simp [balanced, outside, backslash, double, single, backtick, opening, closing]

theorem passes_quotedChar (braces : Int) {c : Char} (plain : c ≠ '"') (escape : c ≠ '\\') :
    Passes (quoted braces) [c] := by
  intro rest
  simp [balanced, quoted, plain, escape]

theorem passes_escape (braces : Int) (c : Char) : Passes (quoted braces) ['\\', c] := by
  intro rest
  simp [balanced, quoted, Function.comp_def]

theorem passes_literal (braces : Int) {lit : Text} {s : JsString} (literal : Literal lit s) :
    Passes (quoted braces) lit := by
  induction literal with
  | nil => exact passes_nil _
  | plain quoted escape _ _ ih => exact .cons (passes_quotedChar braces quoted escape) ih
  | @short c u t s _ _ ih => exact (passes_escape braces c).append ih
  | @unicode a b c d u t s unit _ ih =>
    obtain ⟨qa, qb, qc, qd⟩ := @readHex4_ne '"' _ _ _ _ _ rfl unit
    obtain ⟨ea, eb, ec, ed⟩ := @readHex4_ne '\\' _ _ _ _ _ rfl unit
    exact (passes_escape braces 'u').append (.cons (passes_quotedChar braces qa ea)
      (.cons (passes_quotedChar braces qb eb) (.cons (passes_quotedChar braces qc ec)
        (.cons (passes_quotedChar braces qd ed) ih))))

/-- A string literal is passed with its quotes. -/
theorem passes_string (braces : Int) {lit : Text} {s : JsString} (literal : Literal lit s) :
    Passes (outside braces) ('"' :: (lit ++ ['"'])) := by
  intro rest
  have inner := passes_literal braces literal ('"' :: rest)
  have opening (cs : Text) : balanced (outside braces) ('"' :: cs) =
      (balanced (quoted braces) cs).map ('"' :: ·) := by
    simp [balanced, outside, quoted]
  have closing : balanced (quoted braces) ('"' :: rest) =
      (balanced (outside braces) rest).map ('"' :: ·) := by
    simp [balanced, outside, quoted]
  rw [List.cons_append, List.append_assoc, List.singleton_append, opening, inner, closing,
    Option.map_map, Option.map_map]
  simp [Function.comp_def]

theorem passes_braces {braces : Int} (positive : 1 ≤ braces) {t : Text}
    (inner : Passes (outside (braces + 1)) t) :
    Passes (outside braces) ('\x7b' :: (t ++ ['\x7d'])) := by
  intro rest
  have opening (cs : Text) : balanced (outside braces) ('\x7b' :: cs) =
      (balanced (outside (braces + 1)) cs).map ('\x7b' :: ·) := by
    simp [balanced, outside]
  have nonzero : braces ≠ 0 := by omega
  have closing : balanced (outside (braces + 1)) ('\x7d' :: rest) =
      (balanced (outside braces) rest).map ('\x7d' :: ·) := by
    simp [balanced, outside, nonzero]
  rw [List.cons_append, List.append_assoc, List.singleton_append, opening, inner, closing,
    Option.map_map, Option.map_map]
  simp [Function.comp_def]

theorem neutral_of_scalar {c : Char} (scalar : isScalarChar c = true) : IsNeutral c := by
  refine ⟨?_, ?_, ?_, ?_, ?_, ?_⟩ <;> rintro rfl <;> cases scalar

theorem passes_all (braces : Int) {t : Text} (neutral : ∀ c ∈ t, IsNeutral c) :
    Passes (outside braces) t := by
  induction t with
  | nil => exact passes_nil _
  | cons c t ih =>
    exact .cons (passes_neutral braces (neutral c List.mem_cons_self))
      (ih fun d member => neutral d (List.mem_cons_of_mem _ member))

theorem passes_scalar (braces : Int) {t : Text} (scalar : ∀ c ∈ t, isScalarChar c = true) :
    Passes (outside braces) t :=
  passes_all braces fun c member => neutral_of_scalar (scalar c member)

theorem neutral_separators : IsNeutral ',' ∧ IsNeutral ':' ∧ IsNeutral '[' ∧ IsNeutral ']' ∧
    IsNeutral ' ' := by
  refine ⟨?_, ?_, ?_, ?_, ?_⟩ <;> simp [IsNeutral]

theorem passes_commaJoin (braces : Int) {ts : List Text}
    (each : ∀ t ∈ ts, Passes (outside braces) t) : Passes (outside braces) (commaJoin ts) := by
  cases ts with
  | nil => exact passes_nil _
  | cons t ts =>
    rw [commaJoin_cons]
    refine (each t List.mem_cons_self).append (passes_flatMap fun u member => ?_)
    exact .cons (passes_neutral braces neutral_separators.1) (each u (List.mem_cons_of_mem _ member))

theorem passes_quote (braces : Int) (s : JsString) : Passes (outside braces) (quote s) :=
  passes_string braces (literal_quoteBody s)

theorem mem_memberTexts {t : Text} {ms : List (JsString × JsValue)} (member : t ∈ memberTexts ms) :
    ∃ m ∈ ms, t = quote m.1 ++ ':' :: jsonText m.2 := by
  induction ms with
  | nil => cases member
  | cons m ms ih =>
    obtain ⟨k, v⟩ := m
    by_cases absent : v = .undefined
    · subst absent
      obtain ⟨m, later, same⟩ := ih member
      exact ⟨m, List.mem_cons_of_mem _ later, same⟩
    · rw [memberTexts_cons k ms absent] at member
      rcases List.mem_cons.mp member with rfl | later
      · exact ⟨(k, v), List.mem_cons_self, rfl⟩
      · obtain ⟨m, within, same⟩ := ih later
        exact ⟨m, List.mem_cons_of_mem _ within, same⟩

/-- The scanner passes over a JSON text within braces. -/
theorem passes_jsonText (v : JsValue) :
    ∀ braces, 1 ≤ braces → Passes (outside braces) (jsonText v) := by
  obtain ⟨comma, colon, opening, closing, -⟩ := neutral_separators
  have null (braces : Int) : Passes (outside braces) nullText :=
    passes_scalar braces (List.all_eq_true.mp (by decide))
  induction v with
  | undefined | null => exact fun braces _ => null braces
  | bool b =>
    intro braces _
    cases b <;> exact passes_scalar braces (List.all_eq_true.mp (by decide))
  | num n =>
    intro braces _
    cases n with
    | finite d => exact passes_scalar braces (numberText_scalar d)
    | nan | infinite => exact null braces
  | str s => exact fun braces _ => passes_quote braces s
  | arr elements ih =>
    intro braces positive
    rw [jsonText, elementTexts_eq]
    refine .cons (passes_neutral braces opening)
      ((passes_commaJoin braces ?_).append (passes_neutral braces closing))
    rintro _ mapped
    obtain ⟨v, member, rfl⟩ := List.mem_map.mp mapped
    exact ih v member braces positive
  | obj members ih =>
    intro braces positive
    rw [jsonText]
    refine passes_braces positive (passes_commaJoin _ fun t member => ?_)
    obtain ⟨m, within, rfl⟩ := mem_memberTexts member
    have later : 1 ≤ braces + 1 := by omega
    exact (passes_quote _ m.1).append (.cons (passes_neutral _ colon) (ih m within _ later))

/-- The literal between its braces, cut into tokens. -/
def requestTokens (name args : Text) : List Text :=
  [[' '], '"' :: (proxyKey ++ ['"']), [':'], [' '], '"' :: (name ++ ['"']), [','], [' '],
    '"' :: (argsKey ++ ['"']), [':'], [' '], args, [' ']]

theorem requestText_tokens (name args rest : Text) : requestText name args rest =
    '\x7b' :: ((requestTokens name args).flatten ++ '\x7d' :: rest) := by
  simp only [requestText, nameTail, argumentTail, requestTokens, List.flatten_cons,
    List.flatten_nil, List.append_assoc, List.cons_append, List.nil_append]

theorem requestText_append (name args rest : Text) :
    requestText name args rest = requestText name args [] ++ rest := by
  simp only [requestText_tokens, List.append_assoc, List.cons_append, List.nil_append]

theorem passes_tokens {name args : Text} {s : JsString} (literal : Literal name s)
    (passes : Passes (outside 1) args) : Passes (outside 1) (requestTokens name args).flatten := by
  obtain ⟨comma, colon, -, -, space⟩ := neutral_separators
  have key {k : Text} (plain : ∀ c ∈ k, IsPlainChar c) :
      Passes (outside 1) ('"' :: (k ++ ['"'])) := passes_string 1 (literal_plain plain)
  have one {c : Char} (neutral : IsNeutral c) : Passes (outside 1) [c] := passes_neutral 1 neutral
  rw [← List.flatMap_id]
  apply passes_flatMap
  simp only [requestTokens, List.forall_mem_cons, id_eq]
  refine ⟨one space, key (plain_of_all (by decide)), one colon, one space, passes_string 1 literal, one comma,
    one space, key (plain_of_all (by decide)), one colon, one space, passes, one space, ?_⟩
  exact fun t member => absurd member List.not_mem_nil

/-- The scanner stops at the brace that closes the request. -/
theorem balanced_requestText {name args rest : Text} {s : JsString} (literal : Literal name s)
    (passes : Passes (outside 1) args) :
    balanced .start (requestText name args rest) = some (requestText name args []) := by
  have opening (cs : Text) : balanced .start ('\x7b' :: cs) =
      (balanced (outside 1) cs).map ('\x7b' :: ·) := by
    simp [balanced, Scan.start, outside]
  have closing : balanced (outside 1) ('\x7d' :: rest) = some ['\x7d'] := by
    simp [balanced, outside]
  rw [requestText_tokens, opening, passes_tokens literal passes, closing, requestText_tokens]
  rfl

/-! ### Reading the request -/

theorem readValue_space (fuel : Nat) (cs : Text) : readValue fuel (' ' :: cs) = readValue fuel cs := by
  cases fuel with
  | zero => rfl
  | succ fuel =>
    rw [readValue, readValue]
    rfl

theorem readValue_literal {lit rest : Text} {s : JsString} (literal : Literal lit s) (fuel : Nat) :
    readValue (fuel + 1) ('"' :: (lit ++ '"' :: rest)) = some (.str s, rest) :=
  readValue_iff.mpr (.string (skipSpace_of_head (by decide)) (literal.readString rest))

/-- A member whose key is written after a space and whose value after another. -/
theorem readMembers_key {key : Text} {k : JsString} (literal : Literal key k) (fuel : Nat)
    (cs : Text) : readMembers (fuel + 1) (' ' :: '"' :: (key ++ '"' :: ':' :: ' ' :: cs)) =
      (readValue fuel cs).bind fun (v, rest) =>
        match readWord [','] (skipSpace rest) with
        | some rest => (readMembers fuel rest).map fun (ms, rest) => ((k, v) :: ms, rest)
        | none => (readWord ['\x7d'] (skipSpace rest)).map fun rest => ([(k, v)], rest) := by
  have space (c : Char) (t : Text) (visible : isJsonSpace c = false) :
      skipSpace (' ' :: c :: t) = c :: t := skipSpace_of_head visible
  rw [readMembers, space _ _ (by decide), readWord_cons, Option.bind_some, literal.readString,
    Option.bind_some]
  dsimp only
  rw [skipSpace_of_head (show isJsonSpace ':' = false by decide), readWord_cons, Option.bind_some]
  exact congrArg (fun read => Option.bind read _) (readValue_space _ _)

theorem readObject (fuel : Nat) (cs : Text) : readValue (fuel + 1) ('\x7b' :: ' ' :: '"' :: cs) =
    (readMembers fuel (' ' :: '"' :: cs)).map fun (ms, rest) => (.obj ms, rest) := by
  have space : skipSpace (' ' :: '"' :: cs) = '"' :: cs :=
    skipSpace_of_head (show isJsonSpace '"' = false by decide)
  rw [readValue, skipSpace_of_head (show isJsonSpace '\x7b' = false by decide)]
  dsimp only
  rw [if_neg (by decide), if_neg (by decide), if_pos rfl, space, readWord_ne _ _ (by decide)]

variable (args : Arguments)

theorem readMembers_arguments (fuel : Nat) (enough : args.text.length ≤ fuel) (rest : Text) :
    readMembers (fuel + 1) (' ' :: '"' :: (argsKey ++ '"' :: argumentTail args.text rest)) =
      some ([(ofText argsKey, args.value)], rest) := by
  have ends : EndsNumber (' ' :: '\x7d' :: rest) := by
    rintro c head
    cases head
    decide
  have close : skipSpace (' ' :: '\x7d' :: rest) = '\x7d' :: rest :=
    skipSpace_of_head (show isJsonSpace '\x7d' = false by decide)
  rw [argumentTail, readMembers_key (literal_plain (plain_of_all (by decide))), Arguments.text,
    readValue_jsonText args.value args.plain fuel _ enough ends, Option.bind_some]
  dsimp only
  rw [close, readWord_ne _ _ (by decide), readWord_cons]
  rfl

theorem readMembers_name {name : Text} {s : JsString} (literal : Literal name s) (fuel : Nat)
    (enough : args.text.length ≤ fuel) (rest : Text) :
    readMembers (fuel + 2) (' ' :: '"' :: (proxyKey ++ '"' :: ':' :: ' ' :: '"' ::
      (name ++ '"' :: nameTail args.text rest))) =
        some ([(ofText proxyKey, .str s), (ofText argsKey, args.value)], rest) := by
  rw [readMembers_key (literal_plain (plain_of_all (by decide))), readValue_literal literal, Option.bind_some]
  dsimp only
  rw [nameTail, skipSpace_of_head (show isJsonSpace ',' = false by decide), readWord_cons]
  dsimp only
  rw [readMembers_arguments args fuel enough rest, Option.map_some]

theorem readValue_request {name : Text} {s : JsString} (literal : Literal name s) (fuel : Nat)
    (enough : args.text.length ≤ fuel) (rest : Text) :
    readValue (fuel + 3) (requestText name args.text rest) =
      some (.obj [(ofText proxyKey, .str s), (ofText argsKey, args.value)], rest) := by
  rw [requestText, readObject, readMembers_name args literal fuel enough rest, Option.map_some]

theorem keys_precede : precedes (ofText proxyKey) (ofText argsKey) = true := by decide

theorem proxyRequest_ordered (name : JsString) : isOrdered (proxyRequest name args.value) = true := by
  refine (isOrdered_obj _).mpr ⟨?_, ?_⟩
  · simpa using keys_precede
  · rw [List.forall_mem_cons, List.forall_mem_cons]
    exact ⟨rfl, args.ordered, fun m member => absurd member List.not_mem_nil⟩

theorem proxyRequest_doubles (name : JsString) :
    asDoubles (proxyRequest name args.value) = proxyRequest name args.value := by
  have doubles : asDoubles args.value = args.value := args.doubles
  simp [proxyRequest, asDoubles, doubles]

theorem parse_request {name : Text} {s : JsString} (literal : Literal name s) :
    parseDoubles (requestText name args.text []) = some (proxyRequest s args.value) := by
  have length : (requestText name args.text []).length =
      ((requestText name args.text []).length - 2) + 2 ∧
        args.text.length ≤ (requestText name args.text []).length - 2 := by
    simp only [requestText_tokens, requestTokens, List.flatten_cons, List.length_cons,
      List.length_append]
    omega
  have read := readValue_request args literal _ length.2 []
  rw [parseDoubles, parse, length.1, read]
  dsimp only
  rw [if_pos (show skipSpace [] = [] from rfl), Option.map_some, ← proxyRequest,
    settle_ordered (proxyRequest_ordered args s), proxyRequest_doubles]

theorem includes_append {needle : Text} (nonempty : needle ≠ []) (before after : Text) :
    includes needle (before ++ (needle ++ after)) = true := by
  induction before with
  | nil =>
    have found : needle.isPrefixOf (needle ++ after) = true :=
      List.isPrefixOf_iff_prefix.mpr (List.prefix_append _ _)
    cases needle with
    | nil => exact absurd rfl nonempty
    | cons c needle =>
      rw [List.nil_append, List.cons_append, includes]
      rw [List.cons_append] at found
      rw [found, Bool.true_or]
  | cons b before ih => rw [List.cons_append, includes, ih, Bool.or_true]

theorem proxySource_tight (name args : Text) : Tight (proxySource name args) := by
  constructor
  · intro c head
    obtain rfl : 'r' = c := Option.some.inj head
    decide
  · intro c last
    rw [proxySource, requestText_append, ← List.append_assoc, List.getLast?_concat] at last
    obtain rfl := Option.some.inj last
    decide

/-- The extraction is that of the first request text in braces. -/
theorem tryExtract_source (name args : Text) :
    tryExtractProxyOutput (utf8 (proxySource name args)) =
      (balanced .start (requestText name args [';'])).bind fun jsonStr =>
        (parseDoubles jsonStr).bind fun parsed =>
          if truthy (member (ofText proxyKey) parsed) then some parsed else none := by
  have marked : includes proxyKey (proxySource name args) = true := by
    have found := @includes_append proxyKey (by decide) (returnText ++ ['\x7b', ' ', '"'])
      ('"' :: ':' :: ' ' :: '"' :: (name ++ '"' :: nameTail args [';']))
    simpa [proxySource, requestText] using found
  have opening : ∀ c, (requestText name args [';']).head? = some c → (c != '\x7b') = false := by
    intro c head
    obtain rfl : '\x7b' = c := Option.some.inj head
    rfl
  have dropped : (proxySource name args).dropWhile (· != '\x7b') = requestText name args [';'] :=
    (span_exact (List.all_eq_true.mp (by decide)) opening).2
  rw [tryExtractProxyOutput, decodeUtf8_utf8, trim_of_tight (proxySource_tight name args),
    if_pos marked, dropped, requestText]

/-- A plain name is read back with its arguments. -/
theorem tryExtract_plain {name : Text} (nonempty : name ≠ []) (plain : ∀ c ∈ name, IsPlainChar c) :
    tryExtractProxyOutput (utf8 (proxySource name args.text)) =
      some (proxyRequest (ofText name) args.value) := by
  have literal := literal_plain plain
  have units : ofText name ≠ [] := fun empty => nonempty (ofText_injective empty)
  have named : truthy (member (ofText proxyKey) (proxyRequest (ofText name) args.value)) = true := by
    simpa [proxyRequest, member, property, truthy] using units
  rw [tryExtract_source, Arguments.text,
    balanced_requestText literal (passes_jsonText args.value 1 le_rfl), Option.bind_some,
    ← Arguments.text, parse_request args literal, Option.bind_some, if_pos named]

end NeuralMesh.Gateway
