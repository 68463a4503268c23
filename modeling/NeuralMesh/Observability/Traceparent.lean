import NeuralMesh.Codec.Hex
import NeuralMesh.Js.Trim

/-! The `traceparent` header. A service puts the context of its span into the header of a request;
the next one reads it and continues the trace in a span of its own. -/
namespace NeuralMesh.Observability

open Js Codec

structure SpanContext where
  traceId : Text
  spanId : Text
  sampled : Bool
  deriving DecidableEq

/-! ### The header -/

/-- `[0-9a-f]` -/
def isLowerHex (c : Char) : Bool :=
  (48 ≤ c.toNat && c.toNat ≤ 57) || (97 ≤ c.toNat && c.toNat ≤ 102)

/-- `"0".repeat(n)` -/
def zeros (n : Nat) : Text := List.replicate n '0'

/-- `([0-9a-f]{n})`, and the text behind it. -/
def readGroup (n : Nat) (text : Text) : Option (Text × Text) :=
  if n ≤ text.length ∧ (text.take n).all isLowerHex then some (text.take n, text.drop n) else none

def readDash : Text → Option Text
  | '-' :: text => some text
  | _ => none

/-- The groups of the header. -/
structure Fields where
  version : Text
  traceId : Text
  spanId : Text
  flags : Text

/-- `TRACEPARENT_REGEX.exec` -/
def matchTraceparent (text : Text) : Option Fields := do
  let (version, text) ← readGroup 2 text
  let text ← readDash text
  let (traceId, text) ← readGroup 32 text
  let text ← readDash text
  let (spanId, text) ← readGroup 16 text
  let text ← readDash text
  let (flags, text) ← readGroup 2 text
  if text = [] then some ⟨version, traceId, spanId, flags⟩ else none

/-- `Number.parseInt(digits, 16)` -/
def parseHex (digits : Text) : Nat :=
  digits.foldl (fun n c => n * 16 + (hexValue c).getD 0) 0

def Fields.context (fields : Fields) : SpanContext where
  traceId := fields.traceId
  spanId := fields.spanId
  sampled := parseHex fields.flags &&& 1 == 1

/-- Version 00 has no ids of zeros only. -/
def Fields.rejected (fields : Fields) : Bool :=
  fields.version == zeros 2 && (fields.traceId == zeros 32 || fields.spanId == zeros 16)

def parseTraceparent : Option Text → Option SpanContext
  | none => none
  | some header =>
    if header = [] then none
    else
      match matchTraceparent (trim header) with
      | none => none
      | some fields => if fields.rejected then none else some fields.context

def formatTraceparent (context : SpanContext) : Text :=
  zeros 2 ++ '-' :: context.traceId ++ '-' :: context.spanId ++
    '-' :: (if context.sampled then ['0', '1'] else ['0', '0'])

/-! ### Carriers and spans -/

inductive HeaderValue where
  | undefined
  | text (value : Text)
  | texts (values : List Text)

/-- The headers of a request under the two names. -/
structure Carrier where
  traceparent : HeaderValue
  capitalTraceparent : HeaderValue

def HeaderValue.isTruthy : HeaderValue → Bool
  | undefined => false
  | text value => value ≠ []
  | texts _ => true

def injectTraceparent (carrier : Carrier) (context : SpanContext) : Carrier :=
  { carrier with traceparent := .text (formatTraceparent context) }

def extractTraceparent (carrier : Carrier) : Option SpanContext :=
  match if carrier.traceparent.isTruthy then carrier.traceparent else carrier.capitalTraceparent with
  | .texts values => parseTraceparent values.head?
  | .text value => parseTraceparent (some value)
  | .undefined => parseTraceparent none

/-- The loop of `generateTraceId` and `generateSpanId`, on the bytes that are drawn. -/
def generateId (bytes : Nat) : List Bytes → Option Text
  | [] => none
  | drawn :: draws =>
    if hexText drawn = zeros (2 * bytes) then generateId bytes draws else some (hexText drawn)

/-- The context of a span that `startSpan` makes, with the ids generated for it. -/
def startSpan (parent : Option SpanContext) (newTraceId newSpanId : Text) : SpanContext where
  traceId := match parent with
    | some context => if context.traceId = [] then newTraceId else context.traceId
    | none => newTraceId
  spanId := newSpanId
  sampled := match parent with
    | some context => context.sampled
    | none => true

/-! ### What is accepted -/

/-- A group of this length. -/
structure IsGroup (n : Nat) (digits : Text) : Prop where
  length : digits.length = n
  hex : ∀ c ∈ digits, isLowerHex c = true

/-- A group that is not zero. -/
structure Identifies (n : Nat) (id : Text) : Prop extends IsGroup n id where
  nonzero : id ≠ zeros n

structure Fields.Spelled (fields : Fields) : Prop where
  version : IsGroup 2 fields.version
  traceId : IsGroup 32 fields.traceId
  spanId : IsGroup 16 fields.spanId
  flags : IsGroup 2 fields.flags

def Fields.text (fields : Fields) : Text :=
  fields.version ++ '-' :: (fields.traceId ++ '-' :: (fields.spanId ++ '-' :: fields.flags))

/-- Both ids are usable. -/
structure SpanContext.Proper (context : SpanContext) : Prop where
  traceId : Identifies 32 context.traceId
  spanId : Identifies 16 context.spanId

theorem readGroup_iff {n : Nat} {text digits rest : Text} :
    readGroup n text = some (digits, rest) ↔ IsGroup n digits ∧ text = digits ++ rest := by
  unfold readGroup
  constructor
  · intro read
    split_ifs at read with found
    obtain ⟨enough, hex⟩ := found
    cases read
    exact ⟨⟨List.length_take_of_le enough, List.all_eq_true.mp hex⟩,
      (List.take_append_drop n text).symm⟩
  · rintro ⟨group, rfl⟩
    have front : (digits ++ rest).take n = digits := group.length ▸ List.take_left
    have back : (digits ++ rest).drop n = rest := group.length ▸ List.drop_left
    have enough : n ≤ (digits ++ rest).length := by
      rw [List.length_append, group.length]
      exact Nat.le_add_right n _
    rw [front, back, if_pos ⟨enough, List.all_eq_true.mpr group.hex⟩]

theorem readDash_iff {text rest : Text} : readDash text = some rest ↔ text = '-' :: rest := by
  unfold readDash
  split
  · rw [Option.some.injEq, List.cons.injEq]
    exact (and_iff_right rfl).symm
  next other =>
    refine iff_of_false nofun ?_
    rintro rfl
    exact other rest rfl

theorem matchTraceparent_iff {text : Text} {fields : Fields} :
    matchTraceparent text = some fields ↔ fields.Spelled ∧ text = fields.text := by
  unfold matchTraceparent
  simp only [Option.bind_eq_bind, Option.bind_eq_some_iff, Prod.exists, readGroup_iff, readDash_iff]
  constructor
  · rintro ⟨version, _, ⟨first, rfl⟩, _, rfl, traceId, _, ⟨second, rfl⟩, _, rfl, spanId, _,
      ⟨third, rfl⟩, _, rfl, flags, rest, ⟨fourth, rfl⟩, done⟩
    split_ifs at done with ended
    cases done
    subst ended
    exact ⟨⟨first, second, third, fourth⟩, by rw [List.append_nil]; rfl⟩
  · rintro ⟨spelled, rfl⟩
    refine ⟨_, _, ⟨spelled.version, rfl⟩, _, rfl, _, _, ⟨spelled.traceId, rfl⟩, _, rfl, _, _,
      ⟨spelled.spanId, rfl⟩, _, rfl, _, [], ⟨spelled.flags, (List.append_nil _).symm⟩, ?_⟩
    rw [if_pos rfl]

/-- The accepted headers are the spelled ones with blanks around them, except those of version 00
with an id of zeros. -/
theorem parseTraceparent_iff {header : Text} {context : SpanContext} :
    parseTraceparent (some header) = some context ↔
      ∃ fields : Fields, fields.Spelled ∧ trim header = fields.text ∧ fields.rejected = false ∧
        context = fields.context := by
  have something : ∀ fields : Fields, trim header = fields.text → header ≠ [] := by
    rintro fields whole rfl
    have length := congrArg List.length whole
    rw [trim_blank blank_nil, Fields.text, List.length_append, List.length_cons] at length
    exact absurd length (by rw [List.length_nil]; omega)
  unfold parseTraceparent
  dsimp only
  constructor
  · intro parsed
    split_ifs at parsed
    cases found : matchTraceparent (trim header) with
    | none =>
      rw [found] at parsed
      cases parsed
    | some fields =>
      rw [found] at parsed
      obtain ⟨spelled, whole⟩ := matchTraceparent_iff.mp found
      dsimp only at parsed
      split_ifs at parsed with rejected
      exact ⟨fields, spelled, whole, eq_false_of_ne_true rejected, (Option.some.inj parsed).symm⟩
  · rintro ⟨fields, spelled, whole, kept, rfl⟩
    rw [if_neg (something fields whole), matchTraceparent_iff.mpr ⟨spelled, whole⟩]
    dsimp only
    rw [if_neg (by rw [kept]; exact Bool.false_ne_true)]

/-! ### Round trip -/

/-- The groups that are written for a context. -/
def SpanContext.fields (context : SpanContext) : Fields where
  version := zeros 2
  traceId := context.traceId
  spanId := context.spanId
  flags := if context.sampled then ['0', '1'] else ['0', '0']

theorem formatTraceparent_eq (context : SpanContext) :
    formatTraceparent context = context.fields.text := by
  simp only [formatTraceparent, Fields.text, SpanContext.fields, List.append_assoc,
    List.cons_append]

theorem fields_context (context : SpanContext) : context.fields.context = context := by
  obtain ⟨traceId, spanId, sampled⟩ := context
  have set : (parseHex ['0', '1'] &&& 1 == 1) = true := by decide
  have clear : (parseHex ['0', '0'] &&& 1 == 1) = false := by decide
  cases sampled with
  | true => exact congrArg (SpanContext.mk traceId spanId) set
  | false => exact congrArg (SpanContext.mk traceId spanId) clear

theorem isGroup_of_all {n : Nat} {digits : Text} (length : digits.length = n)
    (hex : digits.all isLowerHex = true) : IsGroup n digits :=
  ⟨length, List.all_eq_true.mp hex⟩

theorem isGroup_zeros : IsGroup 2 (zeros 2) :=
  isGroup_of_all rfl (show List.all ['0', '0'] isLowerHex = true by decide)

theorem isGroup_flags (sampled : Bool) :
    IsGroup 2 (if sampled then ['0', '1'] else ['0', '0']) := by
  cases sampled with
  | true => exact isGroup_of_all rfl (show List.all ['0', '1'] isLowerHex = true by decide)
  | false => exact isGroup_zeros

theorem fields_spelled {context : SpanContext} (traceId : IsGroup 32 context.traceId)
    (spanId : IsGroup 16 context.spanId) : context.fields.Spelled where
  version := isGroup_zeros
  traceId := traceId
  spanId := spanId
  flags := isGroup_flags context.sampled

theorem fields_rejected (context : SpanContext) : context.fields.rejected = false ↔
    context.traceId ≠ zeros 32 ∧ context.spanId ≠ zeros 16 := by
  unfold Fields.rejected SpanContext.fields
  rw [beq_self_eq_true, Bool.true_and, Bool.or_eq_false_iff, beq_eq_false_iff_ne,
    beq_eq_false_iff_ne]

theorem isSpace_hex {c : Char} (hex : isLowerHex c = true) : isSpace c = false := by
  unfold isLowerHex at hex
  unfold isSpace
  simp only [Bool.or_eq_true, Bool.and_eq_true, decide_eq_true_eq] at hex
  simp only [Bool.or_eq_false_iff, Bool.and_eq_false_iff, decide_eq_false_iff_not,
    beq_eq_false_iff_ne]
  omega

theorem Fields.Spelled.tight {fields : Fields} (spelled : fields.Spelled) : Tight fields.text where
  first := by
    intro c head
    cases digits : fields.version with
    | nil => exact absurd (digits ▸ spelled.version.length) (by decide)
    | cons d version =>
      rw [text, digits, List.cons_append, List.head?_cons] at head
      refine isSpace_hex (spelled.version.hex c ?_)
      rw [digits, ← Option.some.inj head]
      exact List.mem_cons_self
  last := by
    intro c last
    have whole : fields.text = (fields.version ++ '-' :: (fields.traceId ++ '-' ::
        (fields.spanId ++ ['-']))) ++ fields.flags := by
      simp only [text, List.append_assoc, List.cons_append, List.nil_append]
    have nonempty : fields.flags ≠ [] := by
      intro none
      exact absurd (none ▸ spelled.flags.length) (by decide)
    rw [whole, List.getLast?_append_of_ne_nil _ nonempty] at last
    exact isSpace_hex (spelled.flags.hex c (List.mem_of_getLast? last))

/-- A header with blanks around it is read as the context it was written for exactly when no id of
it is zero. -/
theorem parse_format_iff {context : SpanContext} (traceId : IsGroup 32 context.traceId)
    (spanId : IsGroup 16 context.spanId) {before after : Text} (left : Blank before)
    (right : Blank after) :
    parseTraceparent (some (before ++ (formatTraceparent context ++ after))) = some context ↔
      context.traceId ≠ zeros 32 ∧ context.spanId ≠ zeros 16 := by
  have spelled := fields_spelled traceId spanId
  have trimmed : trim (before ++ (formatTraceparent context ++ after)) = context.fields.text := by
    rw [formatTraceparent_eq]
    exact trim_unique left right spelled.tight
  constructor
  · intro parsed
    obtain ⟨fields, others, whole, kept, same⟩ := parseTraceparent_iff.mp parsed
    have found := matchTraceparent_iff.mpr ⟨others, whole⟩
    rw [trimmed, matchTraceparent_iff.mpr ⟨spelled, rfl⟩] at found
    rw [← Option.some.inj found] at kept
    exact (fields_rejected context).mp kept
  · intro nonzero
    exact parseTraceparent_iff.mpr ⟨context.fields, spelled, trimmed,
      (fields_rejected context).mpr nonzero, (fields_context context).symm⟩

/-- A context that is not sampled. -/
def unsampled : SpanContext := ⟨List.replicate 32 'a', List.replicate 16 'b', false⟩

theorem unsampled_proper : unsampled.Proper where
  traceId := ⟨isGroup_of_all List.length_replicate (by decide), by decide⟩
  spanId := ⟨isGroup_of_all List.length_replicate (by decide), by decide⟩

theorem unsampled_parse :
    parseTraceparent (some ([' '] ++ (formatTraceparent unsampled ++ []))) = some unsampled ↔
      unsampled.traceId ≠ zeros 32 ∧ unsampled.spanId ≠ zeros 16 :=
  parse_format_iff unsampled_proper.traceId.toIsGroup unsampled_proper.spanId.toIsGroup
    (by simp only [Blank, List.mem_singleton, forall_eq]; decide) blank_nil

/-! ### Propagation -/

theorem isLowerHex_hexDigit : ∀ d < 16, isLowerHex (hexDigit d) = true := by decide

theorem isLowerHex_hexText {bytes : Bytes} : ∀ c ∈ hexText bytes, isLowerHex c = true := by
  induction bytes with
  | nil => rintro c ⟨⟩
  | cons b bytes ih =>
    have bound := b.toNat_lt
    intro c member
    rw [hexText, List.mem_cons, List.mem_cons] at member
    rcases member with rfl | rfl | member
    · exact isLowerHex_hexDigit _ (by omega)
    · exact isLowerHex_hexDigit _ (by omega)
    · exact ih c member

theorem generateId_identifies {bytes : Nat} {draws : List Bytes} {id : Text}
    (sized : ∀ drawn ∈ draws, drawn.length = bytes) (generated : generateId bytes draws = some id) :
    Identifies (2 * bytes) id := by
  induction draws with
  | nil => cases generated
  | cons drawn draws ih =>
    obtain ⟨length, sized⟩ := List.forall_mem_cons.mp sized
    rw [generateId] at generated
    split_ifs at generated with zero
    · exact ih sized generated
    · obtain rfl := Option.some.inj generated
      exact ⟨⟨by rw [hexText_length, length], isLowerHex_hexText⟩, zero⟩

/-- A header that a transport delivers: under either name, alone or first of several, with blanks
around it. -/
inductive Delivers (header : Text) : Carrier → Prop where
  | text (before after : Text) (other : HeaderValue) (left : Blank before) (right : Blank after) :
    Delivers header ⟨.text (before ++ (header ++ after)), other⟩
  | texts (before after : Text) (more : List Text) (other : HeaderValue) (left : Blank before)
    (right : Blank after) : Delivers header ⟨.texts ((before ++ (header ++ after)) :: more), other⟩
  | capitalText (before after : Text) (absent : HeaderValue) (none : absent.isTruthy = false)
    (left : Blank before) (right : Blank after) :
    Delivers header ⟨absent, .text (before ++ (header ++ after))⟩
  | capitalTexts (before after : Text) (more : List Text) (absent : HeaderValue)
    (none : absent.isTruthy = false) (left : Blank before) (right : Blank after) :
    Delivers header ⟨absent, .texts ((before ++ (header ++ after)) :: more)⟩

theorem Delivers.extract {context : SpanContext} {carrier : Carrier} (proper : context.Proper)
    (delivers : Delivers (formatTraceparent context) carrier) :
    extractTraceparent carrier = some context := by
  have reads : ∀ before after : Text, Blank before → Blank after →
      parseTraceparent (some (before ++ (formatTraceparent context ++ after))) = some context :=
    fun before after left right =>
      (parse_format_iff proper.traceId.toIsGroup proper.spanId.toIsGroup left right).mpr
        ⟨proper.traceId.nonzero, proper.spanId.nonzero⟩
  cases delivers with
  | text before after other left right =>
    have present : (HeaderValue.text (before ++ (formatTraceparent context ++ after))).isTruthy =
        true := by
      have longer : before ++ (formatTraceparent context ++ after) ≠ [] :=
        List.append_ne_nil_of_right_ne_nil _
          (List.append_ne_nil_of_left_ne_nil (List.cons_ne_nil '0' _) _)
      exact decide_eq_true longer
    unfold extractTraceparent
    dsimp only
    rw [if_pos present]
    exact reads before after left right
  | texts before after more other left right => exact reads before after left right
  | capitalText before after absent none left right =>
    unfold extractTraceparent
    dsimp only
    rw [if_neg (by rw [none]; exact Bool.false_ne_true)]
    exact reads before after left right
  | capitalTexts before after more absent none left right =>
    unfold extractTraceparent
    dsimp only
    rw [if_neg (by rw [none]; exact Bool.false_ne_true)]
    exact reads before after left right

/-- A service that is called, with the ids that it generates. -/
structure Hop where
  carrier : Carrier
  newTraceId : Text
  newSpanId : Text
  traceIdGenerated : Identifies 32 newTraceId
  spanIdGenerated : Identifies 16 newSpanId

/-- The context of the span in which the service handles the request. -/
def Hop.serve (hop : Hop) : SpanContext :=
  startSpan (extractTraceparent hop.carrier) hop.newTraceId hop.newSpanId

/-- Each service gets the header of the one before. -/
def Relayed : SpanContext → List Hop → Prop
  | _, [] => True
  | context, hop :: hops =>
    Delivers (formatTraceparent context) hop.carrier ∧ Relayed hop.serve hops

/-- Along any chain of services, every span has the trace id and the sampling decision of the first
one, and a span id of its own. -/
theorem relayed_trace {root : SpanContext} (proper : root.Proper) {hops : List Hop}
    (relayed : Relayed root hops) :
    ∀ hop ∈ hops, hop.serve = ⟨root.traceId, hop.newSpanId, root.sampled⟩ := by
  induction hops generalizing root with
  | nil => rintro hop ⟨⟩
  | cons first hops ih =>
    obtain ⟨delivers, relayed⟩ := relayed
    have present : root.traceId ≠ [] := by
      intro none
      exact absurd (none ▸ proper.traceId.length) (by decide)
    have served : first.serve = ⟨root.traceId, first.newSpanId, root.sampled⟩ := by
      rw [Hop.serve, delivers.extract proper, startSpan, if_neg present]
    intro hop member
    rcases List.mem_cons.mp member with rfl | later
    · exact served
    · rw [served] at relayed
      have next : SpanContext.Proper ⟨root.traceId, first.newSpanId, root.sampled⟩ :=
        ⟨proper.traceId, first.spanIdGenerated⟩
      exact ih next relayed hop later

/-- A service that gets the header among several. -/
def calledHop : Hop where
  carrier := ⟨.texts [formatTraceparent unsampled ++ [], []], .undefined⟩
  newTraceId := List.replicate 32 'c'
  newSpanId := List.replicate 16 'd'
  traceIdGenerated := ⟨isGroup_of_all List.length_replicate (by decide), by decide⟩
  spanIdGenerated := ⟨isGroup_of_all List.length_replicate (by decide), by decide⟩

theorem calledHop_trace :
    calledHop.serve = ⟨unsampled.traceId, calledHop.newSpanId, unsampled.sampled⟩ := by
  have relayed : Relayed unsampled [calledHop] :=
    ⟨.texts [] [] [[]] .undefined blank_nil blank_nil, trivial⟩
  exact relayed_trace unsampled_proper relayed calledHop List.mem_cons_self

end NeuralMesh.Observability
