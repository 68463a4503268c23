import NeuralMesh.Server.ExtractLogic

/-! When the checked source is the source that runs. The extraction takes the first
compact block anywhere in the payload, the worker strips one envelope that spans
the payload; both leave other payloads as they are. -/
namespace NeuralMesh.Server

open Js Crypto

/-! ### The shape of a block -/

/-- The first place that closes comes right after `l`. -/
structure Closed (l rest : Text) : Prop where
  closed : closes rest = true
  first : ∀ a b, l = a ++ b → closes (b ++ rest) = true → b = []

/-- `IsLogic l body`: a block with this body has the logic `l`. -/
inductive IsLogic (l body : Text) : Prop where
  | source (nl rest : Text) (breaks : nl ≠ []) (newlines : ∀ c ∈ nl, isNewline c = true)
      (present : l ≠ []) (visible : ∀ c, l.head? = some c → isNewline c = false)
      (closed : Closed l rest) (shape : body = nl ++ (l ++ rest))
  /-- Nothing but line breaks comes before the mark, and no later place closes. -/
  | nothing (c : Char) (rest : Text) (newline : isNewline c = true) (closed : closes rest = true)
      (last : ∀ a b, rest.dropWhile isNewline = a ++ b → closes b = false) (empty : l = [])
      (shape : body = c :: rest)

/-- A block with the logic `l` starts here. -/
def StartsBlock (l t : Text) : Prop :=
  ∃ h body, t = openMark ++ (h ++ '\x7d' :: body) ∧ '\x7d' ∉ h ∧ acceptsHeader h = true ∧
    IsLogic l body

/-- The first block in the text has the logic `l`. -/
def FirstLogic (l t : Text) : Prop :=
  ∃ before rest, t = before ++ rest ∧ StartsBlock l rest ∧
    ∀ a b, before = a ++ b → b ≠ [] → ∀ l', ¬ StartsBlock l' (b ++ rest)

theorem cut_eq_some {cs l : Text} : cut cs = some l ↔ ∃ rest, cs = l ++ rest ∧ Closed l rest := by
  induction cs generalizing l with
  | nil =>
    constructor
    · rintro ⟨⟩
    · rintro ⟨rest, same, closed, _⟩
      obtain ⟨rfl, rfl⟩ := List.append_eq_nil_iff.mp same.symm
      cases closed
  | cons c cs ih =>
    rw [cut]
    by_cases here : closes (c :: cs) = true
    · rw [if_pos here, Option.some.injEq]
      constructor
      · rintro rfl
        exact ⟨c :: cs, rfl, here, by simp⟩
      · rintro ⟨rest, same, _, first⟩
        exact (first [] l rfl (same ▸ here)).symm
    · rw [if_neg here, Option.map_eq_some_iff]
      constructor
      · rintro ⟨l, found, rfl⟩
        obtain ⟨rest, rfl, closed, first⟩ := ih.mp found
        refine ⟨rest, rfl, closed, ?_⟩
        intro a b same later
        cases a with
        | nil =>
          subst same
          exact absurd later here
        | cons d a =>
          rw [List.cons_append, List.cons.injEq] at same
          exact first a b same.2 later
      · rintro ⟨rest, same, closed, first⟩
        cases l with
        | nil => exact absurd (same ▸ closed) here
        | cons d l =>
          rw [List.cons_append, List.cons.injEq] at same
          obtain ⟨rfl, rfl⟩ := same
          refine ⟨l, ih.mpr ⟨rest, rfl, closed, ?_⟩, rfl⟩
          intro a b split
          exact first (c :: a) b (by rw [split, List.cons_append])

theorem cut_eq_none {cs : Text} : cut cs = none ↔ ∀ a b, cs = a ++ b → closes b = false := by
  induction cs with
  | nil =>
    constructor
    · intro _ a b same
      obtain ⟨_, rfl⟩ := List.append_eq_nil_iff.mp same.symm
      rfl
    · intro _
      rfl
  | cons c cs ih =>
    rw [cut]
    by_cases here : closes (c :: cs) = true
    · rw [if_pos here]
      constructor
      · rintro ⟨⟩
      · intro open'
        rw [open' [] (c :: cs) rfl] at here
        cases here
    · rw [if_neg here, Option.map_eq_none_iff, ih]
      constructor
      · intro later a b same
        cases a with
        | nil =>
          subst same
          simpa using here
        | cons d a =>
          rw [List.cons_append, List.cons.injEq] at same
          exact later a b same.2
      · intro later a b same
        exact later (c :: a) b (by rw [same, List.cons_append])

theorem blockBody_eq_some {body l : Text} : blockBody body = some l ↔ IsLogic l body := by
  constructor
  · intro found
    cases body with
    | nil => cases found
    | cons c cs =>
      rw [blockBody] at found
      by_cases newline : isNewline c = true
      · rw [if_pos newline] at found
        rcases Option.or_eq_some_iff.mp found with source | ⟨missing, empty⟩
        · obtain ⟨rest, split, closed⟩ := cut_eq_some.mp source
          have visible := List.head?_dropWhile_not isNewline cs
          rw [split] at visible
          have present : l ≠ [] := by
            rintro rfl
            cases rest with
            | nil => cases closed.closed
            | cons d rest =>
              have open' := closes_visible rest (by simpa using visible)
              rw [closed.closed] at open'
              cases open'
          refine .source (c :: cs.takeWhile isNewline) rest (List.cons_ne_nil _ _) ?_ present ?_
            closed ?_
          · rw [List.forall_mem_cons]
            exact ⟨newline, fun d member => List.mem_takeWhile_imp member⟩
          · intro d head
            rw [List.head?_append_of_ne_nil _ present, head] at visible
            simpa using visible
          · rw [← split, List.cons_append, List.takeWhile_append_dropWhile]
        · split_ifs at empty with closed
          exact .nothing c cs newline closed (cut_eq_none.mp missing) (Option.some.inj empty).symm rfl
      · rw [if_neg newline] at found
        cases found
  · rintro (⟨nl, rest, breaks, newlines, present, visible, closed, rfl⟩ |
      ⟨c, rest, newline, closed, last, rfl, rfl⟩)
    · cases nl with
      | nil => exact absurd rfl breaks
      | cons c nl =>
        obtain ⟨newline, newlines⟩ := List.forall_mem_cons.mp newlines
        have skipped := (@span_exact _ isNewline nl (l ++ rest) newlines (by
          intro d head
          rw [List.head?_append_of_ne_nil _ present] at head
          exact visible d head)).2
        rw [List.cons_append, blockBody, if_pos newline, skipped, cut_eq_some.mpr ⟨rest, rfl, closed⟩,
          Option.some_or]
    · rw [blockBody, if_pos newline, cut_eq_none.mpr last, if_pos closed, Option.none_or]

theorem openMark_brace : '\x7d' ∉ openMark := by decide

theorem header_brace {h : Text} (closed : '\x7d' ∉ h) : ∀ c ∈ h, (c != '\x7d') = true := by
  intro c member
  rw [bne_iff_ne]
  rintro rfl
  exact closed member

theorem blockHere_header {h : Text} (body : Text) (closed : '\x7d' ∉ h) :
    blockHere (openMark ++ (h ++ '\x7d' :: body)) =
      if acceptsHeader h then blockBody body else none := by
  have header := @span_exact _ _ h ('\x7d' :: body) (header_brace closed) (by simp)
  rw [blockHere, readWord_append, Option.bind_some, header.1, header.2]

theorem blockHere_eq_some {t l : Text} : blockHere t = some l ↔ StartsBlock l t := by
  constructor
  · intro found
    obtain ⟨rest, read, found⟩ := Option.bind_eq_some_iff.mp found
    split_ifs at found with accepted
    cases tail : rest.dropWhile (· != '\x7d') with
    | nil =>
      rw [tail] at found
      cases found
    | cons c body =>
      rw [tail] at found
      have brace := List.head?_dropWhile_not (· != '\x7d') rest
      rw [tail, List.head?_cons] at brace
      obtain rfl : c = '\x7d' := by simpa using brace
      refine ⟨rest.takeWhile (· != '\x7d'), body, ?_, ?_, accepted, blockBody_eq_some.mp found⟩
      · rw [readWord_eq_some.mp read, ← tail, List.takeWhile_append_dropWhile]
      · intro member
        simpa using List.mem_takeWhile_imp member
  · rintro ⟨h, body, rfl, closed, accepted, logic⟩
    rw [blockHere_header body closed, if_pos accepted, blockBody_eq_some.mpr logic]

theorem startsBlock_nonempty {l : Text} : ¬ StartsBlock l [] := by
  rintro ⟨h, body, same, _⟩
  have length := congrArg List.length same
  simp at length

theorem firstBlock_eq_some {t l : Text} : firstBlock t = some l ↔ FirstLogic l t := by
  induction t with
  | nil =>
    constructor
    · rintro ⟨⟩
    · rintro ⟨before, rest, same, starts, _⟩
      obtain ⟨_, rfl⟩ := List.append_eq_nil_iff.mp same.symm
      exact absurd starts startsBlock_nonempty
  | cons c cs ih =>
    rw [firstBlock, Option.or_eq_some_iff, blockHere_eq_some, ih]
    constructor
    · rintro (starts | ⟨missing, before, rest, rfl, starts, first⟩)
      · exact ⟨[], c :: cs, rfl, starts, by simp⟩
      · refine ⟨c :: before, rest, rfl, starts, ?_⟩
        intro a b same nonempty l' earlier
        cases a with
        | nil =>
          rw [List.nil_append] at same
          subst same
          rw [← blockHere_eq_some, List.cons_append, missing] at earlier
          cases earlier
        | cons d a =>
          rw [List.cons_append, List.cons.injEq] at same
          exact first a b same.2 nonempty l' earlier
    · rintro ⟨before, rest, same, starts, first⟩
      cases before with
      | nil =>
        left
        rwa [same]
      | cons d before =>
        rw [List.cons_append, List.cons.injEq] at same
        obtain ⟨rfl, rfl⟩ := same
        refine .inr ⟨?_, before, rest, rfl, starts, ?_⟩
        · cases here : blockHere (c :: (before ++ rest)) with
          | none => rfl
          | some l' =>
            exact absurd (blockHere_eq_some.mp here)
              (first [] (c :: before) rfl (List.cons_ne_nil _ _) l')
        · intro a b split
          exact first (c :: a) b (by rw [split, List.cons_append])

/-! ### Blocks in an envelope -/

/-- A compact header starts somewhere in `y`. -/
def HasHeader (y : Text) : Prop :=
  ∃ before h, y = before ++ (openMark ++ h) ∧ acceptsHeader h = true

theorem hasHeader_cons {c : Char} {y : Text} : HasHeader (c :: y) ↔
    (∃ h, c :: y = openMark ++ h ∧ acceptsHeader h = true) ∨ HasHeader y := by
  constructor
  · rintro ⟨before, h, same, accepted⟩
    cases before with
    | nil => exact .inl ⟨h, same, accepted⟩
    | cons d before =>
      rw [List.cons_append, List.cons.injEq] at same
      exact .inr ⟨before, h, same.2, accepted⟩
  · rintro (⟨h, same, accepted⟩ | ⟨before, h, rfl, accepted⟩)
    · exact ⟨[], h, same, accepted⟩
    · exact ⟨c :: before, h, rfl, accepted⟩

/-- In a text without braces that a brace follows, the mark is in the text. -/
theorem openMark_within {y rest body : Text}
    (same : y ++ '\x7d' :: body = openMark ++ rest) :
    ∃ h, y = openMark ++ h ∧ rest = h ++ '\x7d' :: body := by
  rcases List.append_eq_append_iff.mp same with ⟨h, mark, whole⟩ | ⟨h, text, whole⟩
  · cases h with
    | nil => exact ⟨[], by simpa using mark.symm, by simpa using whole.symm⟩
    | cons c h =>
      rw [List.cons_append, List.cons.injEq] at whole
      obtain ⟨rfl, _⟩ := whole
      exact absurd (mark ▸ List.mem_append_right y List.mem_cons_self) openMark_brace
  · exact ⟨h, text, whole⟩

open Classical in
/-- Every compact header before a brace has the text after the brace as its body. -/
theorem firstBlock_header {y : Text} (body : Text) (closed : '\x7d' ∉ y) :
    firstBlock (y ++ '\x7d' :: body) =
      (if HasHeader y then blockBody body else none).or (firstBlock ('\x7d' :: body)) := by
  induction y with
  | nil =>
    rw [if_neg, Option.none_or, List.nil_append]
    rintro ⟨before, h, same, _⟩
    have length := congrArg List.length same
    simp [openMark] at length
  | cons c y ih =>
    rw [List.cons_append, firstBlock, ih (List.not_mem_of_not_mem_cons closed)]
    by_cases here : ∃ h, c :: y = openMark ++ h ∧ acceptsHeader h = true
    · rw [if_pos (hasHeader_cons.mpr (.inl here))]
      obtain ⟨h, same, accepted⟩ := here
      have inner : '\x7d' ∉ h := fun member => closed (same ▸ List.mem_append_right _ member)
      rw [← List.cons_append, same, List.append_assoc, blockHere_header body inner, if_pos accepted]
      cases blockBody body with
      | some l => rfl
      | none => split_ifs <;> rfl
    · have missing : blockHere (c :: (y ++ '\x7d' :: body)) = none := by
        cases found : blockHere (c :: (y ++ '\x7d' :: body)) with
        | none => rfl
        | some l =>
          obtain ⟨h, rest, same, braceless, accepted, _⟩ := blockHere_eq_some.mp found
          rw [← List.cons_append] at same
          obtain ⟨h', mark, split⟩ := openMark_within same
          have inner : '\x7d' ∉ h' := fun member => closed (mark ▸ List.mem_append_right _ member)
          have unique : h = h' := by
            rw [← (@span_exact _ _ _ ('\x7d' :: rest) (header_brace braceless) (by simp)).1, split,
              (@span_exact _ _ _ ('\x7d' :: body) (header_brace inner) (by simp)).1]
          exact absurd ⟨h', mark, unique ▸ accepted⟩ here
      rw [missing, Option.none_or]
      by_cases later : HasHeader y
      · rw [if_pos later, if_pos (hasHeader_cons.mpr (.inr later))]
      · rw [if_neg later, if_neg (by rw [hasHeader_cons]; exact not_or_intro here later)]

/-! ### Agreement -/

/-- The body of an envelope is line breaks, a visible source with no line break
before a closing mark in it, and line breaks. -/
def CompactBody (m : Text) : Prop :=
  ∃ nl l nl', m = nl ++ (l ++ nl') ∧ nl ≠ [] ∧ (∀ c ∈ nl, isNewline c = true) ∧
    (∀ c ∈ nl', isNewline c = true) ∧ ¬ Blank l ∧
    (∀ c, l.head? = some c → isNewline c = false) ∧ Closed l (nl' ++ closeMark)

/-- The payload is one envelope that both grammars read alike, or it is none and no
source can be extracted from it. -/
def SourcesAgree (p : Text) : Prop :=
  (∃ h m, IsEnvelope h m (trim p) ∧ HasHeader (openMark ++ h) ∧ CompactBody m) ∨
    ((∀ h m, ¬ IsEnvelope h m (trim p)) ∧ ∀ l, FirstLogic l (trim p) → Blank l)

theorem closes_shape {cs : Text} (closed : closes cs = true) :
    ∃ nl post, (∀ c ∈ nl, isNewline c = true) ∧ cs = nl ++ (closeMark ++ post) := by
  rw [closes, Bool.and_eq_true] at closed
  obtain ⟨post, same⟩ := List.isPrefixOf_iff_prefix.mp closed.2
  refine ⟨cs.takeWhile isNewline, post, fun c member => List.mem_takeWhile_imp member, ?_⟩
  rw [same, List.takeWhile_append_dropWhile]

theorem blank_newlines {nl : Text} (newlines : ∀ c ∈ nl, isNewline c = true) : Blank nl := by
  intro c member
  have newline := newlines c member
  rw [isNewline, Bool.or_eq_true, beq_iff_eq, beq_iff_eq] at newline
  rcases newline with rfl | rfl <;> rfl

/-- A closing mark within a text that ends with one ends it or comes before the end. -/
theorem closing_within {m a post : Text} (same : m ++ closeMark = a ++ (closeMark ++ post)) :
    ∃ b, m = a ++ b ∧ closeMark ++ post = b ++ closeMark := by
  rcases List.append_eq_append_iff.mp same with ⟨b, whole, mark⟩ | ⟨b, whole, mark⟩
  · have length := congrArg List.length mark
    simp only [List.length_append] at length
    have none_b : b = [] := List.length_eq_zero_iff.mp (by omega)
    have none_post : post = [] := List.length_eq_zero_iff.mp (by omega)
    refine ⟨[], ?_, ?_⟩
    · rw [whole, none_b, List.append_nil, List.append_nil]
    · rw [none_post, List.append_nil, List.nil_append]
  · exact ⟨b, whole, mark⟩

theorem closing_visible {b post : Text} (nonempty : b ≠ [])
    (same : closeMark ++ post = b ++ closeMark) : ¬ Blank b := by
  cases b with
  | nil => exact absurd rfl nonempty
  | cons c b =>
    intro blank
    have first := congrArg List.head? same
    obtain rfl : '@' = c := by simpa [closeMark] using first
    have space := blank '@' List.mem_cons_self
    revert space
    decide

theorem IsLogic.closing {l body : Text} (logic : IsLogic l body) :
    ∃ a nl post, body = a ++ (l ++ (nl ++ (closeMark ++ post))) := by
  cases logic with
  | source nl rest _ _ _ _ closed shape =>
    obtain ⟨nl', post, _, rfl⟩ := closes_shape closed.closed
    exact ⟨nl, nl', post, shape⟩
  | nothing c rest _ closed _ empty shape =>
    obtain ⟨nl', post, _, rfl⟩ := closes_shape closed
    exact ⟨[c], nl', post, by rw [shape, empty]; rfl⟩

theorem FirstLogic.closing {l t : Text} (first : FirstLogic l t) :
    ∃ before h a nl post,
      t = before ++ (openMark ++ (h ++ '\x7d' :: (a ++ (l ++ (nl ++ (closeMark ++ post)))))) := by
  obtain ⟨before, rest, rfl, ⟨h, body, rfl, _, _, logic⟩, _⟩ := first
  obtain ⟨a, nl, post, rfl⟩ := logic.closing
  exact ⟨before, h, a, nl, post, rfl⟩

theorem openMark_visible {a b : Text} : ¬ Blank (a ++ (openMark ++ b)) := by
  intro blank
  have space := blank '@' (List.mem_append_right _ (List.mem_append_left _ (by decide)))
  revert space
  decide

/-- A block is longer than its logic. -/
theorem FirstLogic.length {l t : Text} (first : FirstLogic l t) :
    (trim l).length < (trim t).length := by
  obtain ⟨before, h, a, nl, post, rfl⟩ := first.closing
  have grouped : before ++ (openMark ++ (h ++ '\x7d' :: (a ++ (l ++ (nl ++ (closeMark ++ post)))))) =
      (before ++ (openMark ++ (h ++ '\x7d' :: a))) ++ (l ++ (nl ++ (closeMark ++ post))) := by
    simp only [List.append_assoc, List.cons_append]
  rw [grouped]
  apply trim_length_lt
  rw [List.append_assoc, List.append_assoc]
  exact openMark_visible

/-- A block inside an envelope is shorter than the body of the envelope. -/
theorem FirstLogic.inner_length {l m : Text} (first : FirstLogic l ('\x7d' :: (m ++ closeMark))) :
    (trim l).length < (trim m).length := by
  obtain ⟨before, h, a, nl, post, same⟩ := first.closing
  cases before with
  | nil =>
    have head := congrArg List.head? same
    simp [openMark] at head
  | cons c before =>
    rw [List.cons_append, List.cons.injEq] at same
    have grouped : m ++ closeMark =
        (before ++ (openMark ++ (h ++ '\x7d' :: (a ++ (l ++ nl))))) ++ (closeMark ++ post) := by
      rw [same.2]
      simp only [List.append_assoc, List.cons_append]
    obtain ⟨b, rfl, _⟩ := closing_within grouped
    have split : before ++ (openMark ++ (h ++ '\x7d' :: (a ++ (l ++ nl)))) ++ b =
        (before ++ (openMark ++ (h ++ '\x7d' :: a))) ++ (l ++ (nl ++ b)) := by
      simp only [List.append_assoc, List.cons_append]
    rw [split]
    apply trim_length_lt
    rw [List.append_assoc, List.append_assoc]
    exact openMark_visible

theorem envelope_length {h m t : Text} (envelope : IsEnvelope h m t) :
    (trim m).length < (trim t).length := by
  have grouped : t = (openMark ++ (h ++ ['\x7d'])) ++ (m ++ closeMark) := by
    rw [envelope.text]
    simp only [List.append_assoc, List.singleton_append]
  rw [grouped]
  apply trim_length_lt
  rw [List.append_assoc]
  exact openMark_visible (a := [])

/-- The source that is read in the body of an envelope is all of it or shorter. -/
theorem IsLogic.whole_or_shorter {l m : Text} (logic : IsLogic l (m ++ closeMark))
    (visible : ¬ Blank l) :
    (CompactBody m ∧ trim l = trim m) ∨ (trim l).length < (trim m).length := by
  cases logic with
  | nothing _ _ _ _ _ empty _ => exact absurd (empty ▸ blank_nil) visible
  | source nl rest breaks newlines present first closed shape =>
    obtain ⟨nl', post, newlines', rfl⟩ := closes_shape closed.closed
    have grouped : m ++ closeMark = (nl ++ (l ++ nl')) ++ (closeMark ++ post) := by
      rw [shape]
      simp only [List.append_assoc]
    obtain ⟨b, rfl, mark⟩ := closing_within grouped
    cases b with
    | nil =>
      left
      rw [mark, List.nil_append] at closed
      rw [List.append_nil, trim_around (blank_newlines newlines) l (blank_newlines newlines')]
      exact ⟨⟨nl, l, nl', rfl, breaks, newlines, newlines', visible, first, closed⟩, rfl⟩
    | cons c b =>
      right
      rw [List.append_assoc, List.append_assoc]
      apply trim_length_lt
      intro blank
      apply closing_visible (List.cons_ne_nil c b) mark
      intro d member
      exact blank d (List.mem_append_right _ (List.mem_append_right _ member))

theorem blockBody_of_compactBody {m : Text} (compact : CompactBody m) :
    ∃ l, blockBody (m ++ closeMark) = some l ∧ ¬ Blank l ∧ trim l = trim m := by
  obtain ⟨nl, l, nl', rfl, breaks, newlines, newlines', visible, first, closed⟩ := compact
  refine ⟨l, ?_, visible, ?_⟩
  · apply blockBody_eq_some.mpr
    refine .source nl (nl' ++ closeMark) breaks newlines ?_ first closed ?_
    · rintro rfl
      exact visible blank_nil
    · simp only [List.append_assoc]
  · rw [trim_around (blank_newlines newlines) l (blank_newlines newlines')]

/-- The checks see a payload whole exactly when no source is extracted from it. -/
theorem preflightSource_eq_trim {p : Text} :
    preflightSource p = trim p ↔ ∀ l, FirstLogic l (trim p) → Blank l := by
  rw [preflightSource_eq]
  constructor
  · intro same l first
    rw [firstBlock_eq_some.mpr first] at same
    dsimp only at same
    split_ifs at same with blank
    · exact trim_eq_nil.mp blank
    · have shorter := first.length
      rw [same, trim_trim] at shorter
      exact absurd shorter (lt_irrefl _)
  · intro none_visible
    cases found : firstBlock (trim p) with
    | none => rfl
    | some l =>
      dsimp only
      rw [if_pos (trim_eq_nil.mpr (none_visible l (firstBlock_eq_some.mp found)))]

theorem firstBlock_envelope {h m t : Text} (envelope : IsEnvelope h m t) :
    t = (openMark ++ h) ++ '\x7d' :: (m ++ closeMark) ∧ '\x7d' ∉ openMark ++ h := by
  refine ⟨by rw [envelope.text, List.append_assoc], ?_⟩
  rw [List.mem_append]
  exact not_or_intro openMark_brace envelope.closed

/-- A source extracted from an envelope is its body, read alike by both grammars, or
it is shorter. -/
theorem FirstLogic.whole_or_shorter {h l m t : Text} (envelope : IsEnvelope h m t)
    (first : FirstLogic l t) (visible : ¬ Blank l) :
    (HasHeader (openMark ++ h) ∧ CompactBody m ∧ trim l = trim m) ∨
      (trim l).length < (trim m).length := by
  have found := firstBlock_eq_some.mpr first
  obtain ⟨text, braceless⟩ := firstBlock_envelope envelope
  rw [text, firstBlock_header _ braceless] at found
  rcases Option.or_eq_some_iff.mp found with body | ⟨_, inner⟩
  · split_ifs at body with header
    rcases (blockBody_eq_some.mp body).whole_or_shorter visible with whole | shorter
    · exact .inl ⟨header, whole⟩
    · exact .inr shorter
  · exact .inr (firstBlock_eq_some.mp inner).inner_length

/-- An extracted source is the visible logic of the first block. -/
theorem extractLogic_eq_some {p logic : Text} (extracted : extractLogic p = some logic)
    (present : logic ≠ []) : ∃ l, FirstLogic l (trim p) ∧ ¬ Blank l ∧ logic = trim l := by
  rw [extractLogic, compact_search] at extracted
  split_ifs at extracted with empty
  cases found : firstBlock (trim p) with
  | none =>
    rw [found] at extracted
    cases extracted
  | some l =>
    rw [found] at extracted
    dsimp only [Option.map_some] at extracted
    split_ifs at extracted with missing
    obtain rfl := Option.some.inj extracted
    exact ⟨l, firstBlock_eq_some.mp found, fun blank => present (trim_eq_nil.mpr blank), rfl⟩

/-- When the checks see the body of an envelope, both grammars read it alike. -/
theorem compact_of_preflightSource {p h m : Text} (envelope : IsEnvelope h m (trim p))
    (same : preflightSource p = trim m) : HasHeader (openMark ++ h) ∧ CompactBody m := by
  have shorter := envelope_length envelope
  rw [trim_trim, ← same] at shorter
  have extracted : preflightSource p ≠ trim p := by
    intro whole
    rw [whole] at shorter
    exact lt_irrefl _ shorter
  rw [Ne, preflightSource_eq_trim, not_forall] at extracted
  obtain ⟨l, extracted⟩ := extracted
  obtain ⟨first, visible⟩ := Classical.not_imp.mp extracted
  rw [preflightSource_eq, firstBlock_eq_some.mpr first] at same
  dsimp only at same
  rw [if_neg (fun blank => visible (trim_eq_nil.mp blank))] at same
  rcases first.whole_or_shorter envelope visible with ⟨header, compact, _⟩ | within
  · exact ⟨header, compact⟩
  · rw [same] at within
    exact absurd within (lt_irrefl _)

theorem preflightSource_of_compact {p h m : Text} (envelope : IsEnvelope h m (trim p))
    (header : HasHeader (openMark ++ h)) (compact : CompactBody m) :
    preflightSource p = trim m := by
  obtain ⟨l, body, visible, same⟩ := blockBody_of_compactBody compact
  obtain ⟨text, braceless⟩ := firstBlock_envelope envelope
  rw [preflightSource_eq, text, firstBlock_header _ braceless, if_pos header, body, Option.some_or]
  dsimp only
  rw [if_neg (fun blank => visible (trim_eq_nil.mp blank)), same]

/-- The checks see the source that the worker runs exactly for these payloads. -/
theorem preflightSource_eq_normalizeLogicSource_iff (p : Text) :
    preflightSource p = normalizeLogicSource p ↔ SourcesAgree p := by
  by_cases whole : ∃ h m, IsEnvelope h m (trim p)
  · constructor
    · intro same
      obtain ⟨h, m, envelope⟩ := whole
      rw [normalizeLogicSource_envelope envelope] at same
      exact .inl ⟨h, m, envelope, compact_of_preflightSource envelope same⟩
    · rintro (⟨h, m, envelope, header, compact⟩ | ⟨plain, _⟩)
      · rw [normalizeLogicSource_envelope envelope,
          preflightSource_of_compact envelope header compact]
      · obtain ⟨h, m, envelope⟩ := whole
        exact absurd envelope (plain h m)
  · have plain : ∀ h m, ¬ IsEnvelope h m (trim p) := fun h m envelope => whole ⟨h, m, envelope⟩
    rw [normalizeLogicSource_plain plain, preflightSource_eq_trim]
    constructor
    · intro blank
      exact .inr ⟨plain, blank⟩
    · rintro (⟨h, m, envelope, _⟩ | ⟨_, blank⟩)
      · exact absurd envelope (plain h m)
      · exact blank

/-- A comment around an envelope: the checks see the envelope's body, the worker runs
the return statement after the comment. -/
theorem commented_envelope_unchecked :
    preflightSource "/*@LIOP\x7bx\x7d\nreturn 1\n@END*/ return env.records".toList ≠
      normalizeLogicSource "/*@LIOP\x7bx\x7d\nreturn 1\n@END*/ return env.records".toList := by
  decide +kernel

end NeuralMesh.Server
