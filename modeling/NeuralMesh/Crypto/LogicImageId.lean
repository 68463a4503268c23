import NeuralMesh.Codec.Utf8
import NeuralMesh.Js.Regex

/-! Logic sources and their image ids. The normaliser strips one envelope that
spans the whole document; its regular expression is related to the shape of the
trimmed text. -/
namespace NeuralMesh.Crypto

open Js Codec

def openMark : Text := "@LIOP\x7b".toList
def closeMark : Text := "@END".toList

/-- `/^\s*@LIOP\x7b[^}]+\x7d\n?([\s\S]*?)\n?@END\s*$/`; being anchored, it is only
tried at the start. -/
def TOP_LEVEL_ENVELOPE : Pattern :=
  .seq (.many true isSpace) (.seq (.lit openMark) (.seq (.plus true (· != '\x7d'))
    (.seq (.char (· == '\x7d')) (.seq (.opt (.char (· == '\n')))
      (.seq (.group (.many false fun _ => true)) (.seq (.opt (.char (· == '\n')))
        (.seq (.lit closeMark) (.seq (.many true isSpace) .stop))))))))

def normalizeLogicSource (logicUtf8 : Text) : Text :=
  match TOP_LEVEL_ENVELOPE.matchHere logicUtf8 with
  | some (body :: _) => trim body
  | _ => trim logicUtf8

/-- SHA-256 digest of the logic bytes, for a given hash function. -/
def deriveLogicImageDigest {δ : Type} (sha256 : Bytes → δ) (logicPayload : Bytes) : δ :=
  if logicPayload[0]? = some 0x00 ∧ logicPayload[1]? = some 0x61 then sha256 logicPayload
  else sha256 (utf8 (normalizeLogicSource (decodeUtf8 logicPayload)))

/-! ### The shape of an envelope -/

/-- `t` is an envelope with the header `h` around the body `m`. -/
structure IsEnvelope (h m t : Text) : Prop where
  text : t = openMark ++ (h ++ '\x7d' :: (m ++ closeMark))
  header : h ≠ []
  closed : '\x7d' ∉ h

/-- What the expression does after the header. -/
def envelopeBody : Pattern :=
  .seq (.opt (.char (· == '\n')))
    (.seq (.group (.many false fun _ => true)) (.seq (.opt (.char (· == '\n')))
      (.seq (.lit closeMark) (.seq (.many true isSpace) .stop))))

/-- An optional line break. -/
def Break (t : Text) : Prop := t = [] ∨ t = ['\n']

theorem Break.blank {t : Text} (isBreak : Break t) : Blank t := by
  rcases isBreak with rfl | rfl <;> simp [Blank, isSpace]

theorem run_break_sound {γ : Type} {k : Text → List Text → Option γ} {cs : Text} {gs : List Text}
    {r : γ} (found : (Pattern.opt (.char (· == '\n'))).run k cs gs = some r) :
    ∃ nl rest, Break nl ∧ cs = nl ++ rest ∧ k rest gs = some r := by
  rw [Pattern.run_opt] at found
  rcases Option.or_eq_some_iff.mp found with taken | ⟨_, skipped⟩
  · cases cs with
    | nil => cases taken
    | cons c cs =>
      rw [Pattern.run] at taken
      split_ifs at taken with newline
      obtain rfl : c = '\n' := by simpa using newline
      exact ⟨['\n'], cs, .inr rfl, rfl, taken⟩
  · exact ⟨[], cs, .inl rfl, rfl, skipped⟩

theorem run_break_complete {γ : Type} {k : Text → List Text → Option γ} {cs : Text}
    {gs : List Text} (found : k cs gs ≠ none) :
    (Pattern.opt (.char (· == '\n'))).run k cs gs ≠ none := by
  rw [Pattern.run_opt]
  simp [Option.or_eq_none_iff, found]

/-- The end of an envelope: the closing mark, then only white space. -/
theorem closing_sound {gs r : List Text} {cs : Text}
    (found : (Pattern.seq (.lit closeMark) (.seq (.many true isSpace) .stop)).run
      (fun _ gs => some gs) cs gs = some r) :
    r = gs ∧ ∃ ws, Blank ws ∧ cs = closeMark ++ ws := by
  rw [Pattern.run_closing] at found
  obtain ⟨ws, read, rest⟩ := Option.bind_eq_some_iff.mp found
  split_ifs at rest with ended
  refine ⟨(Option.some.inj rest).symm, ws, ?_, readWord_eq_some.mp read⟩
  exact fun c member => List.dropWhile_eq_nil_iff.mp ended c member

theorem closing_complete {gs : List Text} {ws : Text} (blank : Blank ws) :
    (Pattern.seq (.lit closeMark) (.seq (.many true isSpace) .stop)).run
      (fun _ gs => some gs) (closeMark ++ ws) gs ≠ none := by
  rw [Pattern.run_closing, readWord_append, Option.bind_some,
    if_pos (List.dropWhile_eq_nil_iff.mpr blank)]
  simp

theorem envelopeBody_sound {cs : Text} {r : List Text}
    (found : envelopeBody.run (fun _ gs => some gs) cs [] = some r) :
    ∃ before body after ws, Break before ∧ Break after ∧ Blank ws ∧ r = [body] ∧
      cs = before ++ (body ++ (after ++ (closeMark ++ ws))) := by
  simp only [envelopeBody, Pattern.run] at found
  obtain ⟨before, rest, first, rfl, inner⟩ := run_break_sound found
  obtain ⟨body, tail, rfl, _, ending⟩ := manyFrom_sound inner
  obtain ⟨after, closing, second, rfl, last⟩ := run_break_sound ending
  obtain ⟨rfl, ws, blank, rfl⟩ := closing_sound last
  refine ⟨before, body, after, ws, first, second, blank, ?_, rfl⟩
  have length : (body ++ (after ++ (closeMark ++ ws))).length -
      (after ++ (closeMark ++ ws)).length = body.length := by
    rw [List.length_append]
    omega
  rw [length, List.take_left', List.nil_append]
  rfl

theorem envelopeBody_complete {m ws : Text} (blank : Blank ws) :
    envelopeBody.run (fun _ gs => some gs) (m ++ (closeMark ++ ws)) [] ≠ none := by
  simp only [envelopeBody, Pattern.run]
  apply run_break_complete
  apply manyFrom_complete (fun _ _ => rfl)
  apply run_break_complete
  exact closing_complete blank

/-- Only the blank after a text that ends with the closing mark is dropped. -/
theorem rdropWhile_closing (t : Text) {ws : Text} (blank : Blank ws) :
    (t ++ (closeMark ++ ws)).rdropWhile isSpace = t ++ closeMark := by
  have visible : ∀ c, closeMark.getLast? = some c → isSpace c = false := by
    rintro c ⟨⟩
    rfl
  rw [← List.append_assoc]
  apply rdropWhile_exact blank
  intro c last
  rw [List.getLast?_append_of_ne_nil _ (by decide)] at last
  exact visible c last

/-- The closing mark that only blanks follow is the same in every reading. -/
theorem closing_unique {s t a b : Text} (left : Blank a) (right : Blank b)
    (same : s ++ (closeMark ++ a) = t ++ (closeMark ++ b)) : s = t := by
  have dropped := congrArg (List.rdropWhile isSpace) same
  rw [rdropWhile_closing s left, rdropWhile_closing t right] at dropped
  exact List.append_cancel_right dropped

/-- The header is read in one way. -/
theorem matchHere_header (p : Text) : TOP_LEVEL_ENVELOPE.matchHere p =
    (readWord openMark (p.dropWhile isSpace)).bind fun cs =>
      if cs.takeWhile (· != '\x7d') = [] then none
      else (Pattern.char (· == '\x7d')).run (envelopeBody.run fun _ gs => some gs)
        (cs.dropWhile (· != '\x7d')) [] := by
  have spaces : ∀ (c : Char) (cs : Text), isSpace c = true →
      (Pattern.lit openMark).run ((Pattern.plus true (· != '\x7d')).run
        ((Pattern.char (· == '\x7d')).run (envelopeBody.run fun _ gs => some gs)))
        (c :: cs) [] = none := by
    intro c cs space
    have different : '@' ≠ c := by
      rintro rfl
      simp [isSpace] at space
    rw [Pattern.run_lit, openMark, show "@LIOP\x7b".toList = '@' :: "LIOP\x7b".toList from rfl,
      readWord_ne _ _ different]
    rfl
  have header : ∀ (c : Char) (cs : Text), (c != '\x7d') = true →
      (Pattern.char (· == '\x7d')).run (envelopeBody.run fun _ gs => some gs) (c :: cs) [] =
        none := by
    intro c cs other
    rw [Pattern.run, if_neg (by simpa using other)]
  have reassociated : TOP_LEVEL_ENVELOPE.matchHere p = manyFrom true isSpace
      (fun rest => (Pattern.lit openMark).run ((Pattern.plus true (· != '\x7d')).run
        ((Pattern.char (· == '\x7d')).run (envelopeBody.run fun _ gs => some gs))) rest []) p := rfl
  rw [reassociated, manyFrom_exact true spaces, Pattern.run_lit]
  congr 1
  funext cs
  exact Pattern.run_plus_exact true [] header cs

/-- An envelope is matched, with a body that trims to the same text. -/
theorem matchHere_envelope {p h m : Text} (envelope : IsEnvelope h m (trim p)) :
    ∃ body, TOP_LEVEL_ENVELOPE.matchHere p = some [body] ∧ trim body = trim m := by
  obtain ⟨a, b, left, right, whole⟩ := trim_decompose p
  have visible : (p.dropWhile isSpace) = trim p ++ b := by
    conv_lhs => rw [whole]
    refine (span_exact left ?_).2
    intro c head
    rw [envelope.text] at head
    obtain rfl : '@' = c := Option.some.inj head
    rfl
  have inside : ∀ c ∈ h, (c != '\x7d') = true := by
    intro c member
    rw [bne_iff_ne]
    rintro rfl
    exact envelope.closed member
  have header := @span_exact _ _ h ('\x7d' :: (m ++ (closeMark ++ b))) inside (by simp)
  have shape : trim p ++ b = openMark ++ (h ++ '\x7d' :: (m ++ (closeMark ++ b))) := by
    rw [envelope.text]
    simp only [List.append_assoc, List.cons_append]
  rw [matchHere_header, visible, shape, readWord_append, Option.bind_some, header.1, header.2,
    if_neg envelope.header, Pattern.run, if_pos (by decide)]
  cases found : envelopeBody.run (fun _ gs => some gs) (m ++ (closeMark ++ b)) [] with
  | none => exact absurd found (envelopeBody_complete right)
  | some r =>
    obtain ⟨before, body, after, ws, first, second, blank, rfl, same⟩ := envelopeBody_sound found
    refine ⟨body, rfl, ?_⟩
    have middle : m = before ++ (body ++ after) := by
      apply closing_unique right blank
      simpa only [List.append_assoc] using same
    rw [middle, trim_around first.blank body second.blank]

theorem matchHere_isEnvelope {p : Text} {r : List Text}
    (found : TOP_LEVEL_ENVELOPE.matchHere p = some r) : ∃ h m, IsEnvelope h m (trim p) := by
  rw [matchHere_header] at found
  obtain ⟨cs, read, found⟩ := Option.bind_eq_some_iff.mp found
  split_ifs at found with header
  cases rest : cs.dropWhile (· != '\x7d') with
  | nil =>
    rw [rest] at found
    cases found
  | cons c tail =>
    rw [rest, Pattern.run] at found
    split_ifs at found with brace
    obtain rfl : c = '\x7d' := by simpa using brace
    obtain ⟨before, body, after, ws, _, _, blank, _, same⟩ := envelopeBody_sound found
    refine ⟨cs.takeWhile (· != '\x7d'), before ++ (body ++ after), ?_, header, ?_⟩
    · have split : cs = cs.takeWhile (· != '\x7d') ++ '\x7d' :: tail := by
        rw [← rest, List.takeWhile_append_dropWhile]
      have shape : p.dropWhile isSpace = (openMark ++ (cs.takeWhile (· != '\x7d') ++
          '\x7d' :: (before ++ (body ++ after)))) ++ (closeMark ++ ws) := by
        rw [readWord_eq_some.mp read]
        conv_lhs => rw [split, same]
        simp only [List.append_assoc, List.cons_append]
      rw [trim, shape, rdropWhile_closing _ blank]
      simp only [List.append_assoc, List.cons_append]
    · intro member
      simpa using List.mem_takeWhile_imp member

/-- The body of an envelope that spans the trimmed text is the logic. -/
theorem normalizeLogicSource_envelope {p h m : Text} (envelope : IsEnvelope h m (trim p)) :
    normalizeLogicSource p = trim m := by
  obtain ⟨body, found, same⟩ := matchHere_envelope envelope
  rw [normalizeLogicSource, found]
  exact same

/-- Any other text is its own logic. -/
theorem normalizeLogicSource_plain {p : Text} (plain : ∀ h m, ¬ IsEnvelope h m (trim p)) :
    normalizeLogicSource p = trim p := by
  rw [normalizeLogicSource]
  cases found : TOP_LEVEL_ENVELOPE.matchHere p with
  | none => rfl
  | some r =>
    obtain ⟨h, m, envelope⟩ := matchHere_isEnvelope found
    exact absurd envelope (plain h m)

end NeuralMesh.Crypto
