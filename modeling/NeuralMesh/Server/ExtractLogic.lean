import NeuralMesh.Crypto.LogicImageId

/-! The logic that the server's checks see. `extractLogic` searches for a compact
block anywhere in the payload; its leftmost match is computed without the
expression, block by block. -/
namespace NeuralMesh.Server

open Js Crypto

def isNewline (c : Char) : Bool := c == '\r' || c == '\n'

/-- `/@LIOP\x7b(?<target>[^,\x7d]+)(?:,\s*(?<name>[^\x7d]*))?\x7d[\r\n]+(?<logic>[\s\S]*?)[\r\n]+@END/m`;
only the group `logic` is read. -/
def LIOP_COMPACT_REGEX : Pattern :=
  .seq (.lit openMark) (.seq (.plus true fun c => c != ',' && c != '\x7d')
    (.seq (.opt (.seq (.char (· == ',')) (.seq (.many true isSpace) (.many true (· != '\x7d')))))
      (.seq (.char (· == '\x7d')) (.seq (.plus true isNewline)
        (.seq (.group (.many false fun _ => true)) (.seq (.plus true isNewline)
          (.lit closeMark)))))))

def extractLogic (payload : Text) : Option Text :=
  if payload = [] then none
  else match LIOP_COMPACT_REGEX.search (trim payload) with
    | some (logic :: _) => if logic = [] then none else some (trim logic)
    | _ => none

/-- `this.extractLogic(payload) || payload.trim()` -/
def preflightSource (payload : Text) : Text :=
  match extractLogic payload with
  | some logic => if logic = [] then trim payload else logic
  | none => trim payload

/-! ### The leftmost block -/

/-- Line breaks and a closing mark come next. -/
def closes (cs : Text) : Bool :=
  cs.takeWhile isNewline != [] && closeMark.isPrefixOf (cs.dropWhile isNewline)

/-- The text before the first place that closes. -/
def cut : Text → Option Text
  | [] => none
  | c :: cs => if closes (c :: cs) then some [] else (cut cs).map (c :: ·)

/-- The logic of a block with this text after its header. If all the line breaks
in front cannot be skipped, the last of them closes an empty logic. -/
def blockBody : Text → Option Text
  | [] => none
  | c :: cs =>
    if isNewline c then
      (cut (cs.dropWhile isNewline)).or (if closes cs then some [] else none)
    else none

/-- A header with a target, up to the brace that closes it. -/
def acceptsHeader (h : Text) : Bool := h != [] && h.head? != some ','

/-- The logic of a block that starts here. -/
def blockHere (cs : Text) : Option Text :=
  (readWord openMark cs).bind fun rest =>
    if acceptsHeader (rest.takeWhile (· != '\x7d')) then
      match rest.dropWhile (· != '\x7d') with
      | [] => none
      | _ :: body => blockBody body
    else none

def firstBlock : Text → Option Text
  | [] => none
  | c :: cs => (blockHere (c :: cs)).or (firstBlock cs)

/-! ### The expression finds the leftmost block -/

theorem closes_cons {c : Char} (cs : Text) (newline : isNewline c = true) :
    closes (c :: cs) = closeMark.isPrefixOf (cs.dropWhile isNewline) := by
  rw [closes, List.takeWhile_cons_of_pos newline, List.dropWhile_cons_of_pos newline]
  simp

theorem closes_visible {c : Char} (cs : Text) (visible : isNewline c = false) :
    closes (c :: cs) = false := by
  rw [closes, List.takeWhile_cons_of_neg (by simp [visible])]
  simp

/-- What the expression does after a header. -/
def compactBody : Pattern :=
  .seq (.plus true isNewline) (.seq (.group (.many false fun _ => true))
    (.seq (.plus true isNewline) (.lit closeMark)))

theorem closeMark_stuck {γ : Type} (k : Text → List Text → Option γ) (gs : List Text) (c : Char)
    (cs : Text) (newline : isNewline c = true) :
    (Pattern.lit closeMark).run k (c :: cs) gs = none := by
  have different : '@' ≠ c := by
    rintro rfl
    simp [isNewline] at newline
  rw [Pattern.run_lit, closeMark, show "@END".toList = '@' :: "END".toList from rfl,
    readWord_ne _ _ different]
  rfl

theorem run_closes (cs : Text) (gs : List Text) :
    (Pattern.seq (.plus true isNewline) (.lit closeMark)).run (fun _ gs => some gs) cs gs =
      if closes cs then some gs else none := by
  rw [Pattern.run, Pattern.run_plus_exact true gs (closeMark_stuck _ gs), Pattern.run_lit, closes]
  unfold readWord
  by_cases breaks : cs.takeWhile isNewline = []
  · simp [breaks]
  · by_cases mark : closeMark.isPrefixOf (cs.dropWhile isNewline) <;> simp [breaks, mark]

/-- The lazy group stops at the first place that closes. -/
theorem manyFrom_cut (used cs : Text) :
    manyFrom false (fun _ => true) (fun rest => if closes rest then
        some [(used ++ cs).take ((used ++ cs).length - rest.length)] else none) cs =
      (cut cs).map fun logic => [used ++ logic] := by
  induction cs generalizing used with
  | nil => rfl
  | cons c cs ih =>
    have next := ih (used ++ [c])
    simp only [List.append_assoc, List.singleton_append] at next
    rw [manyFrom, if_pos rfl, if_neg (by decide), next, cut]
    by_cases here : closes (c :: cs) = true
    · rw [if_pos here, if_pos here, List.length_append, Nat.add_sub_cancel, List.take_left' rfl]
      simp
    · rw [if_neg here, if_neg here, Option.none_or, Option.map_map]
      rfl

theorem cut_of_dropWhile {cs : Text} (later : cut (cs.dropWhile isNewline) = none)
    (open' : closes cs = false) : cut cs = none := by
  induction cs with
  | nil => rfl
  | cons c cs ih =>
    by_cases newline : isNewline c = true
    · rw [List.dropWhile_cons_of_pos newline] at later
      have next : closes cs = false := by
        rw [closes_cons cs newline] at open'
        rw [closes, open', Bool.and_false]
      rw [cut, if_neg (by simp [open']), ih later next]
      rfl
    · rwa [List.dropWhile_cons_of_neg newline] at later

/-- Greedily skipping line breaks in front of the logic. -/
theorem manyFrom_breaks (cs : Text) :
    manyFrom true isNewline (fun rest => (cut rest).map fun logic => [logic]) cs =
      ((cut (cs.dropWhile isNewline)).or (if closes cs then some [] else none)).map
        fun logic => [logic] := by
  induction cs with
  | nil => rfl
  | cons c cs ih =>
    rw [manyFrom]
    by_cases newline : isNewline c = true
    · rw [if_pos newline, if_pos rfl, ih, List.dropWhile_cons_of_pos newline]
      cases later : cut (cs.dropWhile isNewline) with
      | some logic => rfl
      | none =>
        rw [Option.none_or, Option.none_or, cut]
        by_cases here : closes cs = true
        · have whole : closes (c :: cs) = true := by
            rw [closes, Bool.and_eq_true] at here
            rw [closes_cons cs newline]
            exact here.2
          rw [if_pos here, if_pos whole, if_pos whole]
          rfl
        · rw [cut_of_dropWhile later (by simpa using here), if_neg here]
          split_ifs <;> rfl
    · rw [if_neg newline, List.dropWhile_cons_of_neg newline, closes_visible cs (by simpa using newline)]
      simp

theorem compactBody_run (body : Text) :
    compactBody.run (fun _ gs => some gs) body [] = (blockBody body).map fun logic => [logic] := by
  cases body with
  | nil => rfl
  | cons c cs =>
    have unfolded : compactBody.run (fun _ gs => some gs) (c :: cs) [] =
        if isNewline c then manyFrom true isNewline (fun rest =>
          manyFrom false (fun _ => true) (fun tail =>
            (Pattern.seq (.plus true isNewline) (.lit closeMark)).run (fun _ gs => some gs) tail
              [rest.take (rest.length - tail.length)]) rest) cs
        else none := rfl
    rw [unfolded, blockBody]
    by_cases newline : isNewline c = true
    · rw [if_pos newline, if_pos newline, ← manyFrom_breaks]
      congr 1
      funext rest
      simp only [run_closes]
      exact manyFrom_cut [] rest
    · rw [if_neg newline, if_neg newline]
      rfl

/-- The optional name in a header. -/
def compactName : Pattern :=
  .opt (.seq (.char (· == ',')) (.seq (.many true isSpace) (.many true (· != '\x7d'))))

/-- The brace that ends the header, then the body. -/
def braceBody (cs : Text) (gs : List Text) : Option (List Text) :=
  (Pattern.char (· == '\x7d')).run (compactBody.run fun _ gs => some gs) cs gs

theorem braceBody_stuck (c : Char) (cs : Text) (other : (c != '\x7d') = true) :
    braceBody (c :: cs) [] = none := by
  rw [braceBody, Pattern.run, if_neg (by simpa using other)]

theorem braceBody_dropWhile (cs : Text) :
    braceBody (cs.dropWhile (· != '\x7d')) [] =
      (match cs.dropWhile (· != '\x7d') with
        | [] => none
        | _ :: body => blockBody body).map fun logic => [logic] := by
  cases rest : cs.dropWhile (· != '\x7d') with
  | nil => rfl
  | cons c body =>
    have brace := List.head?_dropWhile_not (· != '\x7d') cs
    rw [rest, List.head?_cons] at brace
    rw [braceBody, Pattern.run, if_pos (by simpa using brace), compactBody_run]

/-- However the name is split, the header ends at its brace. -/
theorem compactName_run (cs : Text) (start : ∀ c, cs.head? = some c → c = ',' ∨ c = '\x7d') :
    compactName.run braceBody cs [] = braceBody (cs.dropWhile (· != '\x7d')) [] := by
  have spaces : ∀ (c : Char) (cs : Text), isSpace c = true →
      (c :: cs).dropWhile (· != '\x7d') = cs.dropWhile (· != '\x7d') := by
    intro c cs space
    apply List.dropWhile_cons_of_pos
    rw [bne_iff_ne]
    rintro rfl
    simp [isSpace] at space
  cases cs with
  | nil => rfl
  | cons c cs =>
    rcases start c rfl with rfl | rfl
    · have named : compactName.run braceBody (',' :: cs) [] = (manyFrom true isSpace (fun rest =>
          manyFrom true (· != '\x7d') (fun tail => braceBody tail []) rest) cs).or
          (braceBody (',' :: cs) []) := rfl
      rw [named, braceBody_stuck ',' cs (by decide), Option.or_none,
        List.dropWhile_cons_of_pos (by decide)]
      have skipped (rest : Text) : manyFrom true (· != '\x7d') (fun tail => braceBody tail []) rest =
          braceBody (rest.dropWhile (· != '\x7d')) [] := manyFrom_exact true braceBody_stuck rest
      simp only [skipped]
      apply manyFrom_indifferent
      intro c cs space
      rw [spaces c cs space]
    · rw [List.dropWhile_cons_of_neg (by decide)]
      rfl

theorem compactName_stuck (c : Char) (cs : Text) (other : (c != ',' && c != '\x7d') = true) :
    compactName.run braceBody (c :: cs) [] = none := by
  rw [Bool.and_eq_true, bne_iff_ne, bne_iff_ne] at other
  rw [compactName, Pattern.run_opt, braceBody_stuck c cs (by simpa using other.2), Option.or_none,
    Pattern.run, Pattern.run, if_neg (by simpa using other.1)]

theorem target_takeWhile (cs : Text) :
    cs.takeWhile (fun c => c != ',' && c != '\x7d') = [] ↔
      acceptsHeader (cs.takeWhile (· != '\x7d')) = false := by
  cases cs with
  | nil => simp [acceptsHeader]
  | cons c cs =>
    by_cases brace : c = '\x7d'
    · simp [acceptsHeader, brace]
    · by_cases comma : c = ',' <;> simp [acceptsHeader, brace, comma]

theorem target_dropWhile (cs : Text) :
    (cs.dropWhile fun c => c != ',' && c != '\x7d').dropWhile (· != '\x7d') =
      cs.dropWhile (· != '\x7d') := by
  induction cs with
  | nil => rfl
  | cons c cs ih =>
    by_cases brace : c = '\x7d'
    · simp [brace]
    · by_cases comma : c = ',' <;> simp [brace, comma, ih]

theorem compact_matchHere (cs : Text) :
    LIOP_COMPACT_REGEX.matchHere cs = (blockHere cs).map fun logic => [logic] := by
  have reassociated : LIOP_COMPACT_REGEX.matchHere cs = (Pattern.lit openMark).run
      ((Pattern.plus true fun c => c != ',' && c != '\x7d').run (compactName.run braceBody))
      cs [] := rfl
  rw [reassociated, Pattern.run_lit, blockHere, Option.map_bind]
  congr 1
  funext rest
  rw [Pattern.run_plus_exact true [] compactName_stuck, compactName_run, target_dropWhile,
    braceBody_dropWhile, Function.comp_apply]
  · by_cases accepted : acceptsHeader (rest.takeWhile (· != '\x7d')) = true
    · rw [if_neg, if_pos accepted]
      rw [target_takeWhile, accepted]
      decide
    · rw [if_pos ((target_takeWhile rest).mpr (by simpa using accepted)), if_neg accepted]
      rfl
  · intro c head
    have stop := List.head?_dropWhile_not (fun c => c != ',' && c != '\x7d') rest
    rw [head] at stop
    simpa [or_iff_not_imp_left] using stop

/-- The search returns the logic of the leftmost block. -/
theorem compact_search (t : Text) :
    LIOP_COMPACT_REGEX.search t = (firstBlock t).map fun logic => [logic] := by
  induction t with
  | nil => rfl
  | cons c cs ih =>
    rw [Pattern.search, compact_matchHere, ih, firstBlock]
    cases blockHere (c :: cs) <;> rfl

/-- The checks see the trimmed logic of the first block, or the trimmed payload if
there is no block or only white space in it. -/
theorem preflightSource_eq (p : Text) :
    preflightSource p =
      match firstBlock (trim p) with
      | some logic => if trim logic = [] then trim p else trim logic
      | none => trim p := by
  rw [preflightSource, extractLogic, compact_search]
  by_cases empty : p = []
  · subst empty
    rfl
  · rw [if_neg empty]
    cases firstBlock (trim p) with
    | none => rfl
    | some logic =>
      by_cases missing : logic = []
      · subst missing
        rfl
      · simp [missing]

end NeuralMesh.Server
