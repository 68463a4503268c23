import Mathlib.Data.List.TakeWhile
import NeuralMesh.Codec.Utf8
import NeuralMesh.Js.Value

/-! The text format in which samples are exposed: a line for each sample with its name, its labels
in braces and its value. The values of labels are quoted, with escapes for backslashes, quotes and
line feeds. Reading is by the grammar, on lines that may be ill-formed. -/
namespace NeuralMesh.Codec

open Js

/-! ### Units -/

def lineFeed : CodeUnit := 0x0A

def quoteMark : CodeUnit := 0x22

def backslash : CodeUnit := 0x5C

def comma : CodeUnit := 0x2C

def equalSign : CodeUnit := 0x3D

def openBrace : CodeUnit := 0x7B

def closeBrace : CodeUnit := 0x7D

def hashSign : CodeUnit := 0x23

def isBlank (u : CodeUnit) : Bool := u = 0x20 || u = 0x09

def isLabelStart (u : CodeUnit) : Bool :=
  (65 ≤ u && u ≤ 90) || (97 ≤ u && u ≤ 122) || u = 0x5F

def isLabelUnit (u : CodeUnit) : Bool := isLabelStart u || (48 ≤ u && u ≤ 57)

def isMetricStart (u : CodeUnit) : Bool := isLabelStart u || u = 0x3A

def isMetricUnit (u : CodeUnit) : Bool := isLabelUnit u || u = 0x3A

/-- A name with a first unit and others. -/
def isNameOf (start unit : CodeUnit → Bool) : JsString → Bool
  | [] => false
  | u :: rest => start u && rest.all unit

def isMetricName : JsString → Bool := isNameOf isMetricStart isMetricUnit

def isLabelName : JsString → Bool := isNameOf isLabelStart isLabelUnit

structure Sample where
  name : JsString
  labels : List (JsString × JsString)
  value : JsNumber
  deriving DecidableEq

/-! ### Label values -/

def escapeUnit (u : CodeUnit) : JsString :=
  if u = backslash then [backslash, backslash]
  else if u = quoteMark then [backslash, quoteMark]
  else if u = lineFeed then [backslash, 0x6E]
  else [u]

def escapeValue (value : JsString) : JsString := value.flatMap escapeUnit

def unescapeUnit (u : CodeUnit) : Option CodeUnit :=
  if u = backslash ∨ u = quoteMark then some u else if u = 0x6E then some lineFeed else none

/-- The value up to its quote. -/
def readEscaped : JsString → Option (JsString × JsString)
  | [] => none
  | u :: rest =>
    if u = quoteMark then some ([], rest)
    else if u = lineFeed then none
    else if u = backslash then
      match rest with
      | [] => none
      | escaped :: rest =>
        (unescapeUnit escaped).bind fun c =>
          (readEscaped rest).map fun read => (c :: read.1, read.2)
    else (readEscaped rest).map fun read => (u :: read.1, read.2)

/-! One step of reading, by the unit that is read. -/

theorem readEscaped_quote (rest : JsString) :
    readEscaped (quoteMark :: rest) = some ([], rest) := by
  rw [readEscaped.eq_def]
  exact if_pos rfl

theorem readEscaped_feed (rest : JsString) : readEscaped (lineFeed :: rest) = none := by
  rw [readEscaped.eq_def]
  exact (if_neg (by decide)).trans (if_pos rfl)

theorem readEscaped_backslash (escaped : CodeUnit) (rest : JsString) :
    readEscaped (backslash :: escaped :: rest) = (unescapeUnit escaped).bind fun c =>
      (readEscaped rest).map fun read => (c :: read.1, read.2) := by
  rw [readEscaped.eq_def]
  dsimp only
  rw [if_neg (by decide), if_neg (by decide), if_pos rfl]

theorem readEscaped_plain {u : CodeUnit} (notQuote : u ≠ quoteMark) (notFeed : u ≠ lineFeed)
    (notBackslash : u ≠ backslash) (rest : JsString) :
    readEscaped (u :: rest) = (readEscaped rest).map fun read => (u :: read.1, read.2) := by
  rw [readEscaped.eq_def]
  dsimp only
  rw [if_neg notQuote, if_neg notFeed, if_neg notBackslash]

theorem unescape_escape {u c : CodeUnit} (unescaped : unescapeUnit u = some c) :
    escapeUnit c = [backslash, u] := by
  rw [unescapeUnit] at unescaped
  split_ifs at unescaped with mark letter
  · cases unescaped
    rcases mark with rfl | rfl <;> rfl
  · cases unescaped
    rw [letter]
    rfl

theorem escape_plain {u : CodeUnit} (notQuote : u ≠ quoteMark) (notFeed : u ≠ lineFeed)
    (notBackslash : u ≠ backslash) : escapeUnit u = [u] := by
  rw [escapeUnit, if_neg notBackslash, if_neg notQuote, if_neg notFeed]

theorem readEscaped_sound {text value rest : JsString}
    (read : readEscaped text = some (value, rest)) :
    text = escapeValue value ++ quoteMark :: rest := by
  induction text using readEscaped.induct generalizing value rest with
  | case1 => cases read
  | case2 after =>
    rw [readEscaped_quote] at read
    cases read
    rfl
  | case3 after =>
    rw [readEscaped_feed] at read
    cases read
  | case4 =>
    rw [readEscaped.eq_def] at read
    cases read
  | case5 escaped after _ _ ih =>
    rw [readEscaped_backslash] at read
    obtain ⟨c, unescaped, read⟩ := Option.bind_eq_some_iff.mp read
    obtain ⟨⟨value', rest'⟩, behind, same⟩ := Option.map_eq_some_iff.mp read
    cases same
    rw [escapeValue, List.flatMap_cons, unescape_escape unescaped, ih behind]
    rfl
  | case6 u after notQuote notFeed notBackslash ih =>
    rw [readEscaped_plain notQuote notFeed notBackslash] at read
    obtain ⟨⟨value', rest'⟩, behind, same⟩ := Option.map_eq_some_iff.mp read
    cases same
    rw [escapeValue, List.flatMap_cons, escape_plain notQuote notFeed notBackslash, ih behind]
    rfl

/-- What is escaped is read back. -/
theorem readEscaped_escape (value rest : JsString) :
    readEscaped (escapeValue value ++ quoteMark :: rest) = some (value, rest) := by
  induction value with
  | nil => exact readEscaped_quote rest
  | cons u value ih =>
    have escaped {c : CodeUnit} (unescaped : unescapeUnit c = some u) :
        readEscaped (escapeValue (u :: value) ++ quoteMark :: rest) = some (u :: value, rest) := by
      rw [escapeValue, List.flatMap_cons, unescape_escape unescaped, ← escapeValue,
        List.append_assoc, List.cons_append, List.singleton_append, readEscaped_backslash,
        unescaped, Option.bind_some, ih]
      rfl
    by_cases mark : u = backslash ∨ u = quoteMark
    · exact escaped (if_pos mark)
    · obtain ⟨notBackslash, notQuote⟩ := not_or.mp mark
      by_cases feed : u = lineFeed
      · refine @escaped 0x6E ?_
        rw [feed]
        rfl
      · rw [escapeValue, List.flatMap_cons, escape_plain notQuote feed notBackslash, ← escapeValue,
          List.append_assoc, List.singleton_append, readEscaped_plain notQuote feed notBackslash,
          ih]
        rfl

/-! ### Names and marks -/

def skipBlanks (text : JsString) : JsString := text.dropWhile isBlank

/-- The longest name at the start. -/
def readName (start unit : CodeUnit → Bool) : JsString → Option (JsString × JsString)
  | [] => none
  | u :: rest => if start u then some (u :: rest.takeWhile unit, rest.dropWhile unit) else none

/-- A mark, after any blanks. -/
def expect (mark : CodeUnit) (text : JsString) : Option JsString :=
  match skipBlanks text with
  | [] => none
  | u :: rest => if u = mark then some rest else none

def Blanks (text : JsString) : Prop := ∀ u ∈ text, isBlank u = true

theorem skipBlanks_split (text : JsString) : ∃ blanks, Blanks blanks ∧
    text = blanks ++ skipBlanks text :=
  ⟨text.takeWhile isBlank, fun _ member => List.mem_takeWhile_imp member,
    List.takeWhile_append_dropWhile.symm⟩

theorem skipBlanks_cons {u : CodeUnit} (visible : isBlank u = false) (rest : JsString) :
    skipBlanks (u :: rest) = u :: rest :=
  List.dropWhile_cons_of_neg (by simp [visible])

/-- Before a text that starts with another unit there are no blanks. -/
theorem Blanks.eq_nil {blanks text : JsString} {u : CodeUnit} {rest : JsString}
    (blank : Blanks blanks) (visible : isBlank u = false) (start : blanks ++ text <+: u :: rest) :
    blanks = [] := by
  cases blanks with
  | nil => rfl
  | cons b blanks =>
    obtain ⟨same, -⟩ := List.cons_prefix_cons.mp start
    have is_blank := blank b List.mem_cons_self
    rw [same, visible] at is_blank
    cases is_blank

theorem readName_sound {start unit : CodeUnit → Bool} {text name rest : JsString}
    (read : readName start unit text = some (name, rest)) :
    isNameOf start unit name = true ∧ text = name ++ rest := by
  cases text with
  | nil => cases read
  | cons u text =>
    rw [readName] at read
    split_ifs at read with first
    cases read
    refine ⟨?_, ?_⟩
    · rw [isNameOf, first, Bool.true_and, List.all_eq_true]
      exact fun w member => List.mem_takeWhile_imp member
    · rw [List.cons_append, List.takeWhile_append_dropWhile]

theorem readName_complete {start unit : CodeUnit → Bool} {name rest : JsString}
    (named : isNameOf start unit name = true)
    (boundary : ∀ u, rest.head? = some u → unit u = false) :
    readName start unit (name ++ rest) = some (name, rest) := by
  cases name with
  | nil => cases named
  | cons u name =>
    rw [isNameOf, Bool.and_eq_true, List.all_eq_true] at named
    obtain ⟨taken, left⟩ := span_exact named.2 boundary
    rw [List.cons_append, readName, if_pos named.1, taken, left]

theorem expect_sound {mark : CodeUnit} {text rest : JsString}
    (found : expect mark text = some rest) :
    ∃ blanks, Blanks blanks ∧ text = blanks ++ mark :: rest := by
  obtain ⟨blanks, blank, split⟩ := skipBlanks_split text
  rw [expect] at found
  split at found
  · cases found
  · rename_i u after skipped
    split_ifs at found with same
    cases found
    rw [skipped, same] at split
    exact ⟨blanks, blank, split⟩

theorem expect_self {mark : CodeUnit} (visible : isBlank mark = false) (rest : JsString) :
    expect mark (mark :: rest) = some rest := by
  rw [expect, skipBlanks_cons visible]
  exact if_pos rfl

/-! ### Labels -/

def readLabel (text : JsString) : Option ((JsString × JsString) × JsString) :=
  (readName isLabelStart isLabelUnit text).bind fun named =>
  (expect equalSign named.2).bind fun rest =>
  (expect quoteMark rest).bind fun rest =>
  (readEscaped rest).map fun read => ((named.1, read.1), read.2)

/-- The labels up to the closing brace; a comma may stand before it. -/
def readLabels : Nat → JsString → Option (List (JsString × JsString) × JsString)
  | 0, _ => none
  | fuel + 1, text =>
    match skipBlanks text with
    | [] => none
    | u :: rest =>
      if u = closeBrace then some ([], rest)
      else
        (readLabel (u :: rest)).bind fun label =>
        match skipBlanks label.2 with
        | [] => none
        | mark :: rest =>
          if mark = comma then (readLabels fuel rest).map fun more => (label.1 :: more.1, more.2)
          else if mark = closeBrace then some ([label.1], rest)
          else none

/-- A label, with blanks around its marks. -/
theorem readLabel_sound {text rest : JsString} {label : JsString × JsString}
    (read : readLabel text = some (label, rest)) :
    isLabelName label.1 = true ∧ ∃ before after, Blanks before ∧ Blanks after ∧
      text = label.1 ++ (before ++ equalSign :: (after ++ quoteMark ::
        (escapeValue label.2 ++ quoteMark :: rest))) := by
  rw [readLabel] at read
  obtain ⟨⟨name, first⟩, named, read⟩ := Option.bind_eq_some_iff.mp read
  obtain ⟨second, equal, read⟩ := Option.bind_eq_some_iff.mp read
  obtain ⟨third, opened, read⟩ := Option.bind_eq_some_iff.mp read
  obtain ⟨⟨value, last⟩, quoted, same⟩ := Option.map_eq_some_iff.mp read
  cases same
  obtain ⟨valid, rfl⟩ := readName_sound named
  obtain ⟨before, blank, rfl⟩ := expect_sound equal
  obtain ⟨after, blank', rfl⟩ := expect_sound opened
  rw [readEscaped_sound quoted]
  exact ⟨valid, before, after, blank, blank', rfl⟩

theorem readLabel_complete {label : JsString × JsString} (valid : isLabelName label.1 = true)
    (rest : JsString) :
    readLabel (label.1 ++ equalSign :: quoteMark :: (escapeValue label.2 ++ quoteMark :: rest)) =
      some (label, rest) := by
  have boundary : ∀ u, (equalSign :: quoteMark :: (escapeValue label.2 ++ quoteMark ::
      rest)).head? = some u → isLabelUnit u = false := by
    rintro u ⟨⟩
    decide
  rw [readLabel, readName_complete valid boundary, Option.bind_some, expect_self (by decide),
    Option.bind_some, expect_self (by decide), Option.bind_some, readEscaped_escape]
  rfl

/-- No labels, or a label with what follows it: nothing, or a comma and others. -/
theorem readLabels_cases {fuel : Nat} {text rest : JsString} {labels : List (JsString × JsString)}
    (read : readLabels (fuel + 1) text = some (labels, rest)) :
    labels = [] ∨ ∃ label behind more, labels = label :: more ∧
      readLabel (skipBlanks text) = some (label, behind) ∧
      (more = [] ∨ ∃ later, skipBlanks behind = comma :: later ∧
        readLabels fuel later = some (more, rest)) := by
  rw [readLabels] at read
  split at read
  · cases read
  · rename_i u after skipped
    split_ifs at read
    · cases read
      exact Or.inl rfl
    · obtain ⟨⟨label, behind⟩, first, read⟩ := Option.bind_eq_some_iff.mp read
      rw [← skipped] at first
      dsimp only at read
      split at read
      · cases read
      · rename_i mark later skipped'
        split_ifs at read with isComma
        · obtain ⟨⟨more, last⟩, others, same⟩ := Option.map_eq_some_iff.mp read
          cases same
          rw [isComma] at skipped'
          exact Or.inr ⟨label, behind, more, rfl, first, Or.inr ⟨later, skipped', others⟩⟩
        · cases read
          exact Or.inr ⟨label, behind, [], rfl, first, Or.inl rfl⟩

theorem readLabels_names {fuel : Nat} {text rest : JsString} {labels : List (JsString × JsString)}
    (read : readLabels fuel text = some (labels, rest)) :
    ∀ label ∈ labels, isLabelName label.1 = true := by
  induction fuel generalizing text labels with
  | zero => cases read
  | succ fuel ih =>
    rcases readLabels_cases read with rfl | ⟨label, behind, more, rfl, first, others⟩
    · exact List.forall_mem_nil _
    · refine List.forall_mem_cons.mpr ⟨(readLabel_sound first).1, ?_⟩
      rcases others with rfl | ⟨later, -, read⟩
      · exact List.forall_mem_nil _
      · exact ih read

/-! ### Samples -/

/-- `ParseFloat` on the numbers that are written out and the names of the others. -/
def readFloat (token : JsString) : Option JsNumber :=
  match readNumber (wellFormed token) with
  | some (d, []) => some (.finite d)
  | _ =>
    if token = js "NaN" then some .nan
    else if token ∈ [js "Infinity", js "+Infinity", js "Inf", js "+Inf"] then
      some (.infinite false)
    else if token ∈ [js "-Infinity", js "-Inf"] then some (.infinite true)
    else none

/-- Nothing, or a time in milliseconds. -/
def endsSample (text : JsString) : Bool :=
  let time := (skipBlanks text).takeWhile fun u => !isBlank u
  let digits := if time.head? = some 0x2D then time.tail else time
  skipBlanks text = [] ||
    digits != [] && digits.all (fun u => 48 ≤ u && u ≤ 57) && skipBlanks
      ((skipBlanks text).dropWhile fun u => !isBlank u) = []

def readLabelSet (text : JsString) : Option (List (JsString × JsString) × JsString) :=
  if text.head? = some openBrace then readLabels text.length text.tail else some ([], text)

def readSample (line : JsString) : Option Sample :=
  (readName isMetricStart isMetricUnit line).bind fun named =>
  (readLabelSet (skipBlanks named.2)).bind fun labelled =>
  let rest := skipBlanks labelled.2
  (readFloat (rest.takeWhile fun u => !isBlank u)).bind fun value =>
  if endsSample (rest.dropWhile fun u => !isBlank u) then some ⟨named.1, labelled.1, value⟩
  else none

/-- An empty line or a comment; the lines that describe metrics are comments. -/
def isIgnored (line : JsString) : Bool :=
  match skipBlanks line with
  | [] => true
  | u :: _ => u = hashSign

def readLine (line : JsString) : Option (List Sample) :=
  if isIgnored line then some [] else (readSample (skipBlanks line)).map fun sample => [sample]

def readLines : List JsString → Option (List Sample)
  | [] => some []
  | line :: lines =>
    (readLine line).bind fun samples => (readLines lines).map fun more => samples ++ more

/-- The samples of a text, whose last line is terminated. -/
def readExposition (text : JsString) : Option (List Sample) :=
  if text = [] || text.getLast? = some lineFeed then readLines (text.splitOn lineFeed) else none

/-- Only names of the grammar are read. -/
structure Sample.Named (sample : Sample) : Prop where
  name : isMetricName sample.name = true
  labels : ∀ label ∈ sample.labels, isLabelName label.1 = true

/-- A sample that is read: its name, then its labels. -/
theorem readSample_sound {line : JsString} {sample : Sample}
    (read : readSample line = some sample) :
    isMetricName sample.name = true ∧ ∃ rest after, line = sample.name ++ rest ∧
      readLabelSet (skipBlanks rest) = some (sample.labels, after) := by
  rw [readSample] at read
  obtain ⟨⟨name, rest⟩, named, read⟩ := Option.bind_eq_some_iff.mp read
  obtain ⟨⟨labels, after⟩, labelled, read⟩ := Option.bind_eq_some_iff.mp read
  obtain ⟨value, -, read⟩ := Option.bind_eq_some_iff.mp read
  split_ifs at read
  cases read
  obtain ⟨valid, rfl⟩ := readName_sound named
  exact ⟨valid, rest, after, rfl, labelled⟩

theorem readSample_named {line : JsString} {sample : Sample}
    (read : readSample line = some sample) : sample.Named := by
  obtain ⟨valid, rest, after, -, labelled⟩ := readSample_sound read
  refine ⟨valid, ?_⟩
  rw [readLabelSet] at labelled
  split_ifs at labelled
  · exact readLabels_names labelled
  · rw [← (Prod.mk.inj (Option.some.inj labelled)).1]
    exact List.forall_mem_nil _

theorem readLines_named {lines : List JsString} {samples : List Sample}
    (read : readLines lines = some samples) : ∀ sample ∈ samples, sample.Named := by
  induction lines generalizing samples with
  | nil =>
    cases read
    exact List.forall_mem_nil _
  | cons line lines ih =>
    rw [readLines] at read
    obtain ⟨first, head, read⟩ := Option.bind_eq_some_iff.mp read
    obtain ⟨others, tail, rfl⟩ := Option.map_eq_some_iff.mp read
    refine List.forall_mem_append.mpr ⟨?_, ih tail⟩
    rw [readLine] at head
    split_ifs at head
    · cases head
      exact List.forall_mem_nil _
    · obtain ⟨sample, single, rfl⟩ := Option.map_eq_some_iff.mp head
      exact List.forall_mem_singleton.mpr (readSample_named single)

theorem readLines_append (front back : List JsString) :
    readLines (front ++ back) = (readLines front).bind fun samples =>
      (readLines back).map fun more => samples ++ more := by
  induction front with
  | nil => simp [readLines]
  | cons line front ih =>
    rw [List.cons_append, readLines, readLines, ih]
    cases readLine line <;> cases readLines front <;> cases readLines back <;> simp

end NeuralMesh.Codec
