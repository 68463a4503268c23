import NeuralMesh.Codec.Exposition
import NeuralMesh.Codec.FieldText

/-! Writers of the exposition format. What a writer writes is read back exactly when its names are
names of the grammar, its label values are escaped, and its comments hold nothing but comments. -/
namespace NeuralMesh.Codec

open Js

/-- How label values and numbers are written. Values may be written without all their escapes, but
never so that the escaped value is read from the text of another one. -/
structure ExpositionWriter where
  labelValue : JsString → JsString
  number : JsNumber → JsString
  unambiguous : ∀ value rest,
    escapeValue value ++ [quoteMark] <+: labelValue value ++ quoteMark :: rest →
      labelValue value = escapeValue value
  reads : ∀ n, readFloat (number n) = some n
  visible : ∀ n, ∀ u ∈ number n, isBlank u = false ∧ u ≠ lineFeed ∧ u ≠ openBrace

/-- What is written, each on a line of its own. -/
inductive Entry where
  | comment (text : JsString)
  | sample (sample : Sample)

def Entry.samples : Entry → List Sample
  | .comment _ => []
  | .sample s => [s]

namespace ExpositionWriter

variable (writer : ExpositionWriter)

def field (label : JsString × JsString) : JsString × JsString :=
  (label.1, quoteMark :: (writer.labelValue label.2 ++ [quoteMark]))

def labelText (labels : List (JsString × JsString)) : JsString :=
  fieldsText equalSign comma (labels.map writer.field)

def labelSet (labels : List (JsString × JsString)) : JsString :=
  if labels = [] then [] else openBrace :: (writer.labelText labels ++ [closeBrace])

def sampleText (sample : Sample) : JsString :=
  sample.name ++ (writer.labelSet sample.labels ++ 0x20 :: writer.number sample.value)

def entryText : Entry → JsString
  | .comment text => text
  | .sample s => writer.sampleText s

def text (entries : List Entry) : JsString :=
  entries.flatMap fun entry => writer.entryText entry ++ [lineFeed]

/-- An entry that is read as it is meant. -/
def Readable : Entry → Prop
  | .comment text => ∀ line ∈ text.splitOn lineFeed, isIgnored line = true
  | .sample s => s.Named ∧
      ∀ label ∈ s.labels, writer.labelValue label.2 = escapeValue label.2

/-! ### Labels -/

section Labels

variable {writer}

theorem labelText_cons (label : JsString × JsString) (labels : List (JsString × JsString)) :
    writer.labelText (label :: labels) = fieldText equalSign (writer.field label) ++
      if labels = [] then [] else comma :: writer.labelText labels := by
  rw [labelText, List.map_cons, fieldsText_cons]
  cases labels with
  | nil => rfl
  | cons next labels =>
    rw [if_neg (List.cons_ne_nil _ _), labelText, List.map_cons, laterText_cons, fieldsText_cons]

theorem visible_of_labelStart {u : CodeUnit} (start : isLabelStart u = true) :
    isBlank u = false := by
  grind [isLabelStart, isBlank]

theorem visible_of_metricStart {u : CodeUnit} (start : isMetricStart u = true) :
    isBlank u = false ∧ u ≠ hashSign ∧ u ≠ lineFeed := by
  grind [isMetricStart, isLabelStart, isBlank, hashSign, lineFeed]

/-- The first unit of a name. -/
theorem name_cons {start unit : CodeUnit → Bool} {name : JsString}
    (named : isNameOf start unit name = true) :
    ∃ u rest, name = u :: rest ∧ start u = true ∧ ∀ w ∈ rest, unit w = true := by
  cases name with
  | nil => cases named
  | cons u rest =>
    rw [isNameOf, Bool.and_eq_true, List.all_eq_true] at named
    exact ⟨u, rest, rfl, named⟩

/-- A label that is read from its own text was escaped. -/
theorem readLabel_written {text rest tail : JsString} {label : JsString × JsString}
    (read : readLabel text = some (label, rest))
    (start : text <+: fieldText equalSign (writer.field label) ++ tail) :
    writer.labelValue label.2 = escapeValue label.2 ∧ rest <+: tail := by
  obtain ⟨-, before, after, blank, blank', rfl⟩ := readLabel_sound read
  rw [fieldText, field, List.append_assoc, List.prefix_append_right_inj, List.cons_append,
    List.cons_append] at start
  cases blank.eq_nil (by decide) start
  obtain ⟨-, start⟩ := List.cons_prefix_cons.mp start
  cases blank'.eq_nil (by decide) start
  obtain ⟨-, start⟩ := List.cons_prefix_cons.mp start
  rw [List.append_assoc, List.singleton_append] at start
  have opening : escapeValue label.2 ++ [quoteMark] <+:
      writer.labelValue label.2 ++ quoteMark :: tail := by
    refine List.IsPrefix.trans ?_ start
    rw [List.prefix_append_right_inj, List.cons_prefix_cons]
    exact ⟨rfl, List.nil_prefix⟩
  have escaped := writer.unambiguous label.2 tail opening
  rw [escaped, List.prefix_append_right_inj] at start
  exact ⟨escaped, (List.cons_prefix_cons.mp start).2⟩

/-- The same of all labels up to the closing brace. -/
theorem readLabels_written {fuel : Nat} {text rest tail : JsString}
    {labels : List (JsString × JsString)} (read : readLabels fuel text = some (labels, rest))
    (some_label : labels ≠ []) (start : text <+: writer.labelText labels ++ closeBrace :: tail) :
    ∀ label ∈ labels, writer.labelValue label.2 = escapeValue label.2 := by
  induction fuel generalizing text labels with
  | zero => cases read
  | succ fuel ih =>
    rcases readLabels_cases read with rfl | ⟨label, behind, more, rfl, first, others⟩
    · exact absurd rfl some_label
    · obtain ⟨c, name, spelled, letter, -⟩ := name_cons (readLabel_sound first).1
      obtain ⟨blanks, blank, split⟩ := skipBlanks_split text
      rw [labelText_cons, List.append_assoc] at start
      have unblanked : blanks = [] := by
        rw [split, fieldText, field, spelled] at start
        exact blank.eq_nil (visible_of_labelStart letter) start
      rw [unblanked, List.nil_append] at split
      rw [← split] at first
      obtain ⟨escaped, start⟩ := readLabel_written first start
      refine List.forall_mem_cons.mpr ⟨escaped, ?_⟩
      rcases others with rfl | ⟨later, skipped, read⟩
      · exact List.forall_mem_nil _
      · cases more with
        | nil => exact List.forall_mem_nil _
        | cons next more =>
          obtain ⟨blanks', blank', split'⟩ := skipBlanks_split behind
          rw [if_neg (List.cons_ne_nil _ _), split', skipped] at start
          cases blank'.eq_nil (by decide) start
          exact ih read (List.cons_ne_nil _ _) (List.cons_prefix_cons.mp start).2

/-- Reading on at the mark behind a label. -/
theorem readLabels_mark {c mark : CodeUnit} {text rest : JsString} {label : JsString × JsString}
    (letter : isLabelStart c = true) (visible : isBlank mark = false)
    (read : readLabel (c :: text) = some (label, mark :: rest)) (fuel : Nat) :
    readLabels (fuel + 1) (c :: text) =
      if mark = comma then (readLabels fuel rest).map fun more => (label :: more.1, more.2)
      else if mark = closeBrace then some ([label], rest) else none := by
  have other : c ≠ closeBrace := by
    rintro rfl
    exact absurd letter (by decide)
  rw [readLabels, skipBlanks_cons (visible_of_labelStart letter)]
  dsimp only
  rw [if_neg other, read, Option.bind_some, skipBlanks_cons visible]

/-- Escaped labels are read. -/
theorem readLabels_escaped {labels : List (JsString × JsString)}
    (named : ∀ label ∈ labels, isLabelName label.1 = true)
    (escaped : ∀ label ∈ labels, writer.labelValue label.2 = escapeValue label.2)
    (some_label : labels ≠ []) {fuel : Nat} (enough : labels.length ≤ fuel) (rest : JsString) :
    readLabels fuel (writer.labelText labels ++ closeBrace :: rest) = some (labels, rest) := by
  induction labels generalizing fuel with
  | nil => exact absurd rfl some_label
  | cons label labels ih =>
    obtain ⟨fuel, rfl⟩ := Nat.exists_eq_add_of_le' (Nat.le_trans (Nat.le_add_left 1 _) enough)
    obtain ⟨name, names⟩ := List.forall_mem_cons.mp named
    obtain ⟨value, values⟩ := List.forall_mem_cons.mp escaped
    obtain ⟨c, others, spelled, letter, -⟩ := name_cons name
    have first (tail : JsString) : ∃ after,
        fieldText equalSign (writer.field label) ++ tail = c :: after ∧
          readLabel (c :: after) = some (label, tail) := by
      have whole : fieldText equalSign (writer.field label) ++ tail =
          label.1 ++ equalSign :: quoteMark :: (escapeValue label.2 ++ quoteMark :: tail) := by
        simp only [fieldText, field, value, List.append_assoc, List.cons_append, List.nil_append]
      have read := readLabel_complete name tail
      rw [spelled, List.cons_append] at read
      exact ⟨_, by rw [whole, spelled, List.cons_append], read⟩
    rw [labelText_cons, List.append_assoc]
    cases labels with
    | nil =>
      rw [if_pos rfl, List.nil_append]
      obtain ⟨after, same, read⟩ := first (closeBrace :: rest)
      rw [same, readLabels_mark letter (by decide) read]
      rfl
    | cons next labels =>
      rw [if_neg (List.cons_ne_nil _ _), List.cons_append]
      obtain ⟨after, same, read⟩ :=
        first (comma :: (writer.labelText (next :: labels) ++ closeBrace :: rest))
      rw [same, readLabels_mark letter (by decide) read, if_pos rfl,
        ih names values (List.cons_ne_nil _ _) (Nat.le_of_succ_le_succ enough)]
      rfl

theorem labelText_length (labels : List (JsString × JsString)) :
    labels.length ≤ (writer.labelText labels).length := by
  induction labels with
  | nil => exact Nat.zero_le _
  | cons label labels ih =>
    rw [labelText_cons, fieldText, List.length_append]
    cases labels with
    | nil =>
      simp only [List.length_append, List.length_cons, List.length_nil]
      omega
    | cons next labels =>
      rw [if_neg (List.cons_ne_nil _ _)]
      simp only [List.length_append, List.length_cons] at ih ⊢
      omega

end Labels

/-! ### One sample -/

section Samples

variable {writer}

theorem skipBlanks_visible {text : JsString} (visible : ∀ u ∈ text, isBlank u = false) :
    skipBlanks text = text := by
  cases text with
  | nil => rfl
  | cons u text => exact skipBlanks_cons (visible u List.mem_cons_self) text

theorem number_token (n : JsNumber) :
    (writer.number n).takeWhile (fun u => !isBlank u) = writer.number n ∧
      (writer.number n).dropWhile (fun u => !isBlank u) = [] := by
  have taken := @span_exact CodeUnit (fun u => !isBlank u) (writer.number n) []
    (fun u member => by rw [(writer.visible n u member).1]; rfl) (fun _ absent => nomatch absent)
  rwa [List.append_nil] at taken

theorem skipBlanks_number (n : JsNumber) : skipBlanks (writer.number n) = writer.number n :=
  skipBlanks_visible fun u member => (writer.visible n u member).1

theorem skipBlanks_space (n : JsNumber) :
    skipBlanks (0x20 :: writer.number n) = writer.number n :=
  skipBlanks_number n

/-- The label set of a sample and its value. -/
theorem readLabelSet_written {labels : List (JsString × JsString)}
    (named : ∀ label ∈ labels, isLabelName label.1 = true)
    (escaped : ∀ label ∈ labels, writer.labelValue label.2 = escapeValue label.2) (n : JsNumber) :
    ∃ after, readLabelSet (skipBlanks (writer.labelSet labels ++ 0x20 :: writer.number n)) =
      some (labels, after) ∧ skipBlanks after = writer.number n := by
  by_cases none : labels = []
  · subst none
    refine ⟨writer.number n, ?_, skipBlanks_number n⟩
    rw [labelSet, if_pos rfl, List.nil_append, skipBlanks_space, readLabelSet, if_neg]
    intro head
    exact (writer.visible n openBrace (List.mem_of_head? head)).2.2 rfl
  · refine ⟨0x20 :: writer.number n, ?_, skipBlanks_space n⟩
    rw [labelSet, if_neg none, List.cons_append, List.append_assoc, List.singleton_append,
      skipBlanks_cons (by decide), readLabelSet]
    refine (if_pos rfl).trans (readLabels_escaped named escaped none ?_ _)
    have length := @labelText_length writer labels
    rw [List.length_cons, List.length_append]
    omega

/-- A readable sample is read. -/
theorem readSample_written {sample : Sample} (readable : writer.Readable (.sample sample)) :
    readSample (writer.sampleText sample) = some sample := by
  obtain ⟨named, escaped⟩ := readable
  obtain ⟨after, labelled, value⟩ := readLabelSet_written named.labels escaped sample.value
  obtain ⟨token, nothing⟩ := @number_token writer sample.value
  have boundary : ∀ u, (writer.labelSet sample.labels ++
      0x20 :: writer.number sample.value).head? = some u → isMetricUnit u = false := by
    intro u head
    rw [labelSet] at head
    split_ifs at head
    · cases head
      decide
    · cases head
      decide
  rw [readSample, sampleText, readName_complete named.name boundary, Option.bind_some, labelled,
    Option.bind_some]
  dsimp only
  rw [value, token, nothing, writer.reads, Option.bind_some]
  exact if_pos rfl

/-- The escapes leave no line feed. -/
theorem escapeValue_feed (value : JsString) : lineFeed ∉ escapeValue value := by
  intro member
  obtain ⟨u, -, feed⟩ := List.mem_flatMap.mp member
  rw [escapeUnit] at feed
  split_ifs at feed with slash mark isFeed
  · exact absurd feed (by decide)
  · exact absurd feed (by decide)
  · exact absurd feed (by decide)
  · exact isFeed (List.mem_singleton.mp feed).symm

theorem name_feed {start unit : CodeUnit → Bool} (startFeed : start lineFeed = false)
    (unitFeed : unit lineFeed = false) {name : JsString} (named : isNameOf start unit name = true) :
    lineFeed ∉ name := by
  obtain ⟨u, rest, rfl, first, others⟩ := name_cons named
  intro member
  rcases List.mem_cons.mp member with rfl | later
  · cases startFeed.symm.trans first
  · cases unitFeed.symm.trans (others _ later)

theorem metricName_feed {name : JsString} (named : isMetricName name = true) : lineFeed ∉ name :=
  name_feed (by decide) (by decide) named

theorem labelText_feed {labels : List (JsString × JsString)}
    (named : ∀ label ∈ labels, isLabelName label.1 = true)
    (escaped : ∀ label ∈ labels, writer.labelValue label.2 = escapeValue label.2) :
    lineFeed ∉ writer.labelText labels := by
  induction labels with
  | nil => exact List.not_mem_nil
  | cons label labels ih =>
    obtain ⟨name, names⟩ := List.forall_mem_cons.mp named
    obtain ⟨value, values⟩ := List.forall_mem_cons.mp escaped
    have apart : lineFeed ≠ equalSign ∧ lineFeed ≠ quoteMark ∧ lineFeed ≠ comma := by decide
    rw [labelText_cons, fieldText, field, value]
    simp only [List.mem_append, List.mem_cons, not_or, List.not_mem_nil, not_false_eq_true,
      and_true, true_and, apart]
    refine ⟨⟨name_feed (by decide) (by decide) name, escapeValue_feed _⟩, ?_⟩
    split_ifs
    · exact List.not_mem_nil
    · rw [List.mem_cons, not_or]
      exact ⟨apart.2.2, ih names values⟩

theorem sampleText_feed {sample : Sample} (readable : writer.Readable (.sample sample)) :
    lineFeed ∉ writer.sampleText sample := by
  obtain ⟨named, escaped⟩ := readable
  have number : lineFeed ∉ writer.number sample.value := fun member =>
    (writer.visible sample.value lineFeed member).2.1 rfl
  have braces : lineFeed ∉ writer.labelSet sample.labels := by
    have apart : lineFeed ≠ openBrace ∧ lineFeed ≠ closeBrace := by decide
    rw [labelSet]
    split_ifs
    · exact List.not_mem_nil
    · simp only [List.mem_append, List.mem_cons, not_or, List.not_mem_nil, not_false_eq_true,
        and_true, apart, true_and]
      exact labelText_feed named.labels escaped
  rw [sampleText]
  simp only [List.mem_append, List.mem_cons, not_or]
  exact ⟨metricName_feed named.name, braces, by decide, number⟩

/-! A line that starts with a name is no comment. -/

theorem readLine_named {name rest : JsString} (named : isMetricName name = true) :
    readLine (name ++ rest) = (readSample (name ++ rest)).map fun sample => [sample] := by
  obtain ⟨u, others, rfl, first, -⟩ := name_cons named
  obtain ⟨visible, notHash, -⟩ := visible_of_metricStart first
  rw [List.cons_append, readLine, isIgnored, skipBlanks_cons visible]
  exact if_neg (by simpa using notHash)

/-- What is read from the beginning of the line of a sample, if it is that sample, has its labels
escaped. -/
theorem readSample_escaped {sample : Sample} {line : JsString}
    (start : line <+: writer.sampleText sample) (read : readSample line = some sample) :
    ∀ label ∈ sample.labels, writer.labelValue label.2 = escapeValue label.2 := by
  obtain ⟨-, rest, after, rfl, labelled⟩ := readSample_sound read
  rw [sampleText, List.prefix_append_right_inj] at start
  by_cases none : sample.labels = []
  · rw [none]
    exact List.forall_mem_nil _
  rw [labelSet, if_neg none, List.cons_append, List.append_assoc, List.singleton_append] at start
  cases rest with
  | nil =>
    have unlabelled : ([], []) = (sample.labels, after) := Option.some.inj labelled
    exact absurd (Prod.mk.inj unlabelled).1.symm none
  | cons u rest =>
    obtain ⟨rfl, inside⟩ := List.cons_prefix_cons.mp start
    rw [skipBlanks_cons (by decide), readLabelSet, List.head?_cons, if_pos rfl,
      List.tail_cons] at labelled
    exact readLabels_written labelled none inside

end Samples

/-! ### Texts -/

section Texts

variable {writer}

/-- The first line of a text. -/
theorem splitOn_first (text : JsString) : ∃ first others,
    text.splitOn lineFeed = first :: others ∧ first <+: text ∧
      (∀ u ∈ text.head?, u ≠ lineFeed → first.head? = some u) := by
  have joined : [lineFeed].intercalate (text.splitOn lineFeed) = text :=
    List.intercalate_splitOn lineFeed
  cases split : text.splitOn lineFeed with
  | nil => exact absurd split (List.splitOn_ne_nil _ _)
  | cons first others =>
    rw [split] at joined
    refine ⟨first, others, rfl, ?_⟩
    cases others with
    | nil =>
      rw [List.intercalate_singleton] at joined
      subst joined
      exact ⟨List.prefix_rfl, fun u head _ => head⟩
    | cons next others =>
      rw [List.intercalate_cons_cons] at joined
      subst joined
      refine ⟨⟨_, (List.append_assoc ..).symm⟩, fun u head visible => ?_⟩
      cases first with
      | nil => exact absurd (Option.some.inj head).symm visible
      | cons v first => exact head

theorem splitOn_text (entries : List Entry) :
    (writer.text entries).splitOn lineFeed =
      (entries.flatMap fun entry => (writer.entryText entry).splitOn lineFeed) ++ [[]] := by
  induction entries with
  | nil => exact List.splitOn_nil lineFeed
  | cons entry entries ih =>
    rw [text, List.flatMap_cons, List.append_assoc, List.singleton_append,
      List.splitOn_append_cons_self, ← text, ih, List.flatMap_cons, List.append_assoc]

theorem text_terminated (entries : List Entry) :
    writer.text entries = [] ∨ (writer.text entries).getLast? = some lineFeed := by
  rcases List.eq_nil_or_concat entries with rfl | ⟨before, entry, rfl⟩
  · exact Or.inl rfl
  · refine Or.inr ?_
    rw [text, List.concat_eq_append, List.flatMap_append, List.flatMap_singleton,
      ← List.append_assoc, List.getLast?_concat]

/-- The lines of the entries are read one after the other. -/
theorem readExposition_text (entries : List Entry) : readExposition (writer.text entries) =
    readLines (entries.flatMap fun entry => (writer.entryText entry).splitOn lineFeed) := by
  have terminated : (decide (writer.text entries = []) ||
      decide ((writer.text entries).getLast? = some lineFeed)) = true := by
    simpa only [Bool.or_eq_true, decide_eq_true_eq] using text_terminated entries
  have last : readLines [[]] = some [] := rfl
  rw [readExposition, if_pos terminated, splitOn_text, readLines_append, last]
  cases readLines (entries.flatMap fun entry => (writer.entryText entry).splitOn lineFeed) with
  | none => rfl
  | some samples => exact congrArg some (List.append_nil samples)

theorem readLines_ignored {lines : List JsString}
    (ignored : ∀ line ∈ lines, isIgnored line = true) : readLines lines = some [] := by
  induction lines with
  | nil => rfl
  | cons line lines ih =>
    obtain ⟨first, others⟩ := List.forall_mem_cons.mp ignored
    rw [readLines, readLine, if_pos first, Option.bind_some, ih others]
    rfl

theorem ignored_of_readLines {lines : List JsString} (read : readLines lines = some []) :
    ∀ line ∈ lines, isIgnored line = true := by
  induction lines with
  | nil => exact List.forall_mem_nil _
  | cons line lines ih =>
    rw [readLines] at read
    obtain ⟨first, head, read⟩ := Option.bind_eq_some_iff.mp read
    obtain ⟨others, tail, nothing⟩ := Option.map_eq_some_iff.mp read
    obtain ⟨rfl, rfl⟩ := List.append_eq_nil_iff.mp nothing
    refine List.forall_mem_cons.mpr ⟨?_, ih tail⟩
    by_contra visible
    rw [readLine, if_neg visible] at head
    obtain ⟨sample, -, single⟩ := Option.map_eq_some_iff.mp head
    cases single

/-- The lines of a readable entry are read as its samples. -/
theorem Readable.read {entry : Entry} (readable : writer.Readable entry) :
    readLines ((writer.entryText entry).splitOn lineFeed) = some entry.samples := by
  cases entry with
  | comment text => exact readLines_ignored readable
  | sample s =>
    have line := @readLine_named s.name (writer.labelSet s.labels ++ 0x20 :: writer.number s.value)
      readable.1.name
    rw [← sampleText, readSample_written readable] at line
    rw [entryText, List.splitOn_eq_singleton (sampleText_feed readable), readLines, line]
    rfl

/-- The first line of a sample is read as one sample. -/
theorem readLines_sample {s : Sample} {samples : List Sample} (named : isMetricName s.name = true)
    (read : readLines ((writer.sampleText s).splitOn lineFeed) = some samples) :
    ∃ line first others, line <+: writer.sampleText s ∧ readSample line = some first ∧
      samples = first :: others := by
  obtain ⟨u, name, spelled, first, -⟩ := name_cons named
  obtain ⟨line, lines, split, start, head⟩ := splitOn_first (writer.sampleText s)
  obtain ⟨visible, notHash, notFeed⟩ := visible_of_metricStart first
  have begins : line.head? = some u := by
    refine head u ?_ notFeed
    rw [sampleText, spelled]
    rfl
  obtain ⟨after, rfl⟩ : ∃ after, line = u :: after := by
    cases line with
    | nil => cases begins
    | cons v after => exact ⟨after, by rw [Option.some.inj begins]⟩
  rw [split, readLines, readLine, isIgnored, skipBlanks_cons visible] at read
  obtain ⟨one, single, read⟩ := Option.bind_eq_some_iff.mp read
  rw [if_neg (by simpa using notHash)] at single
  obtain ⟨sample, alone, rfl⟩ := Option.map_eq_some_iff.mp single
  obtain ⟨others, -, rfl⟩ := Option.map_eq_some_iff.mp read
  exact ⟨u :: after, sample, others, start, alone, rfl⟩

/-- An entry whose lines are read as its samples is readable. -/
theorem readable_of_read {entry : Entry} (named : ∀ s ∈ entry.samples, s.Named)
    (read : readLines ((writer.entryText entry).splitOn lineFeed) = some entry.samples) :
    writer.Readable entry := by
  cases entry with
  | comment text => exact ignored_of_readLines read
  | sample s =>
    have name := named s (List.mem_singleton.mpr rfl)
    obtain ⟨line, first, others, start, single, same⟩ := readLines_sample name.name read
    cases same
    exact ⟨name, readSample_escaped start single⟩

/-- At least the samples that are written are read, if anything is. -/
theorem samples_length_le {entries : List Entry} {samples : List Sample}
    (named : ∀ s ∈ entries.flatMap Entry.samples, s.Named)
    (read : readLines (entries.flatMap fun entry => (writer.entryText entry).splitOn lineFeed) =
      some samples) :
    (entries.flatMap Entry.samples).length ≤ samples.length := by
  induction entries generalizing samples with
  | nil => exact Nat.zero_le _
  | cons entry entries ih =>
    rw [List.flatMap_cons, List.forall_mem_append] at named
    rw [List.flatMap_cons, readLines_append] at read
    obtain ⟨own, first, read⟩ := Option.bind_eq_some_iff.mp read
    obtain ⟨others, later, rfl⟩ := Option.map_eq_some_iff.mp read
    have rest := ih named.2 later
    rw [List.flatMap_cons, List.length_append, List.length_append]
    refine Nat.add_le_add ?_ rest
    cases entry with
    | comment text => exact Nat.zero_le _
    | sample s =>
      obtain ⟨-, sample, more, -, -, rfl⟩ :=
        readLines_sample (named.1 s (List.mem_singleton.mpr rfl)).name first
      exact Nat.le_add_left 1 _

/-- Where all is read as it was written, each entry is. -/
theorem entries_read {entries : List Entry} (named : ∀ s ∈ entries.flatMap Entry.samples, s.Named)
    (read : readLines (entries.flatMap fun entry => (writer.entryText entry).splitOn lineFeed) =
      some (entries.flatMap Entry.samples)) :
    ∀ entry ∈ entries, writer.Readable entry := by
  induction entries with
  | nil => exact List.forall_mem_nil _
  | cons entry entries ih =>
    rw [List.flatMap_cons, List.forall_mem_append] at named
    rw [List.flatMap_cons, List.flatMap_cons, readLines_append] at read
    obtain ⟨own, first, read⟩ := Option.bind_eq_some_iff.mp read
    obtain ⟨others, later, whole⟩ := Option.map_eq_some_iff.mp read
    have least := samples_length_le named.2 later
    have own_least : entry.samples.length ≤ own.length := by
      have alone := @samples_length_le writer [entry] own
        (by rw [List.flatMap_singleton]; exact named.1)
        (by rw [List.flatMap_singleton]; exact first)
      rwa [List.flatMap_singleton] at alone
    have total := congrArg List.length whole
    rw [List.length_append, List.length_append] at total
    obtain ⟨same, same'⟩ := List.append_inj whole (by omega)
    rw [same] at first
    rw [same'] at later
    exact List.forall_mem_cons.mpr ⟨readable_of_read named.1 first, ih named.2 later⟩

/-- A text is read as the samples that were written exactly when each entry is readable. -/
theorem readExposition_iff (entries : List Entry) :
    readExposition (writer.text entries) = some (entries.flatMap Entry.samples) ↔
      ∀ entry ∈ entries, writer.Readable entry := by
  rw [readExposition_text]
  constructor
  · intro read
    exact entries_read (readLines_named read) read
  · intro readable
    induction entries with
    | nil => rfl
    | cons entry entries ih =>
      obtain ⟨first, others⟩ := List.forall_mem_cons.mp readable
      rw [List.flatMap_cons, readLines_append, first.read, Option.bind_some, ih others,
        List.flatMap_cons]
      rfl

end Texts

end ExpositionWriter

end NeuralMesh.Codec
