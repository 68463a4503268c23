import NeuralMesh.Codec.ExpositionText
import NeuralMesh.Js.Reading
import NeuralMesh.Observability.Histogram

/-! The exposition of the metrics registry. Label values are written with an escape for quotes
alone, so that a backslash or a line feed in a value is read as part of the format. -/
namespace NeuralMesh.Observability

open Js Codec Server

/-! ### The registry -/

/-- `String(v).replace(/"/g, '\\"')` of a value. -/
def escapeQuotes (value : JsString) : JsString :=
  value.flatMap fun u => if u = quoteMark then [backslash, quoteMark] else [u]

/-- A counter or a gauge. -/
structure Metric where
  name : JsString
  help : JsString
  values : InsertionMap JsString (Series JsNumber)

structure MetricsRegistry where
  counters : InsertionMap JsString Metric
  gauges : InsertionMap JsString Metric
  histograms : InsertionMap JsString Histogram

/-- `{ ...baseLabels, le }` -/
def withLe (labels : Option MetricLabels) (le : JsString) : Option MetricLabels :=
  some {
    entries := InsertionMap.setEntry (js "le") (.string le) (labelEntries labels)
    unique := by
      have distinct : ((labelEntries labels).map Prod.fst).Nodup := by
        cases labels with
        | none => exact List.nodup_nil
        | some labels => exact List.pairwise_map.mpr labels.unique
      exact List.pairwise_map.mp (InsertionMap.setEntry_distinct _ _ distinct) }

/-- A number of observations. -/
def countNumber (count : Nat) : JsNumber := .finite (Decimal.ofInt count)

section Exposition

variable (localeCompare : JsString → JsString → Int)

def formatLabels : Option MetricLabels → JsString
  | none => []
  | some labels =>
    if labels.entries = [] then []
    else
      js "\x7b" ++ (js ",").intercalate ((sortedEntries localeCompare (some labels)).map
        fun (k, v) => k ++ js "=\"" ++ escapeQuotes v.spelled ++ js "\"") ++ js "\x7d"

/-- A line with a sample. -/
def sampleLine (name : JsString) (labels : Option MetricLabels) (value : JsNumber) : JsString :=
  name ++ formatLabels localeCompare labels ++ js " " ++ numberString value

def helpLine (name help : JsString) : JsString := js "# HELP " ++ name ++ js " " ++ help

def typeLine (name type : JsString) : JsString := js "# TYPE " ++ name ++ js " " ++ type

def Metric.toPrometheus (type : JsString) (metric : Metric) : List JsString :=
  [helpLine metric.name metric.help, typeLine metric.name type] ++
    if metric.values.entries = [] then [metric.name ++ js " 0"]
    else metric.values.values.map fun entry =>
      sampleLine localeCompare metric.name entry.labels entry.value

def Counter.toPrometheus (counter : Metric) : List JsString :=
  counter.toPrometheus localeCompare (js "counter")

def Gauge.toPrometheus (gauge : Metric) : List JsString :=
  gauge.toPrometheus localeCompare (js "gauge")

def Histogram.stateLines (histogram : Histogram) (state : HistogramState) : List JsString :=
  (histogram.exportedBuckets state).map (fun bucket =>
    sampleLine localeCompare (histogram.name ++ js "_bucket")
      (withLe state.labels (numberString bucket.1)) (countNumber bucket.2)) ++
  [sampleLine localeCompare (histogram.name ++ js "_bucket") (withLe state.labels (js "+Inf"))
    (countNumber state.count),
  sampleLine localeCompare (histogram.name ++ js "_sum") state.labels state.sum,
  sampleLine localeCompare (histogram.name ++ js "_count") state.labels (countNumber state.count)]

def Histogram.toPrometheus (histogram : Histogram) : List JsString :=
  [helpLine histogram.name histogram.help, typeLine histogram.name (js "histogram")] ++
    if histogram.observations.entries = [] then
      [histogram.name ++ js "_count 0", histogram.name ++ js "_sum 0"]
    else histogram.observations.values.flatMap (histogram.stateLines localeCompare)

/-- The text of a registry, with its process metrics among the gauges. -/
def exportPrometheusText (registry : MetricsRegistry) : JsString :=
  (js "\n").intercalate
    (registry.counters.values.flatMap (Counter.toPrometheus localeCompare) ++
      registry.gauges.values.flatMap (Gauge.toPrometheus localeCompare) ++
      registry.histograms.values.flatMap (Histogram.toPrometheus localeCompare) ++ [[]])

/-! ### What is recorded -/

/-- The samples of a metric under its name. -/
structure MetricFamily where
  name : JsString
  help : JsString
  type : JsString
  samples : List Sample
  named : ∃ sample ∈ samples, name <+: sample.name
  oneLine : lineFeed ∉ type

def sampleOf (name : JsString) (labels : Option MetricLabels) (value : JsNumber) : Sample :=
  ⟨name, spelledLabels localeCompare labels, value⟩

/-- The series of a counter or a gauge; one without any has the value 0. -/
def Metric.samples (metric : Metric) : List Sample :=
  if metric.values.entries = [] then [⟨metric.name, [], .finite 0⟩]
  else metric.values.values.map fun entry =>
    sampleOf localeCompare metric.name entry.labels entry.value

/-- The buckets, the sum and the count of a series of a histogram. -/
def Histogram.stateSamples (histogram : Histogram) (state : HistogramState) : List Sample :=
  (histogram.exportedBuckets state).map (fun bucket =>
    sampleOf localeCompare (histogram.name ++ js "_bucket")
      (withLe state.labels (numberString bucket.1)) (countNumber bucket.2)) ++
  [sampleOf localeCompare (histogram.name ++ js "_bucket") (withLe state.labels (js "+Inf"))
    (countNumber state.count),
  sampleOf localeCompare (histogram.name ++ js "_sum") state.labels state.sum,
  sampleOf localeCompare (histogram.name ++ js "_count") state.labels (countNumber state.count)]

def Histogram.samples (histogram : Histogram) : List Sample :=
  if histogram.observations.entries = [] then
    [⟨histogram.name ++ js "_count", [], .finite 0⟩, ⟨histogram.name ++ js "_sum", [], .finite 0⟩]
  else histogram.observations.values.flatMap (histogram.stateSamples localeCompare)

theorem Metric.samples_named (metric : Metric) :
    ∃ sample ∈ metric.samples localeCompare, metric.name <+: sample.name := by
  rw [Metric.samples]
  by_cases none : metric.values.entries = []
  · rw [if_pos none]
    exact ⟨_, List.mem_singleton.mpr rfl, List.prefix_rfl⟩
  · obtain ⟨entry, member⟩ := List.exists_mem_of_ne_nil _ none
    rw [if_neg none]
    exact ⟨_, List.mem_map.mpr ⟨entry.2, List.mem_map.mpr ⟨entry, member, rfl⟩, rfl⟩,
      List.prefix_rfl⟩

theorem Histogram.samples_named (histogram : Histogram) :
    ∃ sample ∈ histogram.samples localeCompare, histogram.name <+: sample.name := by
  rw [Histogram.samples]
  by_cases none : histogram.observations.entries = []
  · rw [if_pos none]
    exact ⟨_, List.mem_cons_self, List.prefix_append _ _⟩
  · obtain ⟨entry, member⟩ := List.exists_mem_of_ne_nil _ none
    rw [if_neg none]
    refine ⟨sampleOf localeCompare (histogram.name ++ js "_sum") entry.2.labels entry.2.sum,
      List.mem_flatMap.mpr ⟨entry.2, List.mem_map.mpr ⟨entry, member, rfl⟩, ?_⟩,
      List.prefix_append _ _⟩
    exact List.mem_append_right _ (List.mem_cons_of_mem _ List.mem_cons_self)

def Metric.family (type : JsString) (oneLine : lineFeed ∉ type) (metric : Metric) :
    MetricFamily :=
  ⟨metric.name, metric.help, type, metric.samples localeCompare,
    metric.samples_named localeCompare, oneLine⟩

def Histogram.family (histogram : Histogram) : MetricFamily :=
  ⟨histogram.name, histogram.help, js "histogram", histogram.samples localeCompare,
    histogram.samples_named localeCompare, by decide⟩

def MetricsRegistry.families (registry : MetricsRegistry) : List MetricFamily :=
  registry.counters.values.map (Metric.family localeCompare (js "counter") (by decide)) ++
    registry.gauges.values.map (Metric.family localeCompare (js "gauge") (by decide)) ++
    registry.histograms.values.map (Histogram.family localeCompare)

/-- All samples that are recorded, in the order of the metrics. -/
def MetricsRegistry.samples (registry : MetricsRegistry) : List Sample :=
  (registry.families localeCompare).flatMap MetricFamily.samples

/-- No backslash and no line feed. -/
def Plain (value : JsString) : Prop := ∀ u ∈ value, u ≠ backslash ∧ u ≠ lineFeed

/-- The names are names of the format, the label values are plain, and a help text goes on with
empty lines and comments only. -/
structure MetricsRegistry.Printable (registry : MetricsRegistry) : Prop where
  names : ∀ sample ∈ registry.samples localeCompare, sample.Named
  values : ∀ sample ∈ registry.samples localeCompare, ∀ label ∈ sample.labels, Plain label.2
  helps : ∀ family ∈ registry.families localeCompare,
    ∀ line ∈ (family.help.splitOn lineFeed).tail, isIgnored line = true

end Exposition

/-! ### Quotes alone -/

theorem escapeQuotes_cons (u : CodeUnit) (value : JsString) : escapeQuotes (u :: value) =
    (if u = quoteMark then [backslash, quoteMark] else [u]) ++ escapeQuotes value := rfl

/-- A backslash that is escaped is ahead of one that is not, by one unit for each so far. -/
theorem escaped_ahead (value rest : JsString) (ahead : Nat) :
    ¬ List.replicate (ahead + 1) backslash ++ (escapeValue value ++ [quoteMark]) <+:
      escapeQuotes value ++ quoteMark :: rest := by
  have apart : backslash ≠ quoteMark := by decide
  induction value generalizing ahead with
  | nil =>
    intro start
    exact apart (List.cons_prefix_cons.mp start).1
  | cons u value ih =>
    intro start
    rw [escapeValue, List.flatMap_cons, ← escapeValue, escapeQuotes_cons,
      List.replicate_succ] at start
    by_cases mark : u = quoteMark
    · subst mark
      have escapedMark : escapeUnit quoteMark = [backslash, quoteMark] := rfl
      rw [if_pos rfl, escapedMark] at start
      obtain ⟨-, start⟩ := List.cons_prefix_cons.mp start
      cases ahead with
      | zero => exact apart (List.cons_prefix_cons.mp start).1
      | succ ahead => exact apart (List.cons_prefix_cons.mp start).1
    · rw [if_neg mark] at start
      obtain ⟨same, start⟩ := List.cons_prefix_cons.mp start
      rw [← same] at start
      refine ih (ahead + 1) ?_
      have escapedSlash : escapeUnit backslash = [backslash, backslash] := rfl
      have shifted : List.replicate (ahead + 1 + 1) backslash =
          List.replicate ahead backslash ++ [backslash, backslash] := by
        rw [List.replicate_succ', List.replicate_succ', List.append_assoc]
        rfl
      rw [shifted, ← escapedSlash, List.append_assoc, ← List.append_assoc (escapeUnit backslash)]
      exact start

/-- A value whose escaped text is read from the text without escapes is plain. -/
theorem plain_of_start {value rest : JsString}
    (start : escapeValue value ++ [quoteMark] <+: escapeQuotes value ++ quoteMark :: rest) :
    Plain value := by
  induction value with
  | nil => exact List.forall_mem_nil _
  | cons u value ih =>
    by_cases slash : u = backslash
    · subst slash
      obtain ⟨-, ahead⟩ := List.cons_prefix_cons.mp start
      exact absurd ahead (escaped_ahead value rest 0)
    · rw [escapeValue, List.flatMap_cons, ← escapeValue, escapeQuotes_cons, List.append_assoc,
        List.append_assoc] at start
      by_cases feed : u = lineFeed
      · subst feed
        exact absurd (List.cons_prefix_cons.mp start).1 (by decide)
      · have same : escapeUnit u = if u = quoteMark then [backslash, quoteMark] else [u] := by
          rw [escapeUnit, if_neg slash, if_neg feed]
        rw [same, List.prefix_append_right_inj] at start
        exact List.forall_mem_cons.mpr ⟨⟨slash, feed⟩, ih start⟩

/-- Escaping quotes alone is enough for plain values, and for no others. -/
theorem escapeQuotes_eq_iff {value : JsString} :
    escapeQuotes value = escapeValue value ↔ Plain value := by
  constructor
  · intro same
    refine @plain_of_start value [] ?_
    rw [same]
  · intro plain
    refine List.flatMap_congr fun u member => ?_
    rw [escapeUnit, if_neg (plain u member).1, if_neg (plain u member).2]

/-! ### Numbers -/

theorem letter_toNat {c : Char} (letter : c.isAlpha = true) : 65 ≤ c.toNat ∧ c.toNat ≤ 122 := by
  rcases (Bool.or_eq_true _ _).mp letter with range | range
  · have upper : 'A'.val ≤ c.val ∧ c.val ≤ 'Z'.val := of_decide_eq_true range
    have first : 65 ≤ c.toNat := UInt32.le_iff_toNat_le.mp upper.1
    have last : c.toNat ≤ 90 := UInt32.le_iff_toNat_le.mp upper.2
    omega
  · have lower := Bool.and_eq_true_iff.mp range
    have first : 97 ≤ c.toNat := UInt32.le_iff_toNat_le.mp (of_decide_eq_true lower.1)
    have last : c.toNat ≤ 122 := UInt32.le_iff_toNat_le.mp (of_decide_eq_true lower.2)
    omega

theorem scalar_toNat {c : Char} (scalar : isScalarChar c = true) :
    43 ≤ c.toNat ∧ c.toNat ≤ 122 := by
  simp only [isScalarChar, isDigit, Bool.or_eq_true, Bool.and_eq_true, decide_eq_true_eq,
    beq_iff_eq] at scalar
  rcases scalar with (((digit | letter) | rfl) | rfl) | rfl
  · omega
  · have bounds := letter_toNat letter
    omega
  · decide
  · decide
  · decide

theorem number_unit_visible {u : CodeUnit} (range : 43 ≤ u.toNat ∧ u.toNat ≤ 122) :
    isBlank u = false ∧ u ≠ lineFeed ∧ u ≠ openBrace := by
  have other : u ≠ 0x20 ∧ u ≠ 0x09 ∧ u ≠ 0x0A ∧ u ≠ 0x7B := by
    refine ⟨?_, ?_, ?_, ?_⟩ <;> rintro rfl <;> exact absurd range (by decide)
  exact ⟨by simp [isBlank, other], other.2.2⟩

theorem numberString_range (n : JsNumber) :
    ∀ u ∈ numberString n, 43 ≤ u.toNat ∧ u.toNat ≤ 122 := by
  have spelled {text : JsString}
      (range : text.all (fun u => 43 ≤ u.toNat && u.toNat ≤ 122) = true) :
      ∀ u ∈ text, 43 ≤ u.toNat ∧ u.toNat ≤ 122 := by
    simpa only [List.all_eq_true, Bool.and_eq_true, decide_eq_true_eq] using range
  cases n with
  | finite d =>
    intro u member
    obtain ⟨c, member, unit⟩ := List.mem_flatMap.mp member
    have range := scalar_toNat (numberText_scalar d c member)
    rw [utf16, if_pos (by omega), List.mem_singleton] at unit
    rw [unit, unit_ofNat (by omega)]
    exact range
  | nan => exact spelled (by decide)
  | infinite negative => cases negative <;> exact spelled (by decide)

theorem readFloat_numberString (n : JsNumber) : readFloat (numberString n) = some n := by
  cases n with
  | finite d =>
    have read := readNumber_numberText d endsNumber_nil
    rw [List.append_nil] at read
    rw [readFloat, numberString, wellFormed_ofText, read]
  | nan => rfl
  | infinite negative => cases negative <;> rfl

/-- The registry as a writer of the format. -/
def registryWriter : ExpositionWriter where
  labelValue := escapeQuotes
  number := numberString
  unambiguous _ _ start := escapeQuotes_eq_iff.mpr (plain_of_start start)
  reads := readFloat_numberString
  visible n u member := number_unit_visible (numberString_range n u member)

/-! ### The exposition as entries -/

section Entries

variable {localeCompare : JsString → JsString → Int}

/-- The comments and samples of a family. -/
def MetricFamily.entries (family : MetricFamily) : List Entry :=
  .comment (helpLine family.name family.help) :: .comment (typeLine family.name family.type) ::
    family.samples.map .sample

theorem formatLabels_labelSet (labels : Option MetricLabels) :
    formatLabels localeCompare labels =
      registryWriter.labelSet (spelledLabels localeCompare labels) := by
  cases labels with
  | none => rfl
  | some labels =>
    have length : (sortedEntries localeCompare (some labels)).length = labels.entries.length :=
      List.length_insertionSort ..
    rw [formatLabels, ExpositionWriter.labelSet]
    by_cases none : labels.entries = []
    · rw [if_pos none, if_pos]
      rw [none] at length
      rw [spelledLabels, List.eq_nil_of_length_eq_zero length]
      rfl
    · have some_label : spelledLabels localeCompare (some labels) ≠ [] := by
        intro empty
        rw [spelledLabels, List.map_eq_nil_iff] at empty
        rw [empty] at length
        exact none (List.eq_nil_of_length_eq_zero length.symm)
      have marks : js "\x7b" = [openBrace] ∧ js "," = [comma] ∧ js "\x7d" = [closeBrace] ∧
          js "=\"" = [equalSign, quoteMark] ∧ js "\"" = [quoteMark] := by decide
      rw [if_neg none, if_neg some_label, marks.1, marks.2.1, marks.2.2.1, marks.2.2.2.1,
        marks.2.2.2.2, ExpositionWriter.labelText, spelledLabels, fieldsText, List.map_map,
        List.map_map, List.singleton_append, List.cons_append]
      refine congrArg (fun fields => openBrace :: (List.intercalate [comma] fields ++ _)) ?_
      refine List.map_congr_left fun entry _ => ?_
      simp [fieldText, ExpositionWriter.field, registryWriter]

theorem sampleLine_text (name : JsString) (labels : Option MetricLabels) (value : JsNumber) :
    sampleLine localeCompare name labels value =
      registryWriter.sampleText (sampleOf localeCompare name labels value) := by
  rw [sampleLine, formatLabels_labelSet, ExpositionWriter.sampleText, List.append_assoc,
    List.append_assoc]
  rfl

/-- A sample without labels whose value is 0. -/
theorem zero_text (name : JsString) :
    name ++ js " 0" = registryWriter.sampleText ⟨name, [], .finite 0⟩ := rfl

theorem Metric.toPrometheus_entries (type : JsString) (oneLine : lineFeed ∉ type)
    (metric : Metric) : metric.toPrometheus localeCompare type =
      (metric.family localeCompare type oneLine).entries.map registryWriter.entryText := by
  have lines : (if metric.values.entries = [] then [metric.name ++ js " 0"]
      else metric.values.values.map fun entry =>
        sampleLine localeCompare metric.name entry.labels entry.value) =
      ((metric.samples localeCompare).map Entry.sample).map registryWriter.entryText := by
    rw [Metric.samples]
    split_ifs
    · rw [zero_text]
      rfl
    · rw [List.map_map, List.map_map]
      exact List.map_congr_left fun entry _ => sampleLine_text _ _ _
  rw [Metric.toPrometheus, lines]
  rfl

theorem Histogram.toPrometheus_entries (histogram : Histogram) :
    histogram.toPrometheus localeCompare =
      (histogram.family localeCompare).entries.map registryWriter.entryText := by
  have state_lines (state : HistogramState) : histogram.stateLines localeCompare state =
      ((histogram.stateSamples localeCompare state).map Entry.sample).map
        registryWriter.entryText := by
    rw [Histogram.stateLines, Histogram.stateSamples, List.map_append, List.map_append,
      List.map_map, List.map_map, sampleLine_text, sampleLine_text, sampleLine_text]
    refine congrArg (· ++ _) (List.map_congr_left fun bucket _ => sampleLine_text _ _ _)
  have lines : (if histogram.observations.entries = [] then
      [histogram.name ++ js "_count 0", histogram.name ++ js "_sum 0"]
      else histogram.observations.values.flatMap (histogram.stateLines localeCompare)) =
      ((histogram.samples localeCompare).map Entry.sample).map registryWriter.entryText := by
    have texts : js "_count 0" = js "_count" ++ js " 0" ∧ js "_sum 0" = js "_sum" ++ js " 0" := by
      decide
    rw [Histogram.samples]
    split_ifs
    · rw [texts.1, texts.2, ← List.append_assoc, ← List.append_assoc, zero_text, zero_text]
      rfl
    · rw [List.map_flatMap, List.map_flatMap]
      exact List.flatMap_congr fun state _ => state_lines state
  rw [Histogram.toPrometheus, lines]
  rfl

/-- Lines that are joined by line feeds, with an empty one at the end. -/
theorem intercalate_lines (lines : List JsString) :
    (js "\n").intercalate (lines ++ [[]]) = lines.flatMap fun line => line ++ [lineFeed] := by
  have newline : js "\n" = [lineFeed] := by decide
  rw [newline]
  induction lines with
  | nil => rfl
  | cons line lines ih =>
    rw [List.flatMap_cons, ← ih, List.append_assoc, List.cons_append]
    cases lines with
    | nil => rfl
    | cons next lines =>
      rw [List.cons_append, List.intercalate_cons_cons]
      exact List.append_assoc ..

theorem exportPrometheusText_entries (registry : MetricsRegistry) :
    exportPrometheusText localeCompare registry =
      registryWriter.text ((registry.families localeCompare).flatMap MetricFamily.entries) := by
  have lines : registry.counters.values.flatMap (Counter.toPrometheus localeCompare) ++
      registry.gauges.values.flatMap (Gauge.toPrometheus localeCompare) ++
      registry.histograms.values.flatMap (Histogram.toPrometheus localeCompare) =
      ((registry.families localeCompare).flatMap MetricFamily.entries).map
        registryWriter.entryText := by
    rw [List.map_flatMap, MetricsRegistry.families, List.flatMap_append, List.flatMap_append,
      List.flatMap_map, List.flatMap_map, List.flatMap_map]
    refine congrArg₂ (· ++ ·) (congrArg₂ (· ++ ·) ?_ ?_) ?_
    · exact List.flatMap_congr fun counter _ => counter.toPrometheus_entries _ _
    · exact List.flatMap_congr fun gauge _ => gauge.toPrometheus_entries _ _
    · exact List.flatMap_congr fun histogram _ => histogram.toPrometheus_entries
  rw [exportPrometheusText, lines, intercalate_lines, List.flatMap_map]
  rfl

/-! ### Families that are read -/

theorem samples_entries (families : List MetricFamily) :
    (families.flatMap MetricFamily.entries).flatMap Entry.samples =
      families.flatMap MetricFamily.samples := by
  rw [List.flatMap_assoc]
  refine List.flatMap_congr fun family _ => ?_
  rw [MetricFamily.entries, List.flatMap_cons, List.flatMap_cons, List.flatMap_map]
  exact List.flatMap_singleton' family.samples

/-- Text before a first line feed belongs to the first line. -/
theorem splitOn_before {before : JsString} (unbroken : lineFeed ∉ before) (text : JsString) :
    ∃ first, (before ++ text).splitOn lineFeed =
      (before ++ first) :: (text.splitOn lineFeed).tail := by
  induction before with
  | nil =>
    obtain ⟨first, others, split, -⟩ := ExpositionWriter.splitOn_first text
    exact ⟨first, by rw [List.nil_append, split]; rfl⟩
  | cons u before ih =>
    rw [List.mem_cons, not_or] at unbroken
    obtain ⟨first, split⟩ := ih unbroken.2
    refine ⟨first, ?_⟩
    rw [List.cons_append, List.splitOn_cons_eq_if_modifyHead,
      if_neg (by simpa using Ne.symm unbroken.1), split]
    rfl

theorem isIgnored_hash (text : JsString) : isIgnored (hashSign :: text) = true := by
  rw [isIgnored, skipBlanks_cons (by decide)]
  exact decide_eq_true rfl

theorem helpLine_readable {name help : JsString} (unbroken : lineFeed ∉ name) :
    registryWriter.Readable (.comment (helpLine name help)) ↔
      ∀ line ∈ (help.splitOn lineFeed).tail, isIgnored line = true := by
  have start : lineFeed ∉ js "# HELP " ++ name ++ js " " := by
    have marks : lineFeed ∉ js "# HELP " ∧ lineFeed ∉ js " " := by decide
    rw [List.mem_append, List.mem_append, not_or, not_or]
    exact ⟨⟨marks.1, unbroken⟩, marks.2⟩
  obtain ⟨first, split⟩ := splitOn_before start help
  have ignored : isIgnored (js "# HELP " ++ name ++ js " " ++ first) = true :=
    isIgnored_hash _
  rw [ExpositionWriter.Readable, helpLine, split, List.forall_mem_cons]
  exact and_iff_right ignored

theorem typeLine_readable {name type : JsString} (unbroken : lineFeed ∉ name)
    (oneLine : lineFeed ∉ type) : registryWriter.Readable (.comment (typeLine name type)) := by
  have whole : lineFeed ∉ typeLine name type := by
    have marks : lineFeed ∉ js "# TYPE " ∧ lineFeed ∉ js " " := by decide
    rw [typeLine, List.mem_append, List.mem_append, List.mem_append, not_or, not_or, not_or]
    exact ⟨⟨⟨marks.1, unbroken⟩, marks.2⟩, oneLine⟩
  rw [ExpositionWriter.Readable, List.splitOn_eq_singleton whole]
  exact List.forall_mem_singleton.mpr (isIgnored_hash _)

/-- The name of a family with a well-formed sample has no line feed. -/
theorem MetricFamily.name_unbroken {family : MetricFamily}
    (names : ∀ sample ∈ family.samples, sample.Named) : lineFeed ∉ family.name := by
  obtain ⟨sample, member, start⟩ := family.named
  exact fun feed => ExpositionWriter.metricName_feed (names sample member).name (start.subset feed)

theorem MetricFamily.readable_iff (family : MetricFamily) :
    (∀ entry ∈ family.entries, registryWriter.Readable entry) ↔
      (∀ sample ∈ family.samples, sample.Named ∧ ∀ label ∈ sample.labels, Plain label.2) ∧
        ∀ line ∈ (family.help.splitOn lineFeed).tail, isIgnored line = true := by
  have samples : (∀ entry ∈ family.samples.map Entry.sample, registryWriter.Readable entry) ↔
      ∀ sample ∈ family.samples, sample.Named ∧ ∀ label ∈ sample.labels, Plain label.2 := by
    rw [List.forall_mem_map]
    refine forall₂_congr fun sample _ => and_congr_right fun _ => ?_
    exact forall₂_congr fun label _ => escapeQuotes_eq_iff
  rw [MetricFamily.entries, List.forall_mem_cons, List.forall_mem_cons, samples]
  constructor
  · rintro ⟨help, -, written⟩
    have unbroken := family.name_unbroken fun sample member => (written sample member).1
    exact ⟨written, (helpLine_readable unbroken).mp help⟩
  · rintro ⟨written, help⟩
    have unbroken := family.name_unbroken fun sample member => (written sample member).1
    exact ⟨(helpLine_readable unbroken).mpr help, typeLine_readable unbroken family.oneLine,
      written⟩

/-- The exposition of a registry is read as its samples exactly when the registry is printable. -/
theorem exposition_iff (registry : MetricsRegistry) :
    readExposition (exportPrometheusText localeCompare registry) =
      some (registry.samples localeCompare) ↔ registry.Printable localeCompare := by
  rw [exportPrometheusText_entries, MetricsRegistry.samples, ← samples_entries,
    ExpositionWriter.readExposition_iff, List.forall_mem_flatMap]
  simp only [MetricFamily.readable_iff]
  constructor
  · intro readable
    refine ⟨?_, ?_, fun family member => (readable family member).2⟩
    · exact List.forall_mem_flatMap.mpr fun family member sample shown =>
        ((readable family member).1 sample shown).1
    · exact List.forall_mem_flatMap.mpr fun family member sample shown =>
        ((readable family member).1 sample shown).2
  · intro printable family member
    refine ⟨fun sample shown => ?_, printable.helps family member⟩
    have recorded : sample ∈ registry.samples localeCompare :=
      List.mem_flatMap.mpr ⟨family, member, shown⟩
    exact ⟨printable.names sample recorded, printable.values sample recorded⟩

end Entries

/-! ### A tool name that forges a value -/

/-- The labels of a call of a tool whose name ends the value, the braces and the line. -/
def forgingLabels : MetricLabels where
  entries := [(js "tool", .string (js "a\\\"\x7d 5\n# ")), (js "status", .string (js "success"))]
  unique := List.pairwise_pair.mpr (by decide)

def forgingRegistry : MetricsRegistry where
  counters := InsertionMap.set ∅ (js "liop_tool_calls_total") {
    name := js "liop_tool_calls_total"
    help := js "Total number of tool logic-injection executions"
    values := InsertionMap.set ∅ (labelsToKey compareUnits (some forgingLabels))
      ⟨countNumber 1, some forgingLabels⟩ }
  gauges := ∅
  histograms := ∅

/-- The call that was counted once is read as five calls of another tool. -/
theorem toolName_forges :
    readExposition (exportPrometheusText compareUnits forgingRegistry) =
      some [⟨js "liop_tool_calls_total",
        [(js "status", js "success"), (js "tool", js "a\\")], countNumber 5⟩] ∧
    readExposition (exportPrometheusText compareUnits forgingRegistry) ≠
      some (forgingRegistry.samples compareUnits) := by
  decide +kernel

end NeuralMesh.Observability
