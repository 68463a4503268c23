import NeuralMesh.Js.ScriptGrammar
import NeuralMesh.Worker.ZkVerifier

/-! The texts that the sandbox and the taint analyzer build around the logic. The
analyzer skips a text that it cannot parse. -/
namespace NeuralMesh.Security

open Js Parsing

/-! ### The texts -/

/-- A line of the script, with its indentation. -/
def scriptLine (depth : Nat) (code : String) : Text :=
  List.replicate depth '\t' ++ (code.toList ++ ['\n'])

def frozen : List String :=
  ["Object", "Array", "String", "Number", "Boolean", "RegExp", "Map", "Set", "Promise", "Error"]

/-- `scriptCode` up to the logic. -/
def scriptStart : Text :=
  '\n' :: (scriptLine 4 "(function() \x7b" ++ scriptLine 5 "\"use strict\";" ++
    scriptLine 5 "try \x7b" ++
    scriptLine 6 "// Pre-execution prototype freezing (PCI-DSS Compliance)" ++
    (frozen.flatMap fun name => List.replicate 6 '\t' ++ ("Object.freeze(".toList ++
      (name.toList ++ ".prototype);\n".toList))) ++
    scriptLine 6 "Object.freeze(Object.getPrototypeOf(function()\x7b\x7d));" ++
    '\n' :: List.replicate 6 '\t')

/-- `scriptCode` from the line after the logic. -/
def scriptEnd : Text :=
  scriptLine 6 "if (typeof liop_main === 'function') \x7b" ++
    scriptLine 7 "return liop_main(env);" ++ scriptLine 6 "\x7d" ++
    scriptLine 6 "return \"ERR_NO_ENTRY_POINT\";" ++ scriptLine 5 "\x7d catch(e) \x7b" ++
    scriptLine 6 "return \"LogicError: \" + e.message;" ++ scriptLine 5 "\x7d" ++
    scriptLine 4 "\x7d)();" ++ List.replicate 3 '\t'

/-- The text before the body of a function of `env`. -/
def functionStart (name : String) : Text :=
  "function ".toList ++ (name.toList ++ "(env) \x7b\n".toList)

def functionText (name : String) (body : Text) : Text :=
  functionStart name ++ (body ++ "\n\x7d".toList)

/-- The pattern that the sandbox tests first decides nothing here. -/
def processedLogic (compiledLogic : Text) : Text :=
  if Worker.includes "function liop_main".toList compiledLogic then compiledLogic
  else functionText "liop_main" compiledLogic

def scriptCode (compiledLogic : Text) : Text :=
  scriptStart ++ (processedLogic compiledLogic ++ '\n' :: scriptEnd)

/-- The logic runs: `vm.Script` accepts the script. -/
def Runs (logic : Text) : Prop := parsesScript (scriptCode logic) = true

/-- `analyze` and `extractQueriedFields` do not return before they look at the logic. -/
structure Analysed (sourceCode : Text) : Prop where
  analyze : parsesScript (functionText "liop_analysis_wrapper" sourceCode) = true
  extractQueriedFields : parsesScript (functionText "w" sourceCode) = true

/-! ### The logic in its place -/

/-- The parser takes the tokens and may stop after them. -/
def Completes (awaited : Phrases) (ts : List Token) : Prop :=
  ∃ stack, drive scriptGrammar awaited ts = some stack ∧
    stack.all (finishes scriptGrammar) = true

/-- A place for a text between fixed lines. -/
structure Place (before after : Text) (awaited : Phrases) (next : List Token) : Prop where
  first : ∃ ts, scan .start before = some (.start, ts) ∧
    drive scriptGrammar [rest .program] ts = some awaited
  last : ∃ line, scan .start (after ++ ['\n']) = some (⟨.blank, line⟩, next)
  /-- A comment that goes on into the last lines does not end there. -/
  comment : (scan ⟨.blockComment false, true⟩ (after ++ ['\n'])).all
    (fun c => c.1.mode ≠ .blank) = true

theorem Place.parses_iff {before after : Text} {awaited : Phrases} {next : List Token}
    (place : Place before after awaited next) (text : Text) :
    parsesScript (before ++ (text ++ '\n' :: after)) = true ↔
      ∃ ts, tokens text = some ts ∧ Completes awaited (ts ++ next) := by
  obtain ⟨⟨ts, first, driven⟩, ⟨line, last⟩, comment⟩ := place
  rw [parsesScript, tokens_between first last rfl comment]
  cases tokens text with
  | none => simp
  | some inner =>
    simp only [Option.map_some, Option.any_some, parses, Option.some.injEq, exists_eq_left',
      Completes]
    rw [drive_append, driven, Option.bind_some]
    cases drive scriptGrammar awaited (inner ++ next) with
    | none => simp
    | some stack => simp

/-- What comes after the `try` block of the script. -/
def rescue : Phrases :=
  [rest (.handler true), rest (.block true), rest .tail, tok .closeParen, rest .tail, rest .ending,
    rest .program]

def scriptEndTokens : List Token := (scan .start (scriptEnd ++ ['\n'])).elim [] (·.2)

/-! ### The condition -/

/-- No part from the start closes more braces than it opens. -/
def Within (ts : List Token) : Prop :=
  ∀ before after, ts = before ++ after → 0 ≤ braces.changes before

/-- After the first brace that closes what the text did not open, a program begins: no further
brace of that kind follows, and no `return` outside functions. -/
def LeavesOnce (ts : List Token) : Prop :=
  ∀ inner t after, ts = inner ++ t :: after → Within inner →
    braces.changes (inner ++ [t]) = -1 → (drive scriptGrammar [rest .program] after).isSome = true

/-- Where the sandbox puts no function around the logic, the logic stays in its block; else it
leaves that function at most once. -/
def Contained (logic : Text) : Prop :=
  ∃ ts, tokens logic = some ts ∧
    if Worker.includes "function liop_main".toList logic then Within ts else LeavesOnce ts

theorem stray_unique {ts inner inner' after after' : List Token} {t t' : Token}
    (here : ts = inner ++ t :: after) (within : Within inner)
    (stray : braces.changes (inner ++ [t]) = -1) (there : ts = inner' ++ t' :: after')
    (within' : Within inner') (stray' : braces.changes (inner' ++ [t']) = -1) : after = after' := by
  have strict {a b c : List Token} {u : Token} (inside : Within b)
      (out : braces.changes (a ++ [u]) = -1) : b ≠ a ++ u :: c := by
    intro same
    have kept := inside (a ++ [u]) c (by rw [same, List.append_assoc, List.singleton_append])
    omega
  subst here
  rcases List.append_eq_append_iff.mp there with ⟨d, rfl, same⟩ | ⟨d, rfl, same⟩
  · cases d with
    | nil =>
      rw [List.nil_append, List.cons.injEq] at same
      exact same.2
    | cons u d =>
      rw [List.cons_append, List.cons.injEq] at same
      exact absurd (by rw [same.1]) (strict within' stray)
  · cases d with
    | nil =>
      rw [List.nil_append, List.cons.injEq] at same
      exact same.2.symm
    | cons u d =>
      rw [List.cons_append, List.cons.injEq] at same
      exact absurd (by rw [same.1]) (strict within stray')

/-! ### Completion -/

theorem completes_append {awaited : Phrases} {ts us : List Token} :
    Completes awaited (ts ++ us) ↔
      ∃ middle, drive scriptGrammar awaited ts = some middle ∧ Completes middle us := by
  simp only [Completes, drive_append, Option.bind_eq_some_iff]
  constructor
  · rintro ⟨stack, ⟨middle, first, last⟩, finished⟩
    exact ⟨middle, first, stack, last, finished⟩
  · rintro ⟨middle, first, stack, last, finished⟩
    exact ⟨stack, ⟨middle, first, last⟩, finished⟩

theorem Completes.balanced {awaited : Phrases} {ts : List Token}
    (completes : Completes awaited ts) : (braces.total awaited : Int) + braces.changes ts = 0 := by
  obtain ⟨stack, driven, finished⟩ := completes
  rw [← braces.total_drive driven, braces.total_finished finished]
  rfl

theorem Completes.feeds {awaited : Phrases} {t : Token} {ts : List Token}
    (completes : Completes awaited (t :: ts)) :
    ∃ next, feed scriptGrammar awaited t = some next ∧ Completes next ts := by
  obtain ⟨stack, driven, finished⟩ := completes
  obtain ⟨next, fed, driven⟩ := Option.bind_eq_some_iff.mp driven
  exact ⟨next, fed, stack, driven, finished⟩

def endTokens : List Token :=
  [⟨.ifWord, true⟩, ⟨.openParen, false⟩, ⟨.unary, false⟩, ⟨.name, false⟩, ⟨.binary, false⟩,
    ⟨.literal, false⟩, ⟨.closeParen, false⟩, ⟨.openBrace, false⟩, ⟨.returnWord, true⟩,
    ⟨.name, false⟩, ⟨.openParen, false⟩, ⟨.name, false⟩, ⟨.closeParen, false⟩,
    ⟨.semicolon, false⟩, ⟨.closeBrace, true⟩, ⟨.returnWord, true⟩, ⟨.literal, false⟩,
    ⟨.semicolon, false⟩, ⟨.closeBrace, true⟩, ⟨.catchWord, false⟩, ⟨.openParen, false⟩,
    ⟨.name, false⟩, ⟨.closeParen, false⟩, ⟨.openBrace, false⟩, ⟨.returnWord, true⟩,
    ⟨.literal, false⟩, ⟨.sign, false⟩, ⟨.name, false⟩, ⟨.dot, false⟩, ⟨.name, false⟩,
    ⟨.semicolon, false⟩, ⟨.closeBrace, true⟩, ⟨.closeBrace, true⟩, ⟨.closeParen, false⟩,
    ⟨.openParen, false⟩, ⟨.closeParen, false⟩, ⟨.semicolon, false⟩]

theorem scan_scriptEnd : scan .start (scriptEnd ++ ['\n']) = some (.start, endTokens) := by
  decide +kernel

theorem scriptEndTokens_literal : scriptEndTokens = endTokens := by
  rw [scriptEndTokens, scan_scriptEnd]
  rfl

theorem scriptEndTokens_eq : ∃ ts, scriptEndTokens = ifToken :: ts ∧
    braces.changes scriptEndTokens = -2 := by
  rw [scriptEndTokens_literal]
  exact ⟨endTokens.tail, rfl, rfl⟩

/-- The place of the logic in the analyzed texts. -/
abbrev analysed : Phrases := [body, rest .program]

/-- Nothing but the rest of the function awaits the brace. -/
theorem completes_close {above : Phrases} {t : Token} (which : t = closeToken ∨ t = ifToken)
    (skipped : ∀ y ∈ above, Skipped scriptGrammar t y) :
    Completes (above ++ [body] ++ [rest .program]) [closeToken] := by
  have checked : ∀ n t, (t = closeToken ∨ t = ifToken) → production n t = none →
      empties n (some t) = true → production n closeToken = none ∧
        empties n (some closeToken) = true := by decide +kernel
  have passed : ∀ y ∈ above, Skipped scriptGrammar closeToken y := by
    intro y member
    obtain ⟨n, rfl, unproduced, empty⟩ := skipped y member
    obtain ⟨unproduced, empty⟩ := checked n t which unproduced empty
    exact ⟨n, rfl, unproduced, empty⟩
  refine ⟨[rest .program], ?_, rfl⟩
  rw [List.append_assoc, drive, feed_skipped passed]
  rfl

/-- Tokens that keep the block open, followed by a token that ends it. -/
theorem completes_analysed {σ below next : Phrases} {ts : List Token} {t : Token}
    (driven : drive scriptGrammar [body] ts = some σ) (total : braces.total σ = 1)
    (which : t = closeToken ∨ t = ifToken) (fed : feed scriptGrammar (σ ++ below) t = some next) :
    Completes analysed (ts ++ [closeToken]) := by
  obtain ⟨above, rfl, skipped⟩ :=
    closing_last which (body_returning driven) (body_last driven) total fed
  rw [completes_append]
  exact ⟨_, drive_extend driven [rest .program], completes_close which skipped⟩

theorem within_of_driven {σ : Phrases} {ts : List Token}
    (driven : drive scriptGrammar [body] ts = some σ) (total : 1 ≤ braces.total σ) :
    Within ts := by
  intro before after split
  cases after with
  | nil =>
    rw [List.append_nil] at split
    subst split
    have change := braces.total_drive driven
    rw [show braces.total [body] = 1 from rfl] at change
    omega
  | cons t after =>
    subst split
    exact changes_nonneg driven

/-- The text closes the block with its own brace. -/
theorem overrun {below next : Phrases} {ts : List Token}
    (driven : drive scriptGrammar (body :: below) ts = some next)
    (stuck : drive scriptGrammar [body] ts = none) :
    ∃ inner u t after, ts = inner ++ u :: t :: after ∧
      drive scriptGrammar [body] (inner ++ [u]) = some [] ∧ Within inner ∧
      braces.changes (inner ++ [u]) = -1 ∧ drive scriptGrammar below (t :: after) = some next := by
  obtain ⟨before, t, after, middle, rfl, upTo, skipped, rest⟩ := drive_below driven stuck
  have last := body_last upTo
  have change := braces.total_drive upTo
  rw [braces.total_skipped skipped, show braces.total [body] = 1 from rfl] at change
  cases middle using List.reverseRecOn with
  | append_singleton middle x _ =>
    rw [List.getLast?_concat] at last
    obtain ⟨n, same, -, empty⟩ := skipped x (List.mem_append_right _ (List.mem_singleton_self x))
    rw [last x rfl] at same
    cases same
    cases empty
  | nil =>
    cases before using List.reverseRecOn with
    | nil => cases upTo
    | append_singleton inner u _ =>
      refine ⟨inner, u, t, after, ?_, upTo, ?_, ?_, rest⟩
      · rw [List.append_assoc, List.singleton_append]
      · intro p q split
        cases q with
        | nil =>
          rw [List.append_nil] at split
          exact changes_nonneg (split ▸ upTo)
        | cons v q =>
          rw [split, List.append_assoc, List.cons_append] at upTo
          exact changes_nonneg upTo
      · omega

/-! ### Both places -/

theorem within_iff {ts : List Token} (runs : Completes (body :: rescue) (ts ++ scriptEndTokens)) :
    Completes analysed (ts ++ [closeToken]) ↔ Within ts := by
  obtain ⟨endRest, next, balance⟩ := scriptEndTokens_eq
  obtain ⟨outer, driven, ends⟩ := completes_append.mp runs
  cases inside : drive scriptGrammar [body] ts with
  | some σ =>
    have same : outer = σ ++ rescue :=
      Option.some.inj (driven.symm.trans (drive_extend inside rescue))
    subst same
    have total := ends.balanced
    rw [Balance.total_append, balance, show braces.total rescue = 1 from rfl] at total
    rw [next] at ends
    obtain ⟨_, fed, -⟩ := ends.feeds
    have one : braces.total σ = 1 := by omega
    exact ⟨fun _ => within_of_driven inside one.ge,
      fun _ => completes_analysed inside one (.inr rfl) fed⟩
  | none =>
    -- the `try` block is closed, so a handler follows, which no program begins with
    obtain ⟨inner, u, t, after, rfl, upTo, -, stray, rest'⟩ := overrun driven inside
    constructor
    · intro completes
      rw [show inner ++ u :: t :: after = (inner ++ [u]) ++ t :: after by simp, List.append_assoc,
        completes_append] at completes
      obtain ⟨middle, reached, program⟩ := completes
      have closed : drive scriptGrammar analysed (inner ++ [u]) = some [rest .program] :=
        drive_extend upTo [rest .program]
      rw [closed] at reached
      cases reached
      obtain ⟨_, begun, -⟩ := program.feeds
      have handled : (feed scriptGrammar rescue t).isSome = true := by
        rw [drive] at rest'
        obtain ⟨_, fed, -⟩ := Option.bind_eq_some_iff.mp rest'
        rw [fed]
        rfl
      have checked : ∀ t, (feed scriptGrammar rescue t).isSome = true →
          feed scriptGrammar [rest .program] t = none := by decide +kernel
      rw [checked t handled] at begun
      cases begun
    · intro within
      have kept := within (inner ++ [u]) (t :: after) (by simp)
      omega

/-- The block around the logic is closed, and the next one too, where the script goes on. -/
theorem completes_program {ts : List Token} {ρ : Phrases}
    (program : drive scriptGrammar [rest .program] ts = some ρ) (total : braces.changes ts = 1)
    (runs : Completes (returning.stack ρ ++ rescue) (closeToken :: scriptEndTokens)) :
    Completes ρ [closeToken] := by
  obtain ⟨endRest, next, -⟩ := scriptEndTokens_eq
  have wide : drive scriptGrammar [body] ts = some (returning.stack ρ) := returning.drive program
  have two := braces.total_drive wide
  have one := braces.total_drive program
  rw [show braces.total [body] = 1 from rfl, total] at two
  rw [show braces.total [rest Phrase.program] = 0 from rfl, total] at one
  obtain ⟨_, fed, ends⟩ := runs.feeds
  rw [next] at ends
  obtain ⟨_, fed', -⟩ := ends.feeds
  cases inside : feed scriptGrammar (returning.stack ρ) closeToken with
  | none =>
    have zero := braces.total_skipped (feed_below fed inside).1
    omega
  | some σ =>
    cases Option.some.inj (fed.symm.trans (feed_extend inside rescue))
    have further : drive scriptGrammar [body] (ts ++ [closeToken]) = some σ := by
      rw [drive_append, wide, Option.bind_some, drive, inside]
      rfl
    have left := braces.total_feed inside
    rw [show braces.change closeToken = -1 from rfl] at left
    obtain ⟨inner, same, skipped'⟩ := closing_last (.inr rfl) (body_returning further)
      (body_last further) (by omega) fed'
    obtain ⟨above, x, after, split, skipped, taken⟩ := feed_some inside
    obtain ⟨aboveρ, tail, rfl, rfl, whole⟩ := List.map_eq_append_iff.mp split
    obtain ⟨y, afterρ, rfl, rfl, rfl⟩ := List.map_eq_cons_iff.mp whole
    have taken' : σ = afterρ.map (Item.map returning.widen) := by
      have closes : ∀ n, ∀ b ∈ production n closeToken, b = [] := by decide
      rcases taken with ⟨_, -, -, same⟩ | ⟨n, b, -, produced, same⟩
      · exact same
      · rw [same, closes n b produced, List.nil_append]
    obtain ⟨innerρ, lastρ, rfl, rfl, ends⟩ := List.map_eq_append_iff.mp (taken'.symm.trans same)
    obtain ⟨z, rfl, -⟩ := List.map_eq_singleton_iff.mp ends
    have passed : ∀ y ∈ aboveρ, Skipped scriptGrammar closeToken y := fun y member =>
      skipped_of_returning (skipped _ (List.mem_map_of_mem member))
    have passed' : ∀ y ∈ innerρ, Skipped scriptGrammar ifToken y := fun y member =>
      skipped_of_returning (skipped' _ (List.mem_map_of_mem member))
    have last : z = rest .program := by
      apply program_last program
      rw [← List.cons_append, ← List.append_assoc, List.getLast?_concat]
      rfl
    subst last
    rw [Balance.total_append, Balance.total_cons, Balance.total_append, braces.total_skipped passed,
      braces.total_skipped passed', show braces.total [rest Phrase.program] = 0 from rfl] at one
    obtain ⟨n, rfl, produced⟩ : ∃ n, y = rest n ∧ production n closeToken = some [] := by
      have heavy : ∀ n, braceWeight (rest n) = 1 → production n closeToken = some [] := by decide
      have weight : braceWeight y = 1 := by
        have := one
        rw [show braces.weight y = braceWeight y from rfl] at this
        omega
      cases y with
      | terminal a => cases weight
      | nonterminal n => exact ⟨n, rfl, heavy n weight⟩
    refine ⟨innerρ ++ [rest .program], ?_, ?_⟩
    · rw [drive, feed_skipped passed, feed, show scriptGrammar.production n closeToken = some []
        from produced]
      rfl
    · have stops : ∀ n, production n ifToken = none → empties n (some ifToken) = true →
          empties n none = true := by decide
      rw [List.all_append, Bool.and_eq_true, List.all_eq_true]
      refine ⟨?_, rfl⟩
      intro y member
      obtain ⟨n, rfl, unproduced, empty⟩ := passed' y member
      exact stops n unproduced empty

theorem leavesOnce_iff {ts : List Token}
    (runs : Completes (body :: body :: rescue) (ts ++ closeToken :: scriptEndTokens)) :
    Completes analysed (ts ++ [closeToken]) ↔ LeavesOnce ts := by
  obtain ⟨endRest, next, balance⟩ := scriptEndTokens_eq
  have change := runs.balanced
  rw [Balance.changes_append, Balance.changes_cons, balance,
    show braces.change closeToken = -1 from rfl,
    show braces.total (body :: body :: rescue) = 3 from rfl] at change
  obtain ⟨outer, driven, ends⟩ := completes_append.mp runs
  cases inside : drive scriptGrammar [body] ts with
  | some σ =>
    have same : outer = σ ++ (body :: rescue) :=
      Option.some.inj (driven.symm.trans (drive_extend inside (body :: rescue)))
    subst same
    have total := braces.total_drive inside
    rw [show braces.total [body] = 1 from rfl] at total
    have one : braces.total σ = 1 := by omega
    obtain ⟨_, fed, -⟩ := ends.feeds
    constructor
    · intro _ inner t after split _ stray
      have kept := within_of_driven inside one.ge (inner ++ [t]) after (by simp [split])
      omega
    · intro _
      exact completes_analysed inside one (.inl rfl) fed
  | none =>
    obtain ⟨inner, u, t, after, split, upTo, within, stray, rest'⟩ := overrun driven inside
    have closed : drive scriptGrammar analysed (inner ++ [u]) = some [rest .program] :=
      drive_extend upTo [rest .program]
    have parts : ts = (inner ++ [u]) ++ t :: after := by simp [split]
    have onward : Completes analysed (ts ++ [closeToken]) ↔
        Completes [rest .program] (t :: after ++ [closeToken]) := by
      rw [parts, List.append_assoc, completes_append, closed]
      simp
    rw [onward]
    constructor
    · intro completes inner' t' after' split' within' stray'
      obtain ⟨ρ, program, -⟩ := completes_append.mp completes
      rw [← stray_unique split within stray split' within' stray', program]
      rfl
    · intro once
      have begins := once inner u (t :: after) split within stray
      obtain ⟨ρ, program⟩ := Option.isSome_iff_exists.mp begins
      have wide : drive scriptGrammar [body] (t :: after) = some (returning.stack ρ) :=
        returning.drive program
      cases Option.some.inj (rest'.symm.trans (drive_extend wide rescue))
      rw [parts, Balance.changes_append] at change
      rw [completes_append]
      exact ⟨ρ, program, completes_program program (by omega) ends⟩

/-! ### The four places -/

/-- `function name(env) \x7b` -/
def functionTokens : List Token :=
  [⟨.functionWord, true⟩, ⟨.name, false⟩, ⟨.openParen, false⟩, ⟨.name, false⟩, ⟨.closeParen, false⟩,
    ⟨.openBrace, false⟩]

theorem functionText_iff {name : String} (logic : Text)
    (first : scan .start (functionStart name) = some (.start, functionTokens)) :
    parsesScript (functionText name logic) = true ↔
      ∃ ts, tokens logic = some ts ∧ Completes analysed (ts ++ [closeToken]) := by
  have place : Place (functionStart name) ['\x7d'] analysed [closeToken] :=
    ⟨⟨functionTokens, first, by decide⟩, ⟨true, rfl⟩, rfl⟩
  exact place.parses_iff logic

theorem functionStart_tokens : ∀ name ∈ ["liop_main", "liop_analysis_wrapper", "w"],
    scan .start (functionStart name) = some (.start, functionTokens) := by
  decide +kernel

theorem analysed_texts (logic : Text) : Analysed logic ↔
    ∃ ts, tokens logic = some ts ∧ Completes analysed (ts ++ [closeToken]) := by
  have first := functionText_iff logic (functionStart_tokens "liop_analysis_wrapper" (by simp))
  have second := functionText_iff logic (functionStart_tokens "w" (by simp))
  exact ⟨fun h => first.mp h.analyze, fun h => ⟨first.mpr h, second.mpr h⟩⟩

theorem script_start : ∃ ts, scan .start scriptStart = some (.start, ts) ∧
    drive scriptGrammar [rest .program] ts = some (body :: rescue) := by
  have checked : (scan .start scriptStart).any (fun r => r.1 = .start &&
      decide (drive scriptGrammar [rest .program] r.2 = some (body :: rescue))) = true := by
    decide +kernel
  cases scanned : scan .start scriptStart with
  | none =>
    rw [scanned] at checked
    cases checked
  | some r =>
    rw [scanned, Option.any_some, Bool.and_eq_true, decide_eq_true_eq, decide_eq_true_eq] at checked
    obtain ⟨state, ts⟩ := r
    obtain ⟨rfl, driven⟩ := checked
    exact ⟨ts, rfl, driven⟩

theorem script_end : scan .start (scriptEnd ++ ['\n']) = some (.start, scriptEndTokens) := by
  rw [scriptEndTokens_literal]
  exact scan_scriptEnd

theorem script_end_comment : scan ⟨.blockComment false, true⟩ (scriptEnd ++ ['\n']) =
    some (⟨.blockComment false, true⟩, []) := by decide +kernel

theorem script_place : Place scriptStart scriptEnd (body :: rescue) scriptEndTokens := by
  refine ⟨script_start, ⟨true, script_end⟩, ?_⟩
  rw [script_end_comment]
  rfl

/-- The place of the logic inside the function that the sandbox puts around it. -/
theorem wrapped_place : Place (scriptStart ++ functionStart "liop_main")
    ('\x7d' :: '\n' :: scriptEnd) (body :: body :: rescue) (closeToken :: scriptEndTokens) := by
  obtain ⟨ts, first, driven⟩ := script_start
  have split : '\x7d' :: '\n' :: scriptEnd ++ ['\n'] =
      ['\x7d', '\n'] ++ (scriptEnd ++ ['\n']) := rfl
  refine ⟨⟨ts ++ functionTokens, ?_, ?_⟩, ⟨true, ?_⟩, ?_⟩
  · have start := functionStart_tokens "liop_main" (by simp)
    rw [scan_append, first, Option.bind_some, start]
    rfl
  · rw [drive_append, driven]
    rfl
  · have brace : scan .start ['\x7d', '\n'] = some (.start, [closeToken]) := rfl
    rw [split, scan_append, brace, Option.bind_some, script_end, Option.map_some,
      List.singleton_append]
    dsimp only [LexState.start]
  · have brace : scan ⟨.blockComment false, true⟩ ['\x7d', '\n'] =
        some (⟨.blockComment false, true⟩, []) := rfl
    rw [split, scan_append, brace, Option.bind_some, script_end_comment, Option.map_some,
      Option.all_some]
    rfl

theorem runs_wrapped {logic : Text}
    (entry : ¬ Worker.includes "function liop_main".toList logic) : Runs logic ↔
      ∃ ts, tokens logic = some ts ∧
        Completes (body :: body :: rescue) (ts ++ closeToken :: scriptEndTokens) := by
  have whole : scriptStart ++ (functionText "liop_main" logic ++ '\n' :: scriptEnd) =
      (scriptStart ++ functionStart "liop_main") ++
        (logic ++ '\n' :: '\x7d' :: '\n' :: scriptEnd) := by
    rw [functionText, show "\n\x7d".toList = ['\n', '\x7d'] from rfl]
    simp
  rw [Runs, scriptCode, processedLogic, if_neg entry, whole]
  exact wrapped_place.parses_iff logic

/-- Exactly the logic that stays in its place runs and is analyzed. -/
theorem analysed_iff_contained {logic : Text} (runs : Runs logic) :
    Analysed logic ↔ Contained logic := by
  rw [analysed_texts, Contained]
  by_cases entry : Worker.includes "function liop_main".toList logic
  · rw [Runs, scriptCode, processedLogic, if_pos entry] at runs
    obtain ⟨ts, found, completes⟩ := (script_place.parses_iff logic).mp runs
    simp only [entry, found, Option.some.injEq, exists_eq_left', if_true]
    exact within_iff completes
  · obtain ⟨ts, found, completes⟩ := (runs_wrapped entry).mp runs
    simp only [entry, found, Option.some.injEq, exists_eq_left']
    exact leavesOnce_iff completes

theorem runs_analysed_iff (logic : Text) :
    (Runs logic → Analysed logic) ↔ (Runs logic → Contained logic) := by
  constructor
  · intro analysed runs
    exact (analysed_iff_contained runs).mp (analysed runs)
  · intro contained runs
    exact (analysed_iff_contained runs).mpr (contained runs)

theorem completes_iff {awaited : Phrases} {ts : List Token} : Completes awaited ts ↔
    (drive scriptGrammar awaited ts).any (·.all (finishes scriptGrammar)) = true := by
  rw [Completes]
  cases drive scriptGrammar awaited ts <;> simp

def outsideTokens : List Token :=
  [⟨.closeBrace, true⟩, ⟨.returnWord, false⟩, ⟨.name, false⟩, ⟨.dot, false⟩, ⟨.name, false⟩,
    ⟨.dot, false⟩, ⟨.name, false⟩, ⟨.openParen, false⟩, ⟨.name, false⟩, ⟨.closeParen, false⟩,
    ⟨.dot, false⟩, ⟨.name, false⟩, ⟨.semicolon, false⟩, ⟨.functionWord, false⟩, ⟨.name, false⟩,
    ⟨.openParen, false⟩, ⟨.closeParen, false⟩, ⟨.openBrace, false⟩]

/-- The logic closes the function around it, returns, and opens another one. -/
theorem outside_return_unanalysed :
    let logic := "\x7d return env.records.find(Boolean).ssn; function x() \x7b".toList
    Runs logic ∧ ¬ Analysed logic := by
  intro logic
  have found : tokens logic = some outsideTokens := by decide +kernel
  constructor
  · apply (runs_wrapped (by decide)).mpr
    refine ⟨outsideTokens, found, ?_⟩
    rw [completes_iff, scriptEndTokens_literal]
    decide
  · intro analysed
    obtain ⟨ts, same, completes⟩ := (analysed_texts logic).mp analysed
    cases Option.some.inj (found.symm.trans same)
    rw [completes_iff] at completes
    revert completes
    decide

end NeuralMesh.Security
