import NeuralMesh.Js.Lexer
import NeuralMesh.Parsing.Predictive

/-! Scripts of functions, blocks, `try`, `if`, `return` and expression statements.
Assignments, declarations of variables and the early errors about names are left out. -/
namespace NeuralMesh.Js

open Parsing

/-- A token that a phrase ends with or has inside. -/
inductive Mark where
  | name | openParen | closeParen | closeBracket | colon
  deriving DecidableEq

open Mark in
instance : Fintype Mark :=
  .ofList [name, openParen, closeParen, closeBracket, colon] (by intro mark; cases mark <;> decide)

def Mark.kind : Mark → Lexeme
  | .name => .name
  | .openParen => .openParen
  | .closeParen => .closeParen
  | .closeBracket => .closeBracket
  | .colon => .colon

/-- What is still to come. `returns` tells whether a function is around it. -/
inductive Phrase where
  | program
  /-- Statements and the closing brace. -/
  | block (returns : Bool)
  | braced (returns : Bool)
  | handler (returns : Bool)
  | finalizer (returns : Bool)
  | parameter
  | alternative (returns : Bool)
  /-- A semicolon, which may be left to its automatic insertion. -/
  | ending
  | value
  | expression
  | tail
  | arguments | moreArguments
  | elements | moreElements
  | members | moreMembers
  | functionName
  | parameters | moreParameters
  deriving DecidableEq, Fintype

abbrev Phrases := Stack Mark Phrase

abbrev tok (mark : Mark) : Item Mark Phrase := .terminal mark

abbrev rest (phrase : Phrase) : Item Mark Phrase := .nonterminal phrase

/-- After the first token of an expression. -/
def operand (t : Token) : Option Phrases :=
  match t.kind with
  | .name | .literal => some [rest .tail]
  | .unary | .sign => some [rest .expression]
  | .openParen => some [rest .expression, tok .closeParen, rest .tail]
  | .openBracket => some [rest .elements, rest .tail]
  | .openBrace => some [rest .members, rest .tail]
  | .functionWord =>
    some [rest .functionName, tok .openParen, rest .parameters, rest (.braced true), rest .tail]
  | _ => none

/-- After the first token of a statement. -/
def statement (returns : Bool) (t : Token) : Option Phrases :=
  match t.kind with
  | .openBrace => some [rest (.block returns)]
  | .functionWord => some [tok .name, tok .openParen, rest .parameters, rest (.braced true)]
  | .tryWord => some [rest (.braced returns), rest (.handler returns)]
  | .ifWord =>
    some [tok .openParen, rest .expression, tok .closeParen, rest (.braced returns),
      rest (.alternative returns)]
  | .returnWord => if returns then some [rest .value, rest .ending] else none
  | .semicolon => some []
  | _ => (operand t).map (· ++ [rest .ending])

def production (phrase : Phrase) (t : Token) : Option Phrases :=
  match phrase, t.kind with
  | .program, _ => (statement false t).map (· ++ [rest .program])
  | .block _, .closeBrace => some []
  | .block returns, _ => (statement returns t).map (· ++ [rest (.block returns)])
  | .braced returns, .openBrace => some [rest (.block returns)]
  | .handler returns, .catchWord =>
    some [rest .parameter, rest (.braced returns), rest (.finalizer returns)]
  | .handler returns, .finallyWord => some [rest (.braced returns)]
  | .finalizer returns, .finallyWord => some [rest (.braced returns)]
  | .parameter, .openParen => some [tok .name, tok .closeParen]
  | .alternative returns, .elseWord => some [rest (.braced returns)]
  | .ending, .semicolon => some []
  | .value, _ => if t.afterLine then none else operand t
  | .expression, _ => operand t
  | .tail, .dot => some [tok .name, rest .tail]
  | .tail, .openParen => some [rest .arguments, rest .tail]
  | .tail, .openBracket => some [rest .expression, tok .closeBracket, rest .tail]
  | .tail, .sign | .tail, .binary => some [rest .expression]
  | .arguments, .closeParen => some []
  | .arguments, _ => (operand t).map (· ++ [rest .moreArguments])
  | .moreArguments, .closeParen => some []
  | .moreArguments, .comma => some [rest .arguments]
  | .elements, .closeBracket => some []
  | .elements, _ => (operand t).map (· ++ [rest .moreElements])
  | .moreElements, .closeBracket => some []
  | .moreElements, .comma => some [rest .elements]
  | .members, .closeBrace => some []
  | .members, .name | .members, .literal =>
    some [tok .colon, rest .expression, rest .moreMembers]
  | .moreMembers, .closeBrace => some []
  | .moreMembers, .comma => some [rest .members]
  | .functionName, .name => some []
  | .parameters, .closeParen => some []
  | .parameters, .name => some [rest .moreParameters]
  | .moreParameters, .closeParen => some []
  | .moreParameters, .comma => some [rest .parameters]
  | _, _ => none

/-- A semicolon is inserted before a brace, after a line break and at the end. -/
def empties (phrase : Phrase) (next : Option Token) : Bool :=
  match phrase with
  | .program => next.isNone
  | .finalizer _ | .alternative _ | .tail | .functionName | .parameter => true
  | .ending => next.all fun t => t.afterLine || t.kind = .closeBrace
  | .value => next.all fun t => t.afterLine || t.kind = .closeBrace || t.kind = .semicolon
  | _ => false

def scriptGrammar : Grammar Token Mark Phrase where
  accepts mark t := t.kind = mark.kind
  production := production
  empties := empties

def parsesScript (text : Text) : Bool := (tokens text).any (parses scriptGrammar .program)

/-! ### Braces -/

def braceChange (t : Token) : Int :=
  if t.kind = .openBrace then 1 else if t.kind = .closeBrace then -1 else 0

def braceWeight : Item Mark Phrase → Nat
  | .nonterminal (.block _) | .nonterminal .members | .nonterminal .moreMembers => 1
  | _ => 0

/-- A symbol still to come weighs the closing brace that it ends with. -/
def braces : Balance scriptGrammar where
  weight := braceWeight
  change := braceChange
  accepted := by decide +kernel
  produced := by
    have checked : ∀ n t, ∀ body ∈ production n t,
        ((body.map braceWeight).sum : Int) = braceWeight (rest n) + braceChange t := by
      decide +kernel
    exact checked
  empty := by decide +kernel

/-- The phrase with a function around it; a program becomes the rest of a block. -/
def Phrase.returning : Phrase → Phrase
  | .program | .block _ => .block true
  | .braced _ => .braced true
  | .handler _ => .handler true
  | .finalizer _ => .finalizer true
  | .alternative _ => .alternative true
  | phrase => phrase

def returning : Widening scriptGrammar where
  widen := Phrase.returning
  produced := by
    have checked : ∀ n t, ∀ body ∈ production n t,
        production n.returning t = some (body.map (Item.map Phrase.returning)) := by
      decide +kernel
    exact checked
  skipped := by decide +kernel

theorem skipped_of_returning {x : Item Mark Phrase} {t : Token}
    (skipped : Skipped scriptGrammar t (x.map Phrase.returning)) : Skipped scriptGrammar t x := by
  have checked : ∀ n t, production n.returning t = none → empties n.returning (some t) = true →
      production n t = none ∧ empties n (some t) = true := by decide +kernel
  obtain ⟨n, same, unproduced, empty⟩ := skipped
  cases x with
  | terminal a => cases same
  | nonterminal m =>
    cases same
    obtain ⟨unproduced, empty⟩ := checked m t unproduced empty
    exact ⟨m, rfl, unproduced, empty⟩

/-! ### The rest of a block -/

/-- The rest of a function body. -/
abbrev body : Item Mark Phrase := rest (.block true)

def closeToken : Token := ⟨.closeBrace, true⟩

def ifToken : Token := ⟨.ifWord, true⟩

variable {ts : List Token} {σ next : Phrases}

theorem body_last (driven : drive scriptGrammar [body] ts = some σ) :
    ∀ x ∈ σ.getLast?, x = body := by
  have checked : ∀ n t, rest n = body → ∀ b ∈ production n t, ∀ x ∈ b.getLast?, x = body := by
    decide +kernel
  apply drive_last (fun n t b here produced => checked n t here b produced) driven
  intro x member
  exact (Option.some.inj member).symm

theorem program_last (driven : drive scriptGrammar [rest .program] ts = some σ) :
    ∀ x ∈ σ.getLast?, x = rest .program := by
  have checked : ∀ n t, rest n = rest .program → ∀ b ∈ production n t, ∀ x ∈ b.getLast?,
      x = rest .program := by decide +kernel
  apply drive_last (fun n t b here produced => checked n t here b produced) driven
  intro x member
  exact (Option.some.inj member).symm

/-- No program begins inside a function. -/
theorem body_returning (driven : drive scriptGrammar [body] ts = some σ) :
    returning.stack σ = σ := by
  have wide := returning.drive driven
  rw [show returning.stack [body] = [body] from rfl, driven] at wide
  exact (Option.some.inj wide).symm

/-- As long as the block goes on, no more braces are closed than opened. -/
theorem changes_nonneg {us : List Token} {u : Token}
    (driven : drive scriptGrammar [body] (ts ++ u :: us) = some σ) : 0 ≤ braces.changes ts := by
  rw [drive_append] at driven
  obtain ⟨middle, driven, after⟩ := Option.bind_eq_some_iff.mp driven
  have total := braces.total_drive driven
  have one : braces.total [body] = 1 := rfl
  have last := body_last driven
  cases middle using List.reverseRecOn with
  | nil => cases after
  | append_singleton middle x _ =>
    rw [List.getLast?_concat] at last
    rw [last x rfl, Balance.total_append, one] at total
    omega

/-- Both tokens are taken by the rest of a block only, or of an object. -/
theorem closing_weight {x : Item Mark Phrase} {t : Token} (which : t = closeToken ∨ t = ifToken)
    (taken : (∃ a, x.map Phrase.returning = .terminal a ∧ scriptGrammar.accepts a t = true) ∨
      ∃ n b, x.map Phrase.returning = .nonterminal n ∧ scriptGrammar.production n t = some b) :
    braces.weight (x.map Phrase.returning) = 1 := by
  have refused : ∀ a, scriptGrammar.accepts a closeToken = false ∧
      scriptGrammar.accepts a ifToken = false := by decide
  have checked : ∀ (n : Phrase) (t : Token), (t = closeToken ∨ t = ifToken) →
      (production n.returning t).isSome = true → braceWeight (rest n.returning) = 1 := by decide +kernel
  rcases taken with ⟨a, -, accepted⟩ | ⟨n, b, same, produced⟩
  · rcases which with rfl | rfl
    · cases (refused a).1.symm.trans accepted
    · cases (refused a).2.symm.trans accepted
  · cases x with
    | terminal a => cases same
    | nonterminal m =>
      cases same
      apply checked m t which
      rw [show production m.returning t = some b from produced]
      rfl

/-- The token goes to the rest of the block: all above it is passed over. -/
theorem closing_last {below : Phrases} {t : Token} (which : t = closeToken ∨ t = ifToken)
    (wide : returning.stack σ = σ) (last : ∀ x ∈ σ.getLast?, x = body) (total : braces.total σ = 1)
    (fed : feed scriptGrammar (σ ++ below) t = some next) :
    ∃ above, σ = above ++ [body] ∧ ∀ y ∈ above, Skipped scriptGrammar t y := by
  cases inside : feed scriptGrammar σ t with
  | none =>
    have zero := braces.total_skipped (feed_below fed inside).1
    omega
  | some middle =>
    obtain ⟨above, x, after, rfl, skipped, taken⟩ := feed_some inside
    obtain ⟨y, -, rfl⟩ : ∃ y ∈ above ++ x :: after, y.map Phrase.returning = x := by
      have member : x ∈ returning.stack (above ++ x :: after) := by
        rw [wide]
        simp
      exact List.mem_map.mp member
    have weight : braces.weight (y.map Phrase.returning) = 1 := by
      apply closing_weight which
      rcases taken with ⟨a, same, accepted, -⟩ | ⟨n, b, same, produced, -⟩
      · exact .inl ⟨a, same, accepted⟩
      · exact .inr ⟨n, b, same, produced⟩
    rw [Balance.total_append, Balance.total_cons, braces.total_skipped skipped, weight] at total
    cases after using List.reverseRecOn with
    | nil =>
      rw [List.getLast?_concat] at last
      exact ⟨above, by rw [last _ rfl], skipped⟩
    | append_singleton after z _ =>
      rw [← List.cons_append, ← List.append_assoc, List.getLast?_concat] at last
      rw [last z rfl, Balance.total_append, show braces.total [body] = 1 from rfl] at total
      omega

end NeuralMesh.Js
