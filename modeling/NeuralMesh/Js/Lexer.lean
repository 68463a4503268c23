import NeuralMesh.Js.Trim
import Mathlib.Data.Fintype.Option
import Mathlib.Data.Fintype.OfMap
import Mathlib.Data.Fintype.Sigma
import Mathlib.Data.Fintype.Sum
import Mathlib.Tactic.DeriveFintype

/-! Tokens of script text. Templates, regular expressions, escapes by number, names
beyond ASCII and numbers that are not decimal are left out: such a text has no tokens. -/
namespace NeuralMesh.Js

inductive Lexeme where
  | openBrace | closeBrace | openParen | closeParen | openBracket | closeBracket
  | semicolon | comma | colon | dot
  | functionWord | tryWord | catchWord | finallyWord | returnWord | ifWord | elseWord
  | name | literal | unary | sign | binary
  /-- Words and operators of the language that the grammar here does not have. -/
  | reserved
  deriving DecidableEq

open Lexeme in
instance : Fintype Lexeme :=
  .ofList [openBrace, closeBrace, openParen, closeParen, openBracket, closeBracket, semicolon,
    comma, colon, dot, functionWord, tryWord, catchWord, finallyWord, returnWord, ifWord, elseWord,
    name, literal, unary, sign, binary, reserved] (by intro kind; cases kind <;> decide)

structure Token where
  kind : Lexeme
  /-- A line break comes before the token. -/
  afterLine : Bool
  deriving DecidableEq, Fintype

/-! ### Spellings -/

def isLine (c : Char) : Bool := c == '\n' || c == '\r' || c.toNat == 0x2028 || c.toNat == 0x2029

def isNamePart (c : Char) : Bool := c.isAlpha || c.isDigit || c == '$' || c == '_'

def words : List (String × Lexeme) :=
  [("function", .functionWord), ("try", .tryWord), ("catch", .catchWord),
    ("finally", .finallyWord), ("return", .returnWord), ("if", .ifWord), ("else", .elseWord),
    ("typeof", .unary), ("void", .unary), ("this", .literal), ("null", .literal),
    ("true", .literal), ("false", .literal)] ++
  ["await", "break", "case", "class", "const", "continue", "debugger", "default", "delete", "do",
    "enum", "export", "extends", "for", "import", "in", "instanceof", "new", "super", "switch",
    "throw", "var", "while", "with", "yield", "let", "static", "implements", "interface",
    "package", "private", "protected", "public", "eval", "arguments"].map (·, .reserved)

def operators : List (String × Lexeme) :=
  ["!", "~"].map (·, .unary) ++ ["+", "-"].map (·, .sign) ++
  ["*", "%", "==", "===", "!=", "!==", "<", "<=", "<<", ">", ">=", ">>", ">>>", "&", "&&", "|",
    "||", "^"].map (·, .binary) ++
  ["=", "=>", "++", "+=", "--", "-=", "*=", "**", "**=", "%=", "<<=", ">>=", ">>>=", "&=", "&&=",
    "|=", "||=", "^=", "?", "?.", "??", "??="].map (·, .reserved)

def lexeme (table : List (String × Lexeme)) (letters : Text) : Option Lexeme :=
  (table.find? fun entry => entry.1.toList = letters).map (·.2)

def punctuator (c : Char) : Option Lexeme :=
  match c with
  | '\x7b' => some .openBrace
  | '\x7d' => some .closeBrace
  | '(' => some .openParen
  | ')' => some .closeParen
  | '[' => some .openBracket
  | ']' => some .closeBracket
  | ';' => some .semicolon
  | ',' => some .comma
  | ':' => some .colon
  | '.' => some .dot
  | _ => none

/-- Digits with at most one point, and no zero in front of another digit. -/
def isDecimal (letters : Text) : Bool :=
  letters.all (fun c => c.isDigit || c == '.') && letters.count '.' ≤ 1 &&
    !(letters.head? == some '0' && (letters.drop 1).head?.any Char.isDigit)

def startsNumber (letters : Text) : Bool := letters.head?.any Char.isDigit

/-- A point continues a number; `1.x` is no token. -/
def continuesWord (letters : Text) (c : Char) : Bool :=
  isNamePart c || (startsNumber letters && c == '.')

def wordKind (letters : Text) : Option Lexeme :=
  if startsNumber letters then if isDecimal letters then some .literal else none
  else some ((lexeme words letters).getD .name)

/-! ### The scan -/

inductive Mode where
  | blank
  | word (letters : Text)
  | quoted (quote : Char) (escaped : Bool)
  | slash
  | lineComment
  | blockComment (star : Bool)
  | operator (letters : Text)
  deriving DecidableEq

structure LexState where
  mode : Mode
  line : Bool
  deriving DecidableEq

def LexState.start : LexState := ⟨.blank, true⟩

/-- A character where no token has begun. -/
def beginToken (line : Bool) (c : Char) : Option (LexState × List Token) :=
  if isLine c then some (⟨.blank, true⟩, [])
  else if isSpace c then some (⟨.blank, line⟩, [])
  else if isNamePart c then some (⟨.word [c], line⟩, [])
  else if c == '"' || c == '\x27' then some (⟨.quoted c false, line⟩, [])
  else if c == '/' then some (⟨.slash, line⟩, [])
  else
    match punctuator c with
    | some kind => some (⟨.blank, false⟩, [⟨kind, line⟩])
    | none =>
      if (lexeme operators [c]).isSome then some (⟨.operator [c], line⟩, []) else none

/-- The character after a token that ends before it. -/
def endToken (kind : Option Lexeme) (line : Bool) (c : Char) : Option (LexState × List Token) :=
  kind.bind fun kind => (beginToken false c).map fun next => (next.1, ⟨kind, line⟩ :: next.2)

def feedChar (s : LexState) (c : Char) : Option (LexState × List Token) :=
  match s.mode with
  | .blank => beginToken s.line c
  | .word letters =>
    if continuesWord letters c then some (⟨.word (letters ++ [c]), s.line⟩, [])
    else endToken (wordKind letters) s.line c
  | .quoted quote escaped =>
    if isLine c then none
    else if escaped then
      if c == 'u' || c == 'x' || c.isDigit then none else some (⟨.quoted quote false, s.line⟩, [])
    else if c == '\\' then some (⟨.quoted quote true, s.line⟩, [])
    else if c == quote then some (⟨.blank, false⟩, [⟨.literal, s.line⟩])
    else some (s, [])
  | .slash =>
    if c == '/' then some (⟨.lineComment, s.line⟩, [])
    else if c == '*' then some (⟨.blockComment false, s.line⟩, [])
    else if c == '=' then some (⟨.blank, false⟩, [⟨.reserved, s.line⟩])
    else endToken (some .binary) s.line c
  | .lineComment => if isLine c then some (⟨.blank, true⟩, []) else some (s, [])
  | .blockComment star =>
    if star && c == '/' then some (⟨.blank, s.line⟩, [])
    else some (⟨.blockComment (c == '*'), s.line || isLine c⟩, [])
  | .operator letters =>
    if (lexeme operators (letters ++ [c])).isSome then
      some (⟨.operator (letters ++ [c]), s.line⟩, [])
    else endToken (lexeme operators letters) s.line c

def scan : LexState → Text → Option (LexState × List Token)
  | s, [] => some (s, [])
  | s, c :: cs => (feedChar s c).bind fun next =>
      (scan next.1 cs).map fun last => (last.1, next.2 ++ last.2)

/-- The tokens of a text; a line break ends the last one. -/
def tokens (text : Text) : Option (List Token) :=
  (scan .start (text ++ ['\n'])).bind fun last => if last.1.mode = .blank then some last.2 else none

theorem scan_append (s : LexState) (a b : Text) : scan s (a ++ b) =
    (scan s a).bind fun next => (scan next.1 b).map fun last => (last.1, next.2 ++ last.2) := by
  induction a generalizing s with
  | nil => simp [scan]
  | cons c a ih =>
    rw [List.cons_append, scan, scan]
    cases feedChar s c with
    | none => rfl
    | some next =>
      rw [Option.bind_some, Option.bind_some, ih]
      cases scan next.1 a with
      | none => rfl
      | some middle =>
        rw [Option.bind_some, Option.map_map, Option.map_some, Option.bind_some]
        simp [Function.comp_def, List.append_assoc]

/-! ### Lines -/

theorem lexeme_line (letters : Text) : lexeme operators (letters ++ ['\n']) = none := by
  have unspelled : ∀ entry ∈ operators, '\n' ∉ entry.1.toList := by decide
  rw [lexeme, Option.map_eq_none_iff, List.find?_eq_none]
  intro entry member same
  apply unspelled entry member
  rw [of_decide_eq_true same]
  exact List.mem_append_right _ (List.mem_singleton_self _)

/-- Only a comment goes on over a line break. -/
theorem feedChar_line {s next : LexState} {ts : List Token}
    (fed : feedChar s '\n' = some (next, ts)) :
    next = .start ∨ next = ⟨.blockComment false, true⟩ := by
  have begun (line : Bool) : beginToken line '\n' = some (.start, []) := rfl
  have ended (kind : Option Lexeme) (done : endToken kind s.line '\n' = some (next, ts)) :
      next = .start := by
    obtain ⟨kind, -, rest⟩ := Option.bind_eq_some_iff.mp done
    rw [begun, Option.map_some] at rest
    cases rest
    rfl
  obtain ⟨mode, line⟩ := s
  cases mode with
  | blank =>
    cases fed
    exact .inl rfl
  | word letters =>
    have stops : continuesWord letters '\n' = false := by
      rw [continuesWord]
      simp [isNamePart]
    dsimp only [feedChar] at fed
    rw [stops] at fed
    exact .inl (ended _ fed)
  | quoted quote escaped => cases fed
  | slash => exact .inl (ended (some .binary) fed)
  | lineComment =>
    cases fed
    exact .inl rfl
  | blockComment star =>
    have unended : (star && '\n' == '/') = false := Bool.and_false star
    dsimp only [feedChar] at fed
    rw [unended] at fed
    cases fed
    right
    rw [show isLine '\n' = true from rfl, Bool.or_true]
    rfl
  | operator letters =>
    dsimp only [feedChar] at fed
    rw [lexeme_line] at fed
    exact .inl (ended _ fed)

theorem scan_line {s next : LexState} {text : Text} {ts : List Token}
    (scanned : scan s (text ++ ['\n']) = some (next, ts)) :
    next = .start ∨ next = ⟨.blockComment false, true⟩ := by
  rw [scan_append] at scanned
  obtain ⟨middle, -, scanned⟩ := Option.bind_eq_some_iff.mp scanned
  obtain ⟨last, rest, same⟩ := Option.map_eq_some_iff.mp scanned
  rw [scan] at rest
  obtain ⟨after, fed, done⟩ := Option.bind_eq_some_iff.mp rest
  cases done
  cases same
  exact feedChar_line fed

/-- What the text between the fixed lines before it and after it adds. -/
theorem tokens_between {before after text : Text} {ts us : List Token} {line : Bool}
    {comment : Option (LexState × List Token)}
    (first : scan .start before = some (.start, ts))
    (last : scan .start (after ++ ['\n']) = some (⟨.blank, line⟩, us))
    (inside : scan ⟨.blockComment false, true⟩ (after ++ ['\n']) = comment)
    (unended : comment.all fun c => c.1.mode ≠ .blank) :
    tokens (before ++ (text ++ '\n' :: after)) =
      (tokens text).map fun inner => ts ++ (inner ++ us) := by
  have split : before ++ (text ++ '\n' :: after) ++ ['\n'] =
      before ++ ((text ++ ['\n']) ++ (after ++ ['\n'])) := by simp
  rw [tokens, tokens, split, scan_append, first, Option.bind_some, scan_append]
  cases scanned : scan .start (text ++ ['\n']) with
  | none => rfl
  | some middle =>
    obtain ⟨state, inner⟩ := middle
    rcases scan_line scanned with rfl | rfl
    · rw [Option.bind_some, last]
      simp [LexState.start]
    · cases comment with
      | none => simp [inside]
      | some c => simpa [inside] using unended

end NeuralMesh.Js
