import Mathlib.Algebra.BigOperators.Group.List.Basic
import Mathlib.Algebra.Ring.Int.Defs
import Mathlib.Algebra.Ring.Nat
import Mathlib.Data.List.Basic

/-! Predictive grammars. The next token chooses the production of a nonterminal, so a
parser keeps a stack of the symbols that are still to come. -/
namespace NeuralMesh.Parsing

inductive Item (Terminal Nonterminal : Type) where
  | terminal (kind : Terminal)
  | nonterminal (kind : Nonterminal)
  deriving DecidableEq

structure Grammar (Token Terminal Nonterminal : Type) where
  accepts : Terminal → Token → Bool
  /-- What is to come after the token, if the nonterminal starts with it. -/
  production : Nonterminal → Token → Option (List (Item Terminal Nonterminal))
  /-- The nonterminal may be empty before the token, or at the end. -/
  empties : Nonterminal → Option Token → Bool

variable {Token Terminal Nonterminal : Type} (g : Grammar Token Terminal Nonterminal)

abbrev Stack (Terminal Nonterminal : Type) := List (Item Terminal Nonterminal)

def feed : Stack Terminal Nonterminal → Token → Option (Stack Terminal Nonterminal)
  | [], _ => none
  | .terminal a :: stack, t => if g.accepts a t then some stack else none
  | .nonterminal n :: stack, t =>
    match g.production n t with
    | some body => some (body ++ stack)
    | none => if g.empties n (some t) then feed stack t else none

def drive (stack : Stack Terminal Nonterminal) : List Token → Option (Stack Terminal Nonterminal)
  | [] => some stack
  | t :: ts => (feed g stack t).bind fun next => drive next ts

/-- The symbol may be empty at the end of the text. -/
def finishes : Item Terminal Nonterminal → Bool
  | .terminal _ => false
  | .nonterminal n => g.empties n none

def parses (start : Nonterminal) (ts : List Token) : Bool :=
  (drive g [.nonterminal start] ts).any fun stack => stack.all (finishes g)

variable {g}

theorem drive_append (stack : Stack Terminal Nonterminal) (ts us : List Token) :
    drive g stack (ts ++ us) = (drive g stack ts).bind fun next => drive g next us := by
  induction ts generalizing stack with
  | nil => rfl
  | cons t ts ih =>
    rw [List.cons_append, drive, drive]
    cases feed g stack t with
    | none => rfl
    | some next => exact ih next

/-! ### Longer stacks -/

/-- The symbol is passed over before the token. -/
def Skipped (g : Grammar Token Terminal Nonterminal) (t : Token) (x : Item Terminal Nonterminal) :
    Prop :=
  ∃ n, x = .nonterminal n ∧ g.production n t = none ∧ g.empties n (some t) = true

theorem feed_extend {stack next : Stack Terminal Nonterminal} {t : Token}
    (fed : feed g stack t = some next) (below : Stack Terminal Nonterminal) :
    feed g (stack ++ below) t = some (next ++ below) := by
  induction stack with
  | nil => cases fed
  | cons x stack ih =>
    cases x with
    | terminal a =>
      rw [feed] at fed
      split_ifs at fed with accepted
      cases fed
      rw [List.cons_append, feed, if_pos accepted]
    | nonterminal n =>
      rw [feed] at fed
      rw [List.cons_append, feed]
      cases found : g.production n t with
      | some body =>
        rw [found] at fed
        cases fed
        rw [List.append_assoc]
      | none =>
        rw [found] at fed
        dsimp only at fed ⊢
        split_ifs at fed ⊢ with empty
        exact ih fed

theorem feed_skipped {stack : Stack Terminal Nonterminal} {t : Token}
    (skipped : ∀ x ∈ stack, Skipped g t x) (below : Stack Terminal Nonterminal) :
    feed g (stack ++ below) t = feed g below t := by
  induction stack with
  | nil => rfl
  | cons x stack ih =>
    obtain ⟨⟨n, rfl, unproduced, empty⟩, rest⟩ := List.forall_mem_cons.mp skipped
    rw [List.cons_append, feed, unproduced]
    dsimp only
    rw [if_pos empty, ih rest]

/-- A token goes to the first symbol that is not passed over. -/
theorem feed_some {stack next : Stack Terminal Nonterminal} {t : Token}
    (fed : feed g stack t = some next) : ∃ before x after, stack = before ++ x :: after ∧
      (∀ y ∈ before, Skipped g t y) ∧
      ((∃ a, x = .terminal a ∧ g.accepts a t = true ∧ next = after) ∨
        ∃ n body, x = .nonterminal n ∧ g.production n t = some body ∧ next = body ++ after) := by
  induction stack with
  | nil => cases fed
  | cons x stack ih =>
    have first : ∀ y ∈ ([] : Stack Terminal Nonterminal), Skipped g t y :=
      fun y member => absurd member List.not_mem_nil
    rw [feed.eq_def] at fed
    cases x with
    | terminal a =>
      dsimp only at fed
      split_ifs at fed with accepted
      cases fed
      exact ⟨[], .terminal a, next, rfl, first, .inl ⟨a, rfl, accepted, rfl⟩⟩
    | nonterminal n =>
      dsimp only at fed
      cases found : g.production n t with
      | some body =>
        rw [found] at fed
        cases fed
        exact ⟨[], .nonterminal n, stack, rfl, first, .inr ⟨n, body, rfl, found, rfl⟩⟩
      | none =>
        rw [found] at fed
        dsimp only at fed
        split_ifs at fed with empty
        obtain ⟨before, x, after, rfl, skipped, taken⟩ := ih fed
        refine ⟨.nonterminal n :: before, x, after, rfl, ?_, taken⟩
        exact List.forall_mem_cons.mpr ⟨⟨n, rfl, found, empty⟩, skipped⟩

/-- A token that a longer stack takes is taken above, or all above is passed over. -/
theorem feed_below {stack below next : Stack Terminal Nonterminal} {t : Token}
    (fed : feed g (stack ++ below) t = some next) (stuck : feed g stack t = none) :
    (∀ x ∈ stack, Skipped g t x) ∧ feed g below t = some next := by
  induction stack with
  | nil => exact ⟨fun x member => absurd member List.not_mem_nil, fed⟩
  | cons x stack ih =>
    cases x with
    | terminal a =>
      rw [feed] at stuck
      rw [List.cons_append, feed] at fed
      split_ifs at stuck fed
    | nonterminal n =>
      rw [feed] at stuck
      rw [List.cons_append, feed] at fed
      cases found : g.production n t with
      | some body =>
        rw [found] at stuck
        cases stuck
      | none =>
        rw [found] at stuck fed
        dsimp only at stuck fed
        split_ifs at stuck fed with empty
        obtain ⟨rest, taken⟩ := ih fed stuck
        exact ⟨List.forall_mem_cons.mpr ⟨⟨n, rfl, found, empty⟩, rest⟩, taken⟩

theorem drive_extend {stack next : Stack Terminal Nonterminal} {ts : List Token}
    (driven : drive g stack ts = some next) (below : Stack Terminal Nonterminal) :
    drive g (stack ++ below) ts = some (next ++ below) := by
  induction ts generalizing stack with
  | nil =>
    cases driven
    rfl
  | cons t ts ih =>
    rw [drive] at driven
    obtain ⟨middle, fed, driven⟩ := Option.bind_eq_some_iff.mp driven
    rw [drive, feed_extend fed, Option.bind_some]
    exact ih driven

/-- Where the symbols above run out. -/
theorem drive_below {stack below next : Stack Terminal Nonterminal} {ts : List Token}
    (driven : drive g (stack ++ below) ts = some next) (stuck : drive g stack ts = none) :
    ∃ before t after middle, ts = before ++ t :: after ∧ drive g stack before = some middle ∧
      (∀ x ∈ middle, Skipped g t x) ∧ (feed g below t).bind (drive g · after) = some next := by
  induction ts generalizing stack with
  | nil => cases stuck
  | cons t ts ih =>
    rw [drive] at driven stuck
    cases fed : feed g stack t with
    | none =>
      obtain ⟨next', taken, driven⟩ := Option.bind_eq_some_iff.mp driven
      obtain ⟨skipped, below'⟩ := feed_below taken fed
      exact ⟨[], t, ts, stack, rfl, rfl, skipped, by rw [below']; exact driven⟩
    | some middle =>
      rw [fed] at stuck
      rw [feed_extend fed, Option.bind_some] at driven
      obtain ⟨before, u, after, last, rfl, upTo, rest⟩ := ih driven stuck
      refine ⟨t :: before, u, after, last, rfl, ?_, rest⟩
      rw [drive, fed]
      exact upTo

/-- Whatever a symbol of this kind leaves last is of this kind. -/
theorem drive_last {p : Item Terminal Nonterminal → Prop}
    (keeps : ∀ n t body, p (.nonterminal n) → g.production n t = some body →
      ∀ x ∈ body.getLast?, p x)
    {stack next : Stack Terminal Nonterminal} {ts : List Token}
    (driven : drive g stack ts = some next) (last : ∀ x ∈ stack.getLast?, p x) :
    ∀ x ∈ next.getLast?, p x := by
  induction ts generalizing stack with
  | nil =>
    cases driven
    exact last
  | cons t ts ih =>
    rw [drive] at driven
    obtain ⟨middle, fed, driven⟩ := Option.bind_eq_some_iff.mp driven
    refine ih driven ?_
    obtain ⟨before, x, after, rfl, -, taken⟩ := feed_some fed
    rw [List.getLast?_append_cons] at last
    cases after with
    | nil =>
      rcases taken with ⟨a, -, -, rfl⟩ | ⟨n, body, rfl, produced, rfl⟩
      · intro y member
        cases member
      · rw [List.append_nil]
        exact keeps n t body (last _ rfl) produced
    | cons y after =>
      rw [List.getLast?_cons_cons] at last
      rcases taken with ⟨a, -, -, rfl⟩ | ⟨n, body, -, -, rfl⟩
      · exact last
      · rw [List.getLast?_append_cons]
        exact last

/-! ### Wider nonterminals -/

def Item.map (f : Nonterminal → Nonterminal) :
    Item Terminal Nonterminal → Item Terminal Nonterminal
  | .terminal a => .terminal a
  | .nonterminal n => .nonterminal (f n)

/-- The wider nonterminal starts with each token that the nonterminal starts with. -/
structure Widening (g : Grammar Token Terminal Nonterminal) where
  widen : Nonterminal → Nonterminal
  produced : ∀ n t body, g.production n t = some body →
    g.production (widen n) t = some (body.map (Item.map widen))
  skipped : ∀ n t, g.production n t = none → g.empties n (some t) = true →
    g.production (widen n) t = none ∧ g.empties (widen n) (some t) = true

namespace Widening

variable (w : Widening g)

def stack (stack : Stack Terminal Nonterminal) : Stack Terminal Nonterminal :=
  stack.map (Item.map w.widen)

theorem feed {stack next : Stack Terminal Nonterminal} {t : Token}
    (fed : feed g stack t = some next) : Parsing.feed g (w.stack stack) t = some (w.stack next) := by
  induction stack with
  | nil => cases fed
  | cons x stack ih =>
    cases x with
    | terminal a =>
      rw [Parsing.feed] at fed
      split_ifs at fed with accepted
      cases fed
      exact if_pos accepted
    | nonterminal n =>
      rw [Parsing.feed] at fed
      rw [Widening.stack, List.map_cons, Item.map, Parsing.feed]
      cases found : g.production n t with
      | some body =>
        rw [found] at fed
        cases fed
        rw [w.produced n t body found, Widening.stack, List.map_append]
      | none =>
        rw [found] at fed
        dsimp only at fed
        split_ifs at fed with empty
        obtain ⟨unproduced, wide⟩ := w.skipped n t found empty
        rw [unproduced]
        dsimp only
        rw [if_pos wide]
        exact ih fed

theorem drive {stack next : Stack Terminal Nonterminal} {ts : List Token}
    (driven : drive g stack ts = some next) :
    Parsing.drive g (w.stack stack) ts = some (w.stack next) := by
  induction ts generalizing stack with
  | nil =>
    cases driven
    rfl
  | cons t ts ih =>
    rw [Parsing.drive] at driven
    obtain ⟨middle, fed, driven⟩ := Option.bind_eq_some_iff.mp driven
    rw [Parsing.drive, w.feed fed, Option.bind_some]
    exact ih driven

end Widening

/-! ### Balance -/

/-- Weights of the symbols still to come, which the tokens change. -/
structure Balance (g : Grammar Token Terminal Nonterminal) where
  weight : Item Terminal Nonterminal → Nat
  change : Token → Int
  accepted : ∀ a t, g.accepts a t = true → weight (.terminal a) + change t = 0
  produced : ∀ n t body, g.production n t = some body →
    ((body.map weight).sum : Int) = weight (.nonterminal n) + change t
  empty : ∀ n t, g.empties n t = true → weight (.nonterminal n) = 0

namespace Balance

variable (balance : Balance g)

def total (stack : Stack Terminal Nonterminal) : Nat := (stack.map balance.weight).sum

def changes (ts : List Token) : Int := (ts.map balance.change).sum

@[simp] theorem total_nil : balance.total ([] : Stack Terminal Nonterminal) = 0 := rfl

@[simp] theorem total_cons (x : Item Terminal Nonterminal) (stack : Stack Terminal Nonterminal) :
    balance.total (x :: stack) = balance.weight x + balance.total stack := by
  simp [total]

@[simp] theorem total_append (a b : Stack Terminal Nonterminal) :
    balance.total (a ++ b) = balance.total a + balance.total b := by
  simp [total]

@[simp] theorem changes_append (ts us : List Token) :
    balance.changes (ts ++ us) = balance.changes ts + balance.changes us := by
  simp [changes]

@[simp] theorem changes_cons (t : Token) (ts : List Token) :
    balance.changes (t :: ts) = balance.change t + balance.changes ts := by
  simp [changes]

theorem total_skipped {t : Token} {stack : Stack Terminal Nonterminal}
    (skipped : ∀ x ∈ stack, Skipped g t x) : balance.total stack = 0 := by
  induction stack with
  | nil => rfl
  | cons x stack ih =>
    obtain ⟨⟨n, rfl, -, empty⟩, rest⟩ := List.forall_mem_cons.mp skipped
    rw [total_cons, balance.empty n (some t) empty, ih rest]

theorem total_feed {stack next : Stack Terminal Nonterminal} {t : Token}
    (fed : feed g stack t = some next) :
    (balance.total next : Int) = balance.total stack + balance.change t := by
  obtain ⟨before, x, after, rfl, skipped, taken⟩ := feed_some fed
  have none' := balance.total_skipped skipped
  rcases taken with ⟨a, rfl, accepted, rfl⟩ | ⟨n, body, rfl, produced, rfl⟩
  · have zero := balance.accepted a t accepted
    rw [total_append, total_cons, none']
    omega
  · have change : (balance.total body : Int) = balance.weight (.nonterminal n) + balance.change t :=
      balance.produced n t body produced
    rw [total_append, total_append, total_cons, none']
    omega

theorem total_drive {stack next : Stack Terminal Nonterminal} {ts : List Token}
    (driven : drive g stack ts = some next) :
    (balance.total next : Int) = balance.total stack + balance.changes ts := by
  induction ts generalizing stack with
  | nil =>
    cases driven
    simp [changes]
  | cons t ts ih =>
    rw [drive] at driven
    obtain ⟨middle, fed, driven⟩ := Option.bind_eq_some_iff.mp driven
    rw [ih driven, balance.total_feed fed, changes_cons]
    omega

theorem total_finished {stack : Stack Terminal Nonterminal}
    (finished : stack.all (finishes g) = true) : balance.total stack = 0 := by
  induction stack with
  | nil => rfl
  | cons x stack ih =>
    rw [List.all_cons, Bool.and_eq_true] at finished
    cases x with
    | terminal a => cases finished.1
    | nonterminal n => rw [total_cons, balance.empty n none finished.1, ih finished.2]

end Balance

end NeuralMesh.Parsing
