import NeuralMesh.Js.Parse
import NeuralMesh.Js.Trim

/-! Backtracking regular expressions, as ECMAScript defines them: a pattern is run
with a continuation, alternatives are tried in order, and the first way to
satisfy the continuation wins. Repetition is over single characters. -/
namespace NeuralMesh.Js

inductive Pattern where
  | empty
  | char (p : Char → Bool)
  /-- Any number of characters: as many as possible if greedy, else as few. -/
  | many (greedy : Bool) (p : Char → Bool)
  | seq (a b : Pattern)
  | alt (a b : Pattern)
  | group (a : Pattern)
  /-- The end of the input. -/
  | stop

variable {γ : Type}

def manyFrom (greedy : Bool) (p : Char → Bool) (k : Text → Option γ) : Text → Option γ
  | [] => k []
  | c :: cs =>
    if p c then
      if greedy then (manyFrom greedy p k cs).or (k (c :: cs))
      else (k (c :: cs)).or (manyFrom greedy p k cs)
    else k (c :: cs)

namespace Pattern

/-- The continuation gets the rest of the input and the groups closed so far. -/
def run : Pattern → (Text → List Text → Option γ) → Text → List Text → Option γ
  | empty, k, cs, gs => k cs gs
  | char _, _, [], _ => none
  | char p, k, c :: cs, gs => if p c then k cs gs else none
  | many greedy p, k, cs, gs => manyFrom greedy p (fun rest => k rest gs) cs
  | seq a b, k, cs, gs => a.run (b.run k) cs gs
  | alt a b, k, cs, gs => (a.run k cs gs).or (b.run k cs gs)
  | group a, k, cs, gs =>
    a.run (fun rest gs => k rest (gs ++ [cs.take (cs.length - rest.length)])) cs gs
  | stop, k, cs, gs => if cs = [] then k cs gs else none

/-- A match that starts here: the groups in the order in which they close. -/
def matchHere (p : Pattern) (cs : Text) : Option (List Text) := p.run (fun _ gs => some gs) cs []

/-- The leftmost match. -/
def search (p : Pattern) : Text → Option (List Text)
  | [] => p.matchHere []
  | c :: cs => (p.matchHere (c :: cs)).or (p.search cs)

/-! ### Derived patterns -/

def lit : Text → Pattern
  | [] => empty
  | c :: cs => seq (char (· == c)) (lit cs)

def plus (greedy : Bool) (p : Char → Bool) : Pattern := seq (char p) (many greedy p)

def opt (a : Pattern) : Pattern := alt a empty

/-! ### Running -/

theorem run_lit (word : Text) (k : Text → List Text → Option γ) (cs : Text) (gs : List Text) :
    (lit word).run k cs gs = (readWord word cs).bind fun rest => k rest gs := by
  induction word generalizing cs with
  | nil => simp [lit, run, readWord]
  | cons c word ih =>
    cases cs with
    | nil => simp [lit, run, readWord]
    | cons d cs =>
      rw [lit, run, run]
      by_cases same : d = c
      · subst same
        simp only [beq_self_eq_true, if_true, ih, readWord, List.isPrefixOf_cons_cons, Bool.true_and,
          List.length_cons, List.drop_succ_cons]
      · rw [if_neg (by simpa using same), readWord_ne _ _ (Ne.symm same)]
        rfl

end Pattern

/-- When the continuation cannot go on at a character of the class, the whole run
of such characters is consumed, greedily or not. -/
theorem manyFrom_exact (greedy : Bool) {p : Char → Bool} {k : Text → Option γ}
    (stuck : ∀ c cs, p c = true → k (c :: cs) = none) (cs : Text) :
    manyFrom greedy p k cs = k (cs.dropWhile p) := by
  induction cs with
  | nil => rfl
  | cons c cs ih =>
    rw [manyFrom]
    by_cases inside : p c = true
    · rw [if_pos inside, stuck c cs inside, List.dropWhile_cons_of_pos inside, ih]
      cases greedy <;> simp
    · rw [if_neg inside, List.dropWhile_cons_of_neg inside]

/-- When dropping a character of the class changes nothing for the continuation,
all ways to consume the run are alike. -/
theorem manyFrom_indifferent (greedy : Bool) {p : Char → Bool} {k : Text → Option γ}
    (same : ∀ c cs, p c = true → k (c :: cs) = k cs) (cs : Text) :
    manyFrom greedy p k cs = k cs := by
  induction cs with
  | nil => rfl
  | cons c cs ih =>
    rw [manyFrom]
    by_cases inside : p c = true
    · rw [if_pos inside, same c cs inside, ih]
      cases greedy <;> simp
    · rw [if_neg inside]

theorem manyFrom_sound {greedy : Bool} {p : Char → Bool} {k : Text → Option γ} {cs : Text} {r : γ}
    (found : manyFrom greedy p k cs = some r) :
    ∃ used rest, cs = used ++ rest ∧ (∀ c ∈ used, p c = true) ∧ k rest = some r := by
  induction cs with
  | nil => exact ⟨[], [], rfl, by simp, found⟩
  | cons c cs ih =>
    have here (result : k (c :: cs) = some r) :
        ∃ used rest, c :: cs = used ++ rest ∧ (∀ d ∈ used, p d = true) ∧ k rest = some r :=
      ⟨[], c :: cs, rfl, by simp, result⟩
    have later (inside : p c = true) (result : manyFrom greedy p k cs = some r) :
        ∃ used rest, c :: cs = used ++ rest ∧ (∀ d ∈ used, p d = true) ∧ k rest = some r := by
      obtain ⟨used, rest, rfl, all, result⟩ := ih result
      exact ⟨c :: used, rest, rfl, List.forall_mem_cons.mpr ⟨inside, all⟩, result⟩
    rw [manyFrom] at found
    split_ifs at found with inside
    · rcases Option.or_eq_some_iff.mp found with first | ⟨_, second⟩
      · exact later inside first
      · exact here second
    · rcases Option.or_eq_some_iff.mp found with first | ⟨_, second⟩
      · exact here first
      · exact later inside second
    · exact here found

theorem manyFrom_complete {greedy : Bool} {p : Char → Bool} {k : Text → Option γ}
    {used rest : Text} (all : ∀ c ∈ used, p c = true) (found : k rest ≠ none) :
    manyFrom greedy p k (used ++ rest) ≠ none := by
  induction used with
  | nil =>
    cases rest with
    | nil => exact found
    | cons c rest =>
      rw [List.nil_append, manyFrom]
      split_ifs <;> simp [Option.or_eq_none_iff, found]
  | cons c used ih =>
    obtain ⟨inside, all⟩ := List.forall_mem_cons.mp all
    rw [List.cons_append, manyFrom, if_pos inside]
    split_ifs <;> simp [Option.or_eq_none_iff, ih all]

theorem Pattern.run_plus_exact (greedy : Bool) {p : Char → Bool}
    {k : Text → List Text → Option γ} (gs : List Text)
    (stuck : ∀ c cs, p c = true → k (c :: cs) gs = none) (cs : Text) :
    (plus greedy p).run k cs gs =
      if cs.takeWhile p = [] then none else k (cs.dropWhile p) gs := by
  cases cs with
  | nil => rfl
  | cons c cs =>
    simp only [plus, run]
    by_cases inside : p c = true
    · rw [if_pos inside, manyFrom_exact greedy stuck, List.takeWhile_cons_of_pos inside,
        List.dropWhile_cons_of_pos inside, if_neg (by simp)]
    · rw [if_neg inside, List.takeWhile_cons_of_neg inside, if_pos rfl]

theorem Pattern.run_opt (a : Pattern) (k : Text → List Text → Option γ) (cs : Text)
    (gs : List Text) : (opt a).run k cs gs = (a.run k cs gs).or (k cs gs) := rfl

/-- A visible word, white space and the end of the input. -/
theorem Pattern.run_closing (word : Text) (k : Text → List Text → Option γ) (cs : Text)
    (gs : List Text) : (seq (lit word) (seq (many true isSpace) stop)).run k cs gs =
      (readWord word cs).bind fun rest =>
        if rest.dropWhile isSpace = [] then k [] gs else none := by
  rw [run, run_lit]
  congr 1
  funext rest
  have stuck : ∀ (c : Char) (cs : Text), isSpace c = true → stop.run k (c :: cs) gs = none := by
    intro c cs _
    simp [run]
  rw [run, run, manyFrom_exact true stuck, run]
  split_ifs with ended
  · rw [ended]
  · rfl

end NeuralMesh.Js
