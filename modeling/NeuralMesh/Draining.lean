import Mathlib.Data.List.Forall2
import Mathlib.Data.List.Infix

/-! Readers of frames. A reader takes a frame off the front of a buffer as soon as it is there as a
whole; draining a buffer takes frames until none is left. The frames do not depend on the pieces in
which the buffer arrives. -/
namespace NeuralMesh.Draining

structure Reader (α φ : Type) where
  take : List α → Option (φ × List α)
  shrinks : ∀ {a rest f}, take a = some (f, rest) → rest.length < a.length
  /-- A frame that is there as a whole is read alike when more follows. -/
  stable : ∀ {a rest f}, take a = some (f, rest) → ∀ more, take (a ++ more) = some (f, rest ++ more)

variable {α φ : Type} (reader : Reader α φ)

/-- The frames of a buffer and what remains behind them. -/
def drain (a : List α) : List φ × List α :=
  match read : reader.take a with
  | none => ([], a)
  | some (f, rest) =>
    have := reader.shrinks read
    (f :: (drain rest).1, (drain rest).2)
termination_by a.length

variable {reader}

theorem drain_none {a : List α} (read : reader.take a = none) : drain reader a = ([], a) := by
  rw [drain]
  split
  · rfl
  · next taken => cases read.symm.trans taken

theorem drain_some {a rest : List α} {f : φ} (read : reader.take a = some (f, rest)) :
    drain reader a = (f :: (drain reader rest).1, (drain reader rest).2) := by
  rw [drain]
  split
  · next missing => cases missing.symm.trans read
  · next taken =>
    cases taken.symm.trans read
    rfl

variable (reader) in
/-- Follows the frames of a buffer. -/
@[elab_as_elim]
theorem drain_induction {P : List α → Prop} (stop : ∀ a, reader.take a = none → P a)
    (go : ∀ a f rest, reader.take a = some (f, rest) → P rest → P a) (a : List α) : P a := by
  induction size : a.length using Nat.strongRecOn generalizing a with
  | ind n ih =>
    cases read : reader.take a with
    | none => exact stop a read
    | some taken =>
      obtain ⟨f, rest⟩ := taken
      exact go a f rest read (ih rest.length (size ▸ reader.shrinks read) rest rfl)

theorem drain_append (a b : List α) : drain reader (a ++ b) =
    ((drain reader a).1 ++ (drain reader ((drain reader a).2 ++ b)).1,
      (drain reader ((drain reader a).2 ++ b)).2) := by
  induction a using drain_induction reader with
  | stop a read => rw [drain_none read, List.nil_append]
  | go a f rest read ih =>
    rw [drain_some read, drain_some (reader.stable read b), ih, List.cons_append]

/-- A step of a reader that keeps the remainder for the next piece. -/
def feed (reader : Reader α φ) (state : List φ × List α) (piece : List α) : List φ × List α :=
  (state.1 ++ (drain reader (state.2 ++ piece)).1, (drain reader (state.2 ++ piece)).2)

theorem feed_drain (a piece : List α) :
    feed reader (drain reader a) piece = drain reader (a ++ piece) :=
  (drain_append a piece).symm

theorem foldl_feed (a : List α) (pieces : List (List α)) :
    pieces.foldl (feed reader) (drain reader a) = drain reader (a ++ pieces.flatten) := by
  induction pieces generalizing a with
  | nil => rw [List.foldl_nil, List.flatten_nil, List.append_nil]
  | cons piece pieces ih =>
    rw [List.foldl_cons, feed_drain, ih, List.flatten_cons, List.append_assoc]

/-! ### Encodings -/

/-- The wire is read as the frame, whatever follows. -/
def Spells (reader : Reader α φ) (f : φ) (wire : List α) : Prop :=
  ∀ rest, reader.take (wire ++ rest) = some (f, rest)

theorem drain_wires {frames : List φ} {wires : List (List α)}
    (spelled : List.Forall₂ (Spells reader) frames wires) (rest : List α) :
    drain reader (wires.flatten ++ rest) =
      (frames ++ (drain reader rest).1, (drain reader rest).2) := by
  induction spelled with
  | nil => rfl
  | cons first _ ih =>
    rw [List.flatten_cons, List.append_assoc, drain_some (first _), ih, List.cons_append]

/-- No proper beginning of a wire holds a frame. -/
theorem Spells.take_beginning {f : φ} {wire beginning : List α} (spells : Spells reader f wire)
    (before : beginning <+: wire) (proper : beginning ≠ wire) : reader.take beginning = none := by
  cases read : reader.take beginning with
  | none => rfl
  | some taken =>
    obtain ⟨g, rest⟩ := taken
    obtain ⟨more, rfl⟩ := before
    have whole := spells []
    rw [List.append_nil, reader.stable read more] at whole
    have last : more = [] := (List.append_eq_nil_iff.mp (Prod.mk.inj (Option.some.inj whole)).2).2
    exact absurd (by rw [last, List.append_nil]) proper

/-- Every frame that is taken stood at the front. -/
theorem drain_front {Wire : φ → List α → Prop}
    (front : ∀ {a rest f}, reader.take a = some (f, rest) → ∃ wire, Wire f wire ∧ a = wire ++ rest)
    (a : List α) : ∃ wires, List.Forall₂ Wire (drain reader a).1 wires ∧
      a = wires.flatten ++ (drain reader a).2 := by
  induction a using drain_induction reader with
  | stop a read =>
    rw [drain_none read]
    exact ⟨[], .nil, rfl⟩
  | go a f rest read ih =>
    obtain ⟨wires, each, split⟩ := ih
    obtain ⟨wire, here, rfl⟩ := front read
    rw [drain_some read]
    refine ⟨wire :: wires, .cons here each, ?_⟩
    rw [List.flatten_cons, List.append_assoc, ← split]

end NeuralMesh.Draining
