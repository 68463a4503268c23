import Mathlib.Algebra.Ring.Nat
import Mathlib.Data.List.Induction

/-! Exponential backoff. A party that fails is left alone for a delay, which doubles with each
further failure up to a ceiling; an answer clears the record. -/
namespace NeuralMesh.Backoff

structure Record where
  failures : Nat
  cooldownUntil : Nat

/-- The party was asked, and it settled: it failed, or it answered. -/
structure Attempt where
  asked : Nat
  settled : Nat
  failed : Bool

variable (base ceiling : Nat)

/-- The delay after the failure of this number in a row. -/
def delay (failures : Nat) : Nat := min (base * 2 ^ (failures - 1)) ceiling

def failures (record : Option Record) : Nat := record.elim 0 Record.failures

/-- When the party may be asked again. -/
def cooldownUntil (record : Option Record) : Nat := record.elim 0 Record.cooldownUntil

def onFailure (record : Option Record) (now : Nat) : Record :=
  ⟨failures record + 1, now + delay base ceiling (failures record + 1)⟩

def onAttempt (record : Option Record) (attempt : Attempt) : Option Record :=
  if attempt.failed then some (onFailure base ceiling record attempt.settled) else none

/-- The record that a sequence of attempts leaves. -/
def recordAfter (attempts : List Attempt) : Option Record :=
  attempts.foldl (onAttempt base ceiling) none

/-- The party is asked after its cooldown each time. -/
def Respected (attempts : List Attempt) : Prop :=
  ∀ before attempt after, attempts = before ++ attempt :: after →
    attempt.asked ≤ attempt.settled ∧
      cooldownUntil (recordAfter base ceiling before) ≤ attempt.asked

/-- The delays of this many failures in a row, from the first one on. -/
def delays : Nat → Nat
  | 0 => 0
  | n + 1 => delays n + delay base ceiling (n + 1)

variable {base ceiling}

theorem delay_mono {m n : Nat} (less : m ≤ n) : delay base ceiling m ≤ delay base ceiling n := by
  have power : 2 ^ (m - 1) ≤ 2 ^ (n - 1) :=
    Nat.pow_le_pow_right Nat.two_pos (Nat.sub_le_sub_right less 1)
  have scaled := Nat.mul_le_mul_left base power
  unfold delay
  omega

theorem recordAfter_append (attempts : List Attempt) (attempt : Attempt) :
    recordAfter base ceiling (attempts ++ [attempt]) =
      onAttempt base ceiling (recordAfter base ceiling attempts) attempt :=
  List.foldl_append

/-- The failures that end a sequence are counted. -/
theorem failures_append (before failing : List Attempt)
    (fails : ∀ attempt ∈ failing, attempt.failed = true) :
    failures (recordAfter base ceiling (before ++ failing)) =
      failures (recordAfter base ceiling before) + failing.length := by
  induction failing using List.reverseRecOn with
  | nil =>
    rw [List.append_nil]
    rfl
  | append_singleton failing last ih =>
    have failed := fails last (List.mem_append_right _ (List.mem_singleton_self _))
    have earlier := ih fun attempt member => fails attempt (List.mem_append_left _ member)
    rw [← List.append_assoc, recordAfter_append, onAttempt, if_pos failed, List.length_append]
    show failures (recordAfter base ceiling (before ++ failing)) + 1 = _
    rw [earlier, List.length_singleton, Nat.add_assoc]

theorem Respected.nil : Respected base ceiling [] := by
  intro before attempt after split
  cases before with
  | nil => cases split
  | cons _ _ => cases split

theorem Respected.snoc {attempts : List Attempt} {attempt : Attempt}
    (respected : Respected base ceiling attempts) (later : attempt.asked ≤ attempt.settled)
    (cooled : cooldownUntil (recordAfter base ceiling attempts) ≤ attempt.asked) :
    Respected base ceiling (attempts ++ [attempt]) := by
  intro before other after split
  rcases List.eq_nil_or_concat after with rfl | ⟨after, last, rfl⟩
  · obtain ⟨rfl, same⟩ := List.append_inj' split rfl
    cases same
    exact ⟨later, cooled⟩
  · have moved : attempts ++ [attempt] = (before ++ other :: after) ++ [last] := by
      rw [split, List.concat_eq_append, List.append_assoc, List.cons_append]
    obtain ⟨earlier, -⟩ := List.append_inj' moved rfl
    exact respected before other after earlier

/-- A party that fails every time is asked ever more rarely: behind that many failures in a row,
all the delays from the first one on have passed. -/
theorem Respected.spaced {before failing after : List Attempt} {first last : Attempt}
    (respected : Respected base ceiling (before ++ first :: failing ++ last :: after))
    (fails : first.failed = true ∧ ∀ attempt ∈ failing, attempt.failed = true) :
    first.asked + delays base ceiling (failing.length + 1) ≤ last.asked := by
  obtain ⟨firstFails, fails⟩ := fails
  induction failing using List.reverseRecOn generalizing last after with
  | nil =>
    obtain ⟨settles, -⟩ := respected before first (last :: after) (by simp)
    obtain ⟨-, cooled⟩ := respected (before ++ [first]) last after (by simp)
    rw [recordAfter_append, onAttempt, if_pos firstFails] at cooled
    have least : delay base ceiling 1 ≤
        delay base ceiling (failures (recordAfter base ceiling before) + 1) :=
      delay_mono (Nat.le_add_left 1 _)
    have waits : first.settled +
        delay base ceiling (failures (recordAfter base ceiling before) + 1) ≤ last.asked := cooled
    show first.asked + (0 + delay base ceiling 1) ≤ last.asked
    omega
  | append_singleton failing previous ih =>
    have previousFails := fails previous (List.mem_append_right _ (List.mem_singleton_self _))
    have others : ∀ attempt ∈ first :: failing, attempt.failed = true := by
      intro attempt member
      rcases List.mem_cons.mp member with rfl | member
      · exact firstFails
      · exact fails attempt (List.mem_append_left _ member)
    have shorter : Respected base ceiling
        (before ++ first :: failing ++ previous :: last :: after) := by
      simpa using respected
    have earlier := ih shorter fun attempt member => fails attempt (List.mem_append_left _ member)
    obtain ⟨settles, -⟩ := respected (before ++ first :: failing) previous (last :: after) (by simp)
    obtain ⟨-, cooled⟩ := respected (before ++ first :: failing ++ [previous]) last after (by simp)
    rw [recordAfter_append, onAttempt, if_pos previousFails] at cooled
    have count := @failures_append base ceiling before (first :: failing) others
    have least : delay base ceiling (failing.length + 1 + 1) ≤
        delay base ceiling
          (failures (recordAfter base ceiling (before ++ first :: failing)) + 1) := by
      rw [count, List.length_cons]
      exact delay_mono (by omega)
    have waits : previous.settled +
        delay base ceiling
          (failures (recordAfter base ceiling (before ++ first :: failing)) + 1) ≤ last.asked :=
      cooled
    rw [List.length_append, List.length_singleton, delays]
    omega

end NeuralMesh.Backoff
