import Mathlib.Data.Nat.Basic
import NeuralMesh.Answers
import NeuralMesh.Gateway.RateLimiter

/-! Housekeeping of the rate limiter. A record that has ended is like none, so removing it is not
seen; and the records of different keys are apart. -/
namespace NeuralMesh.Gateway

open Js Transition Answers

inductive LimiterOp where
  | check (key : JsString)
  | reset (key : JsString)
  | cleanup
  deriving DecidableEq

structure LimiterCall where
  op : LimiterOp
  now : Nat

def LimiterCall.concerns (key : JsString) (call : LimiterCall) : Bool :=
  decide (call.op = .check key ∨ call.op = .reset key)

namespace InMemoryRateLimiter

/-- The record of the key is removed. -/
def reset (limiter : InMemoryRateLimiter) (key : JsString) : InMemoryRateLimiter :=
  { limiter with records := Function.update limiter.records key none }

section Options

variable (windowMs maxRequests : Nat)

/-- Only a check returns a status. -/
def onCall (limiter : InMemoryRateLimiter) (call : LimiterCall) :
    Option RateLimitStatus × InMemoryRateLimiter :=
  match call.op with
  | .check key =>
    let checked := limiter.check windowMs maxRequests key call.now
    (some checked.1, checked.2)
  | .reset key => (none, limiter.reset key)
  | .cleanup => (none, limiter.cleanup call.now)

end Options

variable {windowMs maxRequests : Nat} {s t limiter : InMemoryRateLimiter} {key other : JsString}
  {now since : Nat}

/-! ### What is seen of a record -/

/-- Its count and its end, as long as it has not ended. -/
def seen (limiter : InMemoryRateLimiter) (key : JsString) (now : Nat) : Option (Nat × Nat) :=
  ((limiter.records key).filter fun record => now < record.resetTime).map fun record =>
    (record.count, record.resetTime)

theorem seen_none (closed : ∀ record, limiter.records key = some record → record.resetTime ≤ now) :
    limiter.seen key now = none := by
  refine Option.map_eq_none_iff.mpr (Option.filter_eq_none_iff.mpr fun record stored live => ?_)
  exact absurd (closed record stored) (Nat.not_le_of_lt (of_decide_eq_true live))

theorem seen_some {record : WindowRecord} (stored : limiter.records key = some record)
    (live : now < record.resetTime) :
    limiter.seen key now = some (record.count, record.resetTime) := by
  rw [seen, stored, filter_live live]
  rfl

theorem closed_of_seen (none : limiter.seen key now = none) (record : WindowRecord)
    (stored : limiter.records key = some record) : record.resetTime ≤ now := by
  by_contra live
  rw [seen_some stored (Nat.lt_of_not_le live)] at none
  cases none

theorem stored_of_seen {count resetTime : Nat}
    (found : limiter.seen key now = some (count, resetTime)) :
    ∃ record, limiter.records key = some record ∧ now < record.resetTime ∧ record.count = count ∧
      record.resetTime = resetTime := by
  obtain ⟨record, held, same⟩ := Option.map_eq_some_iff.mp found
  obtain ⟨stored, live⟩ := Option.filter_eq_some_iff.mp held
  cases same
  exact ⟨record, stored, of_decide_eq_true live, rfl, rfl⟩

/-- A record as it is seen at a later time. -/
def seenLater (found : Option (Nat × Nat)) (now : Nat) : Option (Nat × Nat) :=
  found.filter fun record => now < record.2

theorem seen_stored {record : WindowRecord} (stored : limiter.records key = some record) :
    limiter.seen key now = seenLater (some (record.count, record.resetTime)) now := by
  by_cases live : now < record.resetTime
  · rw [seen_some stored live, seenLater, Option.filter_some, if_pos (decide_eq_true live)]
  · rw [seenLater, Option.filter_some, if_neg (by simpa using live)]
    refine seen_none fun other found => ?_
    cases stored.symm.trans found
    exact Nat.le_of_not_lt live

theorem seen_later (order : since ≤ now) :
    limiter.seen key now = seenLater (limiter.seen key since) now := by
  cases found : limiter.seen key since with
  | none => exact seen_none fun record stored => Nat.le_trans (closed_of_seen found record stored) order
  | some record =>
    obtain ⟨held, stored, _, counted, ended⟩ := stored_of_seen found
    rw [seen_stored stored, counted, ended]

/-- From this time on the record of the key looks the same. -/
def LooksAlike (key : JsString) (since : Nat) (s t : InMemoryRateLimiter) : Prop :=
  s.seen key since = t.seen key since

theorem LooksAlike.later (alike : LooksAlike key since s t) (order : since ≤ now) :
    LooksAlike key now s t := by
  rw [LooksAlike, seen_later order, seen_later order, alike]

/-! ### Steps -/

theorem looksAlike_stored {record record' : WindowRecord} (stored : s.records key = some record)
    (stored' : t.records key = some record') (counted : record'.count = record.count)
    (ended : record'.resetTime = record.resetTime) : LooksAlike key since s t := by
  rw [LooksAlike, seen_stored stored, seen_stored stored', counted, ended]

theorem seen_check_other (different : key ≠ other) :
    (limiter.check windowMs maxRequests other now).2.seen key now = limiter.seen key now := by
  have checked : Checked windowMs maxRequests limiter other now _ := limiter.check_checked ..
  generalize limiter.check windowMs maxRequests other now = result at checked
  have kept : result.2.records key = limiter.records key := by
    cases checked with
    | opened | counted => exact Function.update_of_ne different ..
    | refused => rfl
  rw [seen, seen, kept]

theorem seen_cleanup : (limiter.cleanup now).seen key now = limiter.seen key now := by
  rw [seen, seen, cleanup, Option.filter_filter]
  simp only [Bool.and_self]

theorem seen_reset_other (different : key ≠ other) :
    (limiter.reset other).seen key now = limiter.seen key now := by
  rw [seen, seen, reset]
  dsimp only
  rw [Function.update_of_ne different]

theorem seen_reset : (limiter.reset key).seen key now = none := by
  rw [seen, reset]
  dsimp only
  rw [Function.update_self]
  rfl

/-- A check answers and leaves what it sees. -/
theorem check_looksAlike (alike : LooksAlike key now s t) :
    (s.check windowMs maxRequests key now).1 = (t.check windowMs maxRequests key now).1 ∧
      LooksAlike key now (s.check windowMs maxRequests key now).2
        (t.check windowMs maxRequests key now).2 := by
  have checked : Checked windowMs maxRequests s key now _ := s.check_checked ..
  generalize s.check windowMs maxRequests key now = result at checked
  cases checked with
  | opened closed =>
    have none : t.seen key now = none := alike.symm.trans (seen_none closed)
    rw [(Checked.opened (closed_of_seen none)).eq]
    exact ⟨rfl, looksAlike_stored (Function.update_self ..) (Function.update_self ..) rfl rfl⟩
  | refused record stored live full =>
    obtain ⟨record', stored', live', counted, ended⟩ :=
      stored_of_seen (alike.symm.trans (seen_some stored live))
    rw [(Checked.refused record' stored' live' (counted ▸ full)).eq, ended]
    exact ⟨rfl, alike⟩
  | counted record stored live room =>
    obtain ⟨record', stored', live', counted, ended⟩ :=
      stored_of_seen (alike.symm.trans (seen_some stored live))
    rw [(Checked.counted record' stored' live' (counted ▸ room)).eq, ended, counted]
    exact ⟨rfl, looksAlike_stored (Function.update_self ..) (Function.update_self ..) rfl rfl⟩

/-- What does not concern the key leaves what is seen of it. -/
theorem onCall_other {call : LimiterCall} (other : call.concerns key = false) :
    (next (onCall windowMs maxRequests) limiter call).seen key call.now =
      limiter.seen key call.now := by
  have elsewhere := not_or.mp (of_decide_eq_false other)
  rw [next, onCall]
  cases op : call.op with
  | check k => exact seen_check_other fun same => elsewhere.1 (same ▸ op)
  | reset k => exact seen_reset_other fun same => elsewhere.2 (same ▸ op)
  | cleanup => exact seen_cleanup

theorem onCall_own {call : LimiterCall} (own : call.concerns key = true)
    (alike : LooksAlike key call.now s t) :
    (onCall windowMs maxRequests s call).1 = (onCall windowMs maxRequests t call).1 ∧
      LooksAlike key call.now (next (onCall windowMs maxRequests) s call)
        (next (onCall windowMs maxRequests) t call) := by
  rw [next, next, onCall, onCall]
  rcases of_decide_eq_true own with op | op
  · rw [op]
    have same : (s.check windowMs maxRequests key call.now).1 = _ ∧ _ := check_looksAlike alike
    exact ⟨congrArg some same.1, same.2⟩
  · rw [op]
    exact ⟨rfl, seen_reset.trans seen_reset.symm⟩

/-- The calls that concern a key are answered as if there were no others. -/
theorem trace_concerns (key : JsString) {calls : List LimiterCall}
    (ordered : Ordered LimiterCall.now calls) :
    (trace (onCall windowMs maxRequests) start calls).filter (fun d => d.1.concerns key) =
      trace (onCall windowMs maxRequests) start (calls.filter (·.concerns key)) := by
  have alike : LooksAlike key 0 start start := rfl
  refine trace_filter (LimiterCall.concerns key) ?_ ?_ alike ordered fun _ _ => Nat.zero_le _
  · intro since s t call alike order other
    exact (onCall_other other).trans (alike.later order)
  · intro since s t call alike order own
    exact onCall_own own (alike.later order)

/-! ### The requests that remain -/

/-- A check of the key finds no open window. -/
def Opens (key : JsString) (limiter : InMemoryRateLimiter) (call : LimiterCall) : Prop :=
  call.op = .check key ∧ ∀ record, limiter.records key = some record → record.resetTime ≤ call.now

/-- The window of the key goes on. -/
def Continues (key : JsString) (limiter : InMemoryRateLimiter) (call : LimiterCall) : Prop :=
  call.op ≠ .reset key ∧ (call.op = .check key →
    ∃ record, limiter.records key = some record ∧ call.now < record.resetTime)

def isAllowed (key : JsString) (d : LimiterCall × Option RateLimitStatus) : Bool :=
  decide (d.1.op = .check key) && d.2.any (·.allowed)

variable (windowMs maxRequests) in
/-- Since these calls, the window of the key has been open and has allowed so many checks. -/
def OpenSince (key : JsString) (calls : List LimiterCall) (count : Nat) : Prop :=
  ∃ earlier opening rest, calls = earlier ++ opening :: rest ∧
    let before := run (next (onCall windowMs maxRequests)) start earlier
    Opens key before opening ∧
    Allowed (next (onCall windowMs maxRequests)) (Continues key)
      (next (onCall windowMs maxRequests) before opening) rest ∧
    (trace (onCall windowMs maxRequests) before (opening :: rest)).countP (isAllowed key) = count

variable {calls : List LimiterCall} {call : LimiterCall} {count : Nat}

theorem OpenSince.opened
    (opens : Opens key (run (next (onCall windowMs maxRequests)) start calls) call)
    (allowed : isAllowed key (call, (onCall windowMs maxRequests
      (run (next (onCall windowMs maxRequests)) start calls) call).1) = true) :
    OpenSince windowMs maxRequests key (calls ++ [call]) 1 := by
  refine ⟨calls, call, [], rfl, opens, trivial, ?_⟩
  rw [trace, trace, List.countP_cons_of_pos allowed]
  rfl

theorem OpenSince.continued (since : OpenSince windowMs maxRequests key calls count)
    (continues : Continues key (run (next (onCall windowMs maxRequests)) start calls) call) :
    OpenSince windowMs maxRequests key (calls ++ [call]) (count +
      if isAllowed key (call, (onCall windowMs maxRequests
        (run (next (onCall windowMs maxRequests)) start calls) call).1) then 1 else 0) := by
  obtain ⟨earlier, opening, rest, rfl, opens, allowed, rfl⟩ := since
  refine ⟨earlier, opening, rest ++ [call], by rw [List.append_assoc, List.cons_append], opens, ?_, ?_⟩
  · refine allowed.append ⟨?_, trivial⟩
    rw [run_append] at continues
    exact continues
  · rw [← List.cons_append, trace_append, List.countP_append, run_append]
    exact congrArg _ List.countP_singleton

theorem onCall_check (op : call.op = .check key) : onCall windowMs maxRequests limiter call =
    (some (limiter.check windowMs maxRequests key call.now).1,
      (limiter.check windowMs maxRequests key call.now).2) := by
  rw [onCall, op]

/-- A record that is there after another call was there before it. -/
theorem stored_before {record : WindowRecord} (other : call.concerns key = false)
    (stored : (next (onCall windowMs maxRequests) limiter call).records key = some record) :
    limiter.records key = some record := by
  have elsewhere := not_or.mp (of_decide_eq_false other)
  cases op : call.op with
  | check k =>
    have different : key ≠ k := fun same => elsewhere.1 (same ▸ op)
    rw [next, onCall_check op] at stored
    have checked : Checked windowMs maxRequests limiter k call.now _ := limiter.check_checked ..
    generalize limiter.check windowMs maxRequests k call.now = result at checked stored
    cases checked with
    | opened | counted => exact (Function.update_of_ne different ..).symm.trans stored
    | refused => exact stored
  | reset k =>
    have different : key ≠ k := fun same => elsewhere.2 (same ▸ op)
    rw [next, onCall, op] at stored
    exact (Function.update_of_ne different ..).symm.trans stored
  | cleanup =>
    rw [next, onCall, op] at stored
    exact (Option.filter_eq_some_iff.mp stored).1

/-- What a call does to the window of the key that it leaves: it is opened, or goes on. -/
theorem openSince_step {record : WindowRecord}
    (held : ∀ before, (run (next (onCall windowMs maxRequests)) start calls).records key =
      some before → OpenSince windowMs maxRequests key calls before.count)
    (stored : (next (onCall windowMs maxRequests)
      (run (next (onCall windowMs maxRequests)) start calls) call).records key = some record) :
    OpenSince windowMs maxRequests key (calls ++ [call]) record.count := by
  cases own : call.concerns key with
  | false =>
    have elsewhere := not_or.mp (of_decide_eq_false own)
    have since := (held record (stored_before own stored)).continued
      ⟨elsewhere.2, fun check => absurd check elsewhere.1⟩
    rwa [isAllowed, decide_eq_false elsewhere.1] at since
  | true =>
    rcases of_decide_eq_true own with op | op
    · have kept : call.op ≠ .reset key := op ▸ nofun
      have opened := @OpenSince.opened windowMs maxRequests key calls call
      have continued (count : Nat) := @OpenSince.continued windowMs maxRequests key calls call count
      generalize run (next (onCall windowMs maxRequests)) start calls = limiter at *
      rw [onCall_check op, isAllowed, decide_eq_true op, Bool.true_and] at opened continued
      rw [next, onCall_check op] at stored
      have checked : Checked windowMs maxRequests limiter key call.now _ := limiter.check_checked ..
      generalize limiter.check windowMs maxRequests key call.now = result at *
      cases checked with
      | opened closed =>
        cases (Function.update_self ..).symm.trans stored
        exact opened ⟨op, closed⟩ rfl
      | refused before found live full =>
        cases found.symm.trans stored
        exact continued _ (held record found) ⟨kept, fun _ => ⟨record, found, live⟩⟩
      | counted before found live room =>
        cases (Function.update_self ..).symm.trans stored
        exact continued _ (held before found) ⟨kept, fun _ => ⟨before, found, live⟩⟩
    · rw [next, onCall, op] at stored
      cases (Function.update_self ..).symm.trans stored

/-- Each record counts the allowed checks since its window was opened. -/
theorem record_openSince (calls : List LimiterCall) (record : WindowRecord)
    (stored : (run (next (onCall windowMs maxRequests)) start calls).records key = some record) :
    OpenSince windowMs maxRequests key calls record.count := by
  induction calls using List.reverseRecOn generalizing record with
  | nil => cases stored
  | append_singleton calls call ih =>
    rw [run_append] at stored
    exact openSince_step ih stored

/-- An allowed check tells what its record leaves of the limit. -/
theorem check_remaining (limiter : InMemoryRateLimiter) (key : JsString) (now : Nat)
    (allowed : (limiter.check windowMs maxRequests key now).1.allowed = true) :
    ∃ record, (limiter.check windowMs maxRequests key now).2.records key = some record ∧
      (limiter.check windowMs maxRequests key now).1.remaining = maxRequests - (record.count : Int) := by
  have checked : Checked windowMs maxRequests limiter key now _ := limiter.check_checked ..
  generalize limiter.check windowMs maxRequests key now = result at *
  cases checked with
  | opened | counted => exact ⟨_, Function.update_self .., rfl⟩
  | refused => cases allowed

/-- The calls that concern a key are answered alike in any two runs that have the same ones; and an
allowed check leaves the limit less the allowed checks since the window was opened. -/
theorem housekeeping_unseen (windowMs maxRequests : Nat) (key : JsString) :
    (∀ calls calls' : List LimiterCall, Ordered LimiterCall.now calls →
      Ordered LimiterCall.now calls' →
      calls.filter (·.concerns key) = calls'.filter (·.concerns key) →
      (trace (onCall windowMs maxRequests) start calls).filter (fun d => d.1.concerns key) =
        (trace (onCall windowMs maxRequests) start calls').filter fun d => d.1.concerns key) ∧
    ∀ (calls : List LimiterCall) (call : LimiterCall) (status : RateLimitStatus),
      call.op = .check key →
      (onCall windowMs maxRequests (run (next (onCall windowMs maxRequests)) start calls) call).1 =
        some status → status.allowed = true →
      ∃ count : Nat, OpenSince windowMs maxRequests key (calls ++ [call]) count ∧
        status.remaining = maxRequests - (count : Int) := by
  constructor
  · intro calls calls' ordered ordered' same
    rw [trace_concerns key ordered, trace_concerns key ordered', same]
  · intro calls call status op answered allowed
    have after : ∀ record, (next (onCall windowMs maxRequests)
        (run (next (onCall windowMs maxRequests)) start calls) call).records key = some record →
        OpenSince windowMs maxRequests key (calls ++ [call]) record.count := by
      intro record stored
      exact record_openSince (calls ++ [call]) record (by rw [run_append]; exact stored)
    generalize run (next (onCall windowMs maxRequests)) start calls = limiter at *
    rw [onCall_check op] at answered
    cases answered
    obtain ⟨record, stored, remaining⟩ := check_remaining limiter key call.now allowed
    rw [next, onCall_check op] at after
    exact ⟨record.count, after record stored, remaining⟩

end InMemoryRateLimiter

end NeuralMesh.Gateway
