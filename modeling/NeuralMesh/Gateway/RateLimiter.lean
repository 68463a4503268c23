import NeuralMesh.Js.StringText
import Mathlib.Logic.Function.Basic

/-! The rate limiter of the gateway. A record counts the requests of one key in one window;
windows are numbered in the order in which they open. -/
namespace NeuralMesh.Gateway

open Js

structure WindowRecord where
  window : Nat
  count : Nat
  resetTime : Nat

structure RateLimitStatus where
  allowed : Bool
  remaining : Int
  limit : Nat
  resetMs : Nat

structure InMemoryRateLimiter where
  records : JsString → Option WindowRecord
  opened : Nat

namespace InMemoryRateLimiter

def start : InMemoryRateLimiter := ⟨fun _ => none, 0⟩

def set (limiter : InMemoryRateLimiter) (key : JsString) (record : WindowRecord) :
    InMemoryRateLimiter :=
  { limiter with records := Function.update limiter.records key (some record) }

section Options

variable (windowMs maxRequests : Nat)

def check (limiter : InMemoryRateLimiter) (key : JsString) (now : Nat) :
    RateLimitStatus × InMemoryRateLimiter :=
  match (limiter.records key).filter fun record => now < record.resetTime with
  | none =>
    (⟨true, maxRequests - 1, maxRequests, windowMs⟩,
      { limiter.set key ⟨limiter.opened, 1, now + windowMs⟩ with opened := limiter.opened + 1 })
  | some record =>
    let resetMs := record.resetTime - now
    if maxRequests ≤ record.count then (⟨false, 0, maxRequests, resetMs⟩, limiter)
    else
      let count := record.count + 1
      (⟨true, maxRequests - count, maxRequests, resetMs⟩,
        limiter.set key { record with count := count })

end Options

/-- Expired records are removed. -/
def cleanup (limiter : InMemoryRateLimiter) (now : Nat) : InMemoryRateLimiter :=
  { limiter with records := fun key =>
      (limiter.records key).filter fun record => now < record.resetTime }

/-- All records are removed. -/
def close (limiter : InMemoryRateLimiter) : InMemoryRateLimiter :=
  { limiter with records := fun _ => none }

variable {windowMs maxRequests : Nat}

/-- A check refuses, or opens a window for the key, or counts in the window of the key. -/
theorem check_cases (limiter : InMemoryRateLimiter) (key : JsString) (now : Nat) :
    let checked := limiter.check windowMs maxRequests key now
    (checked.1.allowed = false ∧ checked.2 = limiter) ∨
    checked.1.allowed = true ∧ ∃ record,
      checked.2.records = Function.update limiter.records key (some record) ∧
      ((record.window = limiter.opened ∧ record.count = 1 ∧
          checked.2.opened = limiter.opened + 1) ∨
        ∃ before, limiter.records key = some before ∧ before.count < maxRequests ∧
          record.window = before.window ∧ record.count = before.count + 1 ∧
          checked.2.opened = limiter.opened) := by
  rw [check]
  split
  · exact .inr ⟨rfl, _, rfl, .inl ⟨rfl, rfl, rfl⟩⟩
  · next before found =>
    split_ifs with full
    · exact .inl ⟨rfl, rfl⟩
    · have stored := (Option.filter_eq_some_iff.mp found).1
      exact .inr ⟨rfl, _, rfl, .inr ⟨before, stored, Nat.lt_of_not_le full, rfl, rfl, rfl⟩⟩

variable (windowMs maxRequests) in
/-- A check finds no open window, or a full one, or it counts in the window. -/
inductive Checked (limiter : InMemoryRateLimiter) (key : JsString) (now : Nat) :
    RateLimitStatus × InMemoryRateLimiter → Prop where
  | opened (closed : ∀ record, limiter.records key = some record → record.resetTime ≤ now) :
      Checked limiter key now (⟨true, maxRequests - 1, maxRequests, windowMs⟩,
        { limiter.set key ⟨limiter.opened, 1, now + windowMs⟩ with opened := limiter.opened + 1 })
  | refused (record : WindowRecord) (stored : limiter.records key = some record)
      (live : now < record.resetTime) (full : maxRequests ≤ record.count) :
      Checked limiter key now (⟨false, 0, maxRequests, record.resetTime - now⟩, limiter)
  | counted (record : WindowRecord) (stored : limiter.records key = some record)
      (live : now < record.resetTime) (room : record.count < maxRequests) :
      Checked limiter key now
        (⟨true, maxRequests - (record.count + 1 : Nat), maxRequests, record.resetTime - now⟩,
          limiter.set key { record with count := record.count + 1 })

theorem filter_live {record : WindowRecord} {now : Nat} (live : now < record.resetTime) :
    (some record).filter (fun record => now < record.resetTime) = some record :=
  (Option.filter_some ..).trans (if_pos (decide_eq_true live))

theorem Checked.eq {limiter : InMemoryRateLimiter} {key : JsString} {now : Nat}
    {result : RateLimitStatus × InMemoryRateLimiter}
    (checked : Checked windowMs maxRequests limiter key now result) :
    limiter.check windowMs maxRequests key now = result := by
  rw [check]
  cases checked with
  | opened closed =>
    have none : (limiter.records key).filter (fun record => now < record.resetTime) = none := by
      refine Option.filter_eq_none_iff.mpr fun record stored live => ?_
      exact absurd (closed record stored) (Nat.not_le_of_lt (of_decide_eq_true live))
    rw [none]
  | refused record stored live full =>
    rw [stored, filter_live live]
    exact if_pos full
  | counted record stored live room =>
    rw [stored, filter_live live]
    exact if_neg (Nat.not_le_of_lt room)

theorem check_checked (limiter : InMemoryRateLimiter) (key : JsString) (now : Nat) :
    Checked windowMs maxRequests limiter key now (limiter.check windowMs maxRequests key now) := by
  cases found : (limiter.records key).filter fun record => now < record.resetTime with
  | none =>
    have closed : ∀ record, limiter.records key = some record → record.resetTime ≤ now := by
      intro record stored
      by_contra live
      rw [stored, filter_live (Nat.lt_of_not_le live)] at found
      cases found
    exact (Checked.opened closed).eq ▸ .opened closed
  | some record =>
    obtain ⟨stored, live⟩ := Option.filter_eq_some_iff.mp found
    have live := of_decide_eq_true live
    by_cases full : maxRequests ≤ record.count
    · exact (Checked.refused record stored live full).eq ▸ .refused record stored live full
    · have room := Nat.lt_of_not_le full
      exact (Checked.counted record stored live room).eq ▸ .counted record stored live room

end InMemoryRateLimiter

end NeuralMesh.Gateway
