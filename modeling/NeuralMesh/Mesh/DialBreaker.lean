import Mathlib.Logic.Function.Basic
import NeuralMesh.Mesh.ManifestFraming

/-! The circuit breaker of manifest dials. A query that fails should record one failure, which
starts a cooldown, and a query that succeeds clears them; the last dial error records none. -/
namespace NeuralMesh.Mesh

open Js

/-! ### Failure states -/

structure DialFailure where
  failures : Nat
  cooldownUntil : Nat
  lastSkipLogAt : Nat

def MANIFEST_DIAL_BASE_COOLDOWN_MS : Nat := 10000
def MANIFEST_DIAL_MAX_COOLDOWN_MS : Nat := 2 * 60000
def MANIFEST_DIAL_SKIP_LOG_THROTTLE_MS : Nat := 30000

/-- `manifestDialFailureState`, by the text of the peer id. -/
abbrev DialFailures := JsString → Option DialFailure

namespace DialFailures

variable (states : DialFailures) (peerIdStr : JsString) (now : Nat)

def failures : Nat := (states peerIdStr).elim 0 DialFailure.failures

/-- A skipped dial is logged now and then. -/
def shouldSkipManifestDial : Bool × DialFailures :=
  match states peerIdStr with
  | none => (false, states)
  | some state =>
    if state.cooldownUntil ≤ now then (false, states)
    else if now - state.lastSkipLogAt > MANIFEST_DIAL_SKIP_LOG_THROTTLE_MS then
      (true, Function.update states peerIdStr (some { state with lastSkipLogAt := now }))
    else (true, states)

def recordManifestDialFailure : DialFailures :=
  let failures := states.failures peerIdStr + 1
  let backoff := min (MANIFEST_DIAL_BASE_COOLDOWN_MS * 2 ^ (failures - 1))
    MANIFEST_DIAL_MAX_COOLDOWN_MS
  Function.update states peerIdStr (some ⟨failures, now + backoff, 0⟩)

def clearManifestDialFailure : DialFailures := Function.update states peerIdStr none

end DialFailures

/-! ### Queries -/

/-- What an attempt meets: an exception before the dial, a dial that fails, a stream that cannot
be iterated, or one that is read. -/
inductive Attempt where
  | unprepared
  | dialError
  | noSource
  | opened (source : Source)

/-- The manifest of an attempt, when it does not fail. -/
def Attempt.manifest : Attempt → Option JsValue
  | opened source => readManifest source
  | _ => none

def MAX_ATTEMPTS : Nat := 3

inductive StateUpdate where
  | record
  | clear

/-- The loop over these attempts: its answer and what it does to the failure state. -/
def tryAttempts (attempts : Nat → Attempt) : List Nat → Option JsValue × Option StateUpdate
  | [] => (none, none)
  | attempt :: later =>
    match attempts attempt with
    | .dialError =>
      -- the inner handler
      if attempt = MAX_ATTEMPTS then (none, none) else tryAttempts attempts later
    | other =>
      match other.manifest with
      | some manifest => (some manifest, some .clear)
      | none =>
        if attempt = MAX_ATTEMPTS then (none, some .record) else tryAttempts attempts later

def applyUpdate (states : DialFailures) (peerIdStr : JsString) (now : Nat) :
    Option StateUpdate → DialFailures
  | none => states
  | some .record => states.recordManifestDialFailure peerIdStr now
  | some .clear => states.clearManifestDialFailure peerIdStr

structure MeshNode where
  peerId : JsString
  /-- What the provider returns, or `null`. -/
  localManifest : Option JsValue

/-- A query that starts and ends at these times; `meanwhile` is what other calls do to the
failure states while it waits. -/
def MeshNode.queryManifest (node : MeshNode) (attempts : Nat → Attempt)
    (meanwhile : DialFailures → DialFailures) (peerIdStr : JsString) (started ended : Nat)
    (states : DialFailures) : Option JsValue × DialFailures :=
  if peerIdStr = node.peerId then (node.localManifest, states)
  else
    let (skip, states) := states.shouldSkipManifestDial peerIdStr started
    if skip then (none, states)
    else
      let (answer, update) := tryAttempts attempts (List.range' 1 MAX_ATTEMPTS)
      (answer, applyUpdate (meanwhile states) peerIdStr ended update)

/-! ### Cooldowns -/

/-- A failure that is recorded keeps the next dials off until its cooldown is over. -/
theorem recorded_skips (states : DialFailures) (peerIdStr : JsString) {now later : Nat}
    (soon : later < now + min (MANIFEST_DIAL_BASE_COOLDOWN_MS * 2 ^ states.failures peerIdStr)
      MANIFEST_DIAL_MAX_COOLDOWN_MS) :
    ((states.recordManifestDialFailure peerIdStr now).shouldSkipManifestDial peerIdStr later).1 =
      true := by
  rw [DialFailures.shouldSkipManifestDial, DialFailures.recordManifestDialFailure,
    Function.update_self]
  dsimp only
  rw [Nat.add_sub_cancel, if_neg (Nat.not_le.mpr soon)]
  split_ifs <;> rfl

/-- Cleared peers are dialled at once. -/
theorem cleared_dials (states : DialFailures) (peerIdStr : JsString) (now : Nat) :
    ((states.clearManifestDialFailure peerIdStr).shouldSkipManifestDial peerIdStr now).1 =
      false := by
  rw [DialFailures.shouldSkipManifestDial, DialFailures.clearManifestDialFailure,
    Function.update_self]

/-! ### Accounting -/

/-- A query answers and leaves the failure states as it should: without an answer one failure is
added and a cooldown starts, an answer clears the failures, and other peers are not touched. -/
structure Accounted (before after : DialFailures) (peerIdStr : JsString) (now : Nat)
    (answer : Option JsValue) : Prop where
  failed : answer = none → ∃ state, after peerIdStr = some state ∧
    state.failures = before.failures peerIdStr + 1 ∧
    state.cooldownUntil = now + min (10000 * 2 ^ (state.failures - 1)) 120000
  answered : ∀ manifest, answer = some manifest → after peerIdStr = none
  others : ∀ other, other ≠ peerIdStr → after other = before other

/-- Every attempt fails, and the last one in the dial. -/
def FailsInLastDial (attempts : Nat → Attempt) : Prop :=
  (attempts 1).manifest = none ∧ (attempts 2).manifest = none ∧ attempts 3 = .dialError

variable {attempts : Nat → Attempt} {attempt : Nat} {later : List Nat}

theorem tryAttempts_found {manifest : JsValue}
    (found : (attempts attempt).manifest = some manifest) :
    tryAttempts attempts (attempt :: later) = (some manifest, some .clear) := by
  rw [tryAttempts]
  cases kind : attempts attempt with
  | opened source =>
    rw [kind] at found
    simp only [found]
  | _ =>
    rw [kind] at found
    cases found

theorem tryAttempts_next (failed : (attempts attempt).manifest = none)
    (early : attempt ≠ MAX_ATTEMPTS) :
    tryAttempts attempts (attempt :: later) = tryAttempts attempts later := by
  rw [tryAttempts]
  cases kind : attempts attempt with
  | dialError => exact if_neg early
  | _ =>
    rw [kind] at failed
    simp only [failed]
    exact if_neg early

theorem tryAttempts_threw (failed : (attempts MAX_ATTEMPTS).manifest = none)
    (dialled : attempts MAX_ATTEMPTS ≠ .dialError) :
    tryAttempts attempts (MAX_ATTEMPTS :: later) = (none, some .record) := by
  rw [tryAttempts]
  cases kind : attempts MAX_ATTEMPTS with
  | dialError => exact absurd kind dialled
  | _ =>
    rw [kind] at failed
    simp only [failed, if_true]

theorem tryAttempts_dial (dial : attempts MAX_ATTEMPTS = .dialError) :
    tryAttempts attempts (MAX_ATTEMPTS :: later) = (none, none) := by
  rw [tryAttempts, dial]
  exact if_pos rfl

/-- The exits of the loop. -/
inductive Ends (attempts : Nat → Attempt) : Option JsValue × Option StateUpdate → Prop where
  | found (manifest : JsValue) (passed : ¬ FailsInLastDial attempts) :
    Ends attempts (some manifest, some .clear)
  | threw (passed : ¬ FailsInLastDial attempts) : Ends attempts (none, some .record)
  | dial (vain : FailsInLastDial attempts) : Ends attempts (none, none)

theorem tryAttempts_ends (attempts : Nat → Attempt) :
    Ends attempts (tryAttempts attempts (List.range' 1 MAX_ATTEMPTS)) := by
  show Ends attempts (tryAttempts attempts [1, 2, MAX_ATTEMPTS])
  cases first : (attempts 1).manifest with
  | some manifest =>
    rw [tryAttempts_found first]
    exact .found manifest fun vain => nomatch first.symm.trans vain.1
  | none =>
    rw [tryAttempts_next first (by decide)]
    cases second : (attempts 2).manifest with
    | some manifest =>
      rw [tryAttempts_found second]
      exact .found manifest fun vain => nomatch second.symm.trans vain.2.1
    | none =>
      rw [tryAttempts_next second (by decide)]
      cases third : (attempts MAX_ATTEMPTS).manifest with
      | some manifest =>
        rw [tryAttempts_found third]
        refine .found manifest fun vain => ?_
        rw [MAX_ATTEMPTS, vain.2.2] at third
        cases third
      | none =>
        by_cases dial : attempts MAX_ATTEMPTS = .dialError
        · rw [tryAttempts_dial dial]
          exact .dial ⟨first, second, dial⟩
        · rw [tryAttempts_threw third dial]
          exact .threw fun vain => dial vain.2.2

variable {states : DialFailures} {peerIdStr : JsString} {started : Nat}

theorem shouldSkip_unchanged
    (ready : (states.shouldSkipManifestDial peerIdStr started).1 = false) :
    states.shouldSkipManifestDial peerIdStr started = (false, states) := by
  rw [DialFailures.shouldSkipManifestDial] at ready ⊢
  split at ready
  · rfl
  · split_ifs at ready ⊢
    rfl

/-- The update of a query accounts for its answer, whatever the state. -/
theorem applyUpdate_accounted (before : DialFailures) (peerIdStr : JsString) (now : Nat) :
    Accounted before (applyUpdate before peerIdStr now (some .record)) peerIdStr now none ∧
    ∀ manifest, Accounted before (applyUpdate before peerIdStr now (some .clear)) peerIdStr now
      (some manifest) := by
  constructor
  · exact {
      failed := fun _ => ⟨_, Function.update_self .., rfl, rfl⟩
      answered := nofun
      others := fun other different => Function.update_of_ne different .. }
  · intro manifest
    exact {
      failed := nofun
      answered := fun _ _ => Function.update_self ..
      others := fun other different => Function.update_of_ne different .. }

/-- A query of a remote peer out of its cooldown is accounted for exactly when its attempts do not
all fail with the last one failing in the dial. -/
theorem MeshNode.queryManifest_accounted_iff (node : MeshNode) (attempts : Nat → Attempt)
    (meanwhile : DialFailures → DialFailures) (ended : Nat) (remote : peerIdStr ≠ node.peerId)
    (ready : (states.shouldSkipManifestDial peerIdStr started).1 = false) :
    let result := node.queryManifest attempts meanwhile peerIdStr started ended states
    Accounted (meanwhile states) result.2 peerIdStr ended result.1 ↔
      ¬ FailsInLastDial attempts := by
  intro result
  obtain ⟨recorded, cleared⟩ := applyUpdate_accounted (meanwhile states) peerIdStr ended
  have ends := tryAttempts_ends attempts
  have computed : result =
      ((tryAttempts attempts (List.range' 1 MAX_ATTEMPTS)).1,
        applyUpdate (meanwhile states) peerIdStr ended
          (tryAttempts attempts (List.range' 1 MAX_ATTEMPTS)).2) := by
    simp only [result, queryManifest, if_neg remote, shouldSkip_unchanged ready,
      Bool.false_eq_true, if_false]
  rw [computed]
  generalize tryAttempts attempts (List.range' 1 MAX_ATTEMPTS) = outcome at ends
  cases ends with
  | found manifest passed => exact iff_of_true (cleared manifest) passed
  | threw passed => exact iff_of_true recorded passed
  | dial vain =>
    refine iff_of_false (fun accounted => ?_) (not_not_intro vain)
    -- the state is as before, so the number of failures is too
    obtain ⟨state, same, more, -⟩ := accounted.failed rfl
    have count : (meanwhile states).failures peerIdStr = state.failures := by
      rw [DialFailures.failures, show meanwhile states peerIdStr = some state from same,
        Option.elim_some]
    omega

/-- A peer whose third attempt has no usable stream, asked for the first time. -/
theorem unusable_stream_accounted :
    let node : MeshNode := ⟨js "self", none⟩
    let attempts : Nat → Attempt := fun n => if n = 3 then .noSource else .dialError
    let result := node.queryManifest attempts id (js "peer") 0 9000 fun _ => none
    Accounted (fun _ => none) result.2 (js "peer") 9000 result.1 := by
  intro node attempts
  refine (node.queryManifest_accounted_iff attempts id 9000 ?_ ?_).mpr fun vain => ?_
  · decide
  · rfl
  · exact nomatch vain.2.2

/-- A peer that cannot be dialled leaves no trace: the next query dials it again. -/
theorem dead_peer_unrecorded :
    let node : MeshNode := ⟨js "self", none⟩
    let result := node.queryManifest (fun _ => .dialError) id (js "peer") 0 9000 fun _ => none
    result.1 = none ∧ result.2 (js "peer") = none ∧
      ¬ Accounted (fun _ => none) result.2 (js "peer") 9000 result.1 := by
  intro node result
  have unchanged : result = (none, fun _ => none) := by
    have different : js "peer" ≠ node.peerId := by decide
    have skipped : DialFailures.shouldSkipManifestDial (fun _ => none) (js "peer") 0 =
      (false, fun _ => none) := rfl
    have ended : tryAttempts (fun _ => .dialError) (List.range' 1 MAX_ATTEMPTS) = (none, none) :=
      rfl
    simp only [result, MeshNode.queryManifest, if_neg different, skipped, Bool.false_eq_true,
      if_false, ended, applyUpdate, id]
  rw [unchanged]
  refine ⟨rfl, rfl, fun accounted => ?_⟩
  obtain ⟨state, same, -⟩ := accounted.failed rfl
  cases same

end NeuralMesh.Mesh
