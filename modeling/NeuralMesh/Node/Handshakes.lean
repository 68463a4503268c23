import NeuralMesh.Node.Sessions

/-! Handshakes beside each other. The token of a session is drawn at random, and the new session
takes the place of one with the same token. -/
namespace NeuralMesh.Node.LiopService

open Transition

variable {C : Type} [DecidableEq C]

def sessionToken (random : UInt32) : String := "proto-session-" ++ toString random.toNat

section Ttl

variable (session_ttl : Nat)

/-- An accepted handshake leaves the sessions that it does not purge. -/
def LeavesLive (s : LiopService C) : ServiceEvent C → Prop
  | .storeSession call random public_key secret_key purged created =>
    s.phase call = .negotiating → ∀ token entry, s.sessions token = some entry →
      entry.isExpired (purged token) session_ttl = false →
        (s.step session_ttl (.storeSession call random public_key secret_key purged
          created)).sessions token = some entry
  | _ => True

/-- The number drawn is not that of a live session. -/
def FreshDraw (s : LiopService C) : ServiceEvent C → Prop
  | .storeSession call random _ _ purged _ =>
    s.phase call = .negotiating → ∀ entry, s.sessions (sessionToken random) = some entry →
      entry.isExpired (purged (sessionToken random)) session_ttl = true
  | _ => True

def NoTake (session_token : String) : ServiceEvent C → Prop
  | .takeSession _ token _ _ => token ≠ session_token
  | _ => True

/-- Handshakes leave the live sessions, and a call that is the first to use a token within its time
to live proceeds with the secret key of that handshake. -/
structure Undisturbed (events : List (ServiceEvent C)) : Prop where
  left : ∀ before event after, events = before ++ event :: after →
    LeavesLive session_ttl (run (step session_ttl) start before) event
  served : ∀ before call random public_key secret_key purged created after client removed checked
    later, events = before ++ .storeSession call random public_key secret_key purged created ::
        (after ++ .takeSession client (sessionToken random) removed checked :: later) →
    (run (step session_ttl) start before).phase call = .negotiating →
    (∀ event ∈ after, NoTake (sessionToken random) event) →
    (run (step session_ttl) start (before ++
      .storeSession call random public_key secret_key purged created :: after)).phase client =
        .waiting →
    checked ≤ created + session_ttl →
    ∃ entry, entry.secret_key = secret_key ∧
      (run (step session_ttl) start (before ++
        .storeSession call random public_key secret_key purged created ::
          (after ++ [.takeSession client (sessionToken random) removed checked]))).phase client =
        .proceeding entry removed

end Ttl

variable {session_ttl : Nat} {s : LiopService C}

/-! ### One handshake -/

theorem storeSession_token (call : C) (random : UInt32) (public_key secret_key : List UInt8)
    (purged : String → Nat) (created : Nat) :
    (s.storeSession session_ttl call random public_key secret_key purged created).sessions
      (sessionToken random) = some ⟨s.inserted, secret_key, created⟩ := by
  simp only [storeSession, sessionToken, Function.update_self]

theorem storeSession_elsewhere (call : C) (random : UInt32) (public_key secret_key : List UInt8)
    (purged : String → Nat) (created : Nat) {token : String} {entry : SessionEntry}
    (other : token ≠ sessionToken random) (stored : s.sessions token = some entry)
    (live : entry.isExpired (purged token) session_ttl = false) :
    (s.storeSession session_ttl call random public_key secret_key purged created).sessions token =
      some entry := by
  have kept : (s.sessions token).filter
      (fun entry => !entry.isExpired (purged token) session_ttl) = some entry := by
    rw [stored, Option.filter_some, live]
    rfl
  rw [sessionToken] at other
  simpa only [storeSession, Function.update_of_ne other] using kept

/-- Exactly the draws of live tokens take a live session's place. -/
theorem leavesLive_iff (good : s.SingleUse session_ttl) (event : ServiceEvent C) :
    LeavesLive session_ttl s event ↔ FreshDraw session_ttl s event := by
  cases event with
  | checkRateLimit | takeSession => exact Iff.rfl
  | storeSession call random public_key secret_key purged created =>
    simp only [LeavesLive, FreshDraw, step]
    constructor
    · intro left negotiating entry stored
      by_contra live
      have live := Bool.not_eq_true _ ▸ live
      have replaced := left negotiating _ entry stored live
      rw [negotiating] at replaced
      cases (storeSession_token ..).symm.trans replaced
      exact Nat.lt_irrefl _ (good.fresh _ _ stored).1
    · intro fresh negotiating token entry stored live
      rw [negotiating]
      apply storeSession_elsewhere call random public_key secret_key purged created ?_ stored live
      rintro rfl
      rw [fresh negotiating entry stored] at live
      cases live

/-! ### Until the session is used -/

theorem step_clock {event : ServiceEvent C} (timely : s.Timely event) :
    s.clock ≤ (s.step session_ttl event).clock := by
  cases event with
  | checkRateLimit call agent_did now =>
    rw [step]
    split
    · exact timely
    · exact Nat.le_refl _
  | storeSession call random public_key secret_key purged created =>
    have bounds := timely (sessionToken random)
    rw [step]
    split
    · exact Nat.le_trans bounds.1 bounds.2
    · exact Nat.le_refl _
  | takeSession call session_token removed checked =>
    obtain ⟨first, second⟩ := timely
    rw [step]
    split
    · rw [takeSession]
      split
      · exact Nat.le_trans first second
      · exact Nat.le_trans first second
    · exact Nat.le_refl _

/-- The times of a run are at most the time of its last step. -/
theorem clock_le {events : List (ServiceEvent C)} {client : C} {token : String}
    {removed checked : Nat} (timely : Allowed (step session_ttl) Timely s
      (events ++ [.takeSession client token removed checked])) : s.clock ≤ checked := by
  induction events generalizing s with
  | nil => exact Nat.le_trans timely.1.1 timely.1.2
  | cons event events ih => exact Nat.le_trans (step_clock timely.1) (ih timely.2)

/-- A step that draws no live token and does not take this session leaves it. -/
theorem step_holds {event : ServiceEvent C} {token : String} {entry : SessionEntry}
    (stored : s.sessions token = some entry) (timely : s.Timely event)
    (fresh : FreshDraw session_ttl s event) (no_take : NoTake token event)
    (young : (s.step session_ttl event).clock ≤ entry.created_at + session_ttl) :
    (s.step session_ttl event).sessions token = some entry := by
  cases event with
  | checkRateLimit call agent_did now =>
    rw [step]
    split
    · exact stored
    · exact stored
  | storeSession call random public_key secret_key purged created =>
    rw [step] at young ⊢
    split at young
    next negotiating =>
      have bounds := (timely token).2
      have live : entry.isExpired (purged token) session_ttl = false := by
        apply decide_eq_false
        change created ≤ _ at young
        omega
      apply storeSession_elsewhere call random public_key secret_key purged created ?_ stored live
      rintro rfl
      rw [fresh negotiating entry stored] at live
      cases live
    next => exact stored
  | takeSession call session_token removed checked =>
    rw [step]
    split
    · rw [takeSession]
      split
      · exact (Function.update_of_ne (Ne.symm no_take) ..).trans stored
      · exact stored
    · exact stored

theorem run_holds {events : List (ServiceEvent C)} {client : C} {token : String}
    {removed checked : Nat} {entry : SessionEntry} (stored : s.sessions token = some entry)
    (timely : Allowed (step session_ttl) Timely s
      (events ++ [.takeSession client token removed checked]))
    (fresh : Allowed (step session_ttl) (FreshDraw session_ttl) s events)
    (no_take : ∀ event ∈ events, NoTake token event)
    (young : checked ≤ entry.created_at + session_ttl) :
    (run (step session_ttl) s events).sessions token = some entry := by
  induction events generalizing s with
  | nil => exact stored
  | cons event events ih =>
    have later : (s.step session_ttl event).clock ≤ checked := clock_le timely.2
    have held := step_holds stored timely.1 fresh.1 (no_take event List.mem_cons_self)
      (Nat.le_trans later young)
    exact ih held timely.2 fresh.2 fun other member => no_take other (List.mem_cons_of_mem _ member)

/-! ### Whole runs -/

theorem takeSession_proceeds {client : C} {token : String} {removed checked : Nat}
    {entry : SessionEntry} (stored : s.sessions token = some entry)
    (waiting : s.phase client = .waiting) (young : checked ≤ entry.created_at + session_ttl) :
    (s.step session_ttl (.takeSession client token removed checked)).phase client =
      .proceeding entry removed := by
  have live : entry.isExpired checked session_ttl = false := by
    apply decide_eq_false
    omega
  simp only [step, waiting, takeSession, stored, live, goto, Function.update_self]
  rfl

theorem run_undisturbed {events : List (ServiceEvent C)}
    (careful : Allowed (step session_ttl) (fun s event => s.Timely event ∧
      FreshDraw session_ttl s event) start events) : Undisturbed session_ttl events where
  left := by
    intro before event after rfl
    have timely := careful.of_append.imp fun _ _ condition => condition.1
    have good := run_invariant step_singleUse start_singleUse timely
    exact (leavesLive_iff good event).mpr careful.of_run.1.2
  served := by
    intro before call random public_key secret_key purged created after client removed checked later
      rfl negotiating no_take waiting young
    have continued := careful.of_run.2
    rw [List.append_cons] at continued
    have timely := continued.of_append.imp fun _ _ condition => condition.1
    have fresh := continued.of_append.of_append.imp fun _ _ condition => condition.2
    rw [run_append] at waiting ⊢
    generalize run (step session_ttl) start before = s at negotiating timely fresh waiting
    have stored : (s.step session_ttl (.storeSession call random public_key secret_key purged
        created)).sessions (sessionToken random) = some ⟨s.inserted, secret_key, created⟩ := by
      rw [step, negotiating]
      exact storeSession_token ..
    have held := run_holds stored timely fresh no_take young
    refine ⟨⟨s.inserted, secret_key, created⟩, rfl, ?_⟩
    rw [run, List.foldl_cons, ← run, run_append]
    exact takeSession_proceeds held waiting young

/-- The clients 2 and 3 use the sessions of the handshakes 0 and 1. -/
def twoSessions (second : UInt32) : List (ServiceEvent Nat) :=
  [.checkRateLimit 0 "a" 1, .storeSession 0 7 [1] [2] (fun _ => 2) 2, .checkRateLimit 1 "b" 3,
    .storeSession 1 second [3] [4] (fun _ => 4) 4, .takeSession 2 "proto-session-7" 5 6]

theorem twoSessions_timely (second : UInt32) :
    Allowed (step 10) Timely start (twoSessions second) := by
  refine ⟨Nat.zero_le 1, fun _ => ⟨Nat.le_succ 1, Nat.le_refl 2⟩, Nat.le_succ 2, ?_⟩
  exact ⟨fun _ => ⟨Nat.le_succ 3, Nat.le_refl 4⟩, ⟨Nat.le_succ 4, Nat.le_succ 5⟩, trivial⟩

/-- The first session is stored, and the second handshake is within the rate limit. -/
def firstStored : LiopService Nat :=
  run (step 10) start
    [.checkRateLimit 0 "a" 1, .storeSession 0 7 [1] [2] (fun _ => 2) 2, .checkRateLimit 1 "b" 3]

theorem firstStored_sessions : firstStored.sessions =
    (storeSession 10 ((start : LiopService Nat).checkRateLimit 0 "a" 1) 0 7 [1] [2] (fun _ => 2)
      2).sessions :=
  rfl

/-- The numbers drawn are different. -/
theorem twoSessions_undisturbed : Undisturbed 10 (twoSessions 8) := by
  have fresh : FreshDraw 10 firstStored (.storeSession 1 8 [3] [4] (fun _ => 4) 4) := by
    intro _ entry stored
    rw [firstStored_sessions] at stored
    rcases storeSession_stored stored with ⟨same, -⟩ | old
    · exact absurd same (by decide)
    · cases old
  apply run_undisturbed
  refine ⟨⟨Nat.zero_le 1, trivial⟩, ⟨fun _ => ⟨Nat.le_succ 1, Nat.le_refl 2⟩, ?_⟩,
    ⟨Nat.le_succ 2, trivial⟩, ⟨fun _ => ⟨Nat.le_succ 3, Nat.le_refl 4⟩, fresh⟩,
    ⟨⟨Nat.le_succ 4, Nat.le_succ 5⟩, trivial⟩, trivial⟩
  intro _ entry stored
  cases stored

/-- The second handshake draws the number of the first one. -/
theorem not_every_run_undisturbed : ¬ ∀ events : List (ServiceEvent Nat),
    Allowed (step 10) Timely start events → Undisturbed 10 events := by
  intro every
  have undisturbed := every (twoSessions 7) (twoSessions_timely 7)
  have leaves : LeavesLive 10 firstStored (.storeSession 1 7 [3] [4] (fun _ => 4) 4) :=
    undisturbed.left [_, _, _] _ _ rfl
  have stored : firstStored.sessions (sessionToken 7) = some ⟨0, [2], 2⟩ := by
    rw [firstStored_sessions, storeSession_token]
    rfl
  have replaced := leaves rfl _ _ stored rfl
  cases (storeSession_token ..).symm.trans replaced

end NeuralMesh.Node.LiopService
