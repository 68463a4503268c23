import NeuralMesh.Transition
import Mathlib.Data.List.Nodup
import Mathlib.Logic.Function.Basic

/-! The sessions of the node. Calls take its maps in any order; each lock of a map is one step, which
reads the clock as often as the code does. Entries are numbered in the order of insertion. -/
namespace NeuralMesh.Node

structure SessionEntry where
  id : Nat
  secret_key : List UInt8
  created_at : Nat
  deriving DecidableEq

/-- `elapsed` is never negative. -/
def SessionEntry.isExpired (entry : SessionEntry) (now ttl : Nat) : Bool :=
  ttl < now - entry.created_at

inductive Status where
  | resourceExhausted (message : String)
  | unauthenticated (message : String)
  deriving DecidableEq

inductive CallPhase where
  | waiting
  /-- Within the rate limit; the session is not stored yet. -/
  | negotiating
  | answered (session_token : String) (kyber_public_key : List UInt8)
  /-- To the decryption, with the entry that was removed at this time. -/
  | proceeding (entry : SessionEntry) (removed : Nat)
  | failed (status : Status)

/-- A call has removed an entry. -/
structure Consumption (C : Type) where
  call : C
  entry : SessionEntry
  removed : Nat

structure LiopService (C : Type) where
  clock : Nat
  sessions : String → Option SessionEntry
  rate_limits : String → List Nat
  inserted : Nat
  phase : C → CallPhase
  consumed : List (Consumption C)

/-- The locked sections with their readings of the clock, the random number and the keys. -/
inductive ServiceEvent (C : Type) where
  | checkRateLimit (call : C) (agent_did : String) (now : Nat)
  | storeSession (call : C) (random : UInt32) (public_key secret_key : List UInt8)
      (purged : String → Nat) (created : Nat)
  | takeSession (call : C) (session_token : String) (removed checked : Nat)

def rateLimitMaxRequests : Nat := 10

/-- In nanoseconds. -/
def rateLimitWindow : Nat := 60000000000

variable {C : Type} [DecidableEq C]

namespace LiopService

def start : LiopService C := ⟨0, fun _ => none, fun _ => [], 0, fun _ => .waiting, []⟩

def goto (s : LiopService C) (call : C) (phase : CallPhase) : LiopService C :=
  { s with phase := Function.update s.phase call phase }

def checkRateLimit (s : LiopService C) (call : C) (agent_did : String) (now : Nat) : LiopService C :=
  let window := (s.rate_limits agent_did).dropWhile fun t => rateLimitWindow < now - t
  let limited := decide (rateLimitMaxRequests ≤ window.length)
  let next := if limited then
      .failed (.resourceExhausted "Rate limit exceeded: max 10 handshakes per minute")
    else .negotiating
  { s.goto call next with
    clock := now
    rate_limits := Function.update s.rate_limits agent_did
      (if limited then window else window ++ [now]) }

section Ttl

variable (session_ttl : Nat)

def storeSession (s : LiopService C) (call : C) (random : UInt32) (public_key secret_key : List UInt8)
    (purged : String → Nat) (created : Nat) : LiopService C :=
  let session_token := "proto-session-" ++ toString random.toNat
  let kept token := (s.sessions token).filter fun entry => !entry.isExpired (purged token) session_ttl
  { s.goto call (.answered session_token public_key) with
    clock := created
    sessions := Function.update kept session_token (some ⟨s.inserted, secret_key, created⟩)
    inserted := s.inserted + 1 }

def takeSession (s : LiopService C) (call : C) (session_token : String) (removed checked : Nat) :
    LiopService C :=
  match s.sessions session_token with
  | some entry =>
    let next := if entry.isExpired checked session_ttl then
        .failed (.unauthenticated "Invalid or expired session token")
      else .proceeding entry removed
    { s.goto call next with
      clock := checked
      sessions := Function.update s.sessions session_token none
      consumed := ⟨call, entry, removed⟩ :: s.consumed }
  | none =>
    { s.goto call (.failed (.unauthenticated "Invalid or expired session token")) with
      clock := checked }

/-- A call takes its steps once. -/
def step (s : LiopService C) : ServiceEvent C → LiopService C
  | .checkRateLimit call agent_did now =>
    match s.phase call with
    | .waiting => s.checkRateLimit call agent_did now
    | _ => s
  | .storeSession call random public_key secret_key purged created =>
    match s.phase call with
    | .negotiating => s.storeSession session_ttl call random public_key secret_key purged created
    | _ => s
  | .takeSession call session_token removed checked =>
    match s.phase call with
    | .waiting => s.takeSession session_ttl call session_token removed checked
    | _ => s

end Ttl

/-- The clock does not go back. -/
def Timely (s : LiopService C) : ServiceEvent C → Prop
  | .checkRateLimit _ _ now => s.clock ≤ now
  | .storeSession _ _ _ _ purged created => ∀ token, s.clock ≤ purged token ∧ purged token ≤ created
  | .takeSession _ _ removed checked => s.clock ≤ removed ∧ removed ≤ checked

/-! ### Each entry is taken once -/

/-- Stored and consumed entries are different ones, numbered below the count of insertions. -/
structure SingleUse (session_ttl : Nat) (s : LiopService C) : Prop where
  fresh : ∀ token entry, s.sessions token = some entry →
    entry.id < s.inserted ∧ entry.id ∉ s.consumed.map (·.entry.id)
  separate : ∀ first second entry entry', s.sessions first = some entry →
    s.sessions second = some entry' → entry.id = entry'.id → first = second
  past : ∀ id ∈ s.consumed.map (·.entry.id), id < s.inserted
  once : (s.consumed.map (·.entry.id)).Nodup
  young : ∀ call entry removed, s.phase call = .proceeding entry removed →
    ⟨call, entry, removed⟩ ∈ s.consumed ∧ removed ≤ entry.created_at + session_ttl

variable {session_ttl : Nat}

omit [DecidableEq C] in
theorem start_singleUse : (start : LiopService C).SingleUse session_ttl where
  fresh := fun _ _ stored => nomatch stored
  separate := fun _ _ _ _ stored => nomatch stored
  past := fun _ consumed => nomatch consumed
  once := List.nodup_nil
  young := fun _ _ _ proceeds => nomatch proceeds

section Steps

variable {s : LiopService C}

theorem checkRateLimit_singleUse (good : s.SingleUse session_ttl) (call : C) (agent_did : String)
    (now : Nat) : (s.checkRateLimit call agent_did now).SingleUse session_ttl := by
  refine ⟨good.fresh, good.separate, good.past, good.once, fun other entry removed proceeds => ?_⟩
  refine good.young other entry removed ?_
  simp only [checkRateLimit, goto, Function.update_apply] at proceeds
  split_ifs at proceeds
  exact proceeds

/-- What is stored after an insertion: the new entry, or one that the purge has kept. -/
theorem storeSession_stored {call : C} {random : UInt32} {public_key secret_key : List UInt8}
    {purged : String → Nat} {created : Nat} {token : String} {entry : SessionEntry}
    (stored : (s.storeSession session_ttl call random public_key secret_key purged created).sessions
      token = some entry) :
    (token = "proto-session-" ++ toString random.toNat ∧ entry.id = s.inserted) ∨
      s.sessions token = some entry := by
  simp only [storeSession, goto, Function.update_apply] at stored
  split_ifs at stored with here
  · cases stored
    exact .inl ⟨here, rfl⟩
  · exact .inr (Option.filter_eq_some_iff.mp stored).1

theorem storeSession_singleUse (good : s.SingleUse session_ttl) (call : C) (random : UInt32)
    (public_key secret_key : List UInt8) (purged : String → Nat) (created : Nat) :
    (s.storeSession session_ttl call random public_key secret_key purged created).SingleUse
      session_ttl := by
  have unused : s.inserted ∉ s.consumed.map (·.entry.id) :=
    fun consumed => Nat.lt_irrefl _ (good.past _ consumed)
  refine ⟨?_, ?_, ?_, good.once, ?_⟩
  · intro token entry stored
    rcases storeSession_stored stored with ⟨-, new⟩ | old
    · rw [new]
      exact ⟨Nat.lt_succ_self _, unused⟩
    · obtain ⟨below, unconsumed⟩ := good.fresh token entry old
      exact ⟨Nat.lt_succ_of_lt below, unconsumed⟩
  · intro first second entry entry' stored stored' same
    rcases storeSession_stored stored with ⟨here, new⟩ | old
    · rcases storeSession_stored stored' with ⟨here', -⟩ | old'
      · rw [here, here']
      · have below := (good.fresh second entry' old').1
        omega
    · rcases storeSession_stored stored' with ⟨-, new'⟩ | old'
      · have below := (good.fresh first entry old).1
        omega
      · exact good.separate first second entry entry' old old' same
  · intro id consumed
    exact Nat.lt_succ_of_lt (good.past id consumed)
  · intro other entry removed proceeds
    refine good.young other entry removed ?_
    simp only [storeSession, goto, Function.update_apply] at proceeds
    split_ifs at proceeds
    exact proceeds

theorem takeSession_singleUse (good : s.SingleUse session_ttl) (call : C) (session_token : String)
    {removed checked : Nat} (later : removed ≤ checked) :
    (s.takeSession session_ttl call session_token removed checked).SingleUse session_ttl := by
  unfold takeSession
  split
  · next entry found =>
    obtain ⟨below, unconsumed⟩ := good.fresh session_token entry found
    have remains {token : String} {other : SessionEntry}
        (stored : Function.update s.sessions session_token none token = some other) :
        token ≠ session_token ∧ s.sessions token = some other := by
      rw [Function.update_apply] at stored
      split_ifs at stored with here
      exact ⟨here, stored⟩
    refine ⟨?_, ?_, ?_, ?_, ?_⟩
    · intro token other stored
      obtain ⟨elsewhere, old⟩ := remains stored
      obtain ⟨lower, unused⟩ := good.fresh token other old
      refine ⟨lower, fun consumed => ?_⟩
      rcases List.mem_cons.mp consumed with same | before
      · exact elsewhere (good.separate token session_token other entry old found same)
      · exact unused before
    · intro first second one another stored stored' same
      exact good.separate first second one another (remains stored).2 (remains stored').2 same
    · intro id consumed
      rcases List.mem_cons.mp consumed with rfl | before
      · exact below
      · exact good.past id before
    · exact List.nodup_cons.mpr ⟨unconsumed, good.once⟩
    · intro other taken time proceeds
      simp only [goto, Function.update_apply] at proceeds
      split_ifs at proceeds with self expired
      · -- The call itself: the entry was not expired when it was checked.
        cases proceeds
        subst self
        refine ⟨List.mem_cons_self, ?_⟩
        have young : ¬ session_ttl < checked - entry.created_at :=
          fun old => expired (decide_eq_true old)
        omega
      · obtain ⟨consumed, age⟩ := good.young other taken time proceeds
        exact ⟨List.mem_cons_of_mem _ consumed, age⟩
  · refine ⟨good.fresh, good.separate, good.past, good.once, fun other taken time proceeds => ?_⟩
    refine good.young other taken time ?_
    simp only [goto, Function.update_apply] at proceeds
    split_ifs at proceeds
    exact proceeds

end Steps

theorem step_singleUse (s : LiopService C) (event : ServiceEvent C)
    (good : s.SingleUse session_ttl) (timely : s.Timely event) :
    (s.step session_ttl event).SingleUse session_ttl := by
  cases event with
  | checkRateLimit call agent_did now =>
    rw [step]
    split
    · exact checkRateLimit_singleUse good call agent_did now
    · exact good
  | storeSession call random public_key secret_key purged created =>
    rw [step]
    split
    · exact storeSession_singleUse good call random public_key secret_key purged created
    · exact good
  | takeSession call session_token removed checked =>
    rw [step]
    split
    · exact takeSession_singleUse good call session_token timely.2
    · exact good

/-- In every interleaving no entry is consumed twice, and a call that proceeds has consumed its
entry while it was no older than the time to live. -/
theorem run_singleUse {events : List (ServiceEvent C)}
    (timely : Transition.Allowed (step session_ttl) Timely (start : LiopService C) events) :
    let s := Transition.run (step session_ttl) start events
    (s.consumed.map (·.entry.id)).Nodup ∧
      ∀ call entry removed, s.phase call = .proceeding entry removed →
        ⟨call, entry, removed⟩ ∈ s.consumed ∧ removed ≤ entry.created_at + session_ttl := by
  have good := Transition.run_invariant step_singleUse start_singleUse timely
  exact ⟨good.once, good.young⟩

/-- One session, taken by the second of two calls: the third finds nothing. -/
def onceTaken : List (ServiceEvent Nat) :=
  [.checkRateLimit 0 "a" 1, .storeSession 0 7 [1] [2] (fun _ => 2) 2,
    .takeSession 1 "proto-session-7" 5 6, .takeSession 2 "proto-session-7" 7 7]

theorem onceTaken_singleUse :
    ((Transition.run (step 10) (start : LiopService Nat) onceTaken).consumed.map (·.entry.id)).Nodup := by
  have timely : Transition.Allowed (step 10) Timely (start : LiopService Nat) onceTaken :=
    ⟨Nat.zero_le 1, fun _ => ⟨Nat.le_succ 1, Nat.le_refl 2⟩, ⟨by decide, by decide⟩,
      ⟨by decide +kernel, by decide⟩, trivial⟩
  exact (run_singleUse timely).1

end LiopService

end NeuralMesh.Node
