import Mathlib.Data.List.AList
import NeuralMesh.Js.StringText
import NeuralMesh.Transition

/-! The sessions that one client has at the streaming bridge. The cap is checked when a request
without a session comes, and a session is registered when its transport has read the request; the
requests in between are not counted, so they may exceed the cap together. -/
namespace NeuralMesh.Bridge

open Js Transition

structure SessionEntry where
  lastActivity : Int
  clientIp : JsString

structure LiopStreamBridge where
  activeSessions : AList fun _ : JsString => SessionEntry
  /-- The clients of the transports that are created and have not opened their session. -/
  opening : List JsString

/-- What runs between two awaits. -/
inductive SessionEvent where
  /-- A request without a session id is checked and gets a transport. -/
  | request (clientIp : JsString)
  /-- `onsessioninitialized` of such a transport. -/
  | initialized (clientIp sessionId : JsString) (now : Int)
  /-- Such a transport ends its request and has opened no session. -/
  | dropped (clientIp : JsString)
  /-- A request or a message for a session. -/
  | routed (sessionId : JsString) (now : Int)
  | deleted (sessionId : JsString)
  | closed (sessionId : JsString)
  | evictIdleSessions (now : Int)

namespace LiopStreamBridge

def countSessionsByIp (s : LiopStreamBridge) (ip : JsString) : Nat :=
  s.activeSessions.entries.countP fun e => e.2.clientIp = ip

def setSession (s : LiopStreamBridge) (sessionId : JsString) (entry : SessionEntry) :
    LiopStreamBridge :=
  { s with activeSessions := s.activeSessions.insert sessionId entry }

def deleteSession (s : LiopStreamBridge) (sessionId : JsString) : LiopStreamBridge :=
  { s with activeSessions := s.activeSessions.erase sessionId }

/-- A request without a session id: refused with 429, or on its way to a session. -/
def onRequest (maxSessionsPerIp : Nat) (s : LiopStreamBridge) (clientIp : JsString) :
    LiopStreamBridge :=
  if s.countSessionsByIp clientIp ≥ maxSessionsPerIp then s
  else { s with opening := clientIp :: s.opening }

def onSessionInitialized (s : LiopStreamBridge) (clientIp sessionId : JsString) (now : Int) :
    LiopStreamBridge :=
  if clientIp ∈ s.opening then
    { s with opening := s.opening.erase clientIp }.setSession sessionId ⟨now, clientIp⟩
  else s

def touch (s : LiopStreamBridge) (sessionId : JsString) (now : Int) : LiopStreamBridge :=
  match s.activeSessions.lookup sessionId with
  | some entry => s.setSession sessionId { entry with lastActivity := now }
  | none => s

def evictIdleSessions (sessionTimeoutMs : Int) (s : LiopStreamBridge) (now : Int) :
    LiopStreamBridge :=
  { s with activeSessions :=
      { entries := s.activeSessions.entries.filter fun e =>
          ¬ now - e.2.lastActivity > sessionTimeoutMs
        nodupKeys := s.activeSessions.nodupKeys.sublist List.filter_sublist } }

def step (sessionTimeoutMs : Int) (maxSessionsPerIp : Nat) (s : LiopStreamBridge) :
    SessionEvent → LiopStreamBridge
  | .request clientIp => s.onRequest maxSessionsPerIp clientIp
  | .initialized clientIp sessionId now => s.onSessionInitialized clientIp sessionId now
  | .dropped clientIp => { s with opening := s.opening.erase clientIp }
  | .routed sessionId now => s.touch sessionId now
  | .deleted sessionId | .closed sessionId => s.deleteSession sessionId
  | .evictIdleSessions now => s.evictIdleSessions sessionTimeoutMs now

def empty : LiopStreamBridge := ⟨∅, []⟩

/-! ### Sessions that a client has or may get -/

variable {s : LiopStreamBridge} {ip clientIp sessionId : JsString} {now : Int}

/-- The sessions and the transports that may still open one. -/
def claimed (s : LiopStreamBridge) (ip : JsString) : Nat :=
  s.countSessionsByIp ip + s.opening.count ip

theorem count_erase (s : LiopStreamBridge) (sessionId ip : JsString) :
    (s.deleteSession sessionId).countSessionsByIp ip ≤ s.countSessionsByIp ip :=
  (List.kerase_sublist sessionId s.activeSessions.entries).countP_le

theorem count_set (s : LiopStreamBridge) (sessionId ip : JsString) (entry : SessionEntry) :
    (s.setSession sessionId entry).countSessionsByIp ip =
      (s.deleteSession sessionId).countSessionsByIp ip + if entry.clientIp = ip then 1 else 0 := by
  unfold countSessionsByIp setSession
  rw [AList.entries_insert, List.countP_cons]
  simp only [decide_eq_true_eq]
  rfl

/-- A stored session counts for its client. -/
theorem count_stored {entry : SessionEntry}
    (stored : s.activeSessions.lookup sessionId = some entry) (ip : JsString) :
    s.countSessionsByIp ip =
      (s.deleteSession sessionId).countSessionsByIp ip + if entry.clientIp = ip then 1 else 0 := by
  have member : ⟨sessionId, entry⟩ ∈ s.activeSessions.entries := AList.mem_lookup_iff.mp stored
  obtain ⟨found, front, back, -, split, erased⟩ :=
    List.exists_of_kerase (List.mem_keys_of_mem member)
  have same : entry = found := by
    refine List.NodupKeys.eq_of_mk_mem s.activeSessions.nodupKeys member ?_
    rw [split]
    exact List.mem_append_right front List.mem_cons_self
  unfold countSessionsByIp deleteSession
  dsimp only [AList.erase]
  rw [erased, split, same]
  simp only [List.countP_append, List.countP_cons, decide_eq_true_eq]
  omega

theorem count_touch (s : LiopStreamBridge) (sessionId ip : JsString) (now : Int) :
    (s.touch sessionId now).countSessionsByIp ip = s.countSessionsByIp ip := by
  unfold touch
  split
  case h_1 entry stored => rw [count_set, count_stored stored]
  case h_2 => rfl

theorem claimed_initialized (s : LiopStreamBridge) (clientIp sessionId ip : JsString) (now : Int) :
    (s.onSessionInitialized clientIp sessionId now).claimed ip ≤ s.claimed ip := by
  unfold onSessionInitialized
  split_ifs with waits
  · have counted := count_set { s with opening := s.opening.erase clientIp } sessionId ip
      ⟨now, clientIp⟩
    have erased : (deleteSession { s with opening := s.opening.erase clientIp }
        sessionId).countSessionsByIp ip ≤ s.countSessionsByIp ip := count_erase s sessionId ip
    have fewer : (s.opening.erase clientIp).count ip +
        (if clientIp = ip then 1 else 0) = s.opening.count ip := by
      split_ifs with same
      · rw [← same, List.count_erase_self]
        have := List.count_pos_iff.mpr waits
        omega
      · exact List.count_erase_of_ne (Ne.symm same)
    have kept : (setSession { s with opening := s.opening.erase clientIp } sessionId
      ⟨now, clientIp⟩).opening = s.opening.erase clientIp := rfl
    dsimp only at counted
    unfold claimed
    rw [counted, kept]
    omega
  · exact Nat.le_refl _

theorem opening_touch (s : LiopStreamBridge) (sessionId : JsString) (now : Int) :
    (s.touch sessionId now).opening = s.opening := by
  unfold touch
  split <;> rfl

/-! ### The cap -/

/-- No client has more sessions than the cap, counting those it may still get. -/
def Claims (maxSessionsPerIp : Nat) (s : LiopStreamBridge) : Prop :=
  ∀ ip, s.claimed ip ≤ maxSessionsPerIp

def Capped (maxSessionsPerIp : Nat) (s : LiopStreamBridge) : Prop :=
  ∀ ip, s.countSessionsByIp ip ≤ maxSessionsPerIp

theorem Claims.capped {maxSessionsPerIp : Nat} (claims : Claims maxSessionsPerIp s) :
    Capped maxSessionsPerIp s := fun ip => Nat.le_of_add_right_le (claims ip)

/-- A request that passes finds room for its session beside those still to be opened. -/
def Careful (maxSessionsPerIp : Nat) (s : LiopStreamBridge) (event : SessionEvent) : Prop :=
  ∀ clientIp, event = .request clientIp → s.countSessionsByIp clientIp < maxSessionsPerIp →
    s.countSessionsByIp clientIp + s.opening.count clientIp < maxSessionsPerIp

section Options

variable {sessionTimeoutMs : Int} {maxSessionsPerIp : Nat}

/-- What a step adds to the claims of a client: one transport for a request that passes. -/
theorem claimed_step (s : LiopStreamBridge) (event : SessionEvent) (ip : JsString) :
    (s.step sessionTimeoutMs maxSessionsPerIp event).claimed ip ≤ s.claimed ip ∨
      event = .request ip ∧ s.countSessionsByIp ip < maxSessionsPerIp ∧
        (s.step sessionTimeoutMs maxSessionsPerIp event).claimed ip = s.claimed ip + 1 := by
  cases event with
  | request clientIp =>
    dsimp only [step, onRequest]
    split_ifs with full
    · exact .inl (Nat.le_refl _)
    · by_cases same : clientIp = ip
      · subst same
        refine .inr ⟨rfl, Nat.lt_of_not_le full, ?_⟩
        unfold claimed
        rw [List.count_cons_self]
        rfl
      · left
        unfold claimed
        rw [List.count_cons_of_ne same]
        exact Nat.le_refl _
  | initialized clientIp sessionId now =>
    exact .inl (claimed_initialized s clientIp sessionId ip now)
  | dropped clientIp =>
    exact .inl (Nat.add_le_add_left (List.erase_sublist.count_le ip) _)
  | routed sessionId now =>
    left
    dsimp only [step]
    unfold claimed
    rw [count_touch, opening_touch]
  | deleted sessionId => exact .inl (Nat.add_le_add_right (count_erase s sessionId ip) _)
  | closed sessionId => exact .inl (Nat.add_le_add_right (count_erase s sessionId ip) _)
  | evictIdleSessions now =>
    exact .inl (Nat.add_le_add_right List.filter_sublist.countP_le _)

theorem step_claims (s : LiopStreamBridge) (event : SessionEvent)
    (claims : Claims maxSessionsPerIp s) (careful : Careful maxSessionsPerIp s event) :
    Claims maxSessionsPerIp (s.step sessionTimeoutMs maxSessionsPerIp event) := by
  intro ip
  obtain kept | ⟨rfl, passes, more⟩ :=
    @claimed_step sessionTimeoutMs maxSessionsPerIp s event ip
  · exact kept.trans (claims ip)
  · rw [more]
    exact careful ip rfl passes

theorem empty_claims : Claims maxSessionsPerIp empty := fun _ => Nat.zero_le _

/-! ### Requests that come too close -/

/-- A session id that is in no use. -/
theorem exists_fresh (s : LiopStreamBridge) : ∃ sessionId, sessionId ∉ s.activeSessions := by
  obtain ⟨sessionId, fresh⟩ := Infinite.exists_notMem_finset s.activeSessions.keys.toFinset
  exact ⟨sessionId, fun member => fresh (List.mem_toFinset.mpr member)⟩

/-- Each waiting transport of a client can still open a session. -/
theorem open_all (n : Nat) (s : LiopStreamBridge) (ip : JsString)
    (enough : n ≤ s.opening.count ip) : ∃ events,
      (run (step sessionTimeoutMs maxSessionsPerIp) s events).countSessionsByIp ip =
        s.countSessionsByIp ip + n := by
  induction n generalizing s with
  | zero => exact ⟨[], rfl⟩
  | succ n ih =>
    obtain ⟨sessionId, fresh⟩ := exists_fresh s
    have waits : ip ∈ s.opening := List.count_pos_iff.mp (by omega)
    have opened : s.onSessionInitialized ip sessionId 0 =
        ({ s with opening := s.opening.erase ip }.setSession sessionId ⟨0, ip⟩) := if_pos waits
    obtain ⟨events, reached⟩ := ih (s.onSessionInitialized ip sessionId 0) (by
      rw [opened]
      show n ≤ (s.opening.erase ip).count ip
      rw [List.count_erase_self]
      omega)
    refine ⟨.initialized ip sessionId 0 :: events, reached.trans ?_⟩
    have counted : (s.onSessionInitialized ip sessionId 0).countSessionsByIp ip =
        s.countSessionsByIp ip + 1 := by
      rw [opened]
      unfold countSessionsByIp setSession
      rw [AList.entries_insert_of_notMem fresh, List.countP_cons, if_pos (decide_eq_true rfl)]
    omega

/-- After a request that passes beside too many others, all of them can open their sessions. -/
theorem careless_exceeds {clientIp : JsString}
    (passes : s.countSessionsByIp clientIp < maxSessionsPerIp)
    (crowded : maxSessionsPerIp ≤ s.countSessionsByIp clientIp + s.opening.count clientIp) :
    ∃ later, ¬ Capped maxSessionsPerIp
      (run (step sessionTimeoutMs maxSessionsPerIp) s (.request clientIp :: later)) := by
  have admitted : s.step sessionTimeoutMs maxSessionsPerIp (.request clientIp) =
      { s with opening := clientIp :: s.opening } := if_neg (Nat.not_le_of_lt passes)
  obtain ⟨later, opened⟩ := @open_all sessionTimeoutMs maxSessionsPerIp
    (s.opening.count clientIp + 1) { s with opening := clientIp :: s.opening } clientIp
    (Nat.le_of_eq List.count_cons_self.symm)
  refine ⟨later, fun capped => ?_⟩
  have bound := capped clientIp
  rw [run, List.foldl_cons, admitted, ← run, opened] at bound
  have same : countSessionsByIp { s with opening := clientIp :: s.opening } clientIp =
    s.countSessionsByIp clientIp := rfl
  omega

/-- In every run whose requests are admitted with room for those under way, no client ever has
more sessions than the cap; and after any other request that is admitted, one can. -/
theorem run_capped (sessionTimeoutMs : Int) (maxSessionsPerIp : Nat)
    (events : List SessionEvent) :
    (Allowed (step sessionTimeoutMs maxSessionsPerIp) (Careful maxSessionsPerIp) empty events →
      ∀ before, before <+: events →
        Capped maxSessionsPerIp (run (step sessionTimeoutMs maxSessionsPerIp) empty before)) ∧
    ∀ event, ¬ Careful maxSessionsPerIp
        (run (step sessionTimeoutMs maxSessionsPerIp) empty events) event →
      ∃ later, ¬ Capped maxSessionsPerIp (run (step sessionTimeoutMs maxSessionsPerIp) empty
        (events ++ event :: later)) := by
  constructor
  · intro careful before visited
    exact (visited_invariant step_claims empty_claims careful visited).capped
  · intro event careless
    unfold Careful at careless
    push Not at careless
    obtain ⟨clientIp, rfl, passes, crowded⟩ := careless
    obtain ⟨later, exceeded⟩ := careless_exceeds passes crowded
    refine ⟨later, ?_⟩
    rwa [run_append]

end Options

/-! ### Runs with a cap of one -/

/-- The second request comes after the session of the first is open, and is refused. -/
def oneByOne : List SessionEvent :=
  [.request (js "10.0.0.7"), .initialized (js "10.0.0.7") (js "a") 0, .request (js "10.0.0.7")]

theorem oneByOne_capped : Capped 1 (run (step 1800000 1) empty oneByOne) := by
  refine (run_capped 1800000 1 oneByOne).1 ⟨?_, ?_, ?_, trivial⟩ _ (List.prefix_refl _)
  · rintro _ ⟨⟩ -
    decide +kernel
  · exact nofun
  · rintro _ ⟨⟩ passes
    exact absurd passes (by decide +kernel)

/-- Two requests pass before either session is open. -/
theorem twoAtOnce_uncapped : ¬ Capped 1 (run (step 1800000 1) empty
    [.request (js "10.0.0.7"), .request (js "10.0.0.7"),
      .initialized (js "10.0.0.7") (js "a") 0, .initialized (js "10.0.0.7") (js "b") 0]) := by
  intro capped
  exact absurd (capped (js "10.0.0.7")) (by decide +kernel)

end LiopStreamBridge
end NeuralMesh.Bridge
