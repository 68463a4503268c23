import NeuralMesh.Gateway.DiscoveryRuns

/-! When discoveries ask a peer for its manifest: not in its cooldown, which doubles with every
failure, and not while its manifest is fresh. -/
namespace NeuralMesh.Gateway.Discovery

open Js Crypto Backoff Transition

variable {I : Type} [DecidableEq I]

/-! ### The record of failures -/

/-- The record that the attempts of a peer leave. -/
def standing (attempts : List Attempt) : Option Record :=
  recordAfter MANIFEST_FAILURE_BASE_COOLDOWN_MS MANIFEST_FAILURE_MAX_COOLDOWN_MS attempts

namespace ManifestFailures

variable (states : ManifestFailures) (peerId : PeerId) (now : Nat)

/-- Noting a logged skip leaves every record. -/
theorem shouldSkip_record (other : PeerId) :
    (states.shouldSkipManifestQuery peerId now).2.record other = states.record other := by
  unfold shouldSkipManifestQuery
  cases known : states peerId with
  | none => rfl
  | some state =>
    dsimp only
    split_ifs
    · rfl
    · unfold record
      by_cases same : other = peerId
      · subst same
        simp only [Function.update_self, known, Option.map_some]
      · simp only [Function.update_of_ne same]
    · rfl

theorem cooled_of_asked (asked : (states.shouldSkipManifestQuery peerId now).1 = false) :
    cooldownUntil (states.record peerId) ≤ now := by
  unfold shouldSkipManifestQuery at asked
  unfold record
  cases known : states peerId with
  | none => exact Nat.zero_le now
  | some state =>
    rw [known] at asked
    dsimp only at asked
    split_ifs at asked with ended
    exact ended

theorem record_failure : (states.recordManifestQueryFailure peerId now).record peerId =
    some (onFailure MANIFEST_FAILURE_BASE_COOLDOWN_MS MANIFEST_FAILURE_MAX_COOLDOWN_MS
      (states.record peerId) now) := by
  unfold recordManifestQueryFailure
  rw [record, Function.update_self]
  rfl

theorem record_success : (states.recordManifestQuerySuccess peerId).record peerId = none := by
  unfold recordManifestQuerySuccess
  rw [record, Function.update_self]
  rfl

theorem record_update {other : PeerId} (differ : other ≠ peerId) (state : Option ManifestFailure) :
    record (Function.update states peerId state) other = states.record other := by
  rw [record, Function.update_of_ne differ]
  rfl

end ManifestFailures

section Eligible

variable (selfId : PeerId) (now : Nat) (cache : Cache)

theorem eligible_record (providerIds : List PeerId) (states : ManifestFailures) (peerId : PeerId) :
    (eligible selfId now cache providerIds states).2.record peerId = states.record peerId := by
  induction providerIds generalizing states with
  | nil => rfl
  | cons first providerIds ih =>
    rw [eligible]
    split_ifs
    · exact ih states
    · dsimp only
      split_ifs
      · exact (ih _).trans (states.shouldSkip_record first now peerId)
      · exact (ih _).trans (states.shouldSkip_record first now peerId)

theorem eligible_sublist (providerIds : List PeerId) (states : ManifestFailures) :
    (eligible selfId now cache providerIds states).1.Sublist providerIds := by
  induction providerIds generalizing states with
  | nil => exact List.nil_sublist _
  | cons first providerIds ih =>
    rw [eligible]
    split_ifs
    · exact (ih states).cons first
    · dsimp only
      split_ifs
      · exact (ih _).cons first
      · exact (ih _).cons_cons first

/-- A peer that is asked is another node, out of its cooldown, and not fresh in the cache. -/
theorem eligible_asked {providerIds : List PeerId} {states : ManifestFailures} {peerId : PeerId}
    (asked : peerId ∈ (eligible selfId now cache providerIds states).1) :
    peerId ≠ selfId ∧ cooldownUntil (states.record peerId) ≤ now ∧
      fresh cache peerId now = false := by
  induction providerIds generalizing states with
  | nil => cases asked
  | cons first providerIds ih =>
    rw [eligible] at asked
    have later : peerId ∈ (eligible selfId now cache providerIds
        (states.shouldSkipManifestQuery first now).2).1 →
        peerId ≠ selfId ∧ cooldownUntil (states.record peerId) ≤ now ∧
          fresh cache peerId now = false := by
      intro inside
      obtain ⟨remote, cooled, stale⟩ := ih inside
      rw [states.shouldSkip_record] at cooled
      exact ⟨remote, cooled, stale⟩
    split_ifs at asked with own
    · exact ih asked
    · dsimp only at asked
      split_ifs at asked with skipped
      · exact later asked
      · rcases List.mem_cons.mp asked with rfl | inside
        · obtain ⟨dialled, stale⟩ := Bool.or_eq_false_iff.mp (eq_false_of_ne_true skipped)
          exact ⟨own, states.cooled_of_asked peerId now dialled, stale⟩
        · exact later inside

end Eligible

theorem lookup_entry (peerId other : PeerId) (entry : CacheEntry) (cache : Cache) :
    List.lookup other ((peerId, entry) :: cache) =
      if other = peerId then some entry else cache.lookup other := by
  rw [List.lookup_cons]
  split_ifs with same
  · rw [beq_iff_eq.mpr same]
  · rw [beq_false_of_ne same]

theorem lookup_set (cache : Cache) (peerId other : PeerId) (entry : CacheEntry) :
    (cache.set peerId entry).lookup other =
      if other = peerId then some entry else cache.lookup other := by
  induction cache with
  | nil => exact lookup_entry peerId other entry []
  | cons first cache ih =>
    obtain ⟨p, e⟩ := first
    rw [Cache.set]
    by_cases found : p = peerId
    · rw [if_pos found, lookup_entry, lookup_entry, found]
      split_ifs <;> rfl
    · rw [if_neg found, lookup_entry, lookup_entry, ih]
      by_cases same : other = p
      · rw [if_pos same, if_neg (fun equal => found (same.symm.trans equal)), if_pos same]
      · rw [if_neg same, if_neg same]

/-! ### When a peer may be asked -/

/-- The peer may be asked: it is out of its cooldown, and its last answer is old. -/
structure Ready (attempts : List Attempt) (asked : Nat) : Prop where
  cooled : cooldownUntil (standing attempts) ≤ asked
  stale : ∀ a ∈ attempts, a.failed = false → a.settled + MANIFEST_CACHE_TTL_S * 1000 ≤ asked

/-- Each time the peer was asked, it was ready. -/
structure Disciplined (attempts : List Attempt) : Prop where
  respected : Respected MANIFEST_FAILURE_BASE_COOLDOWN_MS MANIFEST_FAILURE_MAX_COOLDOWN_MS attempts
  stale : attempts.Pairwise fun a b =>
    a.failed = false → a.settled + MANIFEST_CACHE_TTL_S * 1000 ≤ b.asked

theorem Ready.disciplined {attempts : List Attempt} {asked now : Nat} (ready : Ready attempts asked)
    (disciplined : Disciplined attempts) (later : asked ≤ now) (failed : Bool) :
    Disciplined (attempts ++ [⟨asked, now, failed⟩]) where
  respected := disciplined.respected.snoc later ready.cooled
  stale := by
    refine List.pairwise_append.mpr ⟨disciplined.stale, List.pairwise_singleton _ _, ?_⟩
    intro a earlier b last answered
    obtain rfl := List.mem_singleton.mp last
    exact ready.stale a earlier answered

/-- What the router stores about a peer agrees with the attempts. -/
structure Tracked (cache : Cache) (states : ManifestFailures) (attempts : PeerId → List Attempt)
    (peerId : PeerId) : Prop where
  record : states.record peerId = standing (attempts peerId)
  cached : ∀ a ∈ attempts peerId, a.failed = false →
    ∃ entry, cache.lookup peerId = some entry ∧ a.settled ≤ entry.cachedAt
  disciplined : Disciplined (attempts peerId)

theorem Tracked.ready {cache : Cache} {states : ManifestFailures}
    {attempts : PeerId → List Attempt} {peerId : PeerId} {now : Nat}
    (tracked : Tracked cache states attempts peerId)
    (cooled : cooldownUntil (states.record peerId) ≤ now) (old : fresh cache peerId now = false) :
    Ready (attempts peerId) now where
  cooled := tracked.record ▸ cooled
  stale := by
    intro a member answered
    obtain ⟨entry, found, later⟩ := tracked.cached a member answered
    unfold fresh at old
    rw [found] at old
    have age := of_decide_eq_false old
    simp only [MANIFEST_CACHE_TTL_S] at age ⊢
    omega

/-- The results of a discovery and what is still to be settled. -/
structure Settling (asked now : Nat) (peers : List PeerId) (results : Results) : Prop where
  tracked : ∀ peerId, Tracked results.manifestCache results.manifestFailureState results.attempts
    peerId
  past : ∀ peerId, ∀ a ∈ results.attempts peerId, a.settled ≤ now
  ready : ∀ peerId ∈ peers, Ready (results.attempts peerId) asked

/-- The attempt of a peer that was ready settles. -/
theorem Settling.attempt {asked now : Nat} {peerId : PeerId} {peers : List PeerId}
    {results results' : Results} (settling : Settling asked now (peerId :: peers) results)
    (later : asked ≤ now) (fresh : peerId ∉ peers) {failed : Bool}
    (attempts : results'.attempts = results.attempt peerId asked now failed)
    (record : ∀ other, results'.manifestFailureState.record other =
      if other = peerId then onAttempt MANIFEST_FAILURE_BASE_COOLDOWN_MS
        MANIFEST_FAILURE_MAX_COOLDOWN_MS (results.manifestFailureState.record peerId)
        ⟨asked, now, failed⟩
      else results.manifestFailureState.record other)
    (cached : ∀ other entry, results.manifestCache.lookup other = some entry →
      other ≠ peerId ∨ failed = true → results'.manifestCache.lookup other = some entry)
    (stored : failed = false → ∃ entry, results'.manifestCache.lookup peerId = some entry ∧
      now ≤ entry.cachedAt) : Settling asked now peers results' := by
  have own : results'.attempts peerId = results.attempts peerId ++ [⟨asked, now, failed⟩] := by
    rw [attempts, Results.attempt, Function.update_self]
  have others : ∀ other, other ≠ peerId → results'.attempts other = results.attempts other := by
    intro other differ
    rw [attempts, Results.attempt, Function.update_of_ne differ]
  refine ⟨fun other => ?_, fun other => ?_, fun other inside => ?_⟩
  · have before := settling.tracked other
    by_cases same : other = peerId
    · subst same
      refine ⟨?_, fun a member answered => ?_, ?_⟩
      · rw [record, if_pos rfl, own, before.record, standing, standing, recordAfter_append]
      · rw [own] at member
        cases failed with
        | false =>
          obtain ⟨entry, found, at_⟩ := stored rfl
          refine ⟨entry, found, le_trans ?_ at_⟩
          rcases List.mem_append.mp member with earlier | last
          · exact settling.past other a earlier
          · obtain rfl := List.mem_singleton.mp last
            exact Nat.le_refl now
        | true =>
          rcases List.mem_append.mp member with earlier | last
          · obtain ⟨entry, found, at_⟩ := before.cached a earlier answered
            exact ⟨entry, cached other entry found (.inr rfl), at_⟩
          · obtain rfl := List.mem_singleton.mp last
            cases answered
      · rw [own]
        exact (settling.ready other List.mem_cons_self).disciplined before.disciplined later failed
    · refine ⟨?_, fun a member answered => ?_, ?_⟩
      · rw [record, if_neg same, others other same]
        exact before.record
      · rw [others other same] at member
        obtain ⟨entry, found, at_⟩ := before.cached a member answered
        exact ⟨entry, cached other entry found (.inl same), at_⟩
      · rw [others other same]
        exact before.disciplined
  · intro a member
    by_cases same : other = peerId
    · subst same
      rw [own] at member
      rcases List.mem_append.mp member with earlier | last
      · exact settling.past other a earlier
      · obtain rfl := List.mem_singleton.mp last
        exact Nat.le_refl now
    · rw [others other same] at member
      exact settling.past other a member
  · have differ : other ≠ peerId := fun same => fresh (same ▸ inside)
    rw [others other differ]
    exact settling.ready other (List.mem_cons_of_mem _ inside)

theorem Settling.fail {asked now : Nat} {peerId : PeerId} {peers : List PeerId} {results : Results}
    (settling : Settling asked now (peerId :: peers) results) (later : asked ≤ now)
    (fresh : peerId ∉ peers) : Settling asked now peers (results.fail peerId asked now) := by
  refine settling.attempt later fresh rfl (fun other => ?_) (fun _ _ found _ => found) nofun
  split_ifs with same
  · rw [same]
    exact results.manifestFailureState.record_failure peerId now
  · exact results.manifestFailureState.record_update peerId same _

theorem Settling.store {asked now : Nat} {peerId : PeerId} {peers : List PeerId} {results : Results}
    (settling : Settling asked now (peerId :: peers) results) (later : asked ≤ now)
    (fresh : peerId ∉ peers) (manifest : JsValue) :
    Settling asked now peers (results.store peerId asked now manifest) := by
  refine settling.attempt later fresh rfl (fun other => ?_) (fun other entry found kept => ?_)
    fun _ => ⟨⟨manifest, now⟩, (lookup_set ..).trans (if_pos rfl), Nat.le_refl now⟩
  · split_ifs with same
    · rw [same]
      exact results.manifestFailureState.record_success peerId
    · exact results.manifestFailureState.record_update peerId same _
  · have differ : other ≠ peerId := kept.resolve_right nofun
    exact (lookup_set ..).trans ((if_neg differ).trans found)

theorem settle_settling {lib : Library} {asked now : Nat} {answers : PeerId → Answer}
    {peers : List PeerId} {results : Results} (later : asked ≤ now) (distinct : peers.Nodup)
    (settling : Settling asked now peers results) :
    Settling asked now [] (settle lib asked now answers peers results).1 := by
  induction peers generalizing results with
  | nil => exact settling
  | cons peerId peers ih =>
    obtain ⟨fresh, distinct⟩ := List.nodup_cons.mp distinct
    unfold settle
    cases answer : answers peerId with
    | rejected =>
      exact ih distinct ⟨settling.tracked, settling.past,
        fun other inside => settling.ready other (List.mem_cons_of_mem _ inside)⟩
    | null => exact ih distinct (settling.fail later fresh)
    | manifest manifest =>
      have stored := settling.store later fresh manifest
      dsimp only
      split_ifs
      · exact ih distinct (settling.fail later fresh)
      · exact ih distinct stored
      · exact ⟨stored.tracked, stored.past, by rintro other ⟨⟩⟩

/-! ### Runs -/

def Event.time : Event I → Nat
  | call _ _ env | resume _ env => env.now
  | route _ _ now => now

namespace LiopMcpRouter

variable {lib : Library} {selfId : PeerId} {router : LiopMcpRouter I} {i : I}

/-- The peers that are being asked were ready when they were asked. -/
structure Asking (selfId : PeerId) (attempts : PeerId → List Attempt) (asked : Nat)
    (peers : List PeerId) : Prop where
  distinct : peers.Nodup
  remote : selfId ∉ peers
  ready : ∀ peerId ∈ peers, Ready (attempts peerId) asked

/-- The state at a time, after all that was attempted before. -/
structure Paced (selfId : PeerId) (clock : Nat) (router : LiopMcpRouter I) : Prop where
  shared : router.Shared
  tracked : ∀ peerId, Tracked router.manifestCache router.manifestFailureState router.attempts
    peerId
  past : ∀ peerId, ∀ a ∈ router.attempts peerId, a.settled ≤ clock
  pending : ∀ i asked peers, (router.calls i).queries = some (asked, peers) →
    asked ≤ clock ∧ Asking selfId router.attempts asked peers

omit [DecidableEq I] in
theorem start_paced (selfId : PeerId) : (start : LiopMcpRouter I).Paced selfId 0 where
  shared := start_shared
  tracked := fun _ => ⟨rfl, by rintro _ ⟨⟩, ⟨Respected.nil, List.Pairwise.nil⟩⟩
  past := by rintro _ _ ⟨⟩
  pending := by rintro _ _ _ ⟨⟩

section Pending

variable {clock now : Nat} {phase : Phase}

/-- A call comes to another phase; what it asks, if anything, it asks now. -/
theorem Paced.wait (paced : router.Paced selfId clock) (later : clock ≤ now)
    {calls : I → Phase} (moved : calls = Function.update router.calls i phase)
    (asks : ∀ asked peers, phase.queries = some (asked, peers) →
      asked ≤ now ∧ Asking selfId router.attempts asked peers) (j : I) (asked : Nat)
    (peers : List PeerId) (querying : (calls j).queries = some (asked, peers)) :
    asked ≤ now ∧ Asking selfId router.attempts asked peers := by
  rw [moved] at querying
  by_cases same : j = i
  · subst same
    rw [Function.update_self] at querying
    exact asks asked peers querying
  · rw [Function.update_of_ne same] at querying
    obtain ⟨before, asking⟩ := paced.pending j asked peers querying
    exact ⟨before.trans later, asking⟩

omit [DecidableEq I] in
theorem quiet_asks (quiet : phase.queries = none) (asked : Nat) (peers : List PeerId)
    (querying : phase.queries = some (asked, peers)) :
    asked ≤ now ∧ Asking selfId router.attempts asked peers := by
  rw [quiet] at querying
  cases querying

end Pending

theorem resumed_paced {clock : Nat} {env : Environment} {router' : LiopMcpRouter I}
    (paced : router.Paced selfId clock) (later : clock ≤ env.now)
    (inside : (router.calls i).running = true) (tooled : (Event.resume i env).Tooled)
    (resumed : Resumed lib selfId env router i router') : router'.Paced selfId env.now := by
  have shared := resumed_shared paced.shared inside tooled resumed
  have past : ∀ peerId, ∀ a ∈ router.attempts peerId, a.settled ≤ env.now :=
    fun peerId a member => (paced.past peerId a member).trans later
  cases resumed with
  | waits phase follows quiet =>
    exact ⟨shared, paced.tracked, past, paced.wait later rfl (quiet_asks quiet)⟩
  | finishes => exact ⟨shared, paced.tracked, past, paced.wait later rfl (quiet_asks rfl)⟩
  | asks prevCount providerIds distinct =>
    have recorded := eligible_record selfId env.now router.manifestCache providerIds
      router.manifestFailureState
    refine ⟨shared, fun peerId => ?_, past, paced.wait later rfl ?_⟩
    · have tracked := paced.tracked peerId
      exact ⟨(recorded peerId).trans tracked.record, tracked.cached, tracked.disciplined⟩
    · intro asked peers querying
      cases querying
      have each : ∀ {peerId}, peerId ∈ _ → _ := @eligible_asked selfId env.now
        router.manifestCache providerIds router.manifestFailureState
      refine ⟨Nat.le_refl _, ?_, fun own => (each own).1 rfl, fun peerId member => ?_⟩
      · exact (eligible_sublist ..).nodup distinct
      · obtain ⟨-, cooled, stale⟩ := each member
        exact (paced.tracked peerId).ready cooled stale
  | settles prevCount asked eligiblePeers asking =>
    obtain ⟨toolsChanged, settled⟩ := settled_eq lib router i prevCount asked eligiblePeers env
    rw [settled] at shared ⊢
    obtain ⟨before, asked_⟩ := paced.pending i asked eligiblePeers (congrArg Phase.queries asking)
    have settling : Settling asked env.now [] (results lib router asked eligiblePeers env) :=
      settle_settling (before.trans later) asked_.distinct
        ⟨paced.tracked, past, asked_.ready⟩
    refine ⟨shared, settling.tracked, settling.past, fun j since peers querying => ?_⟩
    -- no other call asks at the same time
    have other : Function.update router.calls i .returned j = .returned ∨
        (Function.update router.calls i .returned j).running = false := by
      by_cases same : j = i
      · exact .inl (same ▸ Function.update_self ..)
      · rw [Function.update_of_ne same]
        refine .inr (eq_false_of_ne_true fun running => same ?_)
        exact paced.shared.exclusive.unique running inside
    have querying : (Function.update router.calls i .returned j).queries = some (since, peers) :=
      querying
    generalize Function.update router.calls i .returned j = phase at other querying
    cases phase with
    | querying => rcases other with ended | ended <;> cases ended
    | uncalled | connecting | searching | retrying | cooling | returned => cases querying

theorem step_paced (lib : Library) (selfId : PeerId) (clock : Nat) (router : LiopMcpRouter I)
    (event : Event I) (paced : router.Paced selfId clock) (later : clock ≤ event.time)
    (tooled : event.Tooled) : (router.step lib selfId event).Paced selfId event.time := by
  have shared := step_shared lib selfId router event paced.shared tooled
  have past : ∀ peerId, ∀ a ∈ router.attempts peerId, a.settled ≤ event.time :=
    fun peerId a member => (paced.past peerId a member).trans later
  have unmoved : router.Paced selfId event.time := ⟨paced.shared, paced.tracked, past,
    fun j asked peers querying =>
      (paced.pending j asked peers querying).imp_left (Nat.le_trans · later)⟩
  cases event with
  | call i silent env =>
    unfold step at shared ⊢
    dsimp only at shared ⊢
    split at shared
    next uncalled =>
      obtain ⟨phase, raised, moved, begins⟩ := refreshManifestCache_begins router i silent env
      rw [moved] at shared ⊢
      exact ⟨shared, paced.tracked, past, paced.wait later rfl (quiet_asks begins.quiet)⟩
    next => exact unmoved
  | resume i env =>
    show (router.resume i lib selfId env).Paced selfId env.now
    by_cases inside : (router.calls i).running = true
    · exact resumed_paced paced later inside tooled
        (resume_resumed lib selfId env router i inside)
    · rw [resume_idle lib selfId router i env (eq_false_of_ne_true inside)]
      exact unmoved
  | route peerId manifest now =>
    unfold step at shared ⊢
    dsimp only at shared ⊢
    split_ifs at shared ⊢
    · refine ⟨shared, fun other => ?_, past, unmoved.pending⟩
      have tracked := paced.tracked other
      refine ⟨tracked.record, fun a member answered => ?_, tracked.disciplined⟩
      rw [lookup_set]
      split_ifs with same
      · exact ⟨_, rfl, past other a member⟩
      · exact tracked.cached a member answered
    · exact unmoved

theorem run_paced (lib : Library) (selfId : PeerId) {events : List (Event I)}
    (ordered : (events.map Event.time).Pairwise (· ≤ ·))
    (obtained : ∀ event ∈ events, event.Obtained) :
    ∃ clock, (run (step lib selfId) (start : LiopMcpRouter I) events).Paced selfId clock :=
  run_timed (fun clock router event => step_paced lib selfId clock router event)
    (start_paced selfId)
    (List.pairwise_cons.mpr ⟨fun _ _ => Nat.zero_le _, ordered⟩)
    (Allowed.of_forall (fun event member _ => (obtained event member).tooled) _)

/-- In every run, whatever is interleaved: behind `n` failures in a row a peer is not asked again
before the `n` delays from 15 s on, doubling up to 5 min, have passed since the first of them was
asked; and behind an answer not for 5 min. -/
theorem run_spaced (lib : Library) (selfId : PeerId) {events : List (Event I)}
    (ordered : (events.map Event.time).Pairwise (· ≤ ·))
    (obtained : ∀ event ∈ events, event.Obtained) (peerId : PeerId)
    {before failing after : List Attempt} {first last : Attempt}
    (attempts : (run (step lib selfId) (start : LiopMcpRouter I) events).attempts peerId =
      before ++ first :: failing ++ last :: after) :
    (first.failed = true ∧ (∀ a ∈ failing, a.failed = true) →
      first.asked + delays 15000 300000 (failing.length + 1) ≤ last.asked) ∧
    (first.failed = false → first.settled + 300000 ≤ last.asked) := by
  obtain ⟨clock, paced⟩ := run_paced lib selfId ordered obtained
  have disciplined := (paced.tracked peerId).disciplined
  rw [attempts] at disciplined
  refine ⟨disciplined.respected.spaced, fun answered => ?_⟩
  obtain ⟨-, -, across⟩ := List.pairwise_append.mp disciplined.stale
  exact across first (List.mem_append_right _ List.mem_cons_self) last List.mem_cons_self answered

/-- A peer that fails twice. -/
def failing : List (Event Nat) :=
  [.call 0 true (onePeer 0 .null), .resume 0 (onePeer 0 .null), .resume 0 (onePeer 7 .null),
    .call 1 true (onePeer 15007 .null), .resume 1 (onePeer 15007 .null),
    .resume 1 (onePeer 15020 .null)]

theorem failing_spaced : 0 + delays 15000 300000 1 ≤ 15007 := by
  have obtained : ∀ event ∈ failing, event.Obtained := by
    simp only [failing, List.forall_mem_cons]
    refine ⟨trivial, ?_, ?_, trivial, ?_, ?_, by rintro _ ⟨⟩⟩
    all_goals rintro _ _ ⟨⟩
  have attempts : (run (step (attestingLibrary []) (js "self")) start failing).attempts
      (js "peer") = [] ++ ⟨0, 7, true⟩ :: [] ++ ⟨15007, 15020, true⟩ :: [] := rfl
  exact (run_spaced (attestingLibrary []) (js "self") (by decide) obtained (js "peer")
    attempts).1 ⟨rfl, by rintro _ ⟨⟩⟩

end LiopMcpRouter

end NeuralMesh.Gateway.Discovery
