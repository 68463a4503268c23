import NeuralMesh.Gateway.Discovery
import NeuralMesh.Mesh.ManifestFraming

/-! Runs of the discovery of manifests, with the calls of any number of clients in any order of
their steps. -/
namespace NeuralMesh.Gateway.Discovery

open Js Crypto Backoff Transition

variable {I : Type} [DecidableEq I]

/-! ### What a step of a discovery does -/

/-- The tool count at the beginning of a running discovery. -/
def Phase.prevCount : Phase → Option Count
  | uncalled | returned => none
  | connecting prevCount _ | searching prevCount _ _ _ | retrying prevCount _ _ _
  | cooling prevCount _ _ | querying prevCount _ _ => some prevCount

/-- The peers that are being asked, and since when. -/
def Phase.queries : Phase → Option (Nat × List PeerId)
  | querying _ asked eligiblePeers => some (asked, eligiblePeers)
  | _ => none

/-- A bound on the steps that the body still takes. -/
def Phase.remaining : Phase → Nat
  | uncalled | returned => 0
  | connecting _ i => 51 + (2 - i)
  | searching _ maxColdAttempts coldAttempt attempt =>
    10 * (maxColdAttempts - 1 - coldAttempt) + 2 * (4 - attempt) + 2
  | retrying _ maxColdAttempts coldAttempt attempt =>
    10 * (maxColdAttempts - 1 - coldAttempt) + 2 * (3 - attempt) + 3
  | cooling _ maxColdAttempts coldAttempt => 10 * (maxColdAttempts - 2 - coldAttempt) + 11
  | querying .. => 1

/-- The phase comes later in the same discovery. -/
structure Phase.Follows (later earlier : Phase) : Prop where
  running : later.running = true
  prevCount : later.prevCount = earlier.prevCount
  remaining : later.remaining < earlier.remaining

/-- What a step makes of a running discovery. -/
inductive Resumed (lib : Library) (selfId : PeerId) (env : Environment) (router : LiopMcpRouter I)
    (i : I) : LiopMcpRouter I → Prop where
  | waits (phase : Phase) (follows : phase.Follows (router.calls i)) (quiet : phase.queries = none) :
    Resumed lib selfId env router i (router.wait i phase)
  | finishes : Resumed lib selfId env router i (router.finish i)
  | asks (prevCount : Count) (providerIds : List PeerId) (distinct : providerIds.Nodup)
    (same : (router.calls i).prevCount = some prevCount) (later : 1 < (router.calls i).remaining) :
    Resumed lib selfId env router i
      { router.wait i (.querying prevCount env.now
          (eligible selfId env.now router.manifestCache providerIds router.manifestFailureState).1)
        with manifestFailureState :=
          (eligible selfId env.now router.manifestCache providerIds router.manifestFailureState).2 }
  | settles (prevCount : Count) (asked : Nat) (eligiblePeers : List PeerId)
    (asking : router.calls i = .querying prevCount asked eligiblePeers) :
    Resumed lib selfId env router i (router.settled i lib prevCount asked eligiblePeers env)

theorem setAdd_nodup {set : List PeerId} (distinct : set.Nodup) (element : PeerId) :
    (setAdd set element).Nodup := by
  unfold setAdd
  split_ifs with known
  · exact distinct
  · refine List.nodup_append.mpr ⟨distinct, List.nodup_singleton element, ?_⟩
    rintro a member b rfl' same
    subst same
    exact known (List.mem_singleton.mp rfl' ▸ member)

theorem foldl_setAdd_nodup {set : List PeerId} (distinct : set.Nodup) (elements : List PeerId) :
    (elements.foldl setAdd set).Nodup := by
  induction elements generalizing set with
  | nil => exact distinct
  | cons element elements ih => exact ih (setAdd_nodup distinct element)

theorem mergePeers_nodup {providerIds : List PeerId} (distinct : providerIds.Nodup)
    (activePeers : List PeerId) : (mergePeers providerIds activePeers).Nodup := by
  unfold mergePeers
  split_ifs
  · exact distinct
  · exact foldl_setAdd_nodup List.nodup_nil _

theorem connectedFirst_nodup (connectedPeers : List PeerId) {providerIds : List PeerId}
    (distinct : providerIds.Nodup) : (connectedFirst connectedPeers providerIds).Nodup := by
  refine List.nodup_append.mpr ⟨distinct.filter _, distinct.filter _, ?_⟩
  intro a connected b other same
  subst same
  have inside := of_decide_eq_true (List.mem_filter.mp connected).2
  exact absurd inside (of_decide_eq_true (List.mem_filter.mp other).2)

section Steps

variable (lib : Library) (selfId : PeerId) (env : Environment) (router : LiopMcpRouter I) (i : I)

theorem query_resumed {prevCount : Count} {providerIds : List PeerId}
    (distinct : providerIds.Nodup) (same : (router.calls i).prevCount = some prevCount)
    (later : 1 < (router.calls i).remaining) :
    Resumed lib selfId env router i (router.query i selfId prevCount env providerIds) := by
  unfold LiopMcpRouter.query
  split_ifs
  · exact .finishes
  · exact .asks prevCount _ (connectedFirst_nodup env.connections distinct) same later

theorem found_resumed {prevCount : Count} {maxColdAttempts coldAttempt attempt : Nat}
    {providerIds : List PeerId}
    (searching : router.calls i = .searching prevCount maxColdAttempts coldAttempt attempt)
    (distinct : providerIds.Nodup) :
    Resumed lib selfId env router i (router.found i selfId prevCount maxColdAttempts coldAttempt
      attempt env providerIds) := by
  unfold LiopMcpRouter.found
  dsimp only
  split_ifs with again more
  · refine .waits _ ⟨rfl, ?_, ?_⟩ rfl
    · rw [searching]
      rfl
    · rw [searching]
      simp only [Phase.remaining]
      have early : attempt < 4 := again.2
      omega
  · refine .waits _ ⟨rfl, ?_, ?_⟩ rfl
    · rw [searching]
      rfl
    · rw [searching]
      simp only [Phase.remaining]
      omega
  · refine query_resumed lib selfId env router i (mergePeers_nodup distinct env.connections) ?_ ?_
    · rw [searching]
      rfl
    · rw [searching]
      simp only [Phase.remaining]
      omega

/-- A step of a discovery that is under way. -/
theorem resume_resumed (inside : (router.calls i).running = true) :
    Resumed lib selfId env router i (router.resume i lib selfId env) := by
  unfold LiopMcpRouter.resume
  cases waiting : router.calls i with
  | uncalled | returned =>
    rw [waiting] at inside
    cases inside
  | connecting prevCount k =>
    dsimp only
    have follows : ∀ phase : Phase, phase.running = true → phase.prevCount = some prevCount →
        phase.remaining < 51 + (2 - k) → phase.Follows (router.calls i) := by
      intro phase running same less
      rw [waiting]
      exact ⟨running, same, less⟩
    split_ifs with again
    · refine .waits _ (follows _ rfl rfl ?_) rfl
      simp only [Phase.remaining]
      omega
    · refine .waits _ (follows _ rfl rfl ?_) rfl
      by_cases cold : router.manifestCache = []
      · simp only [Phase.remaining, if_pos cold]
        omega
      · simp only [Phase.remaining, if_neg cold]
        omega
  | searching prevCount maxColdAttempts coldAttempt attempt =>
    dsimp only
    cases answered : env.providers with
    | none => exact .finishes
    | some providerIds =>
      exact found_resumed lib selfId env router i waiting (env.distinct providerIds answered)
  | retrying prevCount maxColdAttempts coldAttempt attempt =>
    refine .waits _ ⟨rfl, ?_, ?_⟩ rfl
    · rw [waiting]
      rfl
    · rw [waiting]
      simp only [Phase.remaining]
      omega
  | cooling prevCount maxColdAttempts coldAttempt =>
    refine .waits _ ⟨rfl, ?_, ?_⟩ rfl
    · rw [waiting]
      rfl
    · rw [waiting]
      simp only [Phase.remaining]
      omega
  | querying prevCount asked eligiblePeers => exact .settles prevCount asked eligiblePeers waiting

end Steps

/-! ### Every discovery ends -/

theorem Phase.remaining_pos {phase : Phase} (inside : phase.running = true) :
    0 < phase.remaining := by
  cases phase with
  | uncalled | returned => cases inside
  | connecting | searching | retrying | cooling | querying =>
    simp only [remaining]
    omega

/-- The event is a step of this call. -/
def Event.resumes (i : I) : Event I → Bool
  | resume j _ => j = i
  | _ => false

section Phases

variable (lib : Library) (selfId : PeerId) (router : LiopMcpRouter I) (i : I)

theorem wait_calls (phase : Phase) : (router.wait i phase).calls i = phase :=
  Function.update_self ..

theorem wait_calls_ne {i j : I} (differ : j ≠ i) (phase : Phase) :
    (router.wait i phase).calls j = router.calls j :=
  Function.update_of_ne differ ..

/-- The variables of the loop when the queries of a discovery have settled. -/
def results (asked : Nat) (eligiblePeers : List PeerId) (env : Environment) : Results :=
  (settle lib asked env.now env.answers eligiblePeers
    ⟨router.manifestCache, router.manifestFailureState, router.attempts, false⟩).1

theorem settled_eq (prevCount : Count) (asked : Nat) (eligiblePeers : List PeerId)
    (env : Environment) :
    ∃ toolsChanged, router.settled i lib prevCount asked eligiblePeers env =
      { router.finish i with
        manifestCache := (results lib router asked eligiblePeers env).manifestCache
        manifestFailureState := (results lib router asked eligiblePeers env).manifestFailureState
        attempts := (results lib router asked eligiblePeers env).attempts
        toolsChanged := toolsChanged } := by
  unfold LiopMcpRouter.settled
  dsimp only
  split_ifs
  · split
    · split_ifs
      · exact ⟨_, rfl⟩
      · exact ⟨_, rfl⟩
    · exact ⟨_, rfl⟩
  · exact ⟨_, rfl⟩

/-- A step of a discovery moves its own call only, and moves it on. -/
theorem resumed_calls {env : Environment} {router' : LiopMcpRouter I}
    (resumed : Resumed lib selfId env router i router') :
    ∃ phase, router'.calls = Function.update router.calls i phase ∧
      (phase = .returned ∨ phase.Follows (router.calls i)) := by
  cases resumed with
  | waits phase follows => exact ⟨phase, rfl, .inr follows⟩
  | finishes => exact ⟨.returned, rfl, .inl rfl⟩
  | asks prevCount providerIds distinct same later =>
    exact ⟨_, rfl, .inr ⟨rfl, same.symm, later⟩⟩
  | settles prevCount asked eligiblePeers asking =>
    obtain ⟨toolsChanged, settled⟩ := settled_eq lib router i prevCount asked eligiblePeers env
    exact ⟨.returned, congrArg LiopMcpRouter.calls settled, .inl rfl⟩

/-- What a call does up to its first `await`. -/
structure Begins (router : LiopMcpRouter I) (phase : Phase) : Prop where
  called : phase ≠ .uncalled
  remaining : phase.remaining ≤ 53
  quiet : phase.queries = none
  prevCount : phase.running = true → phase.prevCount = toolCount router.manifestCache

theorem refreshManifestCache_begins (silent : Bool) (env : Environment) :
    ∃ phase raised, router.refreshManifestCache i silent env =
      { router.wait i phase with currentDiscovery := raised } ∧ Begins router phase := by
  unfold LiopMcpRouter.refreshManifestCache LiopMcpRouter.search
  have ended : Begins router .returned := ⟨nofun, Nat.zero_le _, rfl, nofun⟩
  split_ifs
  · exact ⟨_, _, rfl, ended⟩
  · exact ⟨_, _, rfl, ended⟩
  · dsimp only
    cases counted : toolCount router.manifestCache with
    | none => exact ⟨_, _, rfl, ended⟩
    | some prevCount =>
      dsimp only
      split_ifs
      · exact ⟨_, _, rfl, nofun, Nat.le_refl _, rfl, fun _ => counted.symm⟩
      · refine ⟨_, _, rfl, nofun, ?_, rfl, fun _ => counted.symm⟩
        simp only [Phase.remaining]
        omega
      · refine ⟨_, _, rfl, nofun, ?_, rfl, fun _ => counted.symm⟩
        simp only [Phase.remaining]
        omega

theorem resume_idle (env : Environment) (idle : (router.calls i).running = false) :
    router.resume i lib selfId env = router := by
  unfold LiopMcpRouter.resume
  cases waiting : router.calls i with
  | uncalled | returned => rfl
  | connecting | searching | retrying | cooling | querying =>
    rw [waiting] at idle
    cases idle

/-- What an event makes of the phase of a call. -/
inductive Moved (i : I) (event : Event I) (earlier : Phase) : Phase → Prop where
  | stays (idle : event.resumes i = true → earlier.running = false) : Moved i event earlier earlier
  | begins (later : Phase) (uncalled : earlier = .uncalled) (called : later ≠ .uncalled)
    (bound : later.remaining ≤ 53) : Moved i event earlier later
  | goesOn (later : Phase) (resumes : event.resumes i = true) (inside : earlier.running = true)
    (moves : later = .returned ∨ later.Follows earlier) : Moved i event earlier later

theorem step_moved (event : Event I) :
    Moved i event (router.calls i) ((router.step lib selfId event).calls i) := by
  cases event with
  | route peerId manifest now =>
    have same : (router.step lib selfId (.route peerId manifest now)).calls = router.calls := by
      unfold LiopMcpRouter.step
      dsimp only
      split_ifs <;> rfl
    rw [same]
    exact .stays nofun
  | call j silent env =>
    unfold LiopMcpRouter.step
    dsimp only
    split
    next uncalled =>
      obtain ⟨phase, raised, moved, begins⟩ := refreshManifestCache_begins router j silent env
      rw [moved]
      by_cases same : i = j
      · subst same
        rw [wait_calls]
        exact .begins phase uncalled begins.called begins.remaining
      · rw [wait_calls_ne router same]
        exact .stays nofun
    next => exact .stays nofun
  | resume j env =>
    show Moved i _ _ ((router.resume j lib selfId env).calls i)
    by_cases inside : (router.calls j).running = true
    · obtain ⟨phase, moved, ends⟩ :=
        resumed_calls lib selfId router j (resume_resumed lib selfId env router j inside)
      rw [moved]
      by_cases same : i = j
      · subst same
        rw [Function.update_self]
        exact .goesOn phase (decide_eq_true rfl) inside ends
      · rw [Function.update_of_ne same]
        exact .stays fun resumes => absurd (of_decide_eq_true resumes).symm same
    · rw [resume_idle lib selfId router j env (eq_false_of_ne_true inside)]
      refine .stays fun resumes => ?_
      rw [← of_decide_eq_true resumes]
      exact eq_false_of_ne_true inside

end Phases

/-- A call that has begun comes closer to its end with each of its steps, whatever happens in
between. -/
theorem run_remaining (lib : Library) (selfId : PeerId) {router : LiopMcpRouter I} {i : I}
    (called : router.calls i ≠ .uncalled) (events : List (Event I)) :
    let router' := run (LiopMcpRouter.step lib selfId) router events
    router'.calls i ≠ .uncalled ∧ (router'.calls i).remaining ≤
      (router.calls i).remaining - events.countP (Event.resumes i) := by
  induction events generalizing router with
  | nil => exact ⟨called, Nat.le_refl _⟩
  | cons event events ih =>
    have moved := step_moved lib selfId router i event
    have next : (router.step lib selfId event).calls i ≠ .uncalled ∧
        ((router.step lib selfId event).calls i).remaining ≤
          (router.calls i).remaining - (if event.resumes i then 1 else 0) := by
      generalize (router.step lib selfId event).calls i = later at moved
      cases moved with
      | stays idle =>
        refine ⟨called, ?_⟩
        split_ifs with resumes
        · have ended := idle resumes
          cases phase : router.calls i with
          | uncalled => exact absurd phase called
          | returned => exact Nat.zero_le _
          | connecting | searching | retrying | cooling | querying =>
            rw [phase] at ended
            cases ended
        · exact Nat.le_refl _
      | begins _ uncalled => exact absurd uncalled called
      | goesOn _ resumes inside moves =>
        rw [if_pos resumes]
        rcases moves with rfl | follows
        · exact ⟨nofun, Nat.zero_le _⟩
        · refine ⟨fun same => ?_, Nat.le_pred_of_lt follows.remaining⟩
          have runs := follows.running
          rw [same] at runs
          cases runs
    obtain ⟨later, bound⟩ := ih next.1
    refine ⟨later, bound.trans ?_⟩
    rw [List.countP_cons]
    have first := next.2
    omega

/-- Every call returns after at most 53 steps of its own, however the other calls are interleaved
and whatever the network answers. -/
theorem LiopMcpRouter.call_returns (lib : Library) (selfId : PeerId) (router : LiopMcpRouter I)
    (i : I) (silent : Bool) (env : Environment) (uncalled : router.calls i = .uncalled)
    (events : List (Event I)) (steps : 53 ≤ events.countP (Event.resumes i)) :
    (run (step lib selfId) router (.call i silent env :: events)).calls i = .returned := by
  obtain ⟨phase, raised, moved, begins⟩ := refreshManifestCache_begins router i silent env
  have begun : (router.step lib selfId (.call i silent env)).calls i = phase := by
    unfold step
    dsimp only
    rw [uncalled]
    dsimp only
    rw [moved]
    exact wait_calls router i phase
  obtain ⟨still, few⟩ := run_remaining lib selfId (begun.trans_ne begins.called) events
  rw [begun] at few
  have bound := begins.remaining
  show (run (step lib selfId) (router.step lib selfId (.call i silent env)) events).calls i = _
  generalize (run (step lib selfId) (router.step lib selfId (.call i silent env)) events).calls i =
    last at still few
  have none : last.remaining = 0 := by omega
  by_contra other
  cases last with
  | uncalled => exact still rfl
  | returned => exact other rfl
  | connecting | searching | retrying | cooling | querying =>
    exact absurd none (Nat.ne_of_gt (Phase.remaining_pos rfl))

/-- One connected peer, which gives the same answer to every query. -/
def onePeer (now : Nat) (answer : Answer) : Environment where
  now := now
  connections := [js "peer"]
  providers := some [js "peer"]
  answers := fun _ => answer
  distinct := by
    rintro _ ⟨⟩
    exact List.nodup_singleton _

/-- A call that is the only one. -/
theorem lone_call_returns : (run (LiopMcpRouter.step (attestingLibrary []) (js "self"))
    (LiopMcpRouter.start : LiopMcpRouter Nat)
    (.call 0 true (onePeer 0 .null) :: List.replicate 53 (.resume 0 (onePeer 1 .null)))).calls 0 =
      .returned :=
  LiopMcpRouter.call_returns _ _ _ 0 true _ rfl _ (by decide)

/-! ### One discovery at a time -/

/-- A manifest that `queryManifest` returns: it is read from a stream, or it is the node's own. -/
inductive Obtained : JsValue → Prop where
  | read (source : Mesh.Source) (manifest : JsValue)
    (reads : Mesh.readManifest source = some manifest) : Obtained manifest
  | own (manifest : Mesh.LiopManifest) : Obtained (.obj manifest.members)

def Event.Obtained : Event I → Prop
  | call .. => True
  | resume _ env => ∀ peerId manifest, env.answers peerId = .manifest manifest →
      Discovery.Obtained manifest
  | route _ manifest _ => Discovery.Obtained manifest

/-- The log line of `queryManifest` reads the number of tools. -/
theorem Obtained.hasTools {manifest : JsValue} (obtained : Obtained manifest) :
    hasTools manifest = true := by
  cases obtained with
  | own manifest =>
    unfold Gateway.hasTools
    rw [show member (js "tools") (.obj manifest.members) = .arr manifest.tools from manifest.listed]
  | read source manifest reads =>
    have parsed : ∃ raw, Mesh.parseManifest raw = some manifest := by
      unfold Mesh.readManifest at reads
      dsimp only at reads
      split_ifs at reads
      exact ⟨_, reads⟩
    obtain ⟨raw, parsed⟩ := parsed
    unfold Mesh.parseManifest at parsed
    split_ifs at parsed
    obtain ⟨value, -, kept⟩ := Option.bind_eq_some_iff.mp parsed
    unfold Gateway.hasTools
    cases tools : member (js "tools") value with
    | undefined | null =>
      rw [tools] at kept
      cases kept
    | bool | num | str | arr | obj =>
      rw [tools] at kept
      obtain rfl := Option.some.inj kept
      rw [tools]

/-- The manifests that come in have tools. -/
def Event.Tooled : Event I → Prop
  | call .. => True
  | resume _ env => ∀ peerId manifest, env.answers peerId = .manifest manifest →
      hasTools manifest = true
  | route _ manifest _ => hasTools manifest = true

omit [DecidableEq I] in
theorem Event.Obtained.tooled {event : Event I} (obtained : event.Obtained) : event.Tooled := by
  cases event with
  | call i silent env => trivial
  | resume i env =>
    exact fun peerId manifest answer => (obtained peerId manifest answer).hasTools
  | route peerId manifest now => exact Discovery.Obtained.hasTools obtained

/-- Every cached manifest has tools. -/
def Tooled (cache : Cache) : Prop := ∀ entry ∈ cache, hasTools entry.2.manifest = true

theorem Tooled.set {cache : Cache} (tooled : Tooled cache) {peerId : PeerId} {entry : CacheEntry}
    (has : hasTools entry.manifest = true) : Tooled (cache.set peerId entry) := by
  intro other member
  rcases mem_set member with same | old
  · rw [same]
    exact has
  · exact tooled other old

theorem Tooled.toolCount {cache : Cache} (tooled : Tooled cache) :
    ∃ count, toolCount cache = some count := by
  induction cache with
  | nil => exact ⟨_, rfl⟩
  | cons first cache ih =>
    obtain ⟨peerId, entry⟩ := first
    obtain ⟨has, others⟩ := List.forall_mem_cons.mp tooled
    obtain ⟨rest, counted⟩ := ih others
    rw [Discovery.toolCount, if_pos has, counted]
    exact ⟨_, rfl⟩

theorem settle_tooled {lib : Library} {asked now : Nat} {answers : PeerId → Answer}
    (has : ∀ peerId manifest, answers peerId = .manifest manifest → hasTools manifest = true)
    (peers : List PeerId) {results : Results} (tooled : Tooled results.manifestCache) :
    Tooled (settle lib asked now answers peers results).1.manifestCache ∧
      (settle lib asked now answers peers results).2 = false := by
  induction peers generalizing results with
  | nil => exact ⟨tooled, rfl⟩
  | cons peerId peers ih =>
    unfold settle
    cases answer : answers peerId with
    | rejected => exact ih tooled
    | null => exact ih tooled
    | manifest manifest =>
      have listed := has peerId manifest answer
      dsimp only
      split_ifs
      · exact ih tooled
      · exact ih (tooled.set listed)

namespace LiopMcpRouter

variable {lib : Library} {selfId : PeerId} {router : LiopMcpRouter I} {i : I}

/-- One discovery runs exactly while the promise is set, and no cached manifest can stop the next
one. -/
structure Shared (router : LiopMcpRouter I) : Prop where
  exclusive : Exclusive Phase.running router.calls router.currentDiscovery
  tooled : Tooled router.manifestCache

omit [DecidableEq I] in
theorem start_shared : (start : LiopMcpRouter I).Shared where
  exclusive := .idle fun _ => rfl
  tooled := by
    intro entry member
    cases member

theorem wait_shared (shared : router.Shared) {phase : Phase}
    (same : phase.running = (router.calls i).running) : (router.wait i phase).Shared :=
  ⟨shared.exclusive.stay same, shared.tooled⟩

theorem refreshManifestCache_shared (shared : router.Shared) (uncalled : router.calls i = .uncalled)
    (silent : Bool) (env : Environment) : (router.refreshManifestCache i silent env).Shared := by
  have outside : Phase.returned.running = (router.calls i).running := by
    rw [uncalled]
    rfl
  unfold refreshManifestCache
  split_ifs with joined known
  · exact wait_shared shared outside
  · exact wait_shared shared outside
  · have free := eq_false_of_ne_true joined
    obtain ⟨count, counted⟩ := shared.tooled.toolCount
    have exclusive := shared.exclusive
    rw [free] at exclusive
    have begins : ∀ phase : Phase, phase.running = true →
        ({ router with currentDiscovery := true }.wait i phase).Shared :=
      fun phase running => ⟨exclusive.acquire running, shared.tooled⟩
    dsimp only
    rw [counted]
    dsimp only
    split_ifs
    · exact begins _ rfl
    · exact begins _ rfl

theorem finish_shared (shared : router.Shared) (inside : (router.calls i).running = true) :
    (router.finish i).Shared :=
  ⟨shared.exclusive.release inside rfl, shared.tooled⟩

theorem resumed_shared {env : Environment} {router' : LiopMcpRouter I} (shared : router.Shared)
    (inside : (router.calls i).running = true) (tooled : (Event.resume i env).Tooled)
    (resumed : Resumed lib selfId env router i router') : router'.Shared := by
  cases resumed with
  | waits phase follows => exact wait_shared shared (follows.running.trans inside.symm)
  | finishes => exact finish_shared shared inside
  | asks prevCount providerIds => exact ⟨shared.exclusive.stay inside.symm, shared.tooled⟩
  | settles prevCount asked eligiblePeers =>
    obtain ⟨toolsChanged, settled⟩ := settled_eq lib router i prevCount asked eligiblePeers env
    rw [settled]
    refine ⟨(finish_shared shared inside).exclusive, ?_⟩
    exact (settle_tooled tooled eligiblePeers shared.tooled).1

theorem step_shared (lib : Library) (selfId : PeerId) (router : LiopMcpRouter I) (event : Event I)
    (shared : router.Shared) (tooled : event.Tooled) : (router.step lib selfId event).Shared := by
  cases event with
  | call i silent env =>
    unfold step
    dsimp only
    split
    next uncalled => exact refreshManifestCache_shared shared uncalled silent env
    next => exact shared
  | resume i env =>
    show (router.resume i lib selfId env).Shared
    by_cases inside : (router.calls i).running = true
    · exact resumed_shared shared inside tooled (resume_resumed lib selfId env router i inside)
    · rw [resume_idle lib selfId router i env (eq_false_of_ne_true inside)]
      exact shared
  | route peerId manifest now =>
    unfold step
    dsimp only
    split_ifs
    · exact ⟨shared.exclusive, shared.tooled.set tooled⟩
    · exact shared

/-- However the calls are interleaved and whatever the peers send, at most one discovery runs, and
the promise is set exactly while one does. -/
theorem run_shared (lib : Library) (selfId : PeerId) {events : List (Event I)}
    (obtained : ∀ event ∈ events, event.Obtained) :
    let router := run (step lib selfId) (start : LiopMcpRouter I) events
    (∀ i j, (router.calls i).running = true → (router.calls j).running = true → i = j) ∧
      (router.currentDiscovery = true ↔ ∃ i, (router.calls i).running = true) := by
  intro router
  have shared : router.Shared := run_invariant
    (fun router event => step_shared lib selfId router event) start_shared
    (Allowed.of_forall (fun event member _ => (obtained event member).tooled) _)
  refine ⟨fun i j => shared.exclusive.unique, fun raised => ?_, fun inside => ?_⟩
  · by_contra none
    have outside : ∀ i, (router.calls i).running = false :=
      fun i => eq_false_of_ne_true fun running => none ⟨i, running⟩
    rw [shared.exclusive.unlocked outside] at raised
    cases raised
  · obtain ⟨i, running⟩ := inside
    exact shared.exclusive.locked_of_critical running

/-- Two calls, the second of which comes while the first waits, and a peer without tools. -/
theorem two_calls_shared :
    let router := run (step (attestingLibrary []) (js "self")) (start : LiopMcpRouter Nat)
      [.call 0 true (onePeer 0 .null), .call 1 false (onePeer 1 .null),
        .resume 0 (onePeer 2 .null),
        .resume 0 (onePeer 3 (.manifest (.obj Mesh.LiopManifest.toolless.members)))]
    (∀ i j, (router.calls i).running = true → (router.calls j).running = true → i = j) ∧
      (router.currentDiscovery = true ↔ ∃ i, (router.calls i).running = true) := by
  refine run_shared _ _ ?_
  simp only [List.forall_mem_cons]
  refine ⟨trivial, trivial, ?_, ?_, by rintro _ ⟨⟩⟩
  · rintro _ _ ⟨⟩
  · rintro _ _ ⟨⟩
    exact .own _

end LiopMcpRouter

end NeuralMesh.Gateway.Discovery
