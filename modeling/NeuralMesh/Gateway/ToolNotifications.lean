import NeuralMesh.Gateway.DiscoveryRuns

/-! What the client is told of the number of tools. A discovery compares the number at its end with
the number at its beginning, so it misses the tools that others add to the cache meanwhile, or
before; when only discoveries change the cache, the client knows the number at any time. -/
namespace NeuralMesh.Gateway.Discovery

open Js Crypto Transition

variable {I : Type} [DecidableEq I]

/-- The tools of the manifest are a list, as its type says. -/
def ListsTools (manifest : JsValue) : Prop := ∃ tools, member (js "tools") manifest = .arr tools

theorem ListsTools.hasTools {manifest : JsValue} (lists : ListsTools manifest) :
    hasTools manifest = true := by
  obtain ⟨tools, listed⟩ := lists
  unfold Gateway.hasTools
  rw [listed]

theorem ListsTools.length {manifest : JsValue} (lists : ListsTools manifest) :
    ∃ n, toolsLength manifest = some n := by
  obtain ⟨tools, listed⟩ := lists
  unfold toolsLength
  rw [listed]
  exact ⟨_, rfl⟩

/-- Only discoveries change the cache, with manifests whose tools are a list. -/
def Event.Listed : Event I → Prop
  | call .. => True
  | resume _ env => ∀ peerId manifest, env.answers peerId = .manifest manifest → ListsTools manifest
  | route .. => False

omit [DecidableEq I] in
theorem Event.Listed.tooled {event : Event I} (listed : event.Listed) : event.Tooled := by
  cases event with
  | call i silent env => trivial
  | resume i env => exact fun peerId manifest answer => (listed peerId manifest answer).hasTools
  | route peerId manifest now => exact listed.elim

def Listed (cache : Cache) : Prop := ∀ entry ∈ cache, ListsTools entry.2.manifest

theorem Listed.toolCount {cache : Cache} (listed : Listed cache) :
    ∃ n, toolCount cache = some (some n) := by
  induction cache with
  | nil => exact ⟨0, rfl⟩
  | cons first cache ih =>
    obtain ⟨peerId, entry⟩ := first
    obtain ⟨lists, others⟩ := List.forall_mem_cons.mp listed
    obtain ⟨rest, counted⟩ := ih others
    obtain ⟨n, own⟩ := lists.length
    rw [Discovery.toolCount, if_pos lists.hasTools, counted, own]
    exact ⟨_, rfl⟩

theorem Listed.set {cache : Cache} (listed : Listed cache) {peerId : PeerId} {entry : CacheEntry}
    (lists : ListsTools entry.manifest) : Listed (cache.set peerId entry) := by
  intro other member
  rcases mem_set member with same | old
  · rw [same]
    exact lists
  · exact listed other old

section Loop

variable {lib : Library} {asked now : Nat} {answers : PeerId → Answer}

theorem settle_listed (lists : ∀ peerId manifest, answers peerId = .manifest manifest →
    ListsTools manifest) (peers : List PeerId) {results : Results}
    (listed : Listed results.manifestCache) :
    Listed (settle lib asked now answers peers results).1.manifestCache ∧
      (settle lib asked now answers peers results).2 = false := by
  induction peers generalizing results with
  | nil => exact ⟨listed, rfl⟩
  | cons peerId peers ih =>
    unfold settle
    cases answer : answers peerId with
    | rejected => exact ih listed
    | null => exact ih listed
    | manifest manifest =>
      have known := lists peerId manifest answer
      dsimp only
      rw [if_pos known.hasTools]
      split_ifs
      · exact ih listed
      · exact ih (listed.set known)

/-- The loop changes the cache only when it says so. -/
theorem settle_updated (peers : List PeerId) (results : Results) :
    (settle lib asked now answers peers results).1.cacheUpdated = true ∨
      (settle lib asked now answers peers results).1.cacheUpdated = results.cacheUpdated ∧
      (settle lib asked now answers peers results).1.manifestCache = results.manifestCache := by
  induction peers generalizing results with
  | nil => exact .inr ⟨rfl, rfl⟩
  | cons peerId peers ih =>
    unfold settle
    cases answers peerId with
    | rejected => exact ih results
    | null => exact ih (results.fail peerId asked now)
    | manifest manifest =>
      dsimp only
      split_ifs
      · exact ih (results.fail peerId asked now)
      · rcases ih (results.store peerId asked now manifest) with updated | ⟨kept, -⟩
        · exact .inl updated
        · exact .inl kept
      · exact .inl rfl

end Loop

namespace LiopMcpRouter

variable {lib : Library} {selfId : PeerId} {router : LiopMcpRouter I} {i : I}

/-- The client knows the number of tools; a running discovery began with this number. -/
structure Told (router : LiopMcpRouter I) : Prop where
  shared : router.Shared
  listed : Listed router.manifestCache
  told : toolCount router.manifestCache = some (router.toolsChanged.getLastD (some 0))
  begun : ∀ i, (router.calls i).running = true →
    (router.calls i).prevCount = toolCount router.manifestCache

omit [DecidableEq I] in
theorem start_told : (start : LiopMcpRouter I).Told where
  shared := start_shared
  listed := by rintro _ ⟨⟩
  told := rfl
  begun := by rintro _ ⟨⟩

/-- A call comes to another phase, and the cache stays. -/
theorem Told.moved (told : router.Told) {router' : LiopMcpRouter I} (shared : router'.Shared)
    {phase : Phase} (moved : router'.calls = Function.update router.calls i phase)
    (cache : router'.manifestCache = router.manifestCache)
    (same : router'.toolsChanged = router.toolsChanged)
    (begun : phase.running = true → phase.prevCount = toolCount router.manifestCache) :
    router'.Told where
  shared := shared
  listed := cache ▸ told.listed
  told := by
    rw [cache, same]
    exact told.told
  begun := by
    intro j running
    rw [moved] at running ⊢
    rw [cache]
    by_cases here : j = i
    · subst here
      rw [Function.update_self] at running ⊢
      exact begun running
    · rw [Function.update_of_ne here] at running ⊢
      exact told.begun j running

theorem differs_some (n m : Nat) : differs (some n) (some m) = true ↔ n ≠ m := bne_iff_ne

/-- The end of a discovery whose loop was not left by an exception. -/
theorem settled_toolsChanged {prevCount : Count} {asked : Nat} {eligiblePeers : List PeerId}
    {env : Environment} {n m : Nat}
    (finished : (settle lib asked env.now env.answers eligiblePeers
      ⟨router.manifestCache, router.manifestFailureState, router.attempts, false⟩).2 = false)
    (counted : toolCount (results lib router asked eligiblePeers env).manifestCache = some (some n))
    (before : prevCount = some m) :
    (router.settled i lib prevCount asked eligiblePeers env).toolsChanged =
      if (results lib router asked eligiblePeers env).cacheUpdated = true ∧ n ≠ m then
        router.toolsChanged ++ [some n]
      else router.toolsChanged := by
  unfold settled
  unfold results at counted ⊢
  dsimp only
  rw [finished, counted, before]
  by_cases updated : (settle lib asked env.now env.answers eligiblePeers
      ⟨router.manifestCache, router.manifestFailureState, router.attempts, false⟩).1.cacheUpdated =
      true
  · rw [if_pos ⟨rfl, updated⟩]
    dsimp only
    by_cases changed : n = m
    · rw [if_neg (fun differ => (differs_some n m).mp differ changed),
        if_neg (not_and_of_not_right _ (not_not_intro changed))]
      rfl
    · rw [if_pos ((differs_some n m).mpr changed), if_pos ⟨updated, changed⟩]
      rfl
  · rw [if_neg (not_and_of_not_right _ updated), if_neg (not_and_of_not_left _ updated)]
    rfl

theorem resumed_told {env : Environment} {router' : LiopMcpRouter I} (told : router.Told)
    (inside : (router.calls i).running = true) (listed : (Event.resume i env).Listed)
    (shared : router'.Shared) (resumed : Resumed lib selfId env router i router') :
    router'.Told := by
  cases resumed with
  | waits phase follows =>
    exact told.moved shared rfl rfl rfl fun _ => follows.prevCount.trans (told.begun i inside)
  | finishes => exact told.moved shared rfl rfl rfl nofun
  | asks prevCount providerIds distinct same =>
    exact told.moved shared rfl rfl rfl fun _ => same.symm.trans (told.begun i inside)
  | settles prevCount asked eligiblePeers asking =>
    obtain ⟨after, finished⟩ := @settle_listed lib asked env.now env.answers listed eligiblePeers
      ⟨router.manifestCache, router.manifestFailureState, router.attempts, false⟩ told.listed
    obtain ⟨n, counted⟩ := after.toolCount
    obtain ⟨m, earlier⟩ := told.listed.toolCount
    have began := told.begun i inside
    rw [asking, earlier] at began
    have announced := settled_toolsChanged (i := i) finished counted (Option.some.inj began)
    obtain ⟨toolsChanged, settled⟩ := settled_eq lib router i prevCount asked eligiblePeers env
    rw [settled] at shared announced ⊢
    have known := told.told
    rw [earlier] at known
    refine ⟨shared, after, ?_, ?_⟩
    · show toolCount (results lib router asked eligiblePeers env).manifestCache =
        some (toolsChanged.getLastD (some 0))
      rw [show toolsChanged = _ from announced]
      split_ifs with change
      · rw [List.getLastD_concat]
        exact counted
      · rw [← known, ← earlier]
        rcases @settle_updated lib asked env.now env.answers eligiblePeers
          ⟨router.manifestCache, router.manifestFailureState, router.attempts, false⟩ with
          updated | ⟨-, kept⟩
        · have same : n = m := by
            by_contra different
            exact change ⟨updated, different⟩
          rw [earlier, ← same]
          exact counted
        · exact congrArg toolCount kept
    · -- this was the only discovery
      intro j running
      have ended : Function.update router.calls i .returned j = .returned ∨
          (router.calls j).running = true ∧ j ≠ i := by
        by_cases here : j = i
        · exact .inl (here ▸ Function.update_self ..)
        · refine .inr ⟨?_, here⟩
          have moved : (Function.update router.calls i .returned j).running = true := running
          rwa [Function.update_of_ne here] at moved
      rcases ended with ended | ⟨other, differ⟩
      · have moved : (Function.update router.calls i .returned j).running = true := running
        rw [ended] at moved
        cases moved
      · exact absurd (told.shared.exclusive.unique other inside) differ

theorem step_told (lib : Library) (selfId : PeerId) (router : LiopMcpRouter I) (event : Event I)
    (told : router.Told) (listed : event.Listed) : (router.step lib selfId event).Told := by
  have shared := step_shared lib selfId router event told.shared listed.tooled
  cases event with
  | call i silent env =>
    unfold step at shared ⊢
    dsimp only at shared ⊢
    split at shared
    next uncalled =>
      obtain ⟨phase, raised, moved, begins⟩ := refreshManifestCache_begins router i silent env
      rw [moved] at shared ⊢
      exact told.moved shared rfl rfl rfl begins.prevCount
    next => exact told
  | resume i env =>
    show (router.resume i lib selfId env).Told
    have shared : (router.resume i lib selfId env).Shared := shared
    by_cases inside : (router.calls i).running = true
    · exact resumed_told told inside listed shared (resume_resumed lib selfId env router i inside)
    · rw [resume_idle lib selfId router i env (eq_false_of_ne_true inside)]
      exact told
  | route peerId manifest now => exact listed.elim

end LiopMcpRouter

end NeuralMesh.Gateway.Discovery
