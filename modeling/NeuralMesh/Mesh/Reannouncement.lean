import Mathlib.Data.List.Nodup
import NeuralMesh.Js.StringText
import NeuralMesh.Transition

/-! Re-announcement of capabilities. When a peer connects, a pass provides every announced
capability again, unless a pass is running already; that one may be past some of them. -/
namespace NeuralMesh.Mesh

open Js Transition

/-- Where a capability is on its way to the DHT. A `provide` is fresh until the next peer
connects, which it does not reach. -/
inductive Stage where
  | resolving
  | providing (fresh : Bool)
  deriving DecidableEq

/-- The provide of this stage reaches the last peer that connected. -/
def Stage.reaches : Stage → Bool
  | resolving => true
  | providing fresh => fresh

def Stage.stale : Stage → Stage
  | resolving => resolving
  | providing _ => providing false

/-- `reannounceAll` waits for the handshake to settle, then goes through the capabilities. -/
inductive Pass where
  | settling
  | loop (index : Nat) (stage : Stage)
  deriving DecidableEq

def Pass.stale : Pass → Pass
  | settling => settling
  | loop index stage => loop index stage.stale

structure Announcer where
  /-- In insertion order, which the loop follows to the capabilities added meanwhile. -/
  announcedCapabilities : List JsString
  pass : Option Pass
  /-- The calls of `announceCapability` before their `provide` is done. -/
  calls : List (JsString × Stage)
  /-- The capabilities provided since the last peer connected. -/
  provided : List JsString

inductive Event where
  | peerConnect
  | announceCapability (hash : JsString)
  | callResolved (call : Nat)
  | callProvided (call : Nat)
  | settled
  | passResolved
  | passProvided

namespace Announcer

def start : Announcer := ⟨[], none, [], []⟩

def reannouncing (a : Announcer) : Bool := a.pass.isSome

def reannounceAll (a : Announcer) : Announcer :=
  if a.reannouncing || a.announcedCapabilities.isEmpty then a
  else { a with pass := some .settling }

/-- The next round of the loop, or its end. -/
def enter (a : Announcer) (index : Nat) : Announcer :=
  { a with
    pass := if index < a.announcedCapabilities.length then some (.loop index .resolving) else none }

def complete (a : Announcer) (fresh : Bool) (hash : JsString) : Announcer :=
  if fresh then { a with provided := a.provided ++ [hash] } else a

/-- What is under way does not reach the new peer. -/
def connected (a : Announcer) : Announcer :=
  { a with
    pass := a.pass.map Pass.stale
    calls := a.calls.map fun call => (call.1, call.2.stale)
    provided := [] }

def step (a : Announcer) : Event → Announcer
  | .peerConnect => a.connected.reannounceAll
  | .announceCapability hash =>
    { a with
      announcedCapabilities :=
        if hash ∈ a.announcedCapabilities then a.announcedCapabilities
        else a.announcedCapabilities ++ [hash]
      calls := a.calls ++ [(hash, .resolving)] }
  | .callResolved call =>
    match a.calls[call]? with
    | some (hash, .resolving) => { a with calls := a.calls.set call (hash, .providing true) }
    | _ => a
  | .callProvided call =>
    match a.calls[call]? with
    | some (hash, .providing fresh) =>
      { a with calls := a.calls.eraseIdx call }.complete fresh hash
    | _ => a
  | .settled =>
    match a.pass with
    | some .settling => a.enter 0
    | _ => a
  | .passResolved =>
    match a.pass with
    | some (.loop index .resolving) => { a with pass := some (.loop index (.providing true)) }
    | _ => a
  | .passProvided =>
    match a.pass with
    | some (.loop index (.providing fresh)) =>
      match a.announcedCapabilities[index]? with
      | some hash => (a.complete fresh hash).enter (index + 1)
      | none => a.enter (index + 1)
    | _ => a

/-! ### What is to be provided -/

/-- A call is about to provide this capability to the last peer. -/
def Announcing (a : Announcer) (hash : JsString) : Prop :=
  ∃ stage, (hash, stage) ∈ a.calls ∧ stage.reaches = true

/-- No re-announcement is running only when every capability has been provided since the last
peer connected, or is about to be by its own call. -/
def Reannounced (a : Announcer) : Prop :=
  a.pass = none → ∀ hash ∈ a.announcedCapabilities, ¬ a.Announcing hash → hash ∈ a.provided

/-- What the running pass still provides to the last peer. -/
def ahead (a : Announcer) : List JsString :=
  match a.pass with
  | none => []
  | some .settling => a.announcedCapabilities
  | some (.loop index stage) =>
    a.announcedCapabilities.drop (if stage.reaches then index else index + 1)

/-- What the running pass has begun to provide. -/
def passed (a : Announcer) : List JsString :=
  match a.pass with
  | none | some .settling => []
  | some (.loop index .resolving) => a.announcedCapabilities.take index
  | some (.loop index (.providing _)) => a.announcedCapabilities.take (index + 1)

/-- A peer connects while everything that the running pass has begun to provide is still to be
provided by a call of its own. -/
def Careful (a : Announcer) : Event → Prop
  | .peerConnect => ∀ hash ∈ a.passed, (hash, .resolving) ∈ a.calls
  | _ => True

/-- Everything has been provided or will be. -/
def Covered (a : Announcer) : Prop :=
  ∀ hash ∈ a.announcedCapabilities,
    hash ∈ a.provided ∨ a.Announcing hash ∨ hash ∈ a.ahead

variable {a : Announcer}

theorem Covered.reannounced (covered : a.Covered) : a.Reannounced := by
  intro idle hash member quiet
  rcases covered hash member with provided | announcing | ahead
  · exact provided
  · exact absurd announcing quiet
  · rw [Announcer.ahead, idle] at ahead
    cases ahead

@[simp] theorem enter_provided (a : Announcer) (index : Nat) :
    (a.enter index).provided = a.provided := rfl

@[simp] theorem enter_calls (a : Announcer) (index : Nat) : (a.enter index).calls = a.calls := rfl

@[simp] theorem enter_announced (a : Announcer) (index : Nat) :
    (a.enter index).announcedCapabilities = a.announcedCapabilities := rfl

@[simp] theorem complete_announced (a : Announcer) (fresh : Bool) (hash : JsString) :
    (a.complete fresh hash).announcedCapabilities = a.announcedCapabilities := by
  cases fresh <;> rfl

@[simp] theorem complete_calls (a : Announcer) (fresh : Bool) (hash : JsString) :
    (a.complete fresh hash).calls = a.calls := by
  cases fresh <;> rfl

@[simp] theorem complete_pass (a : Announcer) (fresh : Bool) (hash : JsString) :
    (a.complete fresh hash).pass = a.pass := by
  cases fresh <;> rfl

theorem complete_provided (a : Announcer) (fresh : Bool) (hash : JsString) :
    (a.complete fresh hash).provided = if fresh then a.provided ++ [hash] else a.provided := by
  cases fresh <;> rfl

theorem mem_complete {other : JsString} (fresh : Bool) (hash : JsString)
    (member : other ∈ a.provided) : other ∈ (a.complete fresh hash).provided := by
  rw [complete_provided]
  split_ifs
  · exact List.mem_append_left _ member
  · exact member

theorem enter_ahead (a : Announcer) (index : Nat) :
    (a.enter index).ahead = a.announcedCapabilities.drop index := by
  unfold ahead enter
  dsimp only
  by_cases inside : index < a.announcedCapabilities.length
  · rw [if_pos inside]
    rfl
  · rw [if_neg inside, List.drop_eq_nil_of_le (Nat.not_lt.mp inside)]

theorem complete_ahead (a : Announcer) (fresh : Bool) (hash : JsString) :
    (a.complete fresh hash).ahead = a.ahead := by
  cases fresh <;> rfl

/-! ### Steps -/

/-- A step that loses nothing: what was provided stays so, and what was under way is provided or
still under way. -/
theorem Covered.kept {b : Announcer} (covered : a.Covered)
    (announced : ∀ hash ∈ b.announcedCapabilities,
      hash ∈ a.announcedCapabilities ∨ b.Announcing hash)
    (provided : ∀ hash ∈ a.provided, hash ∈ b.provided)
    (calls : ∀ hash, a.Announcing hash → hash ∈ b.provided ∨ b.Announcing hash)
    (ahead : ∀ hash ∈ a.ahead, hash ∈ b.provided ∨ hash ∈ b.ahead) : b.Covered := by
  intro hash member
  rcases announced hash member with before | announcing
  · rcases covered hash before with done | call | pass
    · exact .inl (provided hash done)
    · exact (calls hash call).imp_right .inl
    · exact (ahead hash pass).imp_right .inr
  · exact .inr (.inl announcing)

/-- What a running pass has passed, and what it still brings to a peer that connects now. -/
theorem passed_ahead (running : a.reannouncing = true) :
    a.announcedCapabilities = a.passed ++ a.connected.ahead := by
  unfold passed ahead connected
  unfold reannouncing at running
  cases pass : a.pass with
  | none =>
    rw [pass] at running
    cases running
  | some current =>
    cases current with
    | settling => rfl
    | loop index stage =>
      cases stage with
      | resolving => exact (List.take_append_drop index _).symm
      | providing fresh => exact (List.take_append_drop (index + 1) _).symm

theorem connected_announcing {hash : JsString} :
    a.connected.Announcing hash ↔ (hash, .resolving) ∈ a.calls := by
  constructor
  · rintro ⟨stage, member, reaches⟩
    obtain ⟨⟨other, before⟩, listed, same⟩ := List.mem_map.mp member
    obtain ⟨rfl, rfl⟩ := Prod.mk.inj same
    cases before with
    | resolving => exact listed
    | providing fresh => cases reaches
  · intro listed
    exact ⟨.resolving, List.mem_map.mpr ⟨_, listed, rfl⟩, rfl⟩

theorem reannounceAll_running (running : a.reannouncing = true) :
    a.connected.reannounceAll = a.connected := by
  have still : a.connected.reannouncing = true := by
    rw [reannouncing, connected, Option.isSome_map]
    exact running
  rw [reannounceAll, still, Bool.true_or, if_pos rfl]

theorem connect_covered (careful : a.Careful .peerConnect) : (a.step .peerConnect).Covered := by
  show (a.connected.reannounceAll).Covered
  cases running : a.reannouncing with
  | true =>
    rw [reannounceAll_running running]
    intro hash member
    have listed : hash ∈ a.passed ++ a.connected.ahead := passed_ahead running ▸ member
    rcases List.mem_append.mp listed with behind | later
    · exact .inr (.inl (connected_announcing.mpr (careful hash behind)))
    · exact .inr (.inr later)
  | false =>
    have idle : a.connected.reannouncing = false := by
      rw [reannouncing, connected, Option.isSome_map]
      exact running
    intro hash member
    rw [reannounceAll, idle, Bool.false_or] at member ⊢
    split_ifs at member ⊢ with empty
    · rw [List.isEmpty_iff.mp empty] at member
      cases member
    · exact .inr (.inr member)

theorem announce_covered (covered : a.Covered) (hash : JsString) :
    (a.step (.announceCapability hash)).Covered := by
  have new : (a.step (.announceCapability hash)).Announcing hash :=
    ⟨.resolving, List.mem_append_right _ (List.mem_singleton_self _), rfl⟩
  have grown : ∃ more, (a.step (.announceCapability hash)).announcedCapabilities =
      a.announcedCapabilities ++ more ∧ ∀ other ∈ more, other = hash := by
    by_cases known : hash ∈ a.announcedCapabilities
    · exact ⟨[], by simp [step, known], nofun⟩
    · exact ⟨[hash], by simp [step, known], fun _ => List.mem_singleton.mp⟩
  obtain ⟨more, list, only⟩ := grown
  refine covered.kept ?_ (fun _ => id) ?_ ?_
  · intro other member
    rw [list] at member
    refine (List.mem_append.mp member).imp_right fun added => ?_
    rw [only other added]
    exact new
  · rintro other ⟨stage, member, reaches⟩
    exact .inr ⟨stage, List.mem_append_left _ member, reaches⟩
  · intro other member
    right
    show other ∈ ahead (step a (.announceCapability hash))
    unfold ahead at member ⊢
    have pass : (a.step (.announceCapability hash)).pass = a.pass := rfl
    rw [pass, list]
    cases current : a.pass with
    | none =>
      rw [current] at member
      cases member
    | some current' =>
      rw [current] at member
      cases current' with
      | settling => exact List.mem_append_left _ member
      | loop index stage =>
        dsimp only at member ⊢
        rw [List.drop_append]
        exact List.mem_append_left _ member

theorem callResolved_covered (covered : a.Covered) (call : Nat) :
    (a.step (.callResolved call)).Covered := by
  rw [step]
  split
  · next hash found =>
    refine covered.kept (fun _ => .inl) (fun _ => id) ?_ (fun _ => .inr)
    rintro other ⟨stage, member, reaches⟩
    right
    obtain ⟨i, listed⟩ := List.mem_iff_getElem?.mp member
    by_cases same : i = call
    · subst same
      obtain ⟨rfl, -⟩ := Prod.mk.inj (Option.some.inj (listed.symm.trans found))
      have inside := (List.getElem?_eq_some_iff.mp found).1
      exact ⟨.providing true,
        List.mem_iff_getElem?.mpr ⟨i, List.getElem?_set_self inside⟩, rfl⟩
    · refine ⟨stage, List.mem_iff_getElem?.mpr ⟨i, ?_⟩, reaches⟩
      rw [List.getElem?_set_ne (Ne.symm same), listed]
  · exact covered

theorem callProvided_covered (covered : a.Covered) (call : Nat) :
    (a.step (.callProvided call)).Covered := by
  rw [step]
  split
  · next hash fresh found =>
    refine covered.kept (fun other member => .inl (by simpa using member)) ?_ ?_
      fun other member => .inr ?_
    · intro other member
      apply mem_complete
      exact member
    · rintro other ⟨stage, member, reaches⟩
      obtain ⟨i, listed⟩ := List.mem_iff_getElem?.mp member
      by_cases same : i = call
      · -- the call is done, and it reached the last peer
        subst same
        obtain ⟨rfl, rfl⟩ := Prod.mk.inj (Option.some.inj (listed.symm.trans found))
        left
        have fresh' : fresh = true := reaches
        rw [complete_provided, if_pos fresh']
        exact List.mem_append_right _ (List.mem_singleton_self _)
      · right
        refine ⟨stage, ?_, reaches⟩
        rw [complete_calls]
        exact List.mem_eraseIdx_iff_getElem?.mpr ⟨i, same, listed⟩
    · rw [complete_ahead]
      exact member
  · exact covered

theorem settled_covered (covered : a.Covered) : (a.step .settled).Covered := by
  rw [step]
  split
  · next pass =>
    refine covered.kept (fun _ => .inl) (fun _ => id) (fun _ => .inr) fun hash member => .inr ?_
    rw [enter_ahead, List.drop_zero]
    rwa [ahead, pass] at member
  · exact covered

theorem passResolved_covered (covered : a.Covered) : (a.step .passResolved).Covered := by
  rw [step]
  split
  · next index pass =>
    refine covered.kept (fun _ => .inl) (fun _ => id) (fun _ => .inr) fun hash member => .inr ?_
    rwa [ahead, pass] at member
  · exact covered

theorem passProvided_covered (covered : a.Covered) : (a.step .passProvided).Covered := by
  rw [step]
  split
  · next index fresh pass =>
    have here : a.ahead =
        a.announcedCapabilities.drop (if fresh = true then index else index + 1) := by
      rw [ahead, pass]
      rfl
    split
    · next hash found =>
      refine covered.kept (fun other member => .inl (by simpa using member))
        (fun other => mem_complete fresh hash) (fun other announcing => .inr ?_) ?_
      · obtain ⟨stage, member, reaches⟩ := announcing
        exact ⟨stage, by rwa [enter_calls, complete_calls], reaches⟩
      · intro other member
        rw [enter_ahead, complete_announced, enter_provided, complete_provided]
        rw [here] at member
        split_ifs at member ⊢
        · -- the capability at the index has just been provided
          obtain ⟨inside, value⟩ := List.getElem?_eq_some_iff.mp found
          rw [List.drop_eq_getElem_cons inside, value] at member
          rcases List.mem_cons.mp member with rfl | later
          · exact .inl (List.mem_append_right _ (List.mem_singleton_self _))
          · exact .inr later
        · exact .inr member
    · next missing =>
      refine covered.kept (fun _ => .inl) (fun _ => id) (fun _ => .inr) fun other member => ?_
      rw [here] at member
      have outside := List.getElem?_eq_none_iff.mp missing
      rw [List.drop_eq_nil_of_le (by split_ifs <;> omega)] at member
      cases member
  · exact covered

theorem step_covered (a : Announcer) (e : Event) (covered : a.Covered) (careful : a.Careful e) :
    (a.step e).Covered := by
  cases e with
  | peerConnect => exact connect_covered careful
  | announceCapability hash => exact announce_covered covered hash
  | callResolved call => exact callResolved_covered covered call
  | callProvided call => exact callProvided_covered covered call
  | settled => exact settled_covered covered
  | passResolved => exact passResolved_covered covered
  | passProvided => exact passProvided_covered covered

/-! ### Connections in the middle of a pass -/

/-- The capabilities are a set, and the loop stands at one of them. -/
structure Sound (a : Announcer) : Prop where
  distinct : a.announcedCapabilities.Nodup
  inside : ∀ index stage, a.pass = some (.loop index stage) →
    index < a.announcedCapabilities.length

theorem enter_sound (distinct : a.announcedCapabilities.Nodup) (index : Nat) :
    (a.enter index).Sound := by
  refine ⟨distinct, fun i stage pass => ?_⟩
  rw [enter] at pass
  dsimp only at pass
  split_ifs at pass with inside
  cases pass
  exact inside

theorem step_sound (a : Announcer) (e : Event) (sound : a.Sound) (_ : True) : (a.step e).Sound := by
  obtain ⟨distinct, inside⟩ := sound
  cases e with
  | peerConnect =>
    have connected : a.connected.Sound := by
      refine ⟨distinct, fun i stage pass => ?_⟩
      obtain ⟨before, running, stale⟩ := Option.map_eq_some_iff.mp pass
      cases before with
      | settling => cases stale
      | loop index stage =>
        cases stale
        exact inside _ _ running
    show (a.connected.reannounceAll).Sound
    rw [reannounceAll]
    split_ifs
    · exact connected
    · refine ⟨distinct, fun i stage pass => ?_⟩
      cases pass
  | announceCapability hash =>
    rw [step]
    split_ifs with known
    · exact ⟨distinct, inside⟩
    · refine ⟨List.nodup_append.mpr ⟨distinct, List.nodup_singleton hash, ?_⟩, ?_⟩
      · rintro other member _ (_ | ⟨_, ⟨⟩⟩) rfl
        exact known member
      · intro index stage pass
        have before := inside index stage pass
        rw [List.length_append]
        omega
  | callResolved call =>
    rw [step]
    split <;> exact ⟨distinct, inside⟩
  | callProvided call =>
    rw [step]
    split
    · refine ⟨by rwa [complete_announced], ?_⟩
      rw [complete_pass, complete_announced]
      exact inside
    · exact ⟨distinct, inside⟩
  | settled =>
    rw [step]
    split
    · exact enter_sound distinct 0
    · exact ⟨distinct, inside⟩
  | passResolved =>
    rw [step]
    split
    · next index pass =>
      refine ⟨distinct, fun i stage same => ?_⟩
      cases same
      exact inside _ _ pass
    · exact ⟨distinct, inside⟩
  | passProvided =>
    rw [step]
    split
    · split
      · exact enter_sound (by rwa [complete_announced]) _
      · exact enter_sound distinct _
    · exact ⟨distinct, inside⟩

theorem start_sound : start.Sound := by
  refine ⟨List.nodup_nil, fun index stage pass => ?_⟩
  cases pass

theorem run_sound (events : List Event) : (run step start events).Sound :=
  run_invariant step_sound start_sound (Allowed.of_forall (fun _ _ _ => trivial) start)

/-- What a pass leaves behind when nothing else happens. -/
structure Finished (a b : Announcer) (rest : List JsString) : Prop where
  idle : b.pass = none
  announced : b.announcedCapabilities = a.announcedCapabilities
  calls : b.calls = a.calls
  provided : ∀ hash ∈ b.provided, hash ∈ a.provided ∨ hash ∈ rest

theorem provide_finishes {index : Nat} {fresh : Bool}
    (running : a.pass = some (.loop index (.providing fresh)))
    (inside : index < a.announcedCapabilities.length) :
    ∃ later, Finished a (run step a later)
      (a.announcedCapabilities.drop (if fresh then index else index + 1)) := by
  induction left : a.announcedCapabilities.length - index generalizing a index fresh with
  | zero => omega
  | succ left ih =>
    have value := List.getElem?_eq_getElem inside
    have provided : step a .passProvided =
        (a.complete fresh a.announcedCapabilities[index]).enter (index + 1) := by
      rw [step, running]
      dsimp only
      rw [value]
    have tail : a.announcedCapabilities.drop index =
        a.announcedCapabilities[index] :: a.announcedCapabilities.drop (index + 1) :=
      List.drop_eq_getElem_cons inside
    have here : ∀ hash ∈ (a.complete fresh a.announcedCapabilities[index]).provided,
        hash ∈ a.provided ∨
          hash ∈ a.announcedCapabilities.drop (if fresh then index else index + 1) := by
      intro hash member
      rw [complete_provided] at member
      split_ifs at member ⊢
      · refine (List.mem_append.mp member).imp_right fun added => ?_
        rw [tail, List.mem_singleton.mp added]
        exact List.mem_cons_self
      · exact .inl member
    by_cases more : index + 1 < a.announcedCapabilities.length
    · -- the next capability is resolved and provided
      have next : step (step a .passProvided) .passResolved =
          { a.complete fresh a.announcedCapabilities[index] with
            pass := some (.loop (index + 1) (.providing true)) } := by
        have further : index + 1 <
            (a.complete fresh a.announcedCapabilities[index]).announcedCapabilities.length := by
          rwa [complete_announced]
        rw [provided, enter, if_pos further]
        rfl
      obtain ⟨later, finished⟩ := @ih (step (step a .passProvided) .passResolved) (index + 1) true
        (by rw [next]) (by rw [next]; simpa using more) (by rw [next]; simp; omega)
      rw [next] at finished
      refine ⟨.passProvided :: .passResolved :: later, ?_⟩
      show Finished a (run step (step (step a .passProvided) .passResolved) later) _
      rw [next]
      obtain ⟨idle, announced, calls, rest⟩ := finished
      refine ⟨idle, announced.trans (complete_announced ..), calls.trans (complete_calls ..), ?_⟩
      intro hash member
      rcases rest hash member with before | behind
      · exact here hash before
      · dsimp only at behind
        rw [if_pos rfl, complete_announced] at behind
        right
        split_ifs
        · rw [tail]
          exact List.mem_cons_of_mem _ behind
        · exact behind
    · refine ⟨[.passProvided], ?_⟩
      show Finished a (step a .passProvided) _
      rw [provided]
      refine ⟨?_, complete_announced .., complete_calls .., here⟩
      rw [enter, complete_announced, if_neg more]

theorem pass_finishes {index : Nat} {stage : Stage}
    (running : a.pass = some (.loop index stage))
    (inside : index < a.announcedCapabilities.length) :
    ∃ later, Finished a (run step a later) a.ahead := by
  rw [ahead, running]
  cases stage with
  | providing fresh => exact provide_finishes running inside
  | resolving =>
    have next : step a .passResolved = { a with pass := some (.loop index (.providing true)) } := by
      rw [step, running]
    obtain ⟨later, finished⟩ := @provide_finishes (step a .passResolved) index true
      (by rw [next]) (by rw [next]; exact inside)
    rw [next] at finished
    refine ⟨.passResolved :: later, ?_⟩
    show Finished a (run step (step a .passResolved) later) _
    rw [next]
    exact ⟨finished.idle, finished.announced, finished.calls, finished.provided⟩

/-- After a connection that comes too late, the pass runs to its end without the capability. -/
theorem late_connection (sound : a.Sound) (late : ¬ a.Careful .peerConnect) :
    ∃ later, ¬ (run step (step a .peerConnect) later).Reannounced := by
  simp only [Careful, not_forall] at late
  obtain ⟨hash, behind, uncalled⟩ := late
  have running : a.reannouncing = true := by
    rw [reannouncing]
    cases pass : a.pass with
    | some _ => rfl
    | none =>
      rw [passed, pass] at behind
      cases behind
  have split := passed_ahead running
  have connected : step a .peerConnect = a.connected := reannounceAll_running running
  obtain ⟨index, stage, pass⟩ : ∃ index stage, a.pass = some (.loop index stage) := by
    cases pass : a.pass with
    | none =>
      rw [passed, pass] at behind
      cases behind
    | some current =>
      cases current with
      | settling =>
        rw [passed, pass] at behind
        cases behind
      | loop index stage => exact ⟨index, stage, rfl⟩
  have stale : a.connected.pass = some (.loop index stage.stale) := by
    rw [Announcer.connected, pass]
    rfl
  obtain ⟨later, finished⟩ := pass_finishes stale (sound.inside index stage pass)
  refine ⟨later, fun reannounced => ?_⟩
  rw [connected] at reannounced
  have listed : hash ∈ a.announcedCapabilities := split ▸ List.mem_append_left _ behind
  have quiet : ¬ (run step a.connected later).Announcing hash := by
    rintro ⟨stage, member, reaches⟩
    rw [finished.calls] at member
    exact uncalled (connected_announcing.mp ⟨stage, member, reaches⟩)
  have done := reannounced finished.idle hash (finished.announced ▸ listed) quiet
  rcases finished.provided hash done with before | rest
  · cases before
  · have distinct := sound.distinct
    rw [split] at distinct
    exact (List.nodup_append.mp distinct).2.2 hash behind hash rest rfl

/-- In every run in which no peer connects too late, every state keeps the promise; a peer that
connects too late can break it. -/
theorem run_reannounced (events : List Event) :
    (Allowed step Careful start events →
      ∀ before, before <+: events → (run step start before).Reannounced) ∧
    (¬ (run step start events).Careful .peerConnect →
      ∃ later, ¬ (run step start (events ++ .peerConnect :: later)).Reannounced) := by
  constructor
  · intro allowed before visited
    have initial : start.Covered := fun _ member => absurd member List.not_mem_nil
    exact (visited_invariant step_covered initial allowed visited).reannounced
  · intro late
    obtain ⟨later, broken⟩ := late_connection (run_sound events) late
    refine ⟨later, ?_⟩
    rwa [run_append]

/-- A second peer that connects after the pass for the first one. -/
theorem secondPeer_reached : (run step start
    [.announceCapability (js "liop:manifest"), .callResolved 0, .callProvided 0, .peerConnect,
      .settled, .passResolved, .passProvided, .peerConnect, .settled, .passResolved,
      .passProvided]).Reannounced := by
  refine (run_reannounced _).1 ?_ _ (List.prefix_refl _)
  refine ⟨trivial, trivial, trivial, ?_, trivial, trivial, trivial, ?_, trivial, trivial, trivial,
    trivial⟩
  · exact fun hash member => absurd member List.not_mem_nil
  · exact fun hash member => absurd member List.not_mem_nil

/-- One capability, and a second peer that connects while it is provided for the first one. -/
def twoPeers : List Event :=
  [.announceCapability (js "liop:manifest"), .callResolved 0, .callProvided 0, .peerConnect,
    .settled, .passResolved, .peerConnect, .passProvided]

theorem secondPeer_missed : ¬ (run step start twoPeers).Reannounced := by
  intro reannounced
  have missed := reannounced rfl (js "liop:manifest") (by decide) (by
    rintro ⟨stage, member, -⟩
    cases member)
  cases missed

end Announcer

end NeuralMesh.Mesh
