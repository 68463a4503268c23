import Mathlib.Data.Nat.Basic
import NeuralMesh.Node.Sessions
import NeuralMesh.SlidingWindow

/-! The rate limit of handshakes: each agent has a deque of the times of its accepted calls. -/
namespace NeuralMesh.Node

open Transition Answers SlidingWindow

structure RateLimitCall where
  agent_did : String
  now : Nat

abbrev RateLimits := String → List Nat

namespace RateLimits

def start : RateLimits := fun _ => []

/-- Times at the front are popped while they are outside of the window. -/
def purgeFront (window : List Nat) (now : Nat) : List Nat :=
  window.dropWhile fun t => rateLimitWindow < now - t

def checkRateLimit (limits : RateLimits) (call : RateLimitCall) : Except Status Unit × RateLimits :=
  let window := purgeFront (limits call.agent_did) call.now
  if rateLimitMaxRequests ≤ window.length then
    (.error (.resourceExhausted "Rate limit exceeded: max 10 handshakes per minute"),
      Function.update limits call.agent_did window)
  else (.ok (), Function.update limits call.agent_did (window ++ [call.now]))

/-- The deques of the service are those of the limiter. -/
theorem service_limits {C : Type} [DecidableEq C] (s : LiopService C) (call : C)
    (agent_did : String) (now : Nat) :
    (s.checkRateLimit call agent_did now).rate_limits =
      (checkRateLimit s.rate_limits ⟨agent_did, now⟩).2 := by
  rw [LiopService.checkRateLimit, checkRateLimit, purgeFront]
  by_cases full : rateLimitMaxRequests ≤
      ((s.rate_limits agent_did).dropWhile fun t => rateLimitWindow < now - t).length
  · rw [if_pos full]
    simp only [decide_eq_true full, if_true]
  · rw [if_neg full]
    simp only [decide_eq_false full, Bool.false_eq_true, if_false]

def handshakeWindow : Window Nat where
  counts now t := decide (now - t ≤ rateLimitWindow)
  mono := by
    intro now t earlier newer counted before after
    have age := of_decide_eq_true counted
    exact decide_eq_true (by omega)

def accepted (agent : String) (d : RateLimitCall × Except Status Unit) : Bool :=
  decide (d.1.agent_did = agent) && d.2.isOk

/-- Every deque records the accepted calls of its agent. -/
def Recording (done : List (RateLimitCall × Except Status Unit)) (limits : RateLimits) : Prop :=
  ∀ agent, Recorded handshakeWindow rateLimitMaxRequests RateLimitCall.now (accepted agent) done
    (limits agent)

theorem start_recording : Recording [] start := fun _ => Recorded.nil

/-- In a deque in order, the front holds exactly what is outside of the window. -/
theorem purgeFront_eq {window : List Nat} (sorted : window.Pairwise (· ≤ ·)) (now : Nat) :
    purgeFront window now = handshakeWindow.active window now := by
  have outside (t : Nat) : decide (rateLimitWindow < now - t) = !handshakeWindow.counts now t := by
    simp only [handshakeWindow, ← decide_not, Nat.not_le]
  simp only [purgeFront, outside]
  exact dropWhile_eq_active sorted now

theorem next_of_ne (limits : RateLimits) (call : RateLimitCall) {agent : String}
    (other : agent ≠ call.agent_did) : next checkRateLimit limits call agent = limits agent := by
  rw [next, checkRateLimit]
  split_ifs
  · exact Function.update_of_ne other ..
  · exact Function.update_of_ne other ..

/-- A call is refused while the purged deque is full, and is recorded otherwise. -/
theorem checkRateLimit_cases (limits : RateLimits) (call : RateLimitCall) :
    let window := purgeFront (limits call.agent_did) call.now
    (rateLimitMaxRequests ≤ window.length ∧
      (checkRateLimit limits call).1 = .error (.resourceExhausted
        "Rate limit exceeded: max 10 handshakes per minute") ∧
      next checkRateLimit limits call call.agent_did = window) ∨
    (window.length < rateLimitMaxRequests ∧ (checkRateLimit limits call).1 = .ok () ∧
      next checkRateLimit limits call call.agent_did = window ++ [call.now]) := by
  rw [next, checkRateLimit]
  split_ifs with full
  · exact .inl ⟨full, rfl, Function.update_self ..⟩
  · exact .inr ⟨Nat.lt_of_not_le full, rfl, Function.update_self ..⟩

theorem checkRateLimit_recording {done : List (RateLimitCall × Except Status Unit)}
    {limits : RateLimits} {call : RateLimitCall} (good : Recording done limits)
    (order : ∀ d ∈ done, d.1.now ≤ call.now) :
    Recording (done ++ [(call, (checkRateLimit limits call).1)]) (next checkRateLimit limits call) := by
  intro agent
  by_cases own : agent = call.agent_did
  · subst own
    have recorded := good call.agent_did
    have purged := purgeFront_eq recorded.sorted call.now
    rcases checkRateLimit_cases limits call with ⟨_, refused, kept⟩ | ⟨room, passed, kept⟩
    · rw [kept, purged]
      apply recorded.purge order
      rw [accepted, refused]
      exact Bool.and_false _
    · rw [purged] at room
      rw [kept, purged]
      apply recorded.take order ?_ room
      rw [accepted, passed, decide_eq_true rfl]
      rfl
  · rw [next_of_ne limits call own]
    apply (good agent).pass
    rw [accepted, decide_eq_false (Ne.symm own)]
    rfl

theorem run_recording {calls : List RateLimitCall} (ordered : Ordered RateLimitCall.now calls) :
    Recording (trace checkRateLimit start calls) (run (next checkRateLimit) start calls) :=
  trace_good (fun _ _ _ good order => checkRateLimit_recording good order) start_recording ordered

theorem accepted_close {since t now : Nat} (first : since ≤ t) (last : now ≤ since + rateLimitWindow) :
    handshakeWindow.counts now t = true :=
  decide_eq_true (by omega)

def SameDeque (agent : String) (_since : Nat) (s t : RateLimits) : Prop := s agent = t agent

/-- The calls of an agent are answered as if there were no others. -/
theorem trace_agent (agent : String) (calls : List RateLimitCall)
    (ordered : Ordered RateLimitCall.now calls) :
    (trace checkRateLimit start calls).filter (fun d => d.1.agent_did = agent) =
      trace checkRateLimit start (calls.filter fun call => call.agent_did = agent) := by
  have alike : SameDeque agent 0 start start := rfl
  refine trace_filter (fun call => decide (call.agent_did = agent)) ?_ ?_ alike ordered
    fun _ _ => Nat.zero_le _
  · intro _ s t call alike _ other
    exact (next_of_ne s call (Ne.symm (of_decide_eq_false other))).trans alike
  · intro _ s t call alike _ own
    obtain rfl := of_decide_eq_true own
    have alike : s call.agent_did = t call.agent_did := alike
    rw [SameDeque]
    rcases checkRateLimit_cases s call with ⟨full, answer, kept⟩ | ⟨room, answer, kept⟩
    · rcases checkRateLimit_cases t call with ⟨_, answer', kept'⟩ | ⟨room, _, _⟩
      · rw [answer, answer', kept, kept', alike]
        exact ⟨rfl, rfl⟩
      · rw [alike] at full
        exact absurd full (Nat.not_le_of_lt room)
    · rcases checkRateLimit_cases t call with ⟨full, _, _⟩ | ⟨_, answer', kept'⟩
      · rw [alike] at room
        exact absurd full (Nat.not_le_of_lt room)
      · rw [answer, answer', kept, kept', alike]
        exact ⟨rfl, rfl⟩

/-- In every run each deque is in order, so that popping its front removes exactly what is older
than the window; no closed interval as long as the window has more accepted calls of an agent than
the limit; and the calls of an agent are answered as if there were no others. -/
theorem handshakes_limited {calls : List RateLimitCall}
    (ordered : Ordered RateLimitCall.now calls) :
    (∀ before, before <+: calls → ∀ agent,
      (run (next checkRateLimit) start before agent).Pairwise (· ≤ ·)) ∧
    (∀ before call, before ++ [call] <+: calls →
      let window := run (next checkRateLimit) start before call.agent_did
      purgeFront window call.now = window.filter fun t => call.now - t ≤ rateLimitWindow) ∧
    (∀ agent since, ((trace checkRateLimit start calls).countP fun d =>
      decide (d.1.agent_did = agent) && d.2.isOk &&
        decide (since ≤ d.1.now ∧ d.1.now ≤ since + rateLimitWindow)) ≤ rateLimitMaxRequests) ∧
    ∀ agent, (trace checkRateLimit start calls).filter (fun d => d.1.agent_did = agent) =
      trace checkRateLimit start (calls.filter fun call => call.agent_did = agent) := by
  have sorted {before : List RateLimitCall} (visited : before <+: calls) (agent : String) :
      (run (next checkRateLimit) start before agent).Pairwise (· ≤ ·) :=
    (run_recording (ordered.sublist visited.sublist) agent).sorted
  refine ⟨fun before visited => sorted visited, ?_, ?_, fun agent => trace_agent agent calls ordered⟩
  · intro before call visited
    exact purgeFront_eq (sorted ((List.prefix_append before [call]).trans visited) _) call.now
  · intro agent since
    apply (run_recording ordered agent).countP_le
      (fun t => decide (since ≤ t ∧ t ≤ since + rateLimitWindow))
    intro t now first last _
    exact accepted_close (of_decide_eq_true first).1 (of_decide_eq_true last).2

/-- Two agents, one of them twice. -/
theorem three_handshakes_limited :
    ((trace checkRateLimit start [⟨"a", 1⟩, ⟨"b", 2⟩, ⟨"a", 3⟩]).countP fun d =>
      decide (d.1.agent_did = "a") && d.2.isOk &&
        decide (0 ≤ d.1.now ∧ d.1.now ≤ 0 + rateLimitWindow)) ≤ rateLimitMaxRequests :=
  (handshakes_limited (by decide)).2.2.1 "a" 0

end RateLimits

end NeuralMesh.Node
