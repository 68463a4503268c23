import Mathlib.Data.Int.ConditionallyCompleteOrder
import Mathlib.Order.ConditionallyCompleteLattice.Basic
import NeuralMesh.Js.Value
import NeuralMesh.SlidingWindow

/-! The two rate limiters of `callTool`: the global one is asked first, and then the one of the
tool. Both read the clock at the time of the request. -/
namespace NeuralMesh.Server

open Js Transition Answers SlidingWindow

structure RateLimitOptions where
  windowMs : Int
  maxPerWindow : Nat
  globalMaxPerWindow : Nat

/-- A tool without an entry has no calls. -/
structure CallWindows where
  toolCallWindows : JsString → List Int
  globalCallWindow : List Int

/-- What the texts of the refusals tell; the time to wait is no number while no call is recorded. -/
inductive RateLimited where
  | tooManyCalls (toolName : JsString) (maxPerWindow : Nat) (windowMs : Int)
      (retryAfterSec : Option Int)
  | globalLimitExceeded (maxGlobal : Nat) (windowMs : Int) (retryAfterSec : Option Int)

structure ToolCall where
  name : JsString
  arguments : JsValue
  clientId : JsString
  now : Int

inductive CallOutcome (R : Type) where
  | toolNotFound
  | rateLimited (refusal : RateLimited)
  | executed (result : R)

/-- The tools, and what `callTool` does behind the limiters. -/
structure LimitedServer (S R : Type) extends RateLimitOptions where
  registered : S → (name : JsString) → Bool
  execute : S → ToolCall → R × S

structure CallState (S : Type) where
  windows : CallWindows
  rest : S

def CallState.start {S : Type} (rest : S) : CallState S := ⟨⟨fun _ => [], []⟩, rest⟩

namespace RateLimitOptions

variable (options : RateLimitOptions)

def active (window : List Int) (now : Int) : List Int :=
  window.filter fun t => now - t < options.windowMs

/-- `Math.ceil((active[0] + windowMs - now) / 1000)` -/
def retryAfterSec (active : List Int) (now : Int) : Option Int :=
  active.head?.map fun first => -((now - options.windowMs - first) / 1000)

/-- A refusal leaves the window of the tool as it was. -/
def checkToolCallRateLimit (windows : CallWindows) (toolName : JsString) (now : Int) :
    Option RateLimited × CallWindows :=
  let active := options.active (windows.toolCallWindows toolName) now
  if options.maxPerWindow ≤ active.length then
    (some (.tooManyCalls toolName options.maxPerWindow options.windowMs
      (options.retryAfterSec active now)), windows)
  else
    (none, { windows with
      toolCallWindows := Function.update windows.toolCallWindows toolName (active ++ [now]) })

def checkGlobalRateLimit (windows : CallWindows) (now : Int) : Option RateLimited × CallWindows :=
  let active := options.active windows.globalCallWindow now
  if options.globalMaxPerWindow ≤ active.length then
    (some (.globalLimitExceeded options.globalMaxPerWindow options.windowMs
      (options.retryAfterSec active now)), { windows with globalCallWindow := active })
  else (none, { windows with globalCallWindow := active ++ [now] })

def callWindow : Window Int where
  counts now t := decide (now - t < options.windowMs)
  mono := by
    intro now t earlier newer counted before after
    have age := of_decide_eq_true counted
    exact decide_eq_true (by omega)

end RateLimitOptions

namespace LimitedServer

variable {S R : Type} (server : LimitedServer S R)

def callTool (s : CallState S) (request : ToolCall) : CallOutcome R × CallState S :=
  if server.registered s.rest request.name then
    match server.checkGlobalRateLimit s.windows request.now with
    | (some refusal, windows) => (.rateLimited refusal, { s with windows := windows })
    | (none, windows) =>
      match server.checkToolCallRateLimit windows request.name request.now with
      | (some refusal, windows) => (.rateLimited refusal, { s with windows := windows })
      | (none, windows) =>
        let executed := server.execute s.rest request
        (.executed executed.1, ⟨windows, executed.2⟩)
  else (.toolNotFound, s)

/-- A request finds no tool, or a full global window, or a full window of its tool, or it is
executed. -/
inductive Called (s : CallState S) (request : ToolCall) : CallOutcome R × CallState S → Prop where
  | missing (unknown : server.registered s.rest request.name = false) :
      Called s request (.toolNotFound, s)
  | globallyLimited (found : server.registered s.rest request.name = true)
      (full : server.globalMaxPerWindow ≤
        (server.active s.windows.globalCallWindow request.now).length) :
      Called s request (.rateLimited (.globalLimitExceeded server.globalMaxPerWindow server.windowMs
          (server.retryAfterSec (server.active s.windows.globalCallWindow request.now) request.now)),
        ⟨⟨s.windows.toolCallWindows, server.active s.windows.globalCallWindow request.now⟩, s.rest⟩)
  | toolLimited (found : server.registered s.rest request.name = true)
      (room : (server.active s.windows.globalCallWindow request.now).length <
        server.globalMaxPerWindow)
      (full : server.maxPerWindow ≤
        (server.active (s.windows.toolCallWindows request.name) request.now).length) :
      Called s request (.rateLimited (.tooManyCalls request.name server.maxPerWindow server.windowMs
          (server.retryAfterSec (server.active (s.windows.toolCallWindows request.name) request.now)
            request.now)),
        ⟨⟨s.windows.toolCallWindows,
          server.active s.windows.globalCallWindow request.now ++ [request.now]⟩, s.rest⟩)
  | executed (found : server.registered s.rest request.name = true)
      (room : (server.active s.windows.globalCallWindow request.now).length <
        server.globalMaxPerWindow)
      (roomForTool : (server.active (s.windows.toolCallWindows request.name) request.now).length <
        server.maxPerWindow) :
      Called s request (.executed (server.execute s.rest request).1,
        ⟨⟨Function.update s.windows.toolCallWindows request.name
            (server.active (s.windows.toolCallWindows request.name) request.now ++ [request.now]),
          server.active s.windows.globalCallWindow request.now ++ [request.now]⟩,
          (server.execute s.rest request).2⟩)

variable {server} in
theorem Called.eq {s : CallState S} {request : ToolCall} {result : CallOutcome R × CallState S}
    (called : server.Called s request result) : server.callTool s request = result := by
  rw [callTool]
  cases called with
  | missing unknown => rw [unknown, if_neg Bool.false_ne_true]
  | globallyLimited found full =>
    rw [found, if_pos rfl, RateLimitOptions.checkGlobalRateLimit]
    dsimp only
    rw [if_pos full]
  | toolLimited found room full =>
    rw [found, if_pos rfl, RateLimitOptions.checkGlobalRateLimit]
    dsimp only
    rw [if_neg (Nat.not_le_of_lt room)]
    dsimp only
    rw [RateLimitOptions.checkToolCallRateLimit]
    dsimp only
    rw [if_pos full]
  | executed found room roomForTool =>
    rw [found, if_pos rfl, RateLimitOptions.checkGlobalRateLimit]
    dsimp only
    rw [if_neg (Nat.not_le_of_lt room)]
    dsimp only
    rw [RateLimitOptions.checkToolCallRateLimit]
    dsimp only
    rw [if_neg (Nat.not_le_of_lt roomForTool)]

theorem callTool_called (s : CallState S) (request : ToolCall) :
    server.Called s request (server.callTool s request) := by
  cases found : server.registered s.rest request.name with
  | false => exact (Called.missing found).eq ▸ .missing found
  | true =>
    by_cases full : server.globalMaxPerWindow ≤
        (server.active s.windows.globalCallWindow request.now).length
    · exact (Called.globallyLimited found full).eq ▸ .globallyLimited found full
    · have room := Nat.lt_of_not_le full
      by_cases toolFull : server.maxPerWindow ≤
          (server.active (s.windows.toolCallWindows request.name) request.now).length
      · exact (Called.toolLimited found room toolFull).eq ▸ .toolLimited found room toolFull
      · have roomForTool := Nat.lt_of_not_le toolFull
        exact (Called.executed found room roomForTool).eq ▸ .executed found room roomForTool

end LimitedServer

/-! ### The limits in every window -/

namespace CallOutcome

variable {R : Type}

def isExecuted : CallOutcome R → Bool
  | .executed _ => true
  | _ => false

/-- The global limiter was asked, and let the call pass. -/
def passedGlobal : CallOutcome R → Bool
  | .executed _ | .rateLimited (.tooManyCalls ..) => true
  | _ => false

def refusedGlobally : CallOutcome R → Bool
  | .rateLimited (.globalLimitExceeded ..) => true
  | _ => false

def refusedByTool : CallOutcome R → Bool
  | .rateLimited (.tooManyCalls ..) => true
  | _ => false

end CallOutcome

namespace LimitedServer

variable {S R : Type} {server : LimitedServer S R}

def executedFor (name : JsString) (d : ToolCall × CallOutcome R) : Bool :=
  decide (d.1.name = name) && d.2.isExecuted

variable (server) in
/-- Each window records the calls that its limiter let pass. -/
structure WindowsRecorded (done : List (ToolCall × CallOutcome R)) (s : CallState S) : Prop where
  globally : Recorded server.callWindow server.globalMaxPerWindow ToolCall.now (·.2.passedGlobal) done
    s.windows.globalCallWindow
  tools : ∀ name, Recorded server.callWindow server.maxPerWindow ToolCall.now (executedFor name) done
    (s.windows.toolCallWindows name)

theorem start_recorded (rest : S) : server.WindowsRecorded [] (.start rest) :=
  ⟨Recorded.nil, fun _ => Recorded.nil⟩

theorem callTool_recorded {done : List (ToolCall × CallOutcome R)} {s : CallState S}
    {request : ToolCall} (good : server.WindowsRecorded done s)
    (order : ∀ d ∈ done, d.1.now ≤ request.now) :
    server.WindowsRecorded (done ++ [(request, (server.callTool s request).1)])
      (next server.callTool s request) := by
  have called := server.callTool_called s request
  rw [next]
  generalize server.callTool s request = result at called
  cases called with
  | missing unknown =>
    exact ⟨good.globally.pass rfl, fun name => (good.tools name).pass (Bool.and_false _)⟩
  | globallyLimited found full =>
    exact ⟨good.globally.purge order rfl, fun name => (good.tools name).pass (Bool.and_false _)⟩
  | toolLimited found room full =>
    exact ⟨good.globally.take order rfl room, fun name => (good.tools name).pass (Bool.and_false _)⟩
  | executed found room roomForTool =>
    refine ⟨good.globally.take order rfl room, fun name => ?_⟩
    by_cases own : name = request.name
    · subst own
      have admitted := (good.tools request.name).take (a := .executed (server.execute s.rest request).1)
        order (by rw [executedFor, decide_eq_true rfl]; rfl) roomForTool
      dsimp only
      rw [Function.update_self]
      exact admitted
    · have passed := (good.tools name).pass (e := request)
        (a := .executed (server.execute s.rest request).1)
        (by rw [executedFor, decide_eq_false (Ne.symm own)]; rfl)
      dsimp only
      rw [Function.update_of_ne own]
      exact passed

theorem run_recorded (rest : S) {requests : List ToolCall}
    (ordered : Ordered ToolCall.now requests) :
    server.WindowsRecorded (trace server.callTool (.start rest) requests)
      (run (next server.callTool) (.start rest) requests) :=
  trace_good (fun _ _ _ good order => callTool_recorded good order) (start_recorded rest) ordered

/-- The times of the interval of this length from a time on. -/
def during (since windowMs t : Int) : Bool := decide (since ≤ t ∧ t < since + windowMs)

theorem during_close {since t now : Int} (first : during since server.windowMs t = true)
    (last : during since server.windowMs now = true) : server.callWindow.counts now t = true := by
  have lower := (of_decide_eq_true first).1
  have upper := (of_decide_eq_true last).2
  exact decide_eq_true (by omega)

theorem executed_passedGlobal {outcome : CallOutcome R} (executed : outcome.isExecuted = true) :
    outcome.passedGlobal = true := by
  cases outcome with
  | executed result => rfl
  | toolNotFound | rateLimited refusal => cases executed

theorem executed_during_le {done : List (ToolCall × CallOutcome R)} {s : CallState S}
    (good : server.WindowsRecorded done s) (since : Int) :
    (done.countP fun d => d.2.isExecuted && during since server.windowMs d.1.now) ≤
      server.globalMaxPerWindow := by
  refine Nat.le_trans (List.countP_mono_left fun d _ counted => ?_)
    (good.globally.countP_le (during since server.windowMs) fun t now first last _ =>
      during_close first last)
  obtain ⟨executed, inside⟩ := Bool.and_eq_true_iff.mp counted
  exact Bool.and_eq_true_iff.mpr ⟨executed_passedGlobal executed, inside⟩

variable (server) in
/-- A limiter that refuses a call has let so many others pass within the window. -/
def FullFor (before : List (ToolCall × CallOutcome R)) (d : ToolCall × CallOutcome R) : Prop :=
  (d.2.refusedGlobally = true → server.globalMaxPerWindow ≤
    before.countP fun c => c.2.passedGlobal && decide (d.1.now - c.1.now < server.windowMs)) ∧
  (d.2.refusedByTool = true → server.maxPerWindow ≤
    before.countP fun c => executedFor d.1.name c && decide (d.1.now - c.1.now < server.windowMs))

theorem refused_full {before : List (ToolCall × CallOutcome R)} {s : CallState S}
    (good : server.WindowsRecorded before s) {request : ToolCall}
    (order : ∀ d ∈ before, d.1.now ≤ request.now) :
    server.FullFor before (request, (server.callTool s request).1) := by
  have called := server.callTool_called s request
  generalize server.callTool s request = result at called
  cases called with
  | missing unknown => exact ⟨nofun, nofun⟩
  | globallyLimited found full => exact ⟨fun _ => good.globally.full order full, nofun⟩
  | toolLimited found room full =>
    exact ⟨nofun, fun _ => (good.tools request.name).full order full⟩
  | executed found room roomForTool => exact ⟨nofun, nofun⟩

variable (server) in
/-- In every interval as long as the window at most so many calls are executed, of each tool and
of all, and a limiter refuses a call only when its window is full. -/
theorem rate_limits_hold (rest : S) {requests : List ToolCall}
    (ordered : Ordered ToolCall.now requests) :
    let calls := trace server.callTool (.start rest) requests
    (∀ name since, (calls.countP fun d =>
      executedFor name d && during since server.windowMs d.1.now) ≤ server.maxPerWindow) ∧
    (∀ since, (calls.countP fun d => d.2.isExecuted && during since server.windowMs d.1.now) ≤
      server.globalMaxPerWindow) ∧
    ∀ before d later, calls = before ++ d :: later → server.FullFor before d := by
  have good : server.WindowsRecorded _ _ := run_recorded rest ordered
  refine ⟨?_, executed_during_le good, ?_⟩
  · intro name since
    exact (good.tools name).countP_le (during since server.windowMs) fun t now first last _ =>
      during_close first last
  · intro before d later traced
    obtain ⟨earlier, others, rfl, rfl, answer, _⟩ := trace_split traced
    obtain ⟨first, _, order⟩ := List.pairwise_append.mp ordered
    have recorded : server.WindowsRecorded _ _ := run_recorded rest first
    have past : ∀ c ∈ trace server.callTool (.start rest) earlier, c.1.now ≤ d.1.now :=
      fun c member => order c.1 (mem_events member) d.1 List.mem_cons_self
    have full := refused_full recorded past
    rwa [← answer] at full

end LimitedServer

/-- One call for each tool and two for all within a minute. -/
def smallServer : LimitedServer Unit Unit where
  windowMs := 60000
  maxPerWindow := 1
  globalMaxPerWindow := 2
  registered _ _ := true
  execute _ _ := ((), ())

def smallCall (name : String) (now : Int) : ToolCall := ⟨js name, .null, js "c", now⟩

theorem small_limits_hold :
    (trace smallServer.callTool (.start ()) [smallCall "a" 0, smallCall "a" 1, smallCall "b" 2]).countP
      (fun d => d.2.isExecuted && LimitedServer.during 0 smallServer.windowMs d.1.now) ≤
        smallServer.globalMaxPerWindow :=
  (smallServer.rate_limits_hold () (by decide)).2.1 0

end NeuralMesh.Server
