import NeuralMesh.Server.RateLimits

/-! Runs without a refused call. A call that its tool's limiter refuses has passed the global one,
which counts it; nothing else remains of a refused call. -/
namespace NeuralMesh.Server

open Js Transition Answers SlidingWindow

namespace LimitedServer

variable {S R : Type} (server : LimitedServer S R)

/-- What the global window counts of a refused call. -/
def spentBy (request : ToolCall) (outcome : CallOutcome R) : List Int :=
  if outcome.refusedByTool then [request.now] else []

/-- While a spent time still counts, the request finds room in the global window. -/
def FindsRoom (spent : List Int) (s : CallState S) (request : ToolCall) : Prop :=
  server.registered s.rest request.name = true → ∀ t ∈ spent, request.now - t < server.windowMs →
    (server.active s.windows.globalCallWindow request.now).length < server.globalMaxPerWindow

/-- The first state has the spent times besides. -/
structure Beside (spent : List Int) (since : Int) (s t : CallState S) : Prop where
  rest : s.rest = t.rest
  tools : s.windows.toolCallWindows = t.windows.toolCallWindows
  globally : ∃ earlier later,
    Keeps server.callWindow since s.windows.globalCallWindow (earlier ++ spent ++ later) ∧
      Keeps server.callWindow since t.windows.globalCallWindow (earlier ++ later)

variable {server} {spent : List Int} {since : Int} {s t : CallState S} {request : ToolCall}

namespace Beside

/-- Both windows at a later time, the first of them with the spent times that still count. -/
theorem active (beside : server.Beside spent since s t) {now : Int} (order : since ≤ now) :
    ∃ earlier later,
      server.active s.windows.globalCallWindow now =
        earlier ++ server.active spent now ++ later ∧
      server.active t.windows.globalCallWindow now = earlier ++ later := by
  obtain ⟨earlier, later, first, second⟩ := beside.globally
  refine ⟨server.active earlier now, server.active later now, ?_, ?_⟩
  · refine (first now order).trans ?_
    rw [Window.active, List.filter_append, List.filter_append]
    rfl
  · refine (second now order).trans ?_
    rw [Window.active, List.filter_append]
    rfl

theorem active_eq (beside : server.Beside spent since s t) {now : Int} (order : since ≤ now)
    (none : server.active spent now = []) :
    server.active s.windows.globalCallWindow now = server.active t.windows.globalCallWindow now := by
  obtain ⟨earlier, later, first, second⟩ := beside.active order
  rw [first, second, none, List.append_nil]

theorem length_le (beside : server.Beside spent since s t) {now : Int} (order : since ≤ now) :
    (server.active t.windows.globalCallWindow now).length ≤
      (server.active s.windows.globalCallWindow now).length := by
  obtain ⟨earlier, later, first, second⟩ := beside.active order
  rw [first, second, List.length_append, List.length_append, List.length_append]
  omega

/-- Both global limiters purge. -/
theorem purge (beside : server.Beside spent since s t) {now : Int} (order : since ≤ now)
    {tools : JsString → List Int} {rest : S} : server.Beside spent now
      ⟨⟨tools, server.active s.windows.globalCallWindow now⟩, rest⟩
      ⟨⟨tools, server.active t.windows.globalCallWindow now⟩, rest⟩ := by
  obtain ⟨earlier, later, first, second⟩ := beside.globally
  exact ⟨rfl, rfl, earlier, later, first.purge order, second.purge order⟩

/-- Both global limiters let the call pass. -/
theorem push (beside : server.Beside spent since s t) {now : Int} (order : since ≤ now)
    {tools : JsString → List Int} {rest : S} : server.Beside spent now
      ⟨⟨tools, server.active s.windows.globalCallWindow now ++ [now]⟩, rest⟩
      ⟨⟨tools, server.active t.windows.globalCallWindow now ++ [now]⟩, rest⟩ := by
  obtain ⟨earlier, later, first, second⟩ := beside.globally
  refine ⟨rfl, rfl, earlier, later ++ [now], ?_, ?_⟩
  · rw [← List.append_assoc]
    exact (first.purge order).push (le_refl now)
  · rw [← List.append_assoc]
    exact (second.purge order).push (le_refl now)

end Beside

/-- The state after a refused call is the state before it, beside what the call has spent. -/
theorem refused_beside (s : CallState S) {request : ToolCall} {refusal : RateLimited}
    (refused : (server.callTool s request).1 = .rateLimited refusal) :
    server.Beside (spentBy request (server.callTool s request).1) request.now
      (next server.callTool s request) s := by
  have called := server.callTool_called s request
  rw [next]
  generalize server.callTool s request = result at called refused
  have purged : Keeps server.callWindow request.now
      (server.active s.windows.globalCallWindow request.now) s.windows.globalCallWindow :=
    fun now order => active_active s.windows.globalCallWindow order
  have kept : Keeps server.callWindow request.now s.windows.globalCallWindow
      s.windows.globalCallWindow := fun _ _ => rfl
  cases called with
  | missing unknown => cases refused
  | globallyLimited found full =>
    refine ⟨rfl, rfl, s.windows.globalCallWindow, [], ?_, ?_⟩
    · change Keeps _ _ _ (_ ++ [] ++ [])
      rw [List.append_nil, List.append_nil]
      exact purged
    · rw [List.append_nil]
      exact kept
  | toolLimited found room full =>
    refine ⟨rfl, rfl, s.windows.globalCallWindow, [], ?_, ?_⟩
    · rw [List.append_nil]
      exact purged.push (le_refl request.now)
    · rw [List.append_nil]
      exact kept
  | executed found room roomForTool => cases refused

/-- A request that finds room is answered alike. -/
theorem callTool_beside (beside : server.Beside spent since s t) (order : since ≤ request.now)
    (room : server.FindsRoom spent s request) :
    (server.callTool s request).1 = (server.callTool t request).1 ∧
      server.Beside spent request.now (next server.callTool s request)
        (next server.callTool t request) := by
  have same : ∀ full : server.globalMaxPerWindow ≤
      (server.active s.windows.globalCallWindow request.now).length,
      server.registered s.rest request.name = true →
      server.active s.windows.globalCallWindow request.now =
        server.active t.windows.globalCallWindow request.now := by
    intro full found
    apply beside.active_eq order
    refine List.filter_eq_nil_iff.mpr fun u member counted => ?_
    exact absurd full (Nat.not_le_of_lt (room found u member (of_decide_eq_true counted)))
  have called := server.callTool_called s request
  rw [next, next]
  generalize server.callTool s request = result at called
  obtain ⟨sameRest, sameTools, _⟩ := id beside
  cases called with
  | missing unknown =>
    rw [(Called.missing (sameRest ▸ unknown)).eq]
    exact ⟨rfl, sameRest, sameTools, by
      obtain ⟨earlier, later, first, second⟩ := beside.globally
      exact ⟨earlier, later, first.later order, second.later order⟩⟩
  | globallyLimited found full =>
    have equal := same full found
    rw [(Called.globallyLimited (sameRest ▸ found) (equal ▸ full)).eq, equal, sameTools, sameRest]
    have purged : server.Beside spent request.now
        ⟨⟨t.windows.toolCallWindows, server.active s.windows.globalCallWindow request.now⟩, t.rest⟩
        ⟨⟨t.windows.toolCallWindows, server.active t.windows.globalCallWindow request.now⟩, t.rest⟩ :=
      beside.purge order
    rw [equal] at purged
    exact ⟨rfl, purged⟩
  | toolLimited found free full =>
    have fewer := Nat.lt_of_le_of_lt (beside.length_le order) free
    rw [(Called.toolLimited (sameRest ▸ found) fewer (sameTools ▸ full)).eq, sameTools, sameRest]
    exact ⟨rfl, beside.push order⟩
  | executed found free roomForTool =>
    have fewer := Nat.lt_of_le_of_lt (beside.length_le order) free
    rw [(Called.executed (sameRest ▸ found) fewer (sameTools ▸ roomForTool)).eq, sameTools, sameRest]
    exact ⟨rfl, beside.push order⟩

/-- A request that finds none is refused, and was not without the spent times. -/
theorem refused_beside_only (beside : server.Beside spent since s t) (order : since ≤ request.now)
    (bounded : s.windows.globalCallWindow.length ≤ server.globalMaxPerWindow)
    (blocked : ¬ server.FindsRoom spent s request) :
    (server.callTool s request).1.refusedGlobally = true ∧
      (server.callTool t request).1.refusedGlobally = false := by
  simp only [FindsRoom, not_forall, Nat.not_lt] at blocked
  obtain ⟨found, u, member, counted, full⟩ := blocked
  obtain ⟨earlier, later, first, second⟩ := beside.active order
  have counts : 0 < (server.active spent request.now).length :=
    List.length_pos_of_mem (List.mem_filter.mpr ⟨member, decide_eq_true counted⟩)
  have held : (server.active s.windows.globalCallWindow request.now).length ≤
      s.windows.globalCallWindow.length := List.length_filter_le ..
  have room : (server.active t.windows.globalCallWindow request.now).length <
      server.globalMaxPerWindow := by
    rw [first, List.length_append, List.length_append] at held
    rw [second, List.length_append]
    omega
  constructor
  · rw [(Called.globallyLimited found full).eq]
    rfl
  · have called := server.callTool_called t request
    generalize server.callTool t request = result at called
    cases called with
    | globallyLimited _ full => exact absurd full (Nat.not_le_of_lt room)
    | missing | toolLimited | executed => rfl

theorem callTool_bounded (s : CallState S) (request : ToolCall)
    (bounded : s.windows.globalCallWindow.length ≤ server.globalMaxPerWindow) :
    (next server.callTool s request).windows.globalCallWindow.length ≤
      server.globalMaxPerWindow := by
  have called := server.callTool_called s request
  rw [next]
  generalize server.callTool s request = result at called
  cases called with
  | missing unknown => exact bounded
  | globallyLimited found full => exact Nat.le_trans (List.length_filter_le ..) bounded
  | toolLimited found room full => rwa [List.length_append]
  | executed found room roomForTool => rwa [List.length_append]

/-- Up to the first request that finds no room the answers are the same ones, and there they are
not. -/
theorem trace_beside_iff (beside : server.Beside spent since s t)
    (bounded : s.windows.globalCallWindow.length ≤ server.globalMaxPerWindow)
    {requests : List ToolCall} (ordered : Ordered ToolCall.now requests)
    (later : ∀ request ∈ requests, since ≤ request.now) :
    trace server.callTool s requests = trace server.callTool t requests ↔
      Allowed (next server.callTool) (server.FindsRoom spent) s requests := by
  induction requests generalizing since s t with
  | nil => exact iff_of_true rfl trivial
  | cons request requests ih =>
    obtain ⟨first, ordered⟩ := List.pairwise_cons.mp ordered
    have order := later request List.mem_cons_self
    rw [trace, trace, Allowed, List.cons.injEq, Prod.mk.injEq]
    by_cases room : server.FindsRoom spent s request
    · obtain ⟨answer, kept⟩ := callTool_beside beside order room
      rw [ih kept (callTool_bounded s request bounded) ordered first]
      exact and_congr_left' (iff_of_true ⟨rfl, answer⟩ room)
    · obtain ⟨refused, passed⟩ := refused_beside_only beside order bounded room
      refine iff_of_false (fun same => ?_) fun allowed => room allowed.1
      rw [same.1.2, passed] at refused
      cases refused

variable (server) in
/-- The later requests are answered as in the run without this one. -/
def RemovalUnnoticed (rest : S) (before : List ToolCall) (request : ToolCall)
    (later : List ToolCall) : Prop :=
  (trace server.callTool (.start rest) (before ++ request :: later)).drop (before.length + 1) =
    (trace server.callTool (.start rest) (before ++ later)).drop before.length

variable (server) in
/-- A refused request costs later ones nothing exactly when none of them arrives at a full global
window that still counts it. -/
theorem removalUnnoticed_iff (rest : S) {before : List ToolCall} {request : ToolCall}
    {later : List ToolCall} (ordered : Ordered ToolCall.now (before ++ request :: later))
    {refusal : RateLimited}
    (refused : (server.callTool (run (next server.callTool) (.start rest) before) request).1 =
      .rateLimited refusal) :
    server.RemovalUnnoticed rest before request later ↔
      Allowed (next server.callTool)
        (server.FindsRoom (spentBy request
          (server.callTool (run (next server.callTool) (.start rest) before) request).1))
        (next server.callTool (run (next server.callTool) (.start rest) before) request) later := by
  have bounded : (run (next server.callTool) (.start rest) before).windows.globalCallWindow.length ≤
      server.globalMaxPerWindow := by
    have held : ∀ s : CallState S, ∀ request, s.windows.globalCallWindow.length ≤
        server.globalMaxPerWindow → True →
        (next server.callTool s request).windows.globalCallWindow.length ≤
          server.globalMaxPerWindow := fun s request bounded _ => callTool_bounded s request bounded
    exact run_invariant held (Nat.zero_le _) (Allowed.of_forall (fun _ _ _ => trivial) _)
  have split : (trace server.callTool (.start rest) (before ++ request :: later)).drop
      (before.length + 1) = trace server.callTool
        (next server.callTool (run (next server.callTool) (.start rest) before) request) later := by
    rw [← List.drop_drop, drop_trace, trace, List.drop_one, List.tail_cons]
  obtain ⟨_, orderedLater, _⟩ := List.pairwise_append.mp ordered
  obtain ⟨after, orderedLater⟩ := List.pairwise_cons.mp orderedLater
  rw [RemovalUnnoticed, split, drop_trace]
  exact trace_beside_iff (refused_beside _ refused) (callTool_bounded _ request bounded) orderedLater
    after

end LimitedServer

open LimitedServer

/-- The second call is refused by its tool's limiter, and nothing comes while it counts. -/
theorem late_call_unnoticed :
    smallServer.RemovalUnnoticed () [smallCall "a" 0] (smallCall "a" 1) [smallCall "b" 70000] := by
  apply (smallServer.removalUnnoticed_iff () (by decide) rfl).mpr
  exact ⟨fun _ _ _ _ => by decide, trivial⟩

/-- The call of the other tool hits the global limit only because of the refused call. -/
theorem refused_call_noticed : ¬ ∀ (before : List ToolCall) (request : ToolCall)
    (later : List ToolCall) (refusal : RateLimited),
    Ordered ToolCall.now (before ++ request :: later) →
    (smallServer.callTool (run (next smallServer.callTool) (.start ()) before) request).1 =
      .rateLimited refusal →
    smallServer.RemovalUnnoticed () before request later := by
  intro unnoticed
  have same := unnoticed [smallCall "a" 0] (smallCall "a" 1) [smallCall "b" 2] _ (by decide) rfl
  cases same

end NeuralMesh.Server
