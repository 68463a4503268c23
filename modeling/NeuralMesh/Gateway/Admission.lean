import NeuralMesh.Gateway.McpRequest
import NeuralMesh.Gateway.RateLimiter
import NeuralMesh.Transition

/-! Which requests of the hybrid gateway reach the router. The gate of a drain and the rate limiter
stand in the handler of HTTP/1.1 only. -/
namespace NeuralMesh.Gateway

open Js

/-- A request that has been dispatched: whether the gateway was draining when its headers arrived,
whether the rate limiter admitted it, and the open window of its client. -/
structure Dispatch where
  key : JsString
  draining : Bool
  admitted : Bool
  window : Option Nat

inductive RequestPhase where
  | absent
  | receiving (request : McpRequest) (authInfo : Option AuthInfo) (draining : Bool)
  | answered (answer : Answer)

structure LiopHybridGateway (R : Type) where
  isDraining : Bool
  rateLimiter : InMemoryRateLimiter
  phase : R → RequestPhase
  dispatched : List Dispatch

inductive GatewayEvent (R : Type) where
  | headers (r : R) (request : McpRequest)
  | body (r : R) (body : Text) (now : Nat)
  | drain
  | stop
  | cleanup (now : Nat)

structure GatewayOptions where
  jwtValidator : Bool
  windowMs : Nat
  maxRequests : Nat

def rateLimitKey (authInfo : Option AuthInfo) (remoteAddress : JsString) : JsString :=
  match header (authInfo.map (·.clientId)) with
  | some clientId => js "client:" ++ clientId
  | none => js "ip:" ++ (header (some remoteAddress)).getD (js "127.0.0.1")

variable {R : Type} [DecidableEq R]

namespace LiopHybridGateway

def start : LiopHybridGateway R := ⟨false, .start, fun _ => .absent, []⟩

def answer (s : LiopHybridGateway R) (r : R) (answer : Answer) : LiopHybridGateway R :=
  { s with phase := Function.update s.phase r (.answered answer) }

section Options

variable (options : GatewayOptions)

/-- HTTP/1.1 checks the drain and the token with the headers. -/
def onHeaders (s : LiopHybridGateway R) (r : R) (request : McpRequest) : LiopHybridGateway R :=
  match request.version with
  | .http1 =>
    if s.isDraining then s.answer r .draining
    else
      match authorize options.jwtValidator request with
      | .error refusal => s.answer r refusal
      | .ok authInfo =>
        { s with phase := Function.update s.phase r (.receiving request authInfo s.isDraining) }
  | .http2 => { s with phase := Function.update s.phase r (.receiving request none s.isDraining) }

/-- The end of a body checks the headers, and then dispatches. -/
def route (s : LiopHybridGateway R) (r : R) (request : McpRequest) (authInfo : Option AuthInfo)
    (body : Text) (dispatch : Dispatch) : LiopHybridGateway R :=
  match prepare request body with
  | .error refusal => s.answer r refusal
  | .ok jsonRequest =>
    { s.answer r (.dispatched jsonRequest authInfo) with dispatched := dispatch :: s.dispatched }

/-- The end of an HTTP/1.1 body. -/
def onEnd (s : LiopHybridGateway R) (r : R) (request : McpRequest) (authInfo : Option AuthInfo)
    (draining : Bool) (body : Text) (now : Nat) : LiopHybridGateway R :=
  let key := rateLimitKey authInfo request.remoteAddress
  let checked := s.rateLimiter.check options.windowMs options.maxRequests key now
  let s := { s with rateLimiter := checked.2 }
  if checked.1.allowed then
    s.route r request authInfo body
      ⟨key, draining, true, (s.rateLimiter.records key).map (·.window)⟩
  else s.answer r (.tooManyRequests ((checked.1.resetMs + 999) / 1000))

/-- The end of an HTTP/2 body. -/
def onH2End (s : LiopHybridGateway R) (r : R) (request : McpRequest) (draining : Bool)
    (body : Text) (now : Nat) : LiopHybridGateway R :=
  match authorize options.jwtValidator request with
  | .error refusal => s.answer r refusal
  | .ok authInfo =>
    let key := rateLimitKey authInfo request.remoteAddress
    let opened := (s.rateLimiter.records key).filter fun record => now < record.resetTime
    s.route r request authInfo body ⟨key, draining, false, opened.map (·.window)⟩

def step (s : LiopHybridGateway R) : GatewayEvent R → LiopHybridGateway R
  | .headers r request =>
    match s.phase r with
    | .absent => s.onHeaders options r request
    | _ => s
  | .body r body now =>
    match s.phase r with
    | .receiving request authInfo draining =>
      match request.version with
      | .http1 => s.onEnd options r request authInfo draining body now
      | .http2 => s.onH2End options r request draining body now
    | _ => s
  | .drain => { s with isDraining := true }
  | .stop => { s with rateLimiter := s.rateLimiter.close }
  | .cleanup now => { s with rateLimiter := s.rateLimiter.cleanup now }

/-- No HTTP/2 request passes its own checks, so none is dispatched. -/
def Http2Refused (s : LiopHybridGateway R) : GatewayEvent R → Prop
  | .body r body _ => ∀ request authInfo draining, s.phase r = .receiving request authInfo draining →
      request.version = .http2 → request.isDispatchable options.jwtValidator body = false
  | _ => True

end Options

end LiopHybridGateway

/-! ### Requests in a window -/

def dispatchesIn (dispatched : List Dispatch) (key : JsString) (window : Nat) : Nat :=
  dispatched.countP fun d => d.key = key ∧ d.window = some window

theorem dispatchesIn_cons (d : Dispatch) (dispatched : List Dispatch) (key : JsString)
    (window : Nat) : dispatchesIn (d :: dispatched) key window =
      dispatchesIn dispatched key window + if d.key = key ∧ d.window = some window then 1 else 0 := by
  rw [dispatchesIn, List.countP_cons]
  simp only [decide_eq_true_eq]
  rfl

/-- Each record counts at least the dispatched requests of its window. -/
structure Counted (maxRequests : Nat) (limiter : InMemoryRateLimiter)
    (dispatched : List Dispatch) : Prop where
  fresh : ∀ key record, limiter.records key = some record → record.window < limiter.opened
  numbered : ∀ d ∈ dispatched, ∀ window ∈ d.window, window < limiter.opened
  counted : ∀ key record, limiter.records key = some record →
    dispatchesIn dispatched key record.window ≤ record.count
  limited : ∀ key window, dispatchesIn dispatched key window ≤ maxRequests

namespace Counted

variable {maxRequests windowMs : Nat} {limiter : InMemoryRateLimiter} {dispatched : List Dispatch}

theorem start : Counted maxRequests .start [] where
  fresh := fun _ _ stored => nomatch stored
  numbered := fun _ member => nomatch member
  counted := fun _ _ stored => nomatch stored
  limited := fun _ _ => Nat.zero_le _

/-- A window that has not been opened has no dispatched request. -/
theorem unopened (good : Counted maxRequests limiter dispatched) (key : JsString) :
    dispatchesIn dispatched key limiter.opened = 0 := by
  apply List.countP_eq_zero.mpr
  intro d member same
  have window := (of_decide_eq_true same).2
  exact Nat.lt_irrefl _ (good.numbered d member limiter.opened window)

/-- Records may be forgotten. -/
theorem forget (good : Counted maxRequests limiter dispatched)
    {records : JsString → Option WindowRecord}
    (kept : ∀ key record, records key = some record → limiter.records key = some record) :
    Counted maxRequests { limiter with records := records } dispatched where
  fresh := fun key record stored => good.fresh key record (kept key record stored)
  numbered := good.numbered
  counted := fun key record stored => good.counted key record (kept key record stored)
  limited := good.limited

/-- What a check that allows a request leaves room for. -/
theorem allows (good : Counted maxRequests limiter dispatched) (positive : 0 < maxRequests)
    {key : JsString} {now : Nat}
    (allowed : (limiter.check windowMs maxRequests key now).1.allowed = true) :
    let next := (limiter.check windowMs maxRequests key now).2
    ∃ record, next.records = Function.update limiter.records key (some record) ∧
      record.window < next.opened ∧ limiter.opened ≤ next.opened ∧
      dispatchesIn dispatched key record.window + 1 ≤ record.count ∧
      dispatchesIn dispatched key record.window + 1 ≤ maxRequests := by
  rcases limiter.check_cases key now with ⟨refused, -⟩ |
    ⟨-, record, updated, ⟨opened, single, advanced⟩ | ⟨before, stored, free, window, count, same⟩⟩
  · exact absurd (allowed.symm.trans refused) (by decide)
  · have none := good.unopened key
    refine ⟨record, updated, ?_, ?_, ?_, ?_⟩
    · omega
    · omega
    · rw [opened, none, single]
    · rw [opened, none]
      omega
  · have counted := good.counted key before stored
    have fresh := good.fresh key before stored
    refine ⟨record, updated, ?_, ?_, ?_, ?_⟩
    · omega
    · omega
    · rw [window]
      omega
    · rw [window]
      omega

/-- An allowed request is counted, whether or not it is dispatched afterwards. -/
theorem check (good : Counted maxRequests limiter dispatched) (positive : 0 < maxRequests)
    {key : JsString} {now : Nat}
    (allowed : (limiter.check windowMs maxRequests key now).1.allowed = true) (draining : Bool) :
    let next := (limiter.check windowMs maxRequests key now).2
    Counted maxRequests next dispatched ∧
      Counted maxRequests next
        (⟨key, draining, true, (next.records key).map (·.window)⟩ :: dispatched) := by
  intro next
  obtain ⟨record, updated, numbered, later, room, within⟩ := good.allows positive allowed
  have current : next.records key = some record := by
    rw [updated, Function.update_self]
  have fresh : ∀ k r, next.records k = some r → r.window < next.opened := by
    intro k r stored
    rw [updated, Function.update_apply] at stored
    split_ifs at stored
    · cases stored
      exact numbered
    · exact (good.fresh k r stored).trans_le later
  have older : ∀ d ∈ dispatched, ∀ window ∈ d.window, window < next.opened :=
    fun d member window inside => (good.numbered d member window inside).trans_le later
  refine ⟨⟨fresh, older, ?_, good.limited⟩, ⟨fresh, ?_, ?_, ?_⟩⟩
  · intro k r stored
    rw [updated, Function.update_apply] at stored
    split_ifs at stored with same
    · cases stored
      subst same
      omega
    · exact good.counted k r stored
  · intro d member window inside
    rcases List.mem_cons.mp member with rfl | earlier
    · rw [current] at inside
      cases inside
      exact numbered
    · exact older d earlier window inside
  · intro k r stored
    rw [updated, Function.update_apply] at stored
    rw [dispatchesIn_cons]
    split_ifs at stored with same
    · cases stored
      subst same
      split_ifs
      · exact room
      · omega
    · rw [if_neg fun both => same both.1.symm]
      exact good.counted k r stored
  · intro k window
    rw [dispatchesIn_cons]
    split_ifs with both
    · obtain ⟨rfl, opened⟩ := both
      rw [current] at opened
      cases opened
      exact within
    · exact good.limited k window

end Counted

/-! ### Every dispatch is admitted -/

namespace LiopHybridGateway

structure Admits (options : GatewayOptions) (s : LiopHybridGateway R) : Prop where
  receiving : ∀ r request authInfo draining, s.phase r = .receiving request authInfo draining →
    request.version = .http1 → draining = false
  admitted : ∀ d ∈ s.dispatched, d.draining = false ∧ d.admitted = true
  counted : Counted options.maxRequests s.rateLimiter s.dispatched

variable {options : GatewayOptions} {s : LiopHybridGateway R}

omit [DecidableEq R] in
theorem start_admits : (start : LiopHybridGateway R).Admits options where
  receiving := fun _ _ _ _ received => nomatch received
  admitted := fun _ member => nomatch member
  counted := .start

theorem answer_admits (good : s.Admits options) (r : R) (refusal : Answer) :
    (s.answer r refusal).Admits options := by
  refine ⟨fun other request authInfo draining received => ?_, good.admitted, good.counted⟩
  change Function.update s.phase r (.answered refusal) other = _ at received
  rw [Function.update_apply] at received
  split_ifs at received
  exact good.receiving other request authInfo draining received

theorem onHeaders_admits (good : s.Admits options) (r : R) (request : McpRequest) :
    (s.onHeaders options r request).Admits options := by
  have receive {draining : Bool} (authInfo : Option AuthInfo)
      (gate : request.version = .http1 → draining = false) :
      Admits options { s with
        phase := Function.update s.phase r (.receiving request authInfo draining) } := by
    refine ⟨fun other received info _ phase version => ?_, good.admitted, good.counted⟩
    dsimp only at phase
    rw [Function.update_apply] at phase
    split_ifs at phase
    · cases phase
      exact gate version
    · exact good.receiving other received info _ phase version
  rw [onHeaders]
  split
  · split_ifs with draining
    · exact answer_admits good r .draining
    · split
      · exact answer_admits good r _
      · exact receive _ fun _ => Bool.not_eq_true _ ▸ draining
  · next version => exact receive _ fun other => by rw [version] at other; cases other

theorem route_admits (good : s.Admits options) (r : R) (request : McpRequest)
    (authInfo : Option AuthInfo) (body : Text) {dispatch : Dispatch}
    (passes : dispatch.draining = false ∧ dispatch.admitted = true)
    (counted : Counted options.maxRequests s.rateLimiter (dispatch :: s.dispatched)) :
    (s.route r request authInfo body dispatch).Admits options := by
  rw [route]
  split
  · exact answer_admits good r _
  · refine ⟨(answer_admits good r _).receiving, fun d member => ?_, counted⟩
    rcases List.mem_cons.mp member with rfl | earlier
    · exact passes
    · exact good.admitted d earlier

theorem onEnd_admits (positive : 0 < options.maxRequests) (good : s.Admits options) (r : R)
    (request : McpRequest) (authInfo : Option AuthInfo) (body : Text) (now : Nat) :
    (s.onEnd options r request authInfo false body now).Admits options := by
  rw [onEnd]
  dsimp only
  split_ifs with allowed
  · obtain ⟨kept, dispatched⟩ := good.counted.check positive allowed false
    have passed : Admits options { s with rateLimiter := (s.rateLimiter.check options.windowMs
        options.maxRequests (rateLimitKey authInfo request.remoteAddress) now).2 } :=
      ⟨good.receiving, good.admitted, kept⟩
    exact route_admits passed r request authInfo body ⟨rfl, rfl⟩ dispatched
  · have same : (s.rateLimiter.check options.windowMs options.maxRequests
        (rateLimitKey authInfo request.remoteAddress) now).2 = s.rateLimiter := by
      rcases s.rateLimiter.check_cases (rateLimitKey authInfo request.remoteAddress) now with
        ⟨-, same⟩ | ⟨allows, -⟩
      · exact same
      · exact absurd allows allowed
    rw [same]
    exact answer_admits good r _

theorem onH2End_admits (good : s.Admits options) (r : R) {request : McpRequest} {body : Text}
    (refused : request.isDispatchable options.jwtValidator body = false) (draining : Bool)
    (now : Nat) : (s.onH2End options r request draining body now).Admits options := by
  unfold McpRequest.isDispatchable at refused
  rw [onH2End]
  split
  · exact answer_admits good r _
  · next authorized =>
    rw [authorized] at refused
    rw [route]
    split
    · exact answer_admits good r _
    · next prepared =>
      rw [prepared] at refused
      cases refused

theorem step_admits (positive : 0 < options.maxRequests) (s : LiopHybridGateway R)
    (event : GatewayEvent R) (good : s.Admits options) (refused : s.Http2Refused options event) :
    (s.step options event).Admits options := by
  cases event with
  | headers r request =>
    rw [step]
    split
    · exact onHeaders_admits good r request
    · exact good
  | body r body now =>
    rw [step]
    split
    · next request authInfo draining phase =>
      split
      · next version =>
        rw [good.receiving r request authInfo draining phase version]
        exact onEnd_admits positive good r request authInfo body now
      · next version =>
        exact onH2End_admits good r (refused request authInfo draining phase version) draining now
    · exact good
  | drain => exact ⟨good.receiving, good.admitted, good.counted⟩
  | stop => exact ⟨good.receiving, good.admitted, good.counted.forget fun _ _ stored => nomatch stored⟩
  | cleanup now =>
    exact ⟨good.receiving, good.admitted, good.counted.forget fun _ _ stored =>
      (Option.filter_eq_some_iff.mp stored).1⟩

/-- In every run that dispatches no HTTP/2 request, each dispatched request has passed both gates,
and no client has more requests in a window than are allowed. -/
theorem run_admitted (positive : 0 < options.maxRequests) {events : List (GatewayEvent R)}
    (refused : Transition.Allowed (step options) (Http2Refused options)
      (start : LiopHybridGateway R) events) :
    let s := Transition.run (step options) start events
    (∀ d ∈ s.dispatched, d.draining = false ∧ d.admitted = true) ∧
      ∀ key window, dispatchesIn s.dispatched key window ≤ options.maxRequests := by
  have good := Transition.run_invariant (step_admits positive) start_admits refused
  exact ⟨good.admitted, good.counted.limited⟩

end LiopHybridGateway

/-! ### The same request over both versions -/

def toolsList (version : HttpVersion) : McpRequest :=
  ⟨version, js "192.0.2.1", none, none, none, none, .error []⟩

def oneRequest : GatewayOptions := ⟨false, 60000, 1⟩

/-- A request whose headers arrive before the drain, and one whose headers arrive after it. -/
def aroundDrain (version : HttpVersion) : List (GatewayEvent Nat) :=
  [.headers 0 (toolsList .http1), .drain, .headers 1 (toolsList version), .body 0 ['1'] 5,
    .body 1 ['1'] 6]

theorem http1_admitted : ((Transition.run (LiopHybridGateway.step oneRequest) .start
    (aroundDrain .http1)).dispatched.all fun d => !d.draining && d.admitted) = true := by
  have refused : Transition.Allowed (LiopHybridGateway.step oneRequest)
      (LiopHybridGateway.Http2Refused oneRequest) (.start : LiopHybridGateway Nat)
      (aroundDrain .http1) := by
    refine ⟨trivial, trivial, trivial, ?_, ?_, trivial⟩
    · intro request authInfo draining phase version
      cases phase
      cases version
    · intro request authInfo draining phase version
      cases phase
  have admitted := (LiopHybridGateway.run_admitted (by decide) refused).1
  apply List.all_eq_true.mpr
  intro d member
  obtain ⟨open_gate, limited⟩ := admitted d member
  rw [open_gate, limited]
  rfl

/-- Over HTTP/2 the second request is dispatched although the gateway drains and its client has
used up its window. -/
theorem http2_not_admitted :
    let s := Transition.run (LiopHybridGateway.step oneRequest) .start (aroundDrain .http2)
    s.dispatched.map (fun d => (d.draining, d.admitted)) = [(true, false), (false, true)] ∧
      dispatchesIn s.dispatched (js "ip:192.0.2.1") 0 = 2 := by
  decide +kernel

end NeuralMesh.Gateway
