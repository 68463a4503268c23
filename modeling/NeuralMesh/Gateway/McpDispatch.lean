import NeuralMesh.Gateway.McpRequest
import NeuralMesh.Js.ExactNumber
import NeuralMesh.Js.Object
import NeuralMesh.Security.Rbac

/-! The dispatch of MCP requests. Clients of the older protocol version get the answers without the
envelope of the newer one. -/
namespace NeuralMesh.Gateway.Mcp

open Js Worker Security

def MCP_PROTOCOL_VERSION : JsString := js "2026-07-28"
def MCP_PROTOCOL_VERSION_LEGACY : JsString := js "2025-11-25"

/-! ### Requests -/

structure McpRequest where
  method : JsValue
  params : JsValue
  id : JsValue

/-- A request from its JSON value. -/
def McpRequest.ofJson (json : JsValue) : McpRequest :=
  ⟨member (js "method") json, member (js "params") json, member (js "id") json⟩

inductive McpEra where
  | legacy
  | modern
  deriving DecidableEq

namespace McpRequest

variable (request : McpRequest)

/-- `params?._meta?.["io.modelcontextprotocol/protocolVersion"]` -/
def version : JsValue := member versionKey (member (js "_meta") request.params)

def isLegacyRequest : Bool :=
  isString (js "initialize") request.method ||
    isString (js "notifications/initialized") request.method ||
    !truthy request.version || isString MCP_PROTOCOL_VERSION_LEGACY request.version

def detectEra : McpEra :=
  if isString MCP_PROTOCOL_VERSION request.version then .modern
  else if request.isLegacyRequest then .legacy
  else .modern

end McpRequest

inductive McpMethod where
  | initializeRequest
  | initialized
  | cancelled
  | discover
  | ping
  | toolsList
  | toolsCall
  | resourcesList
  | resourcesRead
  | promptsList
  | promptsGet
  | templatesList
  | subscriptionsListen
  | unknown
  deriving DecidableEq

def methods : List (JsString × McpMethod) :=
  [("initialize", .initializeRequest), ("notifications/initialized", .initialized),
    ("notifications/cancelled", .cancelled), ("server/discover", .discover), ("ping", .ping),
    ("tools/list", .toolsList), ("tools/call", .toolsCall), ("resources/list", .resourcesList),
    ("resources/read", .resourcesRead), ("prompts/list", .promptsList),
    ("prompts/get", .promptsGet), ("resources/templates/list", .templatesList),
    ("subscriptions/listen", .subscriptionsListen)].map fun (name, method) => (js name, method)

/-- The case of the `switch` that a method selects. -/
def methodCase : JsValue → McpMethod
  | .str name => (methods.lookup name).getD .unknown
  | _ => .unknown

/-! ### Responses -/

structure RpcError where
  code : Int
  message : JsString

/-- A response has a result or an error. -/
structure McpResponse where
  id : JsValue
  body : Except RpcError JsValue

def number (n : Int) : JsValue := .num (.finite (Decimal.ofInt n))

def McpResponse.value (response : McpResponse) : JsValue :=
  .obj [(js "jsonrpc", .str (js "2.0")), (js "id", response.id),
    match response.body with
    | .ok result => (js "result", result)
    | .error error => (js "error",
        .obj [(js "code", number error.code), (js "message", .str error.message)])]

def resultType : JsString := js "resultType"

/-- The fields of the newer envelope. -/
def envelopeKeys : List JsString := [resultType, js "ttlMs", js "cacheScope"]

/-- The enumerable own properties of an object or array. -/
def ownProperties : JsValue → Members
  | .obj ms => ms
  | .arr vs => vs.mapIdx fun i v => (ofText (natText i), v)
  | _ => []

def isNullish : JsValue → Bool
  | .undefined | .null => true
  | _ => false

def isObject : JsValue → Bool
  | .obj _ | .arr _ => true
  | _ => false

/-- `{ ...base, ...v }` -/
def spread (base : Members) (v : JsValue) : Members := assign (ownProperties v) base

/-- The result of `adaptResponseForLegacyClient`. -/
def adaptResult (result : JsValue) : JsValue :=
  if isObject result then .obj (without envelopeKeys (spread [] result)) else result

def adaptResponseForLegacyClient (response : McpResponse) : McpResponse :=
  { response with body := response.body.map adaptResult }

def complete : JsString × JsValue := (resultType, .str (js "complete"))

/-- A result that may be cached. -/
def cacheable (ttlMs : Int) (cacheScope : JsString) (key : JsString) (value : JsValue) : JsValue :=
  .obj [complete, (js "ttlMs", number ttlMs), (js "cacheScope", .str cacheScope), (key, value)]

def capabilities : JsValue :=
  let listChanged := JsValue.obj [(js "listChanged", .bool true)]
  .obj [(js "tools", listChanged), (js "resources", listChanged), (js "prompts", listChanged)]

/-- `resObj.resultType = "complete"`, unless it is set. What is assigned to an array is no part of
its text. -/
def completeResult : JsValue → JsValue
  | .obj ms => .obj (if truthy (property resultType ms) then ms
      else setProperty resultType complete.2 ms)
  | v => v

/-! ### Dispatch -/

/-- A value whose objects have their properties in the order of enumeration. -/
structure JsData where
  value : JsValue
  ordered : isOrdered value = true

def listValue (elements : List JsData) : JsValue := .arr (elements.map (·.value))

/-- What the calls that a dispatch waits for return; nothing is an exception. The lists are
sorted. -/
structure Answers where
  serverInfo : JsData
  tools : Option (List JsData)
  /-- `transcodeMcpToLiop` -/
  transcoded : Option (Except RpcError JsData)
  resources : Option (List JsData)
  /-- The contents that `readResource` or a cached manifest has, or the message of the error. -/
  contents : Except JsString (List JsData)
  prompts : List JsData
  /-- `getPrompt` -/
  prompt : Except JsString JsData

/-- How a dispatch ends. -/
inductive Outcome where
  | thrown
  | silent
  | answered (response : McpResponse)

def Outcome.map (f : McpResponse → McpResponse) : Outcome → Outcome
  | thrown => thrown
  | silent => silent
  | answered response => answered (f response)

namespace McpRequest

variable (request : McpRequest)

def fail (code : Int) (message : JsString) : Outcome :=
  .answered ⟨request.id, .error ⟨code, message⟩⟩

def succeed (result : JsValue) : Outcome := .answered ⟨request.id, .ok result⟩

/-- Strips the modern fields for a legacy client. -/
def adapted (response : Outcome) : Outcome :=
  if request.detectEra = .legacy then response.map adaptResponseForLegacyClient else response

/-- The `switch` of the dispatch; `text` is the method in a message. -/
def route (answers : Answers) (text : JsString) : Outcome :=
  match methodCase request.method with
  | .initializeRequest =>
    .answered ⟨if isNullish request.id then .null else request.id, .ok (.obj
      [(js "protocolVersion", .str MCP_PROTOCOL_VERSION_LEGACY), (js "capabilities", capabilities),
        (js "serverInfo", answers.serverInfo.value)])⟩
  | .initialized | .cancelled => .silent
  | .discover => request.succeed (.obj [complete,
      (js "supportedVersions", .arr [.str MCP_PROTOCOL_VERSION, .str MCP_PROTOCOL_VERSION_LEGACY]),
      (js "capabilities", capabilities), (js "serverInfo", answers.serverInfo.value)])
  | .ping => request.succeed (.obj [])
  | .toolsList =>
    match answers.tools with
    | none => .thrown
    | some tools => request.adapted
        (request.succeed (cacheable 300000 (js "public") (js "tools") (listValue tools)))
  | .toolsCall =>
    -- `params.name` is read first
    if isNullish request.params then .thrown
    else match answers.transcoded with
      | none => .thrown
      | some body =>
        if request.detectEra = .legacy then
          .answered (adaptResponseForLegacyClient ⟨request.id, body.map (·.value)⟩)
        else .answered ⟨request.id, body.map fun result => completeResult result.value⟩
  | .resourcesList =>
    match answers.resources with
    | none => .thrown
    | some resources => request.adapted
        (request.succeed (cacheable 300000 (js "public") (js "resources") (listValue resources)))
  | .resourcesRead =>
    if !truthy (member (js "uri") request.params) then
      request.fail (-32602) (js "Missing resource uri")
    else match answers.contents with
      | .error message => request.fail (-32000) message
      | .ok contents => request.adapted
          (request.succeed (cacheable 60000 (js "private") (js "contents") (listValue contents)))
  | .promptsList => request.adapted
      (request.succeed (cacheable 300000 (js "public") (js "prompts") (listValue answers.prompts)))
  | .promptsGet =>
    if !truthy (member (js "name") request.params) then
      request.fail (-32602) (js "Missing prompt name")
    else match answers.prompt with
      | .error message => request.fail (-32000) message
      | .ok result => request.adapted
          (request.succeed (if isObject result.value then .obj (spread [complete] result.value)
            else result.value))
  | .templatesList => request.adapted
      (request.succeed (cacheable 300000 (js "public") (js "resourceTemplates") (.arr [])))
  | .subscriptionsListen => request.adapted (request.succeed (.obj [complete]))
  | .unknown => request.fail (-32601) (js "Method not found: " ++ text)

/-- The text of a method in a template; the conversion of a value that is no string may throw. -/
def methodText (display : JsValue → Option JsString) : Option JsString :=
  match request.method with
  | .str name => some name
  | v => display v

/-- `auth` is nothing without a validator. -/
def dispatch (display : JsValue → Option JsString) (auth : Option (Option Security.AuthInfo))
    (answers : Answers) : Outcome :=
  match request.methodText display with
  | none => .thrown
  | some text =>
    match auth with
    | none => request.route answers text
    | some authInfo =>
      match authorizeRequest text authInfo none with
      | none => .thrown
      | some authResult =>
        if authResult.allowed then request.route answers text
        else
          let reason := authResult.reason.getD []
          request.fail (-32099) (if reason = [] then js "Access Denied" else reason)

end McpRequest

/-! ### The envelope -/

theorem property_without {keys : List JsString} {key : JsString} (left_out : key ∈ keys)
    (ms : Members) : property key (without keys ms) = .undefined := by
  induction ms with
  | nil => rfl
  | cons m ms ih =>
    obtain ⟨k, v⟩ := m
    by_cases dropped : k ∈ keys
    · rw [without_mem dropped, ih]
    · have other : k ≠ key := fun same => dropped (same ▸ left_out)
      rw [without_kept dropped, property, if_neg other, ih]

/-- A result that lacks the fields of the envelope. -/
def Bare (result : JsValue) : Prop := ∀ key ∈ envelopeKeys, member key result = .undefined

theorem bare_adaptResult (result : JsValue) : Bare (adaptResult result) := by
  intro key enveloped
  unfold adaptResult
  split_ifs with object
  · exact property_without enveloped _
  · cases result with
    | obj | arr => exact absurd rfl object
    | undefined | null | bool | num | str => rfl

theorem spread_ordered {ms : Members} (ordered : isOrdered (.obj ms) = true) :
    spread [] (.obj ms) = ms :=
  assign_sorted ((isOrdered_obj ms).mp ordered).1

/-- Adapting takes away what completing adds. -/
theorem adaptResult_completeResult {result : JsValue} (ordered : isOrdered result = true) :
    adaptResult (completeResult result) = adaptResult result := by
  cases result with
  | undefined | null | bool | num | str | arr => rfl
  | obj ms =>
    rw [completeResult]
    split_ifs
    · rfl
    · have dropped : resultType ∈ envelopeKeys := List.mem_cons_self
      have added : isOrdered complete.2 = true := rfl
      have longer := setProperty_ordered resultType added ordered
      simp only [adaptResult, isObject, if_true, spread_ordered ordered, spread_ordered longer,
        without_setProperty dropped]

namespace McpRequest

/-- Requests that differ in their version, and in what is not read. -/
structure Alike (a b : McpRequest) : Prop where
  method : a.method = b.method
  id : a.id = b.id
  nullish : methodCase a.method = .toolsCall → isNullish a.params = isNullish b.params
  uri : member (js "uri") a.params = member (js "uri") b.params
  name : member (js "name") a.params = member (js "name") b.params

variable {a b : McpRequest}

theorem adapted_legacy (older : a.detectEra = .legacy) (response : Outcome) :
    a.adapted response = response.map adaptResponseForLegacyClient := if_pos older

theorem adapted_modern (newer : b.detectEra = .modern) (response : Outcome) :
    b.adapted response = response := by
  unfold adapted
  rw [newer]
  exact if_neg nofun

theorem route_eras (alike : Alike a b) (older : a.detectEra = .legacy)
    (newer : b.detectEra = .modern) (other : methodCase a.method ≠ .discover) (answers : Answers)
    (text : JsString) :
    a.route answers text = (b.route answers text).map adaptResponseForLegacyClient := by
  have notLegacy : b.detectEra ≠ .legacy := by
    rw [newer]
    exact nofun
  have nullish := alike.nullish
  simp only [route, adapted_legacy older, adapted_modern newer, if_pos older, if_neg notLegacy,
    alike.method, alike.id, alike.uri, alike.name, succeed, fail] at other nullish ⊢
  cases selected : methodCase b.method with
  | discover => exact absurd selected other
  | initializeRequest => rfl
  | initialized | cancelled | ping | promptsList | templatesList | subscriptionsListen
  | unknown => rfl
  | toolsList =>
    cases answers.tools <;> rfl
  | resourcesList =>
    cases answers.resources <;> rfl
  | toolsCall =>
    simp only [nullish selected]
    split_ifs
    · rfl
    · cases answers.transcoded with
      | none => rfl
      | some body =>
        cases body with
        | error error => rfl
        | ok result =>
          simp only [Outcome.map, adaptResponseForLegacyClient, Except.map,
            adaptResult_completeResult result.ordered]
  | resourcesRead =>
    dsimp only
    split_ifs
    · rfl
    · cases answers.contents <;> rfl
  | promptsGet =>
    dsimp only
    split_ifs
    · rfl
    · cases answers.prompt <;> rfl

/-- A client of the older version gets the answer that one of the newer version gets, without the
fields of the envelope. -/
theorem dispatch_eras (alike : Alike a b) (older : a.detectEra = .legacy)
    (newer : b.detectEra = .modern) (other : methodCase a.method ≠ .discover)
    (display : JsValue → Option JsString) (auth : Option (Option Security.AuthInfo))
    (answers : Answers) :
    a.dispatch display auth answers =
      (b.dispatch display auth answers).map adaptResponseForLegacyClient := by
  have routed := route_eras alike older newer other answers
  have text : a.methodText display = b.methodText display := by
    rw [methodText, methodText, alike.method]
  unfold dispatch
  rw [text]
  cases b.methodText display with
  | none => rfl
  | some text =>
    dsimp only
    cases auth with
    | none => exact routed text
    | some authInfo =>
      dsimp only
      cases authorizeRequest text authInfo none with
      | none => rfl
      | some authResult =>
        dsimp only
        split_ifs
        · exact routed text
        · simp only [fail, alike.id]
          rfl
        · simp only [fail, alike.id]
          rfl

/-- A read of the same resource in both versions. -/
def readRequest (version : JsString) : McpRequest where
  method := .str (js "resources/read")
  params := .obj [(js "uri", .str (js "liop://a")),
    (js "_meta", .obj [(versionKey, .str version)])]
  id := number 1

theorem readRequest_alike (v w : JsString) : Alike (readRequest v) (readRequest w) where
  method := rfl
  id := rfl
  nullish _ := rfl
  uri := by
    have read (version : JsString) :
        member (js "uri") (readRequest version).params = .str (js "liop://a") := rfl
    exact (read v).trans (read w).symm
  name := by
    have absent (version : JsString) :
        member (js "name") (readRequest version).params = .undefined := rfl
    exact (absent v).trans (absent w).symm

def oneResource : Answers where
  serverInfo := ⟨.obj [], rfl⟩
  tools := none
  transcoded := none
  resources := none
  contents := .ok [⟨.str (js "a"), rfl⟩]
  prompts := []
  prompt := .error []

theorem readRequest_eras :
    (readRequest MCP_PROTOCOL_VERSION_LEGACY).dispatch (fun _ => none) none oneResource =
      ((readRequest MCP_PROTOCOL_VERSION).dispatch (fun _ => none) none oneResource).map
        adaptResponseForLegacyClient := by
  have older : (readRequest MCP_PROTOCOL_VERSION_LEGACY).detectEra = .legacy := by decide
  have newer : (readRequest MCP_PROTOCOL_VERSION).detectEra = .modern := by decide
  have other : methodCase (readRequest MCP_PROTOCOL_VERSION_LEGACY).method ≠ .discover := by
    decide
  have alike := readRequest_alike MCP_PROTOCOL_VERSION_LEGACY MCP_PROTOCOL_VERSION
  exact dispatch_eras alike older newer other (fun _ => none) none oneResource

end McpRequest

/-! ### Answers -/

theorem number_ordered (n : Int) : isOrdered (number n) = true := rfl

theorem listValue_ordered (elements : List JsData) : isOrdered (listValue elements) = true := by
  simp only [listValue, isOrdered, allOrdered_iff, List.mem_map]
  rintro _ ⟨element, -, rfl⟩
  exact element.ordered

theorem members_ordered {ms : Members} {keys : List JsString} (same : ms.map Prod.fst = keys)
    (sorted : keys.Pairwise fun a b => precedes a b = true)
    (each : ∀ m ∈ ms, isOrdered m.2 = true) : isOrdered (.obj ms) = true := by
  subst same
  exact (isOrdered_obj ms).mpr ⟨List.pairwise_map.mp sorted, each⟩

theorem cacheable_ordered (ttlMs : Int) (cacheScope : JsString) {key : JsString} {value : JsValue}
    (named : arrayIndex key = none) (other : key ∉ envelopeKeys)
    (ordered : isOrdered value = true) :
    isOrdered (cacheable ttlMs cacheScope key value) = true := by
  have envelope : envelopeKeys.Pairwise fun a b => precedes a b = true := by decide
  have sorted : (envelopeKeys ++ [key]).Pairwise fun a b => precedes a b = true := by
    refine List.pairwise_append.mpr ⟨envelope, List.pairwise_singleton _ _, fun k member => ?_⟩
    intro last single
    obtain rfl := List.mem_singleton.mp single
    exact arrayIndex_precedes named fun same => other (same ▸ member)
  exact members_ordered rfl sorted (by simp [complete, isOrdered, number_ordered, ordered])

theorem ownProperties_ordered {v : JsValue} (ordered : isOrdered v = true) :
    ∀ m ∈ ownProperties v, isOrdered m.2 = true := by
  cases v with
  | obj ms => exact ((isOrdered_obj ms).mp ordered).2
  | arr vs =>
    intro m member
    obtain ⟨i, bound, rfl⟩ := List.mem_mapIdx.mp member
    exact (allOrdered_iff vs).mp ordered _ (List.getElem_mem bound)
  | undefined | null | bool | num | str =>
    rintro m ⟨⟩

theorem spread_isOrdered {base : Members} {v : JsValue} (first : isOrdered (.obj base) = true)
    (ordered : isOrdered v = true) : isOrdered (.obj (spread base v)) = true :=
  assign_ordered (ownProperties_ordered ordered) first

theorem adaptResult_ordered {result : JsValue} (ordered : isOrdered result = true) :
    isOrdered (adaptResult result) = true := by
  unfold adaptResult
  split_ifs
  · exact without_ordered _ (spread_isOrdered rfl ordered)
  · exact ordered

theorem completeResult_ordered {result : JsValue} (ordered : isOrdered result = true) :
    isOrdered (completeResult result) = true := by
  cases result with
  | undefined | null | bool | num | str | arr => exact ordered
  | obj ms =>
    rw [completeResult]
    split_ifs
    · exact ordered
    · exact setProperty_ordered _ rfl ordered

/-- What every answer to a request is like. -/
structure Answers.To (request : McpRequest) (response : McpResponse) : Prop where
  id : response.id = request.id ∨ isNullish request.id = true ∧ response.id = .null
  bare : request.detectEra = .legacy → methodCase request.method ≠ .discover →
    ∀ result, response.body = .ok result → Bare result
  ordered : isOrdered request.id = true → isOrdered response.value = true

theorem McpResponse.value_ordered {response : McpResponse} (id : isOrdered response.id = true)
    (body : ∀ result, response.body = .ok result → isOrdered result = true) :
    isOrdered response.value = true := by
  have results : [js "jsonrpc", js "id", js "result"].Pairwise
      fun a b => precedes a b = true := by decide
  have errors : [js "jsonrpc", js "id", js "error"].Pairwise
      fun a b => precedes a b = true := by decide
  have fields : [js "code", js "message"].Pairwise fun a b => precedes a b = true := by decide
  unfold value
  cases answered : response.body with
  | ok result => exact members_ordered rfl results (by simp [isOrdered, id, body result answered])
  | error error =>
    have told : isOrdered (.obj [(js "code", number error.code),
        (js "message", .str error.message)]) = true :=
      members_ordered rfl fields (by simp [isOrdered, number_ordered])
    exact members_ordered rfl errors (by simpa [isOrdered, id] using told)

namespace McpRequest

variable {request : McpRequest} {response : McpResponse}

theorem to_result {result : JsValue} (ordered : isOrdered result = true)
    (bare : request.detectEra = .legacy → methodCase request.method ≠ .discover → Bare result) :
    Answers.To request ⟨request.id, .ok result⟩ where
  id := .inl rfl
  bare older other := by
    rintro _ ⟨⟩
    exact bare older other
  ordered id := by
    refine McpResponse.value_ordered id ?_
    rintro _ ⟨⟩
    exact ordered

theorem to_error (error : RpcError) : Answers.To request ⟨request.id, .error error⟩ where
  id := .inl rfl
  bare _ _ := by rintro _ ⟨⟩
  ordered id := by
    refine McpResponse.value_ordered id ?_
    rintro _ ⟨⟩

/-- A response that is adapted to its client. -/
theorem to_adapted {result : JsValue} (ordered : isOrdered result = true)
    (answered : request.adapted (request.succeed result) = .answered response) :
    Answers.To request response := by
  unfold adapted at answered
  split_ifs at answered with older
  · cases answered
    exact to_result (adaptResult_ordered ordered) fun _ _ => bare_adaptResult result
  · cases answered
    exact to_result ordered fun legacy => absurd legacy older

theorem capabilities_ordered : isOrdered capabilities = true := by decide

/-- The answer to `initialize` has no envelope, and always an id. -/
theorem to_initialize {result : JsValue} (ordered : isOrdered result = true) (bare : Bare result) :
    Answers.To request ⟨if isNullish request.id then .null else request.id, .ok result⟩ := by
  split_ifs with absent
  · refine ⟨.inr ⟨absent, rfl⟩, ?_, fun _ => McpResponse.value_ordered rfl ?_⟩
    · rintro - - _ ⟨⟩
      exact bare
    · rintro _ ⟨⟩
      exact ordered
  · exact to_result ordered fun _ _ => bare

theorem to_transcoded {body : Except RpcError JsData}
    (answered : (if request.detectEra = .legacy then
        Outcome.answered (adaptResponseForLegacyClient ⟨request.id, body.map (·.value)⟩)
      else .answered ⟨request.id, body.map fun result => completeResult result.value⟩) =
        .answered response) :
    Answers.To request response := by
  cases body with
  | error error =>
    split_ifs at answered <;> cases answered <;> exact to_error error
  | ok result =>
    split_ifs at answered with older
    · cases answered
      exact to_result (adaptResult_ordered result.ordered) fun _ _ => bare_adaptResult result.value
    · cases answered
      exact to_result (completeResult_ordered result.ordered) fun legacy => absurd legacy older

theorem route_to {answers : Answers} {text : JsString}
    (answered : request.route answers text = .answered response) :
    Answers.To request response := by
  have list (ttlMs : Int) (cacheScope : JsString) (key : JsString) (elements : List JsData)
      (named : arrayIndex key = none) (other : key ∉ envelopeKeys) :=
    cacheable_ordered ttlMs cacheScope named other (listValue_ordered elements)
  unfold route at answered
  cases selected : methodCase request.method with
  | initializeRequest =>
    simp only [selected] at answered
    cases answered
    have keys : [js "protocolVersion", js "capabilities", js "serverInfo"].Pairwise
        fun a b => precedes a b = true := by decide
    refine to_initialize (members_ordered rfl keys ?_) ?_
    · simp only [List.forall_mem_cons]
      exact ⟨rfl, capabilities_ordered, answers.serverInfo.ordered, List.forall_mem_nil _⟩
    · intro key enveloped
      simp only [envelopeKeys, List.mem_cons, List.not_mem_nil, or_false] at enveloped
      obtain rfl | rfl | rfl := enveloped <;> rfl
  | initialized | cancelled =>
    simp only [selected] at answered
    cases answered
  | discover =>
    simp only [selected] at answered
    cases answered
    have keys : [resultType, js "supportedVersions", js "capabilities", js "serverInfo"].Pairwise
        fun a b => precedes a b = true := by decide
    refine to_result (members_ordered rfl keys ?_) fun _ other => absurd selected other
    simp only [List.forall_mem_cons]
    exact ⟨rfl, rfl, capabilities_ordered, answers.serverInfo.ordered, List.forall_mem_nil _⟩
  | ping =>
    simp only [selected] at answered
    cases answered
    exact to_result rfl fun _ _ _ _ => rfl
  | toolsList =>
    simp only [selected] at answered
    cases tools : answers.tools with
    | none =>
      rw [tools] at answered
      cases answered
    | some elements =>
      simp only [tools] at answered
      exact to_adapted (list _ _ _ elements (by decide) (by decide)) answered
  | toolsCall =>
    simp only [selected] at answered
    cases nullish : isNullish request.params with
    | true =>
      simp only [nullish, if_true] at answered
      cases answered
    | false =>
      simp only [nullish, Bool.false_eq_true, if_false] at answered
      cases transcoded : answers.transcoded with
      | none =>
        rw [transcoded] at answered
        cases answered
      | some body =>
        simp only [transcoded] at answered
        exact to_transcoded answered
  | resourcesList =>
    simp only [selected] at answered
    cases resources : answers.resources with
    | none =>
      rw [resources] at answered
      cases answered
    | some elements =>
      simp only [resources] at answered
      exact to_adapted (list _ _ _ elements (by decide) (by decide)) answered
  | resourcesRead =>
    simp only [selected] at answered
    split_ifs at answered with named
    · cases answered
      exact to_error _
    · cases contents : answers.contents with
      | error message =>
        simp only [contents] at answered
        cases answered
        exact to_error _
      | ok elements =>
        simp only [contents] at answered
        exact to_adapted (list _ _ _ elements (by decide) (by decide)) answered
  | promptsList =>
    simp only [selected] at answered
    exact to_adapted (list _ _ _ answers.prompts (by decide) (by decide)) answered
  | promptsGet =>
    simp only [selected] at answered
    split_ifs at answered with named
    · cases answered
      exact to_error _
    · cases prompt : answers.prompt with
      | error message =>
        simp only [prompt] at answered
        cases answered
        exact to_error _
      | ok result =>
        simp only [prompt] at answered
        refine to_adapted ?_ answered
        split_ifs
        · exact spread_isOrdered rfl result.ordered
        · exact result.ordered
  | templatesList =>
    simp only [selected] at answered
    exact to_adapted (cacheable_ordered _ _ (by decide) (by decide) rfl) answered
  | subscriptionsListen =>
    simp only [selected] at answered
    exact to_adapted rfl answered
  | unknown =>
    simp only [selected] at answered
    cases answered
    exact to_error _

theorem dispatch_to {display : JsValue → Option JsString}
    {auth : Option (Option Security.AuthInfo)} {answers : Answers}
    (answered : request.dispatch display auth answers = .answered response) :
    Answers.To request response := by
  unfold dispatch at answered
  cases spelled : request.methodText display with
  | none =>
    rw [spelled] at answered
    cases answered
  | some text =>
    simp only [spelled] at answered
    cases auth with
    | none => exact route_to answered
    | some authInfo =>
      dsimp only at answered
      cases decided : authorizeRequest text authInfo none with
      | none =>
        rw [decided] at answered
        cases answered
      | some authResult =>
        simp only [decided] at answered
        cases allowed : authResult.allowed with
        | true =>
          simp only [allowed, if_true] at answered
          exact route_to answered
        | false =>
          simp only [allowed, Bool.false_eq_true, if_false] at answered
          cases answered
          exact to_error _

end McpRequest

end NeuralMesh.Gateway.Mcp
