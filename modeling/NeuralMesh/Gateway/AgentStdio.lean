import NeuralMesh.Codec.JsonLines
import NeuralMesh.Gateway.McpDispatch
import NeuralMesh.Js.Document
import NeuralMesh.Js.Encoding
import NeuralMesh.Transition

/-! The agent that serves MCP over its standard streams. Lines are read while earlier requests are
still being dispatched, and the routing tells of changed tools at any time; what is written stays a
transcript of one message on a line. -/
namespace NeuralMesh.Gateway.Mcp

open Js Codec Transition

variable {I : Type}

/-! ### Messages -/

inductive Notification where
  | toolsChanged
  | resourcesChanged
  deriving DecidableEq

namespace Notification

def method : Notification → JsString
  | toolsChanged => js "notifications/tools/list_changed"
  | resourcesChanged => js "notifications/resources/list_changed"

def value (changed : Notification) : JsValue :=
  .obj [(js "jsonrpc", .str (js "2.0")), (js "method", .str changed.method)]

/-- What the agent writes. -/
def text : Notification → Text
  | toolsChanged =>
    "\x7b\"jsonrpc\":\"2.0\",\"method\":\"notifications/tools/list_changed\"\x7d".toList
  | resourcesChanged =>
    "\x7b\"jsonrpc\":\"2.0\",\"method\":\"notifications/resources/list_changed\"\x7d".toList

end Notification

/-- A response comes with the call that it ends and the request of that call. -/
inductive Message (I : Type) where
  | notification (changed : Notification)
  | response (i : I) (request : McpRequest) (answer : McpResponse)

namespace Message

def value : Message I → JsValue
  | notification changed => changed.value
  | response _ _ answer => answer.value

def text : Message I → Text
  | notification changed => changed.text
  | response _ _ answer => jsonText answer.value

/-- The call that a response ends. -/
def caller : Message I → Option I
  | notification _ => none
  | response i _ _ => some i

def told : Message I → Option Notification
  | notification changed => some changed
  | response .. => none

end Message

/-! ### The agent -/

/-- The request on a line. What is no JSON text, and `null`, throws, which is caught. -/
def lineRequest (line : Text) : Option McpRequest :=
  let trimmed := trim line
  if trimmed = [] then none
  else
    match parseDoubles trimmed with
    | none | some .null => none
    | some json => if truthy (member (js "method") json) then some (.ofJson json) else none

/-- A handler of a line, before, while and after it dispatches a request. -/
inductive Call where
  | uncalled
  | pending (request : McpRequest)
  | finished

/-- The calls, what has been written, and the messages this was made of. -/
structure Agent (I : Type) where
  calls : I → Call
  stdout : Bytes
  sent : List (Message I)

/-- What happens before the process exits. -/
inductive Event (I : Type) where
  | line (i : I) (text : Text)
  /-- All that the dispatch waits for is there. -/
  | settled (i : I) (answers : Answers)
  | onToolsChanged

namespace Agent

def start : Agent I := ⟨fun _ => .uncalled, [], []⟩

def write (agent : Agent I) (message : Message I) : Agent I :=
  { agent with
    stdout := agent.stdout ++ utf8 (message.text ++ ['\n'])
    sent := agent.sent ++ [message] }

variable [DecidableEq I]

def setCall (agent : Agent I) (i : I) (call : Call) : Agent I :=
  { agent with calls := Function.update agent.calls i call }

/-- The server of the agent has no validator. -/
def step (display : JsValue → Option JsString) (agent : Agent I) : Event I → Agent I
  | .line i text =>
    match agent.calls i with
    | .uncalled =>
      match lineRequest text with
      | none => agent.setCall i .finished
      | some request => agent.setCall i (.pending request)
    | .pending _ | .finished => agent
  | .settled i answers =>
    match agent.calls i with
    | .pending request =>
      match request.dispatch display none answers with
      | .answered response => (agent.setCall i .finished).write (.response i request response)
      | .thrown | .silent => agent.setCall i .finished
    | .uncalled | .finished => agent
  | .onToolsChanged =>
    (agent.write (.notification .toolsChanged)).write (.notification .resourcesChanged)

end Agent

/-! ### What a client reads -/

theorem notification_text (changed : Notification) : changed.text = jsonText changed.value := by
  cases changed <;> decide

theorem notification_ordered (changed : Notification) : isOrdered changed.value = true := by
  cases changed <;> decide

theorem message_text (message : Message I) : message.text = jsonText message.value := by
  cases message with
  | notification changed => exact notification_text changed
  | response => rfl

/-- Every message is an object. -/
theorem message_visible (message : Message I) : trim message.text ≠ [] := by
  have object (ms : Members) : trim (jsonText (.obj ms)) ≠ [] := by
    rw [jsonText, trim_ends _ (by decide) (by decide)]
    exact List.cons_ne_nil _ _
  rw [message_text]
  cases message with
  | notification | response => exact object _

theorem message_unbroken (message : Message I) : '\n' ∉ message.text := by
  rw [message_text]
  exact newline_not_mem_jsonText _

/-- The output holds the messages, each on a line of its own. -/
structure Holds (stdout : Bytes) (sent : List (Message I)) : Prop where
  terminated : Terminated stdout
  lines : lines (decodeUtf8 stdout) = sent.map Message.text

theorem Holds.write {stdout : Bytes} {sent : List (Message I)} (holds : Holds stdout sent)
    (message : Message I) :
    Holds (stdout ++ utf8 (message.text ++ ['\n'])) (sent ++ [message]) where
  terminated := terminated_append stdout message.text
  lines := by
    rw [lines_append holds.terminated (message_unbroken message) (message_visible message),
      holds.lines, List.map_append, List.map_singleton]

theorem member_ordered {v : JsValue} (key : JsString) (ordered : isOrdered v = true) :
    isOrdered (member key v) = true := by
  cases v with
  | obj ms =>
    by_cases present : property key ms = .undefined
    · rw [member, present]
      rfl
    · exact ((isOrdered_obj ms).mp ordered).2 _ (mem_of_property rfl present)
  | undefined | null | bool | num | str | arr => rfl

theorem lineRequest_ordered {line : Text} {request : McpRequest}
    (read : lineRequest line = some request) : isOrdered request.id = true := by
  unfold lineRequest at read
  dsimp only at read
  split_ifs at read
  split at read
  · cases read
  · cases read
  · next json _ parsed =>
    split_ifs at read
    cases read
    exact member_ordered _ (parseDoubles_value parsed).1

/-! ### The calls -/

def Unread (history : List (Event I)) (i : I) : Prop := ∀ text, .line i text ∉ history

/-- The first line of the call was this request, and its dispatch is not settled. -/
def Pending (history : List (Event I)) (i : I) (request : McpRequest) : Prop :=
  ∃ before text between, history = before ++ .line i text :: between ∧ Unread before i ∧
    lineRequest text = some request ∧ ∀ answers, .settled i answers ∉ between

/-- The response of a dispatch that settles. -/
def Answered (display : JsValue → Option JsString) (history : List (Event I)) (i : I)
    (request : McpRequest) (response : McpResponse) : Prop :=
  ∃ before answers later, history = before ++ .settled i answers :: later ∧
    Pending before i request ∧ request.dispatch display none answers = .answered response

section Longer

variable {history : List (Event I)} {event : Event I} {i : I} {request : McpRequest}

/-- An element of a list with one more element is that one, or one of the list. -/
theorem concat_split {α : Type} {list before later : List α} {last x : α} :
    list ++ [last] = before ++ x :: later ↔
      (list = before ∧ last = x ∧ later = []) ∨
        ∃ rest, list = before ++ x :: rest ∧ later = rest ++ [last] := by
  constructor
  · intro same
    rcases List.eq_nil_or_concat later with rfl | ⟨rest, final, rfl⟩
    · obtain ⟨first, second⟩ := List.append_inj' same rfl
      cases second
      exact .inl ⟨first, rfl, rfl⟩
    · rw [List.concat_eq_append, ← List.cons_append, ← List.append_assoc] at same
      obtain ⟨first, second⟩ := List.append_inj' same rfl
      cases second
      exact .inr ⟨rest, first, List.concat_eq_append⟩
  · rintro (⟨rfl, rfl, rfl⟩ | ⟨rest, rfl, rfl⟩)
    · rfl
    · rw [List.append_assoc, List.cons_append]

theorem unread_concat :
    Unread (history ++ [event]) i ↔ Unread history i ∧ ∀ text, event ≠ .line i text := by
  simp only [Unread, List.mem_append, List.mem_singleton, not_or, forall_and]
  exact and_congr_right fun _ => forall_congr' fun _ => ne_comm

theorem pending_concat :
    Pending (history ++ [event]) i request ↔
      (Pending history i request ∧ ∀ answers, event ≠ .settled i answers) ∨
        Unread history i ∧ ∃ text, event = .line i text ∧ lineRequest text = some request := by
  constructor
  · rintro ⟨before, text, between, same, unread, read, unsettled⟩
    rcases concat_split.mp same with ⟨rfl, rfl, rfl⟩ | ⟨rest, rfl, rfl⟩
    · exact .inr ⟨unread, text, rfl, read⟩
    · refine .inl ⟨⟨before, text, rest, rfl, unread, read, fun answers member => ?_⟩, ?_⟩
      · exact unsettled answers (List.mem_append_left _ member)
      · rintro answers rfl
        exact unsettled answers (List.mem_append_right _ List.mem_cons_self)
  · rintro (⟨⟨before, text, between, rfl, unread, read, unsettled⟩, other⟩ |
      ⟨unread, text, rfl, read⟩)
    · refine ⟨before, text, between ++ [event], List.append_assoc .., unread, read, ?_⟩
      intro answers member
      rcases List.mem_append.mp member with old | new
      · exact unsettled answers old
      · exact other answers (List.mem_singleton.mp new).symm
    · exact ⟨history, text, [], rfl, unread, read, fun _ member => absurd member List.not_mem_nil⟩

theorem answered_concat {display : JsValue → Option JsString} {response : McpResponse} :
    Answered display (history ++ [event]) i request response ↔
      Answered display history i request response ∨ ∃ answers, event = .settled i answers ∧
        Pending history i request ∧ request.dispatch display none answers = .answered response := by
  constructor
  · rintro ⟨before, answers, later, same, pending, answered⟩
    rcases concat_split.mp same with ⟨rfl, rfl, rfl⟩ | ⟨rest, rfl, rfl⟩
    · exact .inr ⟨answers, rfl, pending, answered⟩
    · exact .inl ⟨before, answers, rest, rfl, pending, answered⟩
  · rintro (⟨before, answers, later, rfl, pending, answered⟩ | ⟨answers, rfl, pending, answered⟩)
    · exact ⟨before, answers, later ++ [event], List.append_assoc .., pending, answered⟩
    · exact ⟨history, answers, [], rfl, pending, answered⟩

/-- Where the handler of a call stands. -/
structure Stands (history : List (Event I)) (i : I) (call : Call) : Prop where
  unread : call = .uncalled ↔ Unread history i
  pending : ∀ request, call = .pending request ↔ Pending history i request

variable {call : Call}

/-- An event of another call. -/
theorem Stands.other (stands : Stands history i call) (unread : ∀ text, event ≠ .line i text)
    (unsettled : ∀ answers, event ≠ .settled i answers) :
    Stands (history ++ [event]) i call where
  unread := by rw [unread_concat, and_iff_left unread, stands.unread]
  pending request := by
    rw [pending_concat, and_iff_left unsettled, stands.pending, or_iff_left]
    rintro ⟨-, text, same, -⟩
    exact unread text same

/-- The call begins. -/
theorem Stands.line {text : Text} (stands : Stands history i .uncalled) :
    Stands (history ++ [.line i text]) i ((lineRequest text).elim .finished .pending) := by
  have unread := stands.unread.mp rfl
  have begun : ¬ Unread (history ++ [.line i text]) i := by
    rw [unread_concat]
    rintro ⟨-, other⟩
    exact other text rfl
  have pending (request : McpRequest) :
      Pending (history ++ [.line i text]) i request ↔ lineRequest text = some request := by
    rw [pending_concat]
    constructor
    · rintro (⟨before, -⟩ | ⟨-, _, same, read⟩)
      · cases (stands.pending request).mpr before
      · cases same
        exact read
    · exact fun read => .inr ⟨unread, text, rfl, read⟩
  constructor
  · refine iff_of_false ?_ begun
    cases lineRequest text <;> exact nofun
  · intro request
    rw [pending]
    cases lineRequest text with
    | none => exact iff_of_false nofun nofun
    | some read => simp only [Option.elim_some, Call.pending.injEq, Option.some.injEq]

/-- A call begins once. -/
theorem Stands.line_again {text : Text} (stands : Stands history i call)
    (called : call ≠ .uncalled) : Stands (history ++ [.line i text]) i call := by
  have begun : ¬ Unread history i := fun unread => called (stands.unread.mpr unread)
  constructor
  · rw [unread_concat]
    exact iff_of_false called fun unread => begun unread.1
  · intro request
    rw [pending_concat, stands.pending, or_iff_left fun again => begun again.1]
    exact (and_iff_left nofun).symm

theorem Stands.settled {answers : Answers} (stands : Stands history i (.pending request)) :
    Stands (history ++ [.settled i answers]) i .finished := by
  have begun : ¬ Unread history i := by
    intro unread
    cases stands.unread.mpr unread
  constructor
  · rw [unread_concat]
    exact iff_of_false nofun fun unread => begun unread.1
  · intro later
    rw [pending_concat]
    refine iff_of_false nofun ?_
    rintro (⟨-, unsettled⟩ | ⟨-, _, same, -⟩)
    · exact unsettled answers rfl
    · cases same

/-- Only what is pending is settled. -/
theorem Stands.settled_again {answers : Answers} (stands : Stands history i call)
    (idle : ∀ request, call ≠ .pending request) :
    Stands (history ++ [.settled i answers]) i call := by
  constructor
  · rw [unread_concat, stands.unread]
    exact (and_iff_left nofun).symm
  · intro request
    rw [pending_concat]
    refine iff_of_false (idle request) ?_
    rintro (⟨pending, -⟩ | ⟨-, _, same, -⟩)
    · exact idle request ((stands.pending request).mpr pending)
    · cases same

end Longer

/-! ### Runs -/

def Event.told : Event I → List Notification
  | line .. | settled .. => []
  | onToolsChanged => [.toolsChanged, .resourcesChanged]

/-- The messages that have been sent after some events. -/
structure Sends (display : JsValue → Option JsString) (history : List (Event I))
    (sent : List (Message I)) : Prop where
  responses : ∀ i request answer, .response i request answer ∈ sent ↔
    Answered display history i request answer
  once : (sent.filterMap Message.caller).Nodup
  told : sent.filterMap Message.told = history.flatMap Event.told

structure Tracks [DecidableEq I] (display : JsValue → Option JsString) (history : List (Event I))
    (agent : Agent I) : Prop where
  calls : ∀ i, Stands history i (agent.calls i)
  ended : ∀ i ∈ agent.sent.filterMap Message.caller, agent.calls i = .finished
  sends : Sends display history agent.sent
  output : Holds agent.stdout agent.sent

section Runs

variable {display : JsValue → Option JsString} {history : List (Event I)} {event : Event I}
  {sent : List (Message I)} {i : I} {request : McpRequest}

/-- An event at which nothing is sent. -/
theorem Sends.quiet (sends : Sends display history sent) (told : event.told = [])
    (silent : ∀ i answers request, event = .settled i answers → Pending history i request →
      ∀ answer, request.dispatch display none answers ≠ .answered answer) :
    Sends display (history ++ [event]) sent where
  responses i request answer := by
    rw [answered_concat, sends.responses, or_iff_left]
    rintro ⟨answers, same, pending, answered⟩
    exact silent i answers request same pending answer answered
  once := sends.once
  told := by
    rw [sends.told, List.flatMap_append, List.flatMap_singleton, told, List.append_nil]

theorem Sends.answer {answers : Answers} {answer : McpResponse}
    (sends : Sends display history sent) (stands : Stands history i (.pending request))
    (fresh : i ∉ sent.filterMap Message.caller)
    (answered : request.dispatch display none answers = .answered answer) :
    Sends display (history ++ [.settled i answers]) (sent ++ [.response i request answer]) where
  responses j other response := by
    rw [answered_concat, List.mem_append, sends.responses, List.mem_singleton]
    refine or_congr_right ?_
    constructor
    · rintro ⟨⟩
      exact ⟨answers, rfl, (stands.pending _).mp rfl, answered⟩
    · rintro ⟨_, same, pending, responded⟩
      cases same
      cases (stands.pending other).mpr pending
      rw [answered] at responded
      cases responded
      rfl
  once := by
    rw [List.filterMap_append, List.nodup_append_comm]
    exact List.nodup_cons.mpr ⟨fresh, sends.once⟩
  told := by
    rw [List.filterMap_append, sends.told, List.flatMap_append]
    rfl

theorem Sends.changed (sends : Sends display history sent) :
    Sends display (history ++ [.onToolsChanged])
      (sent ++ [.notification .toolsChanged, .notification .resourcesChanged]) where
  responses i request answer := by
    rw [answered_concat, List.mem_append, sends.responses]
    refine or_congr_right (iff_of_false ?_ ?_)
    · simp
    · rintro ⟨_, same, -⟩
      cases same
  once := by
    rw [List.filterMap_append]
    exact (List.append_nil _).symm ▸ sends.once
  told := by
    rw [List.filterMap_append, sends.told, List.flatMap_append]
    rfl

variable [DecidableEq I] {agent : Agent I}

/-- Only the call of an event moves. -/
theorem stands_update {calls : I → Call} {call : Call} (stands : ∀ j, Stands history j (calls j))
    (own : Stands (history ++ [event]) i call)
    (others : ∀ j, j ≠ i → (∀ text, event ≠ .line j text) ∧
      ∀ answers, event ≠ .settled j answers) (j : I) :
    Stands (history ++ [event]) j (Function.update calls i call j) := by
  by_cases same : j = i
  · subst same
    rw [Function.update_self]
    exact own
  · rw [Function.update_of_ne same]
    exact (stands j).other (others j same).1 (others j same).2

theorem Tracks.fresh (tracks : Tracks display history agent) (unfinished : agent.calls i ≠ .finished) :
    i ∉ agent.sent.filterMap Message.caller :=
  fun ended => unfinished (tracks.ended i ended)

/-- The calls that have been answered stay finished. -/
theorem ended_update {calls : I → Call} {callers : List I} (call : Call)
    (ended : ∀ j ∈ callers, calls j = .finished) (fresh : i ∉ callers) :
    ∀ j ∈ callers, Function.update calls i call j = .finished := by
  intro j member
  have other : j ≠ i := fun same => fresh (same ▸ member)
  rw [Function.update_of_ne other]
  exact ended j member

theorem tracks_line (tracks : Tracks display history agent) (i : I) (text : Text) :
    Tracks display (history ++ [.line i text]) (agent.step display (.line i text)) := by
  have others (j : I) (other : j ≠ i) : (∀ read, Event.line i text ≠ .line j read) ∧
      ∀ answers, Event.line i text ≠ .settled j answers := by
    refine ⟨?_, fun _ => nofun⟩
    rintro _ ⟨⟩
    exact other rfl
  have quiet : Sends display (history ++ [.line i text]) agent.sent :=
    tracks.sends.quiet rfl nofun
  have stands := tracks.calls i
  by_cases called : agent.calls i = .uncalled
  · have begun : agent.step display (.line i text) =
        agent.setCall i ((lineRequest text).elim .finished .pending) := by
      simp only [Agent.step, called]
      cases lineRequest text <;> rfl
    rw [begun]
    rw [called] at stands
    have fresh := tracks.fresh (i := i) (by simp [called])
    exact ⟨stands_update tracks.calls stands.line others, ended_update _ tracks.ended fresh, quiet,
      tracks.output⟩
  · have kept : agent.step display (.line i text) = agent := by
      cases stood : agent.calls i with
      | uncalled => exact absurd stood called
      | pending | finished => simp only [Agent.step, stood]
    rw [kept]
    have calls := stands_update tracks.calls (stands.line_again called) others
    rw [Function.update_eq_self] at calls
    exact ⟨calls, tracks.ended, quiet, tracks.output⟩

theorem tracks_settled (tracks : Tracks display history agent) (i : I) (answers : Answers) :
    Tracks display (history ++ [.settled i answers]) (agent.step display (.settled i answers)) := by
  have others (j : I) (other : j ≠ i) : (∀ text, Event.settled i answers ≠ .line j text) ∧
      ∀ later, Event.settled i answers ≠ .settled j later := by
    refine ⟨fun _ => nofun, ?_⟩
    rintro _ ⟨⟩
    exact other rfl
  have stands := tracks.calls i
  cases stood : agent.calls i with
  | pending request =>
    rw [stood] at stands
    have settled : Stands (history ++ [.settled i answers]) i .finished := stands.settled
    have calls := stands_update tracks.calls settled others
    have fresh := tracks.fresh (i := i) (by simp [stood])
    have unanswered (silent : ∀ answer, request.dispatch display none answers ≠ .answered answer) :
        Tracks display (history ++ [.settled i answers]) (agent.setCall i .finished) := by
      refine ⟨calls, ended_update _ tracks.ended fresh, tracks.sends.quiet rfl ?_, tracks.output⟩
      rintro _ _ other ⟨⟩ pending
      cases (stands.pending other).mpr pending
      exact silent
    cases dispatched : request.dispatch display none answers with
    | thrown =>
      simp only [Agent.step, stood, dispatched]
      exact unanswered (by simp [dispatched])
    | silent =>
      simp only [Agent.step, stood, dispatched]
      exact unanswered (by simp [dispatched])
    | answered answer =>
      simp only [Agent.step, stood, dispatched]
      refine ⟨calls, ?_, tracks.sends.answer stands fresh dispatched, tracks.output.write _⟩
      intro j member
      simp only [Agent.write, Agent.setCall, List.filterMap_append, List.mem_append] at member ⊢
      rcases member with old | new
      · exact ended_update _ tracks.ended fresh j old
      · obtain rfl : j = i := by simpa [Message.caller] using new
        exact Function.update_self ..
  | uncalled | finished =>
    have idle : ∀ request, agent.calls i ≠ .pending request := by simp [stood]
    have again : Stands (history ++ [.settled i answers]) i (agent.calls i) :=
      stands.settled_again idle
    have calls := stands_update tracks.calls again others
    rw [Function.update_eq_self] at calls
    simp only [Agent.step, stood]
    refine ⟨calls, tracks.ended, tracks.sends.quiet rfl ?_, tracks.output⟩
    rintro _ _ request ⟨⟩ pending
    exact absurd ((stands.pending request).mpr pending) (idle request)

theorem tracks_changed (tracks : Tracks display history agent) :
    Tracks display (history ++ [.onToolsChanged]) (agent.step display .onToolsChanged) where
  calls i := (tracks.calls i).other (fun _ => nofun) fun _ => nofun
  ended := by
    simp only [Agent.step, Agent.write, List.filterMap_append]
    intro i member
    exact tracks.ended i (by simpa [Message.caller] using member)
  sends := by
    have sends := tracks.sends.changed
    simp only [Agent.step, Agent.write, List.append_assoc]
    exact sends
  output := (tracks.output.write _).write _

theorem tracks_step (tracks : Tracks display history agent) (event : Event I) :
    Tracks display (history ++ [event]) (agent.step display event) := by
  cases event with
  | line i text => exact tracks_line tracks i text
  | settled i answers => exact tracks_settled tracks i answers
  | onToolsChanged => exact tracks_changed tracks

theorem tracks_start : Tracks display [] (Agent.start : Agent I) where
  calls i := ⟨iff_of_true rfl fun _ => List.not_mem_nil, fun request => by
    refine iff_of_false nofun ?_
    rintro ⟨before, text, between, same, -⟩
    exact List.append_ne_nil_of_right_ne_nil before (List.cons_ne_nil _ _) same.symm⟩
  ended _ member := absurd member List.not_mem_nil
  sends := by
    refine ⟨fun i request answer => iff_of_false List.not_mem_nil ?_, List.nodup_nil, rfl⟩
    rintro ⟨before, answers, later, same, -⟩
    exact List.append_ne_nil_of_right_ne_nil before (List.cons_ne_nil _ _) same.symm
  output := ⟨.inl rfl, rfl⟩

/-- The agent after some events. -/
structure Transcript (display : JsValue → Option JsString) (events : List (Event I))
    (agent : Agent I) : Prop where
  /-- Every line of the output is a message, in the order of the messages. -/
  reads : (lines (decodeUtf8 agent.stdout)).map parse =
    agent.sent.map fun message => some (transmitted message.value)
  sends : Sends display events agent.sent
  answers : ∀ i request answer, .response i request answer ∈ agent.sent →
    Answers.To request answer

end Runs

end NeuralMesh.Gateway.Mcp
