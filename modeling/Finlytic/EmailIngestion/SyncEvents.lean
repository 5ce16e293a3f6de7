import Finlytic.Lib.Text

/-! Sync events on their way to the browser: `SyncEventsService.publish` turns a
finished job into an event, and `AccountsController.events` writes the events of
the caller's accounts to an event stream, with a comment in between to keep the
connection open. -/

namespace Finlytic.EmailIngestion

inductive Outcome where
  | completed | failed
  deriving DecidableEq

def Outcome.name : Outcome → String
  | .completed => "completed"
  | .failed => "failed"

structure SyncEvent where
  accountId : String
  outcome : Outcome
  deriving DecidableEq

/-- Jobs are named `sync-<accountId>`; other jobs, and an empty id, are not published. -/
def publish (jobId : String) (outcome : Outcome) : Option SyncEvent :=
  if "sync-".toList.isPrefixOf jobId.toList && "sync-".toList.length < jobId.toList.length then
    some ⟨String.ofList (jobId.toList.drop "sync-".toList.length), outcome⟩
  else none

/-- `JSON.stringify` and `JSON.parse` on events: the text has no raw line break, and the
empty text does not parse. -/
structure EventJson where
  stringify : SyncEvent → List Char
  parse : List Char → Option SyncEvent
  parse_stringify : ∀ event, parse (stringify event) = some event
  stringify_line : ∀ event, '\n' ∉ stringify event ∧ '\r' ∉ stringify event
  parse_nil : parse [] = none

/-- What happens on an open stream: an event is published, or fifteen seconds pass. -/
inductive Tick where
  | sync (event : SyncEvent)
  | heartbeat

/-- The text of one `res.write`. -/
def frameOf (json : EventJson) : Tick → List Char
  | .sync event => "event: sync\ndata: ".toList ++ json.stringify event ++ "\n\n".toList
  | .heartbeat => ": ping\n\n".toList

/-- The listener lets only the caller's own accounts through. -/
def passes (owned : List String) : Tick → Bool
  | .sync event => owned.contains event.accountId
  | .heartbeat => true

/-- The body of the response to `GET /accounts/events`. -/
def events (json : EventJson) (owned : List String) (ticks : List Tick) : List Char :=
  ": connected\n\n".toList ++ (ticks.filter (passes owned)).flatMap (frameOf json)

end Finlytic.EmailIngestion
