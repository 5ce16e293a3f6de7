import Finlytic.Lib.Pool
import Finlytic.Lib.Utf8
import Finlytic.Web.Sse

/-! Live updates as one system: the jobs that finish, the responses that
`AccountsController.events` writes, the network that hands their octets on piece by
piece, and the effects of `useSyncEvents` that read them, lose them and connect
again. Any step may come at any time it is possible. -/

namespace Finlytic.Web

open Lib Jws EmailIngestion

/-! ### State -/

/-- How far the handler of `GET /accounts/events` has got. -/
inductive Serving where
  | listing | subscribed | ended
  deriving DecidableEq

/-- One `GET /api/accounts/events`: the handler at one end, and `consume` at the other. -/
structure Connection where
  page : ℕ
  userId : String
  /-- The reader still gets what is written. -/
  connected : Bool
  /-- `res` has emitted `close`. -/
  closed : Bool
  serving : Serving
  owned : List String
  written : List Char
  /-- How many events had been published when it subscribed; history. -/
  since : ℕ
  /-- The head of the response has arrived. -/
  opened : Bool
  /-- How many octets of the body have arrived. -/
  sent : ℕ
  decoder : Option Utf8.Owed
  consumer : Consumer

/-- One run of the effect. `consuming` are the promises of `consume` that are pending, `settled`
counts those whose `scheduleReconnect` is still to run, `timers` are the timers that will fire,
with their delays. -/
structure LivePage where
  userId : String
  aborted : Bool
  attempt : ℕ
  reconnectTimer : Option ℕ
  consuming : List ℕ
  settled : ℕ
  timers : List (ℕ × ℕ)
  handled : List SyncEvent

/-- `accounts` are pairs of an account and its user; `published` is history. -/
structure Live where
  accounts : List (String × String)
  published : List SyncEvent
  connections : List Connection
  pages : List LivePage
  timerIds : ℕ

/-! ### The server -/

/-- A `res.write` on an open stream; the listener lets only the caller's own accounts through. -/
def offer (json : EventJson) (tick : Tick) (c : Connection) : Connection :=
  if c.serving = .subscribed ∧ passes c.owned tick then
    { c with written := c.written ++ frameOf json tick }
  else c

/-- `listForUser` has answered: the head, the first comment, the subscription. -/
def subscribe (w : Live) (c : Connection) : Connection :=
  { c with serving := .subscribed, since := w.published.length, written := ": connected\n\n".toList
           owned := (w.accounts.filter (·.2 = c.userId)).map (·.1) }

/-- `close` is emitted once; before the subscription nobody listens to it. -/
def emitClose (c : Connection) : Connection :=
  { c with closed := true, serving := if c.serving = .subscribed then .ended else c.serving }

/-! ### The page -/

/-- The delay before the given attempt, in milliseconds. -/
def backoff (attempt : ℕ) : ℕ := min (1000 * 2 ^ (attempt - 1)) 30000

def request (page : ℕ) (userId : String) : Connection :=
  ⟨page, userId, true, false, .listing, [], [], 0, false, 0, none, ⟨[], []⟩⟩

/-- `start`, for the effect at position `page`. -/
def begin (w : Live) (j : ℕ) (page : LivePage) : Live :=
  { w with connections := w.connections ++ [request j page.userId]
           pages := w.pages.set j { page with consuming := page.consuming ++ [w.connections.length] } }

def scheduleReconnect (w : Live) (j : ℕ) (page : LivePage) : Live :=
  if page.aborted then { w with pages := w.pages.set j { page with settled := page.settled - 1 } }
  else
    { w with
      timerIds := w.timerIds + 1
      pages := w.pages.set j { page with
        settled := page.settled - 1, attempt := page.attempt + 1, reconnectTimer := some w.timerIds
        timers := page.timers ++ [(w.timerIds, backoff (page.attempt + 1))] } }

/-- The cleanup of the effect. -/
def unmount (page : LivePage) : LivePage :=
  { page with aborted := true, timers := page.timers.filter fun t => some t.1 ≠ page.reconnectTimer }

/-- The octets that arrive next, at most `n`. -/
def arriving (c : Connection) (n : ℕ) : List UInt8 := ((utf8Octets c.written).drop c.sent).take n

/-- One turn of the loop of `consume`: decode, cut into frames, handle. -/
def readNext (json : EventJson) (c : Connection) (n : ℕ) : Connection :=
  let decoded := Utf8.run c.decoder (arriving c n)
  { c with sent := c.sent + (arriving c n).length, decoder :=
    decoded.2, consumer := read json c.consumer decoded.1 }

/-! ### Steps -/

inductive Step where
  | account (id userId : String)
  | job (jobId : String) (outcome : Outcome)
  | list (i : ℕ)
  | listFails (i : ℕ)
  | heartbeat (i : ℕ)
  | cut (i : ℕ)
  | close (i : ℕ)
  | open (i : ℕ)
  | deliver (i n : ℕ)
  | settle (i : ℕ)
  | schedule (j : ℕ)
  | fire (j k : ℕ)
  | mount (userId : String)
  | unmount (j : ℕ)

/-- A step of one connection, where it is enabled. -/
def onConnection (w : Live) (i : ℕ) (enabled : Connection → Bool) (next : Connection → Connection) :
    Option Live :=
  (w.connections[i]?.filter enabled).map fun c =>
    { w with connections := w.connections.set i (next c) }

/-- A step of a page and the connection that it reads. -/
def onReader (w : Live) (i : ℕ) (enabled : Connection → LivePage → Bool)
    (next : Connection → LivePage → Connection × LivePage) : Option Live :=
  w.connections[i]?.bind fun c =>
    (w.pages[c.page]?.filter fun page => decide (i ∈ page.consuming) && enabled c page).map
    fun page =>
    { w with connections := w.connections.set i (next c page).1, pages :=
      w.pages.set c.page (next c page).2 }

def onPage (w : Live) (j : ℕ) (enabled : LivePage → Bool) (next : LivePage → Live) : Option Live :=
  (w.pages[j]?.filter enabled).map next

def live (json : EventJson) (w : Live) : Step → Option Live
  | .account id userId => if id ∈ w.accounts.map (·.1) then none
    else some { w with accounts := w.accounts ++ [(id, userId)] }
  | .job jobId outcome =>
    some <| match publish jobId outcome with
    | none => w
    | some event =>
      { w with published := w.published ++ [event], connections :=
        w.connections.map (offer json (.sync event)) }
  | .list i => onConnection w i (·.serving = .listing) (subscribe w)
  | .listFails i => onConnection w i (·.serving = .listing) fun c => { c with serving := .ended }
  | .heartbeat i => onConnection w i (·.serving = .subscribed) (offer json .heartbeat)
  | .cut i => onConnection w i (·.connected) fun c => { c with connected := false }
  | .close i => onConnection w i (fun c => !c.connected && !c.closed) emitClose
  | .open i =>
    onReader w i
      (fun c page => !page.aborted && c.connected && !c.opened && c.serving = .subscribed)
      fun c page =>
      ({ c with opened := true }, { page with attempt := 0 })
  | .deliver i n =>
    onReader w i (fun c page => !page.aborted && c.connected && c.opened) fun c page =>
      (readNext json c n, { page with handled := page.handled ++
        (splitFrames
          (c.consumer.buffer ++ (Utf8.run c.decoder (arriving c n)).1)).1.filterMap (handleFrame
          json) })
  | .settle i =>
    onReader w i (fun _ _ => true) fun c page =>
      ({ c with connected := false },
        { page with consuming := page.consuming.erase i, settled := page.settled + 1 })
  | .schedule j => onPage w j (fun page => 0 < page.settled) (scheduleReconnect w j)
  | .fire j k => onPage w j (fun page => k < page.timers.length) fun page =>
      begin w j { page with timers := page.timers.eraseIdx k }
  | .mount userId =>
    some (begin { w with pages := w.pages ++ [⟨userId, false, 0, none, [], 0, [], []⟩] }
      w.pages.length ⟨userId, false, 0, none, [], 0, [], []⟩)
  | .unmount j => onPage w j (fun page => !page.aborted) fun page =>
    { w with pages := w.pages.set j (unmount page) }

end Finlytic.Web
