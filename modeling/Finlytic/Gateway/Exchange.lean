import Finlytic.Gateway.Framing
import Finlytic.Lib.Pool

/-! The response half of `proxy()`: what the events of the upstream request, the timer
and the two pipelines do to the response, in whatever order they come. The client
takes no broken answer for a whole one: what it can read to the end is the
upstream's response, or the gateway's own when the upstream gave none. A client without
chunks that gets no length either has only the close to go by. -/

namespace Finlytic.Gateway

open Lib Http1

/-! ### The two sides -/

/-- The head of a response as Node's client reads it. An empty framing is a body that ends
with the connection. -/
structure UpstreamResponse where
  status : ℕ
  headers : List Header
  framing : Framing
  lower : Lower headers
  values_ne : ∀ h ∈ headers, h.values ≠ []
  valid : ∀ f ∈ fields headers, f.Valid
  /-- A status from 100 to 199 reaches no `response` handler. -/
  final : status < 100 ∨ 200 ≤ status
  framed : Http1.framing (fields headers) = some framing

inductive HttpVersion where
  | http10
  | http11
  deriving DecidableEq

/-- The request at the edge, and what Node's server adds to a head by itself. -/
structure Edge where
  isHead : Bool
  version : HttpVersion
  /-- The `te` header of the request names `chunked`. -/
  teChunked : Bool
  requestId : String
  reason : ℕ → List Char
  own : List Header
  requestId_value : ValueText requestId
  reason_cr : ∀ status, '\r' ∉ reason status
  own_valid : ∀ f ∈ fields own, f.Valid
  own_framing : ∀ f ∈ fields own,
    named "transfer-encoding" f = false ∧ named "content-length" f = false

variable (edge : Edge)

/-- `useChunkedEncodingByDefault` -/
def chunks : Bool := edge.version = .http11 || edge.teChunked

/-- Whether an answer of this status has no body. -/
def bodiless (status : ℕ) : Bool := edge.isHead || status = 204 || status = 304

/-- The body of the response is at its end. -/
def Ends (r : UpstreamResponse) (pieces : List (List Char)) : Prop :=
  if bodiless edge r.status then pieces = []
  else
    match r.framing with
    | .length n => pieces.flatten.length = n
    | _ => True

/-- The body of the response may go on like this. -/
def Admits (r : UpstreamResponse) (pieces : List (List Char)) : Prop :=
  if bodiless edge r.status then pieces = []
  else
    match r.framing with
    | .length n => pieces.flatten.length ≤ n
    | _ => True

instance (r : UpstreamResponse) (pieces : List (List Char)) :
    Decidable (Ends edge r pieces) := by
  unfold Ends
  cases r.framing <;> exact inferInstance

instance (r : UpstreamResponse) (pieces : List (List Char)) :
    Decidable (Admits edge r pieces) := by
  unfold Admits
  cases r.framing <;> exact inferInstance

/-! ### The response to the client -/

structure ServerResponse where
  head : Option (ℕ × List Header)
  pieces : List (List Char)
  ended : Bool
  destroyed : Bool
  /-- `writeHead` has thrown. -/
  threw : Bool

/-- The header set before is kept unless the head brings its own. -/
def mergeHeaders (headers : List Header) : List Header :=
  (if hasHeader "x-request-id" headers then [] else [⟨"x-request-id", [edge.requestId]⟩]) ++ headers

/-- The statuses that `writeHead` takes. -/
def Writable (status : ℕ) : Prop := 100 ≤ status ∧ status ≤ 999

instance (status : ℕ) : Decidable (Writable status) := inferInstanceAs (Decidable (_ ∧ _))

/-- It throws when the head has gone out before, and for what is no status. -/
def ServerResponse.writeHead (res : ServerResponse) (status : ℕ) (headers : List Header) :
    ServerResponse :=
  if res.head.isSome ∨ ¬ Writable status then { res with threw := true }
  else { res with head := some (status, mergeHeaders edge headers) }

def ServerResponse.write (res : ServerResponse) (piece : List Char) : ServerResponse :=
  if res.destroyed then res else { res with pieces := res.pieces ++ [piece] }

def ServerResponse.finish (res : ServerResponse) : ServerResponse :=
  if res.destroyed then res else { res with ended := true }

def ServerResponse.destroy (res : ServerResponse) : ServerResponse := { res with destroyed := true }

/-- `JSON.stringify` of a status code and a message without quotes. -/
def errorPayload (status : ℕ) (message : String) : List Char :=
  ("\x7b\"statusCode\":" ++ toString status ++ ",\"message\":\"" ++ message ++ "\"\x7d").toList

def ServerResponse.json (res : ServerResponse) (status : ℕ) (payload : List Char) :
    ServerResponse :=
  ((res.writeHead edge status [⟨"content-type", ["application/json; charset=utf-8"]⟩,
    ⟨"content-length", [toString payload.length]⟩]).write payload).finish

/-! ### Events -/

inductive UpstreamPhase where
  | waiting
  /-- The handler threw: there is a response, and nothing of it went out. -/
  | unsent (r : UpstreamResponse)
  | streaming (r : UpstreamResponse) (pieces : List (List Char))
  | finished (r : UpstreamResponse) (pieces : List (List Char))
  | broken (r : UpstreamResponse) (pieces : List (List Char))
  | failed

structure Exchange where
  res : ServerResponse
  upstream : UpstreamPhase
  timedOut : Bool
  /-- `upstreamReq.destroy()` was called. -/
  aborted : Bool

/-- Without a length the server sends the body in chunks, where the client takes them, and else
as it is, up to the close. -/
def chunkedOut (status : ℕ) (headers : List Header) : Bool :=
  chunks edge && !bodiless edge status && !hasHeader "content-length" headers

def chunkedField : Field := ⟨"Transfer-Encoding".toList, "chunked".toList⟩

def sentFields (status : ℕ) (headers : List Header) : List Field :=
  fields headers ++ (if chunkedOut edge status headers then [chunkedField] else []) ++ fields edge.own

def sentHead (status : ℕ) (headers : List Header) : ResponseHead :=
  ⟨(toString status).toList, edge.reason status, sentFields edge status headers⟩

/-- The client knows its request, and reads the status. -/
def clientBodiless (status : List Char) : Bool :=
  edge.isHead || status = "204".toList || status = "304".toList

/-! ### Heads -/

variable {edge : Edge} {headers : List Header} {status : ℕ} {pieces : List (List Char)}
  {ended : Bool} {r : UpstreamResponse}

/-- The response that the client has read when it is whole. -/
def readResponse (edge : Edge) (status : ℕ) (headers : List Header) (pieces : List (List Char)) :
    Response :=
  ⟨sentHead edge status headers, if Gateway.bodiless edge status then [] else pieces.flatten⟩

/-- The response is the upstream's, as far as it has come. -/
structure Relays (edge : Edge) (res : ServerResponse) (r : UpstreamResponse)
    (pieces : List (List Char)) : Prop where
  head : res.head = some (r.status, mergeHeaders edge (forwardable r.headers))
  front : res.pieces <+: pieces
  kept : res.destroyed = false → res.pieces = pieces
  admits : Admits edge r pieces
  nonempty : ∀ p ∈ pieces, p ≠ []

/-- The gateway's own answer. -/
def ownStatus (timedOut : Bool) : ℕ := if timedOut then 504 else 502

def ownPayload (timedOut : Bool) : List Char :=
  if timedOut then errorPayload 504 "Upstream timed out" else errorPayload 502 "Upstream unavailable"

def jsonHeaders (payload : List Char) : List Header :=
  [⟨"content-type", ["application/json; charset=utf-8"]⟩,
    ⟨"content-length", [toString payload.length]⟩]

structure Answered (edge : Edge) (res : ServerResponse) (timedOut : Bool) : Prop where
  head : res.head = some (ownStatus timedOut, mergeHeaders edge (jsonHeaders (ownPayload timedOut)))
  body : res.pieces = [ownPayload timedOut] ∧ res.ended = true ∨ res.pieces = [] ∧
    res.ended = false ∧ res.destroyed = true

/-- Nothing has gone out. -/
structure Silent (res : ServerResponse) : Prop where
  head : res.head = none
  pieces : res.pieces = []
  ended : res.ended = false

def PhaseInv (edge : Edge) (res : ServerResponse) (timedOut : Bool) : UpstreamPhase → Prop
  | .waiting => Silent res ∧ res.threw = false
  | .unsent _ => Silent res ∧ res.threw = true
  | .streaming r pieces => Relays edge res r pieces ∧ res.ended = false
  | .finished r pieces => Relays edge res r pieces ∧ Ends edge r pieces ∧
    (res.ended = true → res.pieces = pieces) ∧
      (res.ended = true ∨ res.destroyed = true)
  | .broken r pieces => Relays edge res r pieces ∧ res.ended = false ∧ res.destroyed = true
  | .failed => Answered edge res timedOut

def ExchangeInv (edge : Edge) (x : Exchange) : Prop := PhaseInv edge x.res x.timedOut x.upstream

variable {res : ServerResponse} {phase : UpstreamPhase} {timedOut : Bool} {x y : Exchange}
  {event : ExchangeEvent} {events : List ExchangeEvent} {m : Response × List Char}

@[simp] theorem write_threw (piece : List Char) : (res.write piece).threw = res.threw := by
  unfold ServerResponse.write
  split_ifs <;> rfl

@[simp] theorem finish_threw : res.finish.threw = res.threw := by
  unfold ServerResponse.finish
  split_ifs <;> rfl

@[simp] theorem destroy_threw : res.destroy.threw = res.threw := rfl

theorem writeHead_of_writable (hhead : res.head = none) (h : Writable status) :
    res.writeHead edge status headers =
      { res with head := some (status, mergeHeaders edge headers) } := by
  unfold ServerResponse.writeHead
  rw [if_neg (by simp [hhead, h])]

theorem Relays.destroy (h : Relays edge res r pieces) : Relays edge res.destroy r pieces :=
  ⟨h.head, h.front, fun hd => (by cases hd), h.admits, h.nonempty⟩

theorem Silent.destroy (h : Silent res) : Silent res.destroy := ⟨h.head, h.pieces, h.ended⟩

theorem PhaseInv.destroy (h : PhaseInv edge res timedOut phase) :
    PhaseInv edge res.destroy timedOut phase := by
  cases phase with
  | waiting => exact ⟨h.1.destroy, h.2⟩
  | unsent r => exact ⟨h.1.destroy, h.2⟩
  | streaming r pieces => exact ⟨h.1.destroy, h.2⟩
  | finished r pieces => exact ⟨h.1.destroy, h.2.1, h.2.2.1, .inr rfl⟩
  | broken r pieces => exact ⟨h.1.destroy, h.2.1, rfl⟩
  | failed => exact ⟨h.head, h.body.imp_right fun hb => ⟨hb.1, hb.2.1, rfl⟩⟩

/-- A piece goes on, or is lost with the connection. -/
theorem Relays.write {piece : List Char} (h : Relays edge res r pieces) (hne : piece ≠ [])
    (hadmits : Admits edge r (pieces ++ [piece])) :
    Relays edge (res.write piece) r (pieces ++ [piece]) := by
  have hnonempty : ∀ p ∈ pieces ++ [piece], p ≠ [] := by
    intro p hp
    rcases List.mem_append.mp hp with hp | hp
    · exact h.nonempty p hp
    · rw [List.mem_singleton.mp hp]
      exact hne
  unfold ServerResponse.write
  split_ifs with hd
  · exact ⟨h.head, h.front.trans (List.prefix_append _ _), fun hd' =>
      absurd (hd.symm.trans hd') (by decide), hadmits, hnonempty⟩
  · have hkept := h.kept (eq_false_of_ne_true hd)
    simp only [hkept]
    exact ⟨h.head, List.prefix_rfl, fun _ => rfl, hadmits, hnonempty⟩

theorem Relays.finish (h : Relays edge res r pieces) (hend : res.ended = false)
    (hends : Ends edge r pieces) :
    PhaseInv edge res.finish timedOut (.finished r pieces) := by
  unfold ServerResponse.finish
  split_ifs with hd
  · exact ⟨h, hends, fun he => absurd (hend.symm.trans he) (by decide), .inr hd⟩
  · exact ⟨⟨h.head, h.front, h.kept, h.admits, h.nonempty⟩, hends, fun _ =>
      h.kept (eq_false_of_ne_true hd), .inl rfl⟩

/-- Nothing has gone out yet: the answer is the gateway's own. -/
theorem Silent.json (h : Silent res) {status : ℕ} (hs : Writable status) (payload : List Char) :
    (res.json edge status payload).threw = res.threw ∧
    (res.json edge status payload).head = some (status, mergeHeaders edge (jsonHeaders payload)) ∧
    ((res.json edge status payload).pieces = [payload] ∧
        (res.json edge status payload).ended = true ∨
      (res.json edge status payload).pieces = [] ∧ (res.json edge status payload).ended = false ∧
        (res.json edge status payload).destroyed = true) := by
  unfold ServerResponse.json
  rw [writeHead_of_writable h.head hs]
  unfold ServerResponse.write ServerResponse.finish
  by_cases hd : res.destroyed = true
  · simp [hd, h.pieces, h.ended, jsonHeaders]
  · simp [hd, h.pieces, jsonHeaders]

/-- The head of the upstream's response, and the pieces of its body so far. -/
def UpstreamPhase.body : UpstreamPhase → Option (UpstreamResponse × List (List Char))
  | .waiting => none
  | .unsent _ => none
  | .streaming r pieces => some (r, pieces)
  | .finished r pieces => some (r, pieces)
  | .broken r pieces => some (r, pieces)
  | .failed => none

/-- The head that goes out for the response of the upstream. -/
def relayedHeaders (edge : Edge) (r : UpstreamResponse) : List Header :=
  mergeHeaders edge (forwardable r.headers)

/-- The body is all there by its length, or there is none. -/
def Sized (edge : Edge) (r : UpstreamResponse) (pieces : List (List Char)) : Prop :=
  Gateway.bodiless edge r.status = true ∨ r.framing = .length pieces.flatten.length

/-- The upstream gives no more. -/
def UpstreamPhase.Over : UpstreamPhase → Prop
  | .waiting => False
  | .unsent _ => False
  | .streaming _ _ => False
  | _ => True

/-- The client finds a response, by its framing or at the close. -/
def Readable (edge : Edge) (stream : List Char) : Prop :=
  (∃ m, parseResponse (clientBodiless edge) stream = some (m, [])) ∨
    ∃ c, parseToClose (clientBodiless edge) stream = some c

theorem settled (hx : ExchangeInv edge x) (ho : x.upstream.Over) :
    x.res.ended = true ∨ x.res.destroyed = true := by
  unfold ExchangeInv at hx
  cases hup : x.upstream with
  | waiting =>
    rw [hup] at ho
    exact ho.elim
  | unsent r =>
    rw [hup] at ho
    exact ho.elim
  | streaming r pieces =>
    rw [hup] at ho
    exact ho.elim
  | finished r pieces =>
    rw [hup] at hx
    exact hx.2.2.2
  | broken r pieces =>
    rw [hup] at hx
    exact .inr hx.2.2
  | failed =>
    rw [hup] at hx
    exact hx.body.imp And.right fun hb => hb.2.2

/-- What a client has read that knows where a response ends: all of the upstream's, which the
upstream ended or whose length says so, or the gateway's own. -/
inductive Reads (edge : Edge) (x : Exchange) : Response → Prop
  | finished {r : UpstreamResponse} {pieces : List (List Char)} (h : x.upstream = .finished r pieces)
      (hends : Ends edge r pieces) :
      Reads edge x (readResponse edge r.status (relayedHeaders edge r) pieces)
  | sized {r : UpstreamResponse} {pieces : List (List Char)} (h : x.upstream.body = some (r, pieces))
      (hsized : Sized edge r pieces) :
      Reads edge x (readResponse edge r.status (relayedHeaders edge r) pieces)
  | own (h : x.upstream = .failed) :
      Reads edge x (readResponse edge (ownStatus x.timedOut)
        (mergeHeaders edge (jsonHeaders (ownPayload x.timedOut))) [ownPayload x.timedOut])

end Finlytic.Gateway
