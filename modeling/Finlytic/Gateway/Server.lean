import Finlytic.Lib.Url
import Finlytic.Gateway.Jwt
import Finlytic.Gateway.RateLimit
import Finlytic.Gateway.Static

/-! The request handler: health, rate limit, routes, static files, token, proxy. -/

namespace Finlytic.Gateway

open Lib Jws Whatwg

variable {ν : Type} [LinearOrder ν]

/-- What the handler reads of a request. -/
structure GatewayRequest where
  method : String
  url : List Char
  authorization : Option (List Char)
  accept : Option (List Char)
  remoteAddress : Option (List Char)

/-- The world around the handler. The token check has a clock of its own, in seconds. -/
structure Surroundings (ν : Type) where
  hosts : HostParser
  platform : Platform ν
  files : FileSystem
  now : ℤ
  seconds : ν

/-- Where the request to the upstream goes. -/
structure Upstream where
  hostname : List Char
  port : Option ℕ
  pathname : List Char
  search : List Char
  deriving DecidableEq

/-- `new URL('http://gateway.invalid')` -/
def gatewayBase : Url := ⟨"http", some "gateway.invalid".toList, none, .list [[]], none⟩

/-- `proxy`, up to the call of `request`, which throws for every protocol but `http:`. -/
def proxy (H : HostParser) (target path : List Char) : Except String Upstream :=
  match (parse H none target).bind fun base => parse H (some base) path with
  | none => .error "Invalid URL"
  | some upstream =>
    if upstream.scheme ≠ "http" then
      .error ("Protocol \"" ++ upstream.scheme ++ ":\" not supported. Expected \"http:\"")
    else .ok ⟨upstream.host.getD [], upstream.port, upstream.pathname, upstream.search⟩

/-- The services never learn about `/api`. -/
def upstreamPath (route : Route) (url : List Char) : List Char :=
  match route.stripPrefix with
  | none => url
  | some text => if url.drop text.length = [] then ['/'] else url.drop text.length

/-- What a run of the handler leaves: what it wrote itself, what it handed to the upstream,
and the error with which it rejected. -/
structure Outcome where
  written : List Response
  handed : Option Upstream
  rejected : Option String
  deriving DecidableEq

def Outcome.respond (written : List Response) : Outcome := ⟨written, none, none⟩

def Outcome.reject (message : String) : Outcome := ⟨[], none, some message⟩

def health : Response := .json 200 [("status", .str "ok"), ("service", .str "gateway")] []

def failure (status : ℕ) (message : String) (headers : List (String × String)) : Response :=
  .json status [("statusCode", .num status), ("message", .str message)] headers

/-- No route matches: a static file, or 404. -/
def unrouted (config : GatewayConfig) (world : Surroundings ν) (req : GatewayRequest)
    (pathname : List Char) : Outcome :=
  let sent : Sent :=
    match config.webRoot with
    | some root =>
      if req.method = "GET" || req.method = "HEAD" then
        serveStatic world.files root pathname
          (req.accept.any fun accept => includes accept "text/html".toList)
      else ⟨[], false⟩
    | none => ⟨[], false⟩
  if sent.answered then .respond sent.written
  else .respond (sent.written ++ [failure 404 "Not found" []])

/-- A route matches: the token, where the route asks for one, and then the upstream. -/
def routed (config : GatewayConfig) (world : Surroundings ν) (req : GatewayRequest)
    (route : Route) : Outcome :=
  let denied :=
    route.requiresAuth && !(authenticate world.platform config world.seconds req.authorization).isOk
  if denied then .respond [failure 401 "Invalid token" []]
  else
    match proxy world.hosts route.target (upstreamPath route req.url) with
    | .error message => .reject message
    | .ok upstream => ⟨[], some upstream, none⟩

def handle (config : GatewayConfig) (world : Surroundings ν) (counters : Counters)
    (req : GatewayRequest) :
    Outcome × Counters :=
  if req.method = "GET" && req.url = "/health".toList then (.respond [health], counters)
  else
    match parse world.hosts (some gatewayBase) req.url with
    | none => (.reject "Invalid URL", counters)
    | some url =>
      let client := req.remoteAddress.getD "unknown".toList
      let (decision, counters) := check counters client req.method url.pathname world.now
      if !decision.allowed then
        (.respond [failure 429 "Too many requests"
          [("retry-after", toString decision.retryAfterSeconds)]], counters)
      else
        match matchRoute (buildRoutes config) url.pathname with
        | none => (unrouted config world req url.pathname, counters)
        | some route => (routed config world req route, counters)

end Finlytic.Gateway
