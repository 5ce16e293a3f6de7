import Finlytic.UserManagement.AuthService

/-! The session client of the web app, `api/client.ts`, and the cookie that
ties its pages together. Any number of pages share one cookie jar; each page is
one instance of the module, with its own access token and its own
`refreshInFlight`. Requests and responses are delayed and reordered freely. The
server is `AuthService` behind `AuthController`; its statements do not fail
here, and no one logs out. -/

namespace Finlytic.Web

open Lib UserManagement

/-- How far one `apiFetch` has come. -/
inductive Caller where
  | sent
  | awaitingRefresh
  | retried
  | returned (status : ℕ)
  | unauthenticated
  deriving DecidableEq

/-- The module state of one page. -/
structure Page where
  accessToken : Option String
  refreshInFlight : Bool
  callers : List Caller
  deriving DecidableEq

/-- A request with the cookie that the jar held when it was sent. -/
inductive Exchange where
  | refresh (cookie : Option String)
  | login (email password : String)
  deriving DecidableEq

inductive Stage where
  | sent
  /-- Answered by the gateway or the controller without a call of the service. -/
  | refused
  | served (call : ℕ)
  deriving DecidableEq

/-- One `fetch` of a page, until its response is delivered. -/
structure Flight where
  page : ℕ
  exchange : Exchange
  stage : Stage
  delivered : Bool
  deriving DecidableEq

structure Browser where
  server : Pool Store Call
  jar : Option String
  pages : List Page
  flights : List Flight

/-! ### What a page does -/

def send (b : Browser) (page : ℕ) (exchange : Exchange) : Browser :=
  { b with flights := b.flights ++ [⟨page, exchange, .sent, false⟩] }

def putPage (b : Browser) (i : ℕ) (page : Page) : Browser := { b with pages := b.pages.set i page }

/-- `refreshSession`: callers of one page share the refresh in flight. -/
def refreshSession (b : Browser) (i : ℕ) (page : Page) : Browser :=
  if page.refreshInFlight then putPage b i page
  else send (putPage b i { page with refreshInFlight := true }) i (.refresh b.jar)

/-- `AuthProvider` calls `refreshSession` when it mounts. -/
def openPage (b : Browser) : Browser :=
  let page : Page := ⟨none, false, []⟩
  refreshSession { b with pages := b.pages ++ [page] } b.pages.length page

/-- The response of `withToken` reaches `apiFetch`: a first 401 asks for a
refresh, a second one is returned. -/
def apiAnswer (b : Browser) (i k status : ℕ) (page : Page) : Option Browser :=
  match page.callers[k]? with
  | some .sent =>
    if status ≠ 401 then
      some (putPage b i { page with callers := page.callers.set k (.returned status) })
    else some (refreshSession b i { page with callers := page.callers.set k .awaitingRefresh })
  | some .retried => some (putPage b i { page with callers := page.callers.set k (.returned status) })
  | _ => none

/-- The awaiting callers retry on a session and throw `UnauthenticatedError` without one. -/
def resume (session : Bool) : Caller → Caller
  | .awaitingRefresh => if session then .retried else .unauthenticated
  | c => c

/-- The answer to a `fetch`, once there is one; `none` inside for a response that is not ok. -/
def response (b : Browser) (f : Flight) : Option (Option LoginResponse) :=
  match f.stage with
  | .sent => none
  | .refused => some none
  | .served j =>
    match b.server.calls[j]? with
    | some (.done (.session r)) => some (some r)
    | some (.done _) => some none
    | _ => none

/-- What the page does with the response of its own `refreshSession` or `login`. -/
def receive (page : Page) : Exchange → Option LoginResponse → Page
  | .refresh _, some r => ⟨some r.accessToken, false, page.callers.map (resume true)⟩
  | .refresh _, none => ⟨none, false, page.callers.map (resume false)⟩
  | .login _ _, some r => { page with accessToken := some r.accessToken }
  | .login _ _, none => page

/-- A response arrives. Its `Set-Cookie`, if it has one, takes effect now. -/
def deliver (b : Browser) (k : ℕ) (f : Flight) (answer : Option LoginResponse) : Browser :=
  { b with
    jar := (answer.map (·.refreshToken)).or b.jar
    pages := b.pages.modify f.page fun page => receive page f.exchange answer
    flights := b.flights.set k { f with delivered := true } }

/-! ### The whole system -/

inductive Act where
  | openPage
  | apiFetch (page : ℕ)
  | apiAnswer (page caller status : ℕ)
  | login (page : ℕ) (email password : String)
  | refuse (flight : ℕ)
  | arrive (flight : ℕ) (client : ClientMeta)
  | serve (call : ℕ) (d : Draw)
  | deliver (flight : ℕ)
  | tick (ms : ℕ)
  /-- The cookie's `maxAge` passes. -/
  | expire

def putStage (b : Browser) (k : ℕ) (f : Flight) (stage : Stage) : Browser :=
  { b with flights := b.flights.set k { f with stage } }

/-- The service starts on a request. -/
def serveCall (cfg : Config) (b : Browser) (k : ℕ) (f : Flight) (r : Request) : Option Browser :=
  ((auth cfg).step b.server (.call r)).map fun server =>
    { putStage b k f (.served b.server.calls.length) with server }

/-- `AuthController`: without a cookie the request never reaches the service. -/
def arrive (cfg : Config) (b : Browser) (k : ℕ) (f : Flight) (client : ClientMeta) :
    Option Browser :=
  match f.stage, f.exchange with
  | .sent, .refresh none => some (putStage b k f .refused)
  | .sent, .refresh (some cookie) =>
    if cookie = "" then some (putStage b k f .refused)
    else serveCall cfg b k f (.refresh cookie client)
  | .sent, .login email password => serveCall cfg b k f (.login email password client)
  | _, _ => none

def step (cfg : Config) (b : Browser) : Act → Option Browser
  | .openPage => some (openPage b)
  | .apiFetch i => b.pages[i]?.map fun page =>
    putPage b i { page with callers := page.callers ++ [.sent] }
  | .apiAnswer i k status => b.pages[i]?.bind (apiAnswer b i k status)
  | .login i email password => b.pages[i]?.map fun _ => send b i (.login email password)
  | .refuse k => b.flights[k]?.bind fun f => if f.stage = .sent then some (putStage b k f .refused)
    else none
  | .arrive k client => b.flights[k]?.bind fun f => arrive cfg b k f client
  | .serve j d => ((auth cfg).step b.server (.run j (.ok d))).map fun server => { b with server }
  | .deliver k => b.flights[k]?.bind fun f =>
      if f.delivered then none else (response b f).map (deliver b k f)
  | .tick ms => ((auth cfg).step b.server (.env (.tick ms))).map fun server => { b with server }
  | .expire => some { b with jar := none }

/-- A browser before its first page, and a server before its first session. -/
def Blank (b : Browser) : Prop :=
  Fresh b.server ∧ (b.server.store.users.map (·.id)).Nodup ∧ b.jar = none ∧ b.pages = [] ∧
    b.flights = []

/-! ### Theft detection -/

def Exchange.isRefresh : Exchange → Bool
  | .refresh _ => true
  | .login _ _ => false

/-- A refresh whose response has not reached its page. -/
def outstanding (f : Flight) : Bool := f.exchange.isRefresh && !f.delivered

/-- The step sends a refresh request: a page loads, or an `apiFetch` meets its
first 401 on a page without a refresh in flight. -/
def sendsRefresh (b : Browser) : Act → Bool
  | .openPage => true
  | .apiAnswer i k status =>
    match b.pages[i]? with
    | some page => decide (status = 401) && decide (page.callers[k]? = some .sent) &&
      !page.refreshInFlight
    | none => false
  | _ => false

/-- No page starts a refresh while a refresh of some page is outstanding. -/
def Alone (b : Browser) (a : Act) : Prop :=
  sendsRefresh b a = true → ∀ f ∈ b.flights, outstanding f = false

instance (b : Browser) (a : Act) : Decidable (Alone b a) := inferInstanceAs (Decidable (_ → _))

/-- The next statement of the call revokes a family. -/
def revokesNext : Call → Bool
  | .refreshReuse _ | .refreshInactive _ | .logoutRevoke _ => true
  | _ => false

/-- No request presents a spent token, no call is about to revoke a family, and
a row is revoked only because its token was spent. -/
structure Undisturbed (cfg : Config) (b : Browser) : Prop where
  requests : ∀ f ∈ b.flights, ∀ v, f.exchange = .refresh (some v) → f.stage = .sent →
    v ∉ b.server.store.spends
  calls : ∀ raw client, Call.refreshSpend raw client ∈ b.server.calls → raw ∉ b.server.store.spends
  families : ∀ c ∈ b.server.calls, revokesNext c = false
  rows : ∀ r ∈ b.server.store.refreshTokens, r.revokedAt ≠ none →
    ∃ raw ∈ b.server.store.spends, r.tokenHash = cfg.fingerprint raw

end Finlytic.Web
