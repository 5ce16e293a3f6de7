import Finlytic.Lib.Pool

/-! Signing out in one page. `api/client.ts` keeps the access token and the refresh in flight in
two module variables that four async functions write. Each `await` lets the others run, and
responses come in any order. `logout` clears the token once its own response is there; a refresh
or login that is still under way at that moment stores a token again when it comes home. -/

namespace Finlytic.Web

open Lib

/-- How a `fetch` settles. -/
inductive Arrival where
  | rejected
  | response (status : ℕ)

/-- How `response.json()` settles: with nothing to read `accessToken` from, or with a value of
it. -/
inductive Body where
  | rejected
  | session (accessToken : Option String)

/-- How the promise that `refreshSession` shares settles. -/
inductive Refreshed where
  | session | null | rejected
  deriving DecidableEq

/-- The async functions of the module, each at the `await` it is suspended at. `asked` is history:
the number of logouts that had resolved when the refresh or login was last asked for. -/
inductive Task where
  | refreshFetch (asked : ℕ)
  | refreshJson (asked : ℕ)
  | refreshFinally (result : Refreshed)
  | refreshDone (result : Refreshed)
  | loginFetch (asked : ℕ)
  | loginJson (asked : ℕ)
  | logoutFetch
  | apiFetchSent
  | apiFetchRefresh (flight : ℕ)
  | apiFetchRetried
  | done
  deriving DecidableEq

/-- A request that went out. `renewed` is history: no logout had resolved by then, or a login or
refresh asked for since the last one had succeeded. -/
structure SentRequest where
  authorization : Option String
  renewed : Bool
  deriving DecidableEq

/-- The module state of a page, its suspended functions and, as history, its requests. -/
structure Tab where
  accessToken : Option String
  refreshInFlight : Option ℕ
  tasks : List Task
  requests : List SentRequest
  logouts : ℕ
  renewed : Bool
  deriving DecidableEq

/-- The `authorization` header `withToken` sets; an empty token sets none. -/
def bearer (accessToken : Option String) : Option String :=
  accessToken.bind fun token => if token = "" then none else some ("Bearer " ++ token)

namespace Tab

def setAccessToken (t : Tab) (token : Option String) : Tab := { t with accessToken := token }

def fetch (t : Tab) (authorization : Option String) : Tab :=
  { t with requests := t.requests ++ [⟨authorization, t.renewed⟩] }

def withToken (t : Tab) : Tab := t.fetch (bearer t.accessToken)

def spawn (t : Tab) (task : Task) : Tab := { t with tasks := t.tasks ++ [task] }

def put (t : Tab) (i : ℕ) (task : Task) : Tab := { t with tasks := t.tasks.set i task }

/-- A refresh that is joined has been asked for again. -/
def join (logouts : ℕ) : Task → Task
  | .refreshFetch _ => .refreshFetch logouts
  | .refreshJson _ => .refreshJson logouts
  | task => task

/-- `refreshSession`, with the refresh whose promise it returns. -/
def refreshSession (t : Tab) : Tab × ℕ :=
  match t.refreshInFlight with
  | some k => ({ t with tasks := t.tasks.modify k (join t.logouts) }, k)
  | none =>
    ({ (t.fetch none).spawn (.refreshFetch t.logouts) with refreshInFlight := some t.tasks.length },
      t.tasks.length)

/-- The session of a refresh or login is stored. -/
def storeSession (t : Tab) (asked : ℕ) (token : Option String) : Tab :=
  { t.setAccessToken token with renewed := t.renewed || decide (asked = t.logouts) }

/-- The end of `logout`, whatever status its response has. -/
def loggedOut (t : Tab) : Tab :=
  { t.setAccessToken none with logouts := t.logouts + 1, renewed := false }

/-- The `fetch` a function waits for settles. -/
def settle (t : Tab) (i : ℕ) : Task → Arrival → Option Tab
  | .refreshFetch _, .rejected => some (t.put i (.refreshFinally .rejected))
  | .refreshFetch asked, .response status =>
    if 200 ≤ status ∧ status ≤ 299 then some (t.put i (.refreshJson asked))
    else some ((t.setAccessToken none).put i (.refreshFinally .null))
  | .loginFetch _, .rejected => some (t.put i .done)
  | .loginFetch asked, .response status =>
    if 200 ≤ status ∧ status ≤ 299 then some (t.put i (.loginJson asked)) else some (t.put i .done)
  | .logoutFetch, .rejected => some (t.put i .done)
  | .logoutFetch, .response _ => some (t.loggedOut.put i .done)
  | .apiFetchSent, .rejected => some (t.put i .done)
  | .apiFetchSent, .response status =>
    -- a first 401 asks for a refresh
    if status = 401 then some (t.refreshSession.1.put i (.apiFetchRefresh t.refreshSession.2))
    else some (t.put i .done)
  | .apiFetchRetried, _ => some (t.put i .done)
  | _, _ => none

/-- The `response.json()` a refresh or login waits for settles. -/
def json (t : Tab) (i : ℕ) : Task → Body → Option Tab
  | .refreshJson _, .rejected => some (t.put i (.refreshFinally .rejected))
  | .refreshJson asked, .session token =>
    some ((t.storeSession asked token).put i (.refreshFinally .session))
  | .loginJson _, .rejected => some (t.put i .done)
  | .loginJson asked, .session token => some ((t.storeSession asked token).put i .done)
  | _, _ => none

/-- A promise of the module itself settles: the `finally` of a refresh, or the refresh an
`apiFetch` waits for. -/
def resume (t : Tab) (i : ℕ) : Task → Option Tab
  | .refreshFinally result => some ({ t with refreshInFlight := none }.put i (.refreshDone result))
  | .apiFetchRefresh k =>
    match t.tasks[k]? with
    | some (.refreshDone .session) => some (t.withToken.put i .apiFetchRetried)
    | some (.refreshDone _) => some (t.put i .done)
    | _ => none
  | _ => none

end Tab

inductive TabAct where
  | refreshSession
  | apiFetch
  | login
  | logout
  | settle (task : ℕ) (arrival : Arrival)
  | json (task : ℕ) (body : Body)
  | resume (task : ℕ)

def tabStep (t : Tab) : TabAct → Option Tab
  | .refreshSession => some t.refreshSession.1
  | .apiFetch => some (t.withToken.spawn .apiFetchSent)
  | .login => some ((t.fetch none).spawn (.loginFetch t.logouts))
  | .logout => some ((t.fetch none).spawn .logoutFetch)
  | .settle i arrival => t.tasks[i]?.bind fun task => t.settle i task arrival
  | .json i body => t.tasks[i]?.bind fun task => t.json i task body
  | .resume i => t.tasks[i]?.bind (t.resume i)

/-- A page that has just loaded. -/
def loaded : Tab := ⟨none, none, [], [], 0, true⟩

/-- A request with an `Authorization` header went out before any logout resolved, or after a login
or refresh that was asked for since the last one. -/
def Sticks (t : Tab) : Prop := ∀ r ∈ t.requests, r.authorization ≠ none → r.renewed = true

instance (t : Tab) : Decidable (Sticks t) := inferInstanceAs (Decidable (∀ r ∈ t.requests, _ → _))

/-- The logouts that had resolved when the session now being read was last asked for. -/
def Task.asked : Task → Option ℕ
  | .refreshJson asked | .loginJson asked => some asked
  | _ => none

/-- No session that was last asked for before the last logout is stored while no later one has
been. -/
def Timely (t : Tab) : TabAct → Prop
  | .json i (.session token) =>
    bearer token = none ∨ t.renewed = true ∨ ∀ task ∈ t.tasks[i]?, ∀ asked ∈ task.asked, asked =
      t.logouts
  | _ => True

variable {t u : Tab} {a : TabAct} {as : List TabAct}

/-! ### One step -/

/-- What a step sends, and what it leaves for the token. -/
structure Effect (t : Tab) (a : TabAct) (u : Tab) : Prop where
  requests : u.requests = t.requests ∨ ∃ authorization,
    (authorization = none ∨ authorization = bearer t.accessToken) ∧
    u.requests = t.requests ++ [⟨authorization, t.renewed⟩]
  token : u.accessToken = none ∨ (u.accessToken = t.accessToken ∧ u.renewed = t.renewed) ∨
    ∃ i token task asked, a = .json i (.session token) ∧ t.tasks[i]? = some task ∧ task.asked =
      some asked ∧
      u.accessToken = token ∧ u.renewed = (t.renewed || decide (asked = t.logouts))

theorem Effect.idle (hr : u.requests = t.requests) (ht : u.accessToken = t.accessToken)
    (hn : u.renewed = t.renewed) :
    Effect t a u :=
  ⟨.inl hr, .inr (.inl ⟨ht, hn⟩)⟩

theorem effect_refreshSession (t : Tab) (a : TabAct) : Effect t a t.refreshSession.1 := by
  unfold Tab.refreshSession
  cases t.refreshInFlight with
  | none => exact ⟨.inr ⟨none, .inl rfl, rfl⟩, .inr (.inl ⟨rfl, rfl⟩)⟩
  | some k => exact .idle rfl rfl rfl

theorem effect_settle {i : ℕ} {task : Task} {arrival : Arrival}
    (h : t.settle i task arrival = some u) : Effect t a u := by
  cases task with
  | refreshFetch asked =>
    cases arrival with
    | rejected => cases h; exact .idle rfl rfl rfl
    | response status =>
      simp only [Tab.settle] at h
      split_ifs at h
      · cases h; exact .idle rfl rfl rfl
      · cases h; exact ⟨.inl rfl, .inl rfl⟩
  | loginFetch asked =>
    cases arrival with
    | rejected => cases h; exact .idle rfl rfl rfl
    | response status =>
      simp only [Tab.settle] at h
      split_ifs at h
      · cases h; exact .idle rfl rfl rfl
      · cases h; exact .idle rfl rfl rfl
  | logoutFetch =>
    cases arrival with
    | rejected => cases h; exact .idle rfl rfl rfl
    | response status => cases h; exact ⟨.inl rfl, .inl rfl⟩
  | apiFetchSent =>
    cases arrival with
    | rejected => cases h; exact .idle rfl rfl rfl
    | response status =>
      simp only [Tab.settle] at h
      split_ifs at h
      · cases h
        have he := effect_refreshSession t a
        exact ⟨he.requests, he.token⟩
      · cases h; exact .idle rfl rfl rfl
  | apiFetchRetried => cases arrival <;> cases h <;> exact .idle rfl rfl rfl
  | _ => cases arrival <;> cases h

/-- A session is stored, by a refresh or a login that was asked for at some time. -/
theorem json_session {i : ℕ} {task : Task} {token : Option String}
    (h : t.json i task (.session token) = some u) :
    ∃ asked, task.asked = some asked ∧ u.requests = t.requests ∧ u.accessToken = token ∧
      u.renewed = (t.renewed || decide (asked = t.logouts)) := by
  cases task with
  | refreshJson asked => cases h; exact ⟨asked, rfl, rfl, rfl, rfl⟩
  | loginJson asked => cases h; exact ⟨asked, rfl, rfl, rfl, rfl⟩
  | _ => cases h

theorem effect_json {i : ℕ} {task : Task} {body : Body} (hi : t.tasks[i]? = some task)
    (h : t.json i task body = some u) :
    Effect t (.json i body) u := by
  cases body with
  | rejected => cases task <;> cases h <;> exact .idle rfl rfl rfl
  | session token =>
    obtain ⟨asked, hasked, hrequests, htoken, hrenewed⟩ := json_session h
    exact ⟨.inl hrequests, .inr (.inr ⟨i, token, task, asked, rfl, hi, hasked, htoken, hrenewed⟩)⟩

theorem effect_resume {i : ℕ} {task : Task} (h : t.resume i task = some u) : Effect t a u := by
  cases task with
  | refreshFinally result => cases h; exact .idle rfl rfl rfl
  | apiFetchRefresh k =>
    simp only [Tab.resume] at h
    split at h
    · cases h; exact ⟨.inr ⟨_, .inr rfl, rfl⟩, .inr (.inl ⟨rfl, rfl⟩)⟩
    · cases h; exact .idle rfl rfl rfl
    · cases h
  | _ => cases h

theorem tabStep_effect (h : tabStep t a = some u) : Effect t a u := by
  cases a with
  | refreshSession => cases h; exact effect_refreshSession t _
  | apiFetch => cases h; exact ⟨.inr ⟨_, .inr rfl, rfl⟩, .inr (.inl ⟨rfl, rfl⟩)⟩
  | login => cases h; exact ⟨.inr ⟨none, .inl rfl, rfl⟩, .inr (.inl ⟨rfl, rfl⟩)⟩
  | logout => cases h; exact ⟨.inr ⟨none, .inl rfl, rfl⟩, .inr (.inl ⟨rfl, rfl⟩)⟩
  | settle i arrival =>
    obtain ⟨task, -, h⟩ := Option.bind_eq_some_iff.mp h
    exact effect_settle h
  | json i body =>
    obtain ⟨task, hi, h⟩ := Option.bind_eq_some_iff.mp h
    exact effect_json hi h
  | resume i =>
    obtain ⟨task, -, h⟩ := Option.bind_eq_some_iff.mp h
    exact effect_resume h

/-! ### Runs -/

/-- After a logout there is no token to send until a newer session is stored. -/
structure SignedOut (t : Tab) : Prop where
  sticks : Sticks t
  token : t.renewed = false → bearer t.accessToken = none

theorem signedOut_loaded : SignedOut loaded := by
  refine ⟨fun r hr => ?_, fun _ => rfl⟩
  cases hr

theorem SignedOut.step (h : SignedOut t) (hok : Timely t a) (hs : tabStep t a = some u) :
    SignedOut u := by
  obtain ⟨hrequests, htoken⟩ := tabStep_effect hs
  constructor
  · intro r hr hauth
    rcases hrequests with hrequests | ⟨authorization, hvalue, hrequests⟩
    · rw [hrequests] at hr
      exact h.sticks r hr hauth
    · rw [hrequests] at hr
      rcases List.mem_append.mp hr with hr | hr
      · exact h.sticks r hr hauth
      · obtain rfl := List.mem_singleton.mp hr
        by_contra hold
        have hnone := h.token (eq_false_of_ne_true hold)
        rcases hvalue with hvalue | hvalue
        · exact hauth hvalue
        · exact hauth (hvalue.trans hnone)
  · intro hn
    rcases htoken with
      htoken | ⟨htoken, hrenewed⟩ | ⟨i, token, task, asked, rfl, hi, hasked, htoken, hrenewed⟩
    · rw [htoken]
      rfl
    · rw [htoken]
      exact h.token (hrenewed.symm.trans hn)
    · rw [htoken]
      rw [hrenewed, Bool.or_eq_false_iff, decide_eq_false_iff_not] at hn
      rcases hok with hempty | hold | hlatest
      · exact hempty
      · rw [hn.1] at hold
        cases hold
      · exact absurd (hlatest task hi asked hasked) hn.2

/-- A session that comes home late is sent with the next request. -/
theorem not_sticks_of_late (ha : ¬ Timely t a) (hs : tabStep t a = some u) :
    ∃ v, tabStep u .apiFetch = some v ∧ ¬ Sticks v := by
  refine ⟨_, rfl, fun hv => ?_⟩
  cases a with
  | json i body =>
    cases body with
    | rejected => exact ha trivial
    | session token =>
      obtain ⟨hbearer, hlate⟩ := not_or.mp ha
      obtain ⟨hold, hlate⟩ := not_or.mp hlate
      obtain ⟨task, hi, hs⟩ := Option.bind_eq_some_iff.mp hs
      obtain ⟨asked, hasked, -, htoken, hrenewed⟩ := json_session hs
      have hne : asked ≠ t.logouts := by
        intro he
        apply hlate
        intro task' hi' asked' hasked'
        obtain rfl := Option.some.inj (hi.symm.trans hi')
        exact (Option.some.inj (hasked'.symm.trans hasked)).trans he
      -- the request that `apiFetch` sends carries the late token
      have hsent :=
        hv ⟨bearer u.accessToken, u.renewed⟩ (List.mem_append_right _ List.mem_cons_self)
        (htoken ▸ hbearer)
      rw [hrenewed, Bool.or_eq_true, decide_eq_true_eq] at hsent
      rcases hsent with hsent | hsent
      · exact hold hsent
      · exact hne hsent
  | _ => exact ha trivial

/-- In every run in which no session is stored that was last asked for before the last logout, no
request after a logout carries the token until a newer session is stored. One such session, after
any such run, and the next request carries it. -/
theorem logout_sticks (hm : Meets tabStep Timely loaded as) (hr : exec tabStep loaded as = some t) :
    Sticks t ∧ ∀ a u, ¬ Timely t a → tabStep t a = some u → ∃ v, tabStep u .apiFetch = some v ∧
      ¬ Sticks v := by
  have hout : SignedOut t :=
    exec_invariant_of_meets (fun _ _ _ h hok hs => h.step hok hs) signedOut_loaded hm hr
  exact ⟨hout.sticks, fun a u ha hs => not_sticks_of_late ha hs⟩

/-! ### A refresh across a logout -/

instance (t : Tab) (a : TabAct) : Decidable (Timely t a) :=
  match a with
  | .json i (.session token) => inferInstanceAs (Decidable (bearer token = none ∨ t.renewed = true ∨
      ∀ task ∈ t.tasks[i]?, ∀ asked ∈ task.asked, asked = t.logouts))
  | .json _ .rejected | .refreshSession | .apiFetch | .login | .logout | .settle _ _ | .resume _ =>
    .isTrue trivial

/-- The user signs in, signs out, is anonymous and signs in again. -/
def signInAgain : List TabAct :=
  [.login, .settle 0 (.response 200), .json 0 (.session (some "a1")), .apiFetch, .logout,
    .settle 2 (.response 204),
    .apiFetch, .login, .settle 4 (.response 200), .json 4 (.session (some "a2")), .apiFetch]

theorem logout_sticks_signInAgain : ∃ t, exec tabStep loaded signInAgain = some t ∧
    t.requests.map (·.authorization) =
      [none, some "Bearer a1", none, none, none, some "Bearer a2"] ∧ Sticks t := by
  refine ⟨_, rfl, rfl, ?_⟩
  exact (@logout_sticks _ signInAgain (by decide) rfl).1

/-- A request meets a 401, and the refresh it asks for is answered after the user has signed out. -/
def refreshAfterLogout : List TabAct :=
  [.login, .settle 0 (.response 200), .json 0 (.session (some "a1")),
    .apiFetch, .settle 1 (.response 401), .logout,
    .settle 3 (.response 204), .settle 2 (.response 200), .json 2 (.session (some "a2")), .apiFetch]

theorem logout_undone : ¬ ∀ as t, exec tabStep loaded as = some t → Sticks t := by
  intro h
  have hsticks := h refreshAfterLogout _ rfl
  exact absurd (hsticks ⟨some "Bearer a2", false⟩ (by decide) (by decide)) (by decide)

end Finlytic.Web
