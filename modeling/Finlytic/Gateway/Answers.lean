import Finlytic.Lib.Resolve
import Finlytic.Gateway.Server

/-! The gateway answers a request, unless a URL that it builds from the request
target throws. Nothing around the two URL parses is guarded, so a target that
names an invalid host rejects the handler. -/

namespace Finlytic.Gateway

open Lib Jws Whatwg

variable {ν : Type} [LinearOrder ν] {config : GatewayConfig} {world : Surroundings ν}
  {counters : Counters} {req : GatewayRequest} {H : HostParser}

/-- The handler settled: one response of its own, or the request handed on. -/
def Answers (o : Outcome) : Prop := o.rejected = none ∧ o.written.length + o.handed.toList.length = 1

theorem answers_respond (r : Response) : Answers (.respond [r]) := ⟨rfl, rfl⟩

theorem not_answers_reject (message : String) : ¬ Answers (.reject message) := by
  rintro ⟨h, -⟩
  cases h

/-! ### Static files -/

/-- Either the request is answered by one response, or nothing was written. -/
def Sent.Once (sent : Sent) : Prop := sent.written.length = if sent.answered then 1 else 0

theorem sendFile_once (fs : FileSystem) (filePath : List Char) (cacheControl : String) :
    (sendFile fs filePath cacheControl).Once := by
  unfold sendFile
  split <;> rfl

theorem fallback_once (fs : FileSystem) (root pathname : List Char) (acceptsHtml : Bool) :
    (fallback fs root pathname acceptsHtml).Once := by
  unfold fallback
  split_ifs
  · rfl
  · exact sendFile_once ..

theorem once_orElse {first second : Sent} (h₁ : first.Once) (h₂ : second.Once) :
    (if first.answered then first
      else ⟨first.written ++ second.written, second.answered⟩ : Sent).Once := by
  by_cases ha : first.answered = true
  · rw [if_pos ha]
    exact h₁
  · unfold Sent.Once at *
    rw [if_neg ha] at h₁
    rw [if_neg ha, List.length_append, h₁, h₂, Nat.zero_add]

/-- The two attempts of `serveStatic` write once at most. -/
theorem serveStatic_once (fs : FileSystem) (root pathname : List Char) (acceptsHtml : Bool) :
    (serveStatic fs root pathname acceptsHtml).Once := by
  unfold serveStatic
  split
  · rfl
  · by_cases hroot : pathname = ['/']
    · rw [if_neg (not_not.mpr hroot)]
      exact fallback_once ..
    · rw [if_pos hroot]
      exact once_orElse (sendFile_once ..) (fallback_once ..)

omit [LinearOrder ν] in
theorem answers_unrouted (config : GatewayConfig) (world : Surroundings ν) (req : GatewayRequest)
    (pathname : List Char) :
    Answers (unrouted config world req pathname) := by
  have honce : ∀ sent : Sent, sent.Once →
      Answers (if sent.answered then .respond sent.written
        else .respond (sent.written ++ [failure 404 "Not found" []])) := by
    intro sent h
    unfold Sent.Once at h
    split_ifs at h ⊢
    · exact ⟨rfl, h⟩
    · rw [List.length_eq_zero_iff.mp h]
      exact answers_respond _
  unfold unrouted
  apply honce
  split
  · split_ifs
    · exact serveStatic_once ..
    · rfl
  · rfl

/-! ### The proxy -/

/-- A configured target that is an `http` URL. -/
def HttpTarget (H : HostParser) (target : List Char) : Prop :=
  ∃ base, parse H none target = some base ∧ base.scheme = "http"

/-- The text resolves against an `http` base, to an `http` URL. -/
def proxiable (H : HostParser) (path : List Char) : Bool := wellFormed H path && schemeOf path = "http"

theorem proxy_isOk {target : List Char} (ht : HttpTarget H target) (path : List Char) :
    (proxy H target path).isOk = proxiable H path := by
  obtain ⟨base, hbase, hs⟩ := ht
  have hpath := path_of_http hbase hs
  have hsome := isSome_parse (H := H) hs hpath path
  unfold proxy proxiable
  rw [hbase, Option.bind_some, ← hsome]
  cases hparse : parse H (some base) path with
  | none => rfl
  | some u =>
    have hscheme := scheme_parse hs hpath hparse
    rw [← hscheme]
    by_cases hu : u.scheme = "http"
    · simp [hu, Except.isOk, Except.toBool]
    · simp [hu, Except.isOk, Except.toBool]

theorem target_of_mem {route : Route} (h : route ∈ buildRoutes config) :
    route.target = config.userManagementUrl ∨ route.target = config.emailIngestionUrl := by
  simp only [buildRoutes, List.mem_cons, List.not_mem_nil, or_false] at h
  rcases h with rfl | rfl | rfl | rfl
  · exact .inl rfl
  · exact .inl rfl
  · exact .inr rfl
  · exact .inr rfl

/-- Whether the route asks for a token that the request does not have. -/
def denied (config : GatewayConfig) (world : Surroundings ν) (req : GatewayRequest)
    (route : Route) : Bool :=
  route.requiresAuth && !(authenticate world.platform config world.seconds req.authorization).isOk

theorem answers_routed {route : Route} (ht : HttpTarget world.hosts route.target) :
    Answers (routed config world req route) ↔
      (denied config world req route = false → proxiable world.hosts (upstreamPath route req.url) =
        true) := by
  have hok := proxy_isOk ht (upstreamPath route req.url)
  unfold routed
  cases hd : denied config world req route with
  | true =>
    rw [denied] at hd
    simp only [hd, if_true, Bool.true_eq_false, false_imp_iff, iff_true]
    exact answers_respond _
  | false =>
    rw [denied] at hd
    simp only [hd, Bool.false_eq_true, if_false, true_imp_iff]
    rw [← hok]
    cases hproxy : proxy world.hosts route.target (upstreamPath route req.url) with
    | error message =>
      simp only [Except.isOk, Except.toBool, Bool.false_eq_true, iff_false]
      exact not_answers_reject message
    | ok upstream =>
      simp only [Except.isOk, Except.toBool, iff_true]
      exact ⟨rfl, rfl⟩

/-! ### The handler -/

def isHealth (req : GatewayRequest) : Bool := req.method = "GET" && req.url = "/health".toList

/-- The request gets as far as `proxy`: it is within its limit, it matches the route, and it has
the token that the route asks for. -/
def Reaches (config : GatewayConfig) (world : Surroundings ν) (counters : Counters)
    (req : GatewayRequest) (route : Route) :
    Prop :=
  ∃ url, parse world.hosts (some gatewayBase) req.url = some url ∧
    (check counters (req.remoteAddress.getD "unknown".toList) req.method url.pathname
      world.now).1.allowed = true ∧
    matchRoute (buildRoutes config) url.pathname = some route ∧ denied config world req route = false

theorem isSome_gateway (H : HostParser) (input : List Char) :
    (parse H (some gatewayBase) input).isSome = wellFormed H input :=
  isSome_parse rfl ⟨_, rfl⟩ input

/-- The handler answers every request whose target names no invalid host, unless the text
handed to `proxy` names one, or a scheme other than `http`. -/
theorem answers_iff (config : GatewayConfig) (world : Surroundings ν) (counters : Counters)
    (req : GatewayRequest) (hu : HttpTarget world.hosts config.userManagementUrl)
    (he : HttpTarget world.hosts config.emailIngestionUrl) :
    Answers (handle config world counters req).1 ↔ isHealth req = true ∨
      (wellFormed world.hosts req.url = true ∧
      ∀ route, Reaches config world counters req route →
        proxiable world.hosts (upstreamPath route req.url) = true) := by
  unfold handle
  cases hh : isHealth req with
  | true =>
    rw [isHealth] at hh
    simp only [hh, if_true, true_or, iff_true]
    exact answers_respond _
  | false =>
    rw [isHealth] at hh
    simp only [hh, Bool.false_eq_true, if_false, false_or]
    rw [← isSome_gateway]
    cases hparse : parse world.hosts (some gatewayBase) req.url with
    | none =>
      simp only [Option.isSome_none, Bool.false_eq_true, false_and, iff_false]
      exact not_answers_reject _
    | some url =>
      simp only [Option.isSome_some, true_and]
      have hreaches : ∀ route, Reaches config world counters req route ↔
          (check counters (req.remoteAddress.getD "unknown".toList) req.method url.pathname
            world.now).1.allowed = true ∧
          matchRoute (buildRoutes config) url.pathname = some route ∧
            denied config world req route = false := by
        intro route
        unfold Reaches
        rw [hparse]
        simp
      cases hlimit :
        (check counters (req.remoteAddress.getD "unknown".toList) req.method url.pathname
        world.now).1.allowed with
      | false =>
        simp only [Bool.not_false, if_true]
        refine iff_of_true (answers_respond _) fun route hroute => ?_
        rw [hreaches, hlimit] at hroute
        cases hroute.1
      | true =>
        simp only [Bool.not_true, Bool.false_eq_true, if_false]
        cases hroute : matchRoute (buildRoutes config) url.pathname with
        | none =>
          refine iff_of_true (answers_unrouted ..) fun route hr => ?_
          rw [hreaches, hroute] at hr
          cases hr.2.1
        | some route =>
          have hmem : route ∈ buildRoutes config := List.mem_of_find?_eq_some hroute
          have ht : HttpTarget world.hosts route.target := by
            rcases target_of_mem hmem with h | h
            · rw [h]
              exact hu
            · rw [h]
              exact he
          refine (answers_routed ht).trans ⟨fun h other hother => ?_, fun h hd => h route ?_⟩
          · obtain ⟨-, hsame, hd⟩ := (hreaches other).mp hother
            rw [hroute] at hsame
            cases hsame
            exact h hd
          · exact (hreaches route).mpr ⟨hlimit, hroute, hd⟩

/-! ### A callback, and a target that names no host -/

/-- The host parser on plain lower-case names, which are their own serialisation. -/
def plainHosts : HostParser where
  domain t := if t.all fun c => c.isLower || c.isDigit || c = '-' || c = '.' then some t else none
  plain t := some t

/-- A runtime that refuses every token, and an empty web root. -/
def quietWorld : Surroundings ℕ where
  hosts := plainHosts
  platform := ⟨fun _ => [], fun _ => [], fun _ => .error "Unexpected end of JSON input", fun _ =>
    "", fun _ _ => false,
    fun _ => Iff.rfl⟩
  files := ⟨fun _ => none, fun _ => false⟩
  now := 0
  seconds := 0

def get (url : String) : GatewayRequest := ⟨"GET", url.toList, none, none, none⟩

theorem answers_iff_callback :
    Answers (handle composeConfig quietWorld [] (get "/oauth/google/callback?code=1")).1 := by
  have hroutes : ∀ route ∈ buildRoutes composeConfig,
      proxiable plainHosts (upstreamPath route "/oauth/google/callback?code=1".toList) =
        true := by decide
  refine (answers_iff composeConfig quietWorld [] _ ⟨_, rfl, rfl⟩ ⟨_, rfl, rfl⟩).mpr
    (.inr ⟨by decide, fun route h => ?_⟩)
  obtain ⟨url, -, -, hroute, -⟩ := h
  exact hroutes route (List.mem_of_find?_eq_some hroute)

/-- `GET //` rejects the handler: the target names an empty host. -/
theorem handler_rejects :
    ¬ ∀ (config : GatewayConfig) (world : Surroundings ℕ) (counters : Counters)
      (req : GatewayRequest),
    Answers (handle config world counters req).1 := by
  intro h
  exact absurd (h composeConfig quietWorld [] (get "//")).1 (by decide)

end Finlytic.Gateway
