import Finlytic.Lib.Resolve
import Finlytic.Gateway.Answers

/-! Where the upstream request goes. Routing reads the path of one URL, and the
proxy resolves a sliced copy of the raw target anew. The two agree as long as the
slice is the first segment and names no host. -/

namespace Finlytic.Gateway

open Lib Jws Whatwg

variable {ν : Type} [LinearOrder ν] {config : GatewayConfig} {world : Surroundings ν}
  {counters : Counters} {req : GatewayRequest} {route : Route} {H : HostParser}
  {base url upstream : Url} {target : List Char}

/-! ### The property and its condition -/

/-- A configured target that is an `http` origin. -/
structure OriginTarget (H : HostParser) (text : List Char) (base : Url) : Prop where
  parse : parse H none text = some base
  scheme : base.scheme = "http"
  path : base.path = .list [[]]
  query : base.query = none

/-- The request goes to the origin of the route's target, with the path that was routed, less
what the route strips, and with the same query. -/
def Confined (config : GatewayConfig) (world : Surroundings ν) (counters : Counters)
    (req : GatewayRequest) (route : Route) :
    Prop :=
  ∃ base url, parse world.hosts none route.target = some base ∧
    parse world.hosts (some gatewayBase) req.url = some url ∧
    (handle config world counters req).1.handed = some ⟨base.host.getD [], base.port,
      url.pathname.drop (route.stripPrefix.elim 0 List.length), url.search⟩

/-- The text names no host but that of the base. -/
def Own (H : HostParser) (base : Url) (text : List Char) : Prop :=
  schemeOf text = "http" ∧
    ∀ named ∈ authorityOf (clean text), parseAuthority H named.1 named.2 =
      some (base.host.getD [], base.port)

/-- The target starts with what the route strips, as a segment of its own, and the dot
segments after it stay below that segment. -/
def Stripped (route : Route) (target : List Char) : Prop :=
  ∀ text, route.stripPrefix = some text → ∃ rest c m, target = text ++ rest ∧ clean rest = c :: m ∧
    isSlash true c = true ∧ stays 0 (segmentsOf m) = true

/-! ### Routes -/

/-- The segments below `/api` that are routed. -/
def routedNames : List (List Char) := ["auth".toList, "users".toList, "accounts".toList]

theorem routed_name : ∀ name ∈ routedNames, name ≠ [] ∧ '/' ∉ name := by decide

/-- The stripped routes are under `/api`, each with a segment of its own. -/
theorem pathname_of_stripped {pathname text : List Char}
    (h : matchRoute (buildRoutes config) pathname = some route)
    (hs : route.stripPrefix = some text) : text = "/api".toList ∧
      ∃ name y, name ∈ routedNames ∧ AtBoundary y ∧
        pathname = '/' :: ("api".toList ++ '/' :: (name ++ y)) := by
  have hmem : route ∈ buildRoutes config := List.mem_of_find?_eq_some h
  have hmatch := List.find?_some h
  simp only [Bool.or_eq_true, decide_eq_true_eq] at hmatch
  have hname : ∀ name : List Char, route.routePrefix = '/' :: ("api".toList ++ '/' :: name) →
      ∃ y, AtBoundary y ∧ pathname = '/' :: ("api".toList ++ '/' :: (name ++ y)) := by
    intro name hr
    rcases hmatch with heq | hstart
    · refine ⟨[], by simp [AtBoundary], ?_⟩
      rw [heq, hr, List.append_nil]
    · obtain ⟨y, rfl⟩ := List.isPrefixOf_iff_prefix.mp hstart
      refine ⟨'/' :: y, by simp [AtBoundary], ?_⟩
      rw [hr]
      simp
  simp only [buildRoutes, List.mem_cons, List.not_mem_nil, or_false] at hmem
  rcases hmem with rfl | rfl | rfl | rfl
  · obtain ⟨y, hy, hp⟩ := hname "auth".toList rfl
    exact ⟨(Option.some.inj hs).symm, _, y, by decide, hy, hp⟩
  · obtain ⟨y, hy, hp⟩ := hname "users".toList rfl
    exact ⟨(Option.some.inj hs).symm, _, y, by decide, hy, hp⟩
  · obtain ⟨y, hy, hp⟩ := hname "accounts".toList rfl
    exact ⟨(Option.some.inj hs).symm, _, y, by decide, hy, hp⟩
  · cases hs

theorem not_reaches_health (h : isHealth req = true) :
    ¬ Reaches config world counters req route := by
  rintro ⟨url, hparse, -, hroute, -⟩
  simp only [isHealth, Bool.and_eq_true, decide_eq_true_eq] at h
  rw [h.2] at hparse
  have hurl : url.pathname = "/health".toList := by
    rw [← Option.some.inj hparse]
    rfl
  rw [hurl] at hroute
  cases hroute

/-- What is handed on is what `proxy` makes of the sliced target. -/
theorem handed_eq (h : Reaches config world counters req route) :
    (handle config world counters req).1.handed =
      (proxy world.hosts route.target (upstreamPath route req.url)).toOption := by
  have hhealth : isHealth req = false := by
    cases hh : isHealth req with
    | false => rfl
    | true => exact absurd h (not_reaches_health hh)
  obtain ⟨url, hparse, hallowed, hroute, hdenied⟩ := h
  rw [isHealth] at hhealth
  rw [denied] at hdenied
  simp only [handle, hhealth, hparse, hallowed, hroute, routed, hdenied, Bool.not_true,
    Bool.false_eq_true, if_false]
  cases proxy world.hosts route.target (upstreamPath route req.url) <;> rfl

/-- The URL of the upstream request is at the base, with this path and this query. -/
structure Arrives (base : Url) (pathname search : List Char) (u : Url) : Prop where
  scheme : u.scheme = "http"
  host : u.host.getD [] = base.host.getD []
  port : u.port = base.port
  pathname : u.pathname = pathname
  search : u.search = search

theorem proxy_toOption (ht : OriginTarget H target base) {path pathname search : List Char} :
    (proxy H target path).toOption = some ⟨base.host.getD [], base.port, pathname, search⟩ ↔
      ∃ u, parse H (some base) path = some u ∧ Arrives base pathname search u := by
  unfold proxy
  rw [ht.parse, Option.bind_some]
  cases hparse : parse H (some base) path with
  | none => simp [Except.toOption]
  | some u =>
    by_cases hu : u.scheme = "http"
    · simp only [hu, ne_eq, not_true_eq_false, if_false, Except.toOption, Option.some.injEq,
        Upstream.mk.injEq]
      constructor
      · rintro ⟨hhost, hport, hpath, hsearch⟩
        exact ⟨u, rfl, hu, hhost, hport, hpath, hsearch⟩
      · rintro ⟨u', rfl, h⟩
        exact ⟨h.host, h.port, h.pathname, h.search⟩
    · simp only [hu, ne_eq, not_false_eq_true, if_true, Except.toOption, false_iff, reduceCtorEq]
      rintro ⟨u', hu', h⟩
      cases hu'
      exact hu h.scheme

/-! ### The route that strips nothing -/

/-- The host of the result is one that the text named, or that of the base. -/
theorem own_of_arrives (ht : OriginTarget H target base) {text pathname search : List Char}
    {u : Url} (hu : parse H (some base) text = some u) (h : Arrives base pathname search u) :
    Own H base text := by
  have hlist : ∃ segments, base.path = .list segments := ⟨_, ht.path⟩
  have hs : schemeOf text = "http" := (scheme_parse ht.scheme hlist hu).symm.trans h.scheme
  refine ⟨hs, fun named hn => ?_⟩
  obtain ⟨hnamed, part, hpart, hparse⟩ := parse_named hs (H := H) hn
  rw [hparse base ht.scheme hlist] at hu
  rw [hnamed, hpart, host_authorityState hu, h.host, h.port]

/-- The whole target arrives as it was routed when it names no foreign host. -/
theorem arrives_of_own (ht : OriginTarget H target base) {text : List Char} (hown : Own H base text)
    (hurl : parse H (some gatewayBase) text = some url) :
    ∃ u, parse H (some base) text = some u ∧ Arrives base url.pathname url.search u := by
  have hlist : ∃ segments, base.path = .list segments := ⟨_, ht.path⟩
  have hscheme : url.scheme = "http" := (scheme_parse rfl ⟨_, rfl⟩ hurl).trans hown.1
  cases hn : authorityOf (clean text) with
  | none =>
    obtain ⟨s, hparse⟩ := parse_unnamed hown.1 (H := H) hn
    rw [hparse gatewayBase rfl ⟨_, rfl⟩] at hurl
    have heq := @inherit_eq gatewayBase base ht.scheme ht.path ht.query s
    rw [Option.some.inj hurl] at heq
    refine ⟨_, hparse base ht.scheme hlist, ?_⟩
    rw [heq]
    exact ⟨hscheme, rfl, rfl, rfl, rfl⟩
  | some named =>
    obtain ⟨hnamed, part, hpart, hparse⟩ := parse_named hown.1 (H := H) hn
    rw [hparse gatewayBase rfl ⟨_, rfl⟩] at hurl
    have hauthority := hown.2 named hn
    rw [hnamed, hpart, host_authorityState hurl] at hauthority
    obtain ⟨hhost, hport⟩ := Prod.mk.inj (Option.some.inj hauthority)
    exact ⟨url, (hparse base ht.scheme hlist).trans hurl, hscheme, hhost, hport, rfl, rfl⟩

/-! ### The routes under `/api` -/

theorem plain_api : Plain "api".toList := by
  have hall : ("api".toList.all fun c => !isSlash true c && !isPathEnd c) = true := by decide
  intro c hc
  have h := List.all_eq_true.mp hall c hc
  rw [Bool.and_eq_true, Bool.not_eq_true', Bool.not_eq_true'] at h
  exact h

theorem clean_api (rest : List Char) :
    clean ("/api".toList ++ rest) = '/' :: ("api".toList ++ cleanEnd rest) := by
  show clean ('/' :: 'a' :: 'p' :: 'i' :: rest) = '/' :: 'a' :: 'p' :: 'i' :: cleanEnd rest
  rw [clean_cons (by decide), cleanEnd_cons (by decide), cleanEnd_cons (by decide),
    cleanEnd_cons (by decide)]

theorem plain_blanks {blanks : List Char} (h : ∀ c ∈ blanks, c.toNat ≤ 0x20) :
    Plain ("api".toList ++ blanks) := by
  intro c hc
  rcases List.mem_append.mp hc with hc | hc
  · exact plain_api c hc
  · have hb := h c hc
    constructor
    · simp only [isSlash, Bool.true_and, Bool.or_eq_false_iff, decide_eq_false_iff_not]
      constructor
      all_goals
        rintro rfl
        exact absurd hb (by decide)
    · simp only [isPathEnd, Bool.or_eq_false_iff, decide_eq_false_iff_not]
      constructor
      all_goals
        rintro rfl
        exact absurd hb (by decide)

/-- What routing sees of a target that starts with `/api` and a slash, as long as the dot segments
stay. -/
theorem routed_path {rest m : List Char} {c : Char} (hclean : clean rest = c :: m)
    (hc : isSlash true c = true) (hstays : stays 0 (segmentsOf m) = true)
    (hurl : parse H (some gatewayBase) ("/api".toList ++ rest) = some url) {name y : List Char}
    (hname : '/' ∉ name) (hy : AtBoundary y)
    (hpath : url.pathname = '/' :: ("api".toList ++ '/' :: (name ++ y))) :
    url.path = .list ("api".toList :: walk false [] (segmentsOf m)) ∧
      url.query = queryOf true (m.dropWhile fun c => !isPathEnd c) ∧
      ∃ more, walk false [] (segmentsOf m) = name :: more := by
  rcases cleanEnd_eq rest with hnil | ⟨blanks, hblanks, heq⟩
  · rw [hclean] at hnil
    cases hnil
  · have hslash : isSlash true '/' = true := rfl
    have hplain := plain_blanks hblanks
    have hresolve := @parse_slash H gatewayBase _ rfl ⟨_, rfl⟩ _ _ (clean_api rest) hslash
    rw [hurl, resolveHttp_rooted hslash rfl, Option.some.injEq] at hresolve
    have hsegments : segmentsOf ("api".toList ++ cleanEnd rest) =
        percentEncode pathSet ("api".toList ++ blanks) :: segmentsOf m := by
      rw [heq, hclean, ← List.append_assoc, segmentsOf_append hplain hc]
    have hwalk : walk false [] (segmentsOf ("api".toList ++ cleanEnd rest)) =
        percentEncode pathSet ("api".toList ++ blanks) :: walk false [] (segmentsOf m) := by
      have hpush : push false [] (percentEncode pathSet ("api".toList ++ blanks)) false =
          [percentEncode pathSet ("api".toList ++ blanks)] := push_plain (by decide) [] _ false
      rw [hsegments]
      refine (@walk_segments [] false [_] _ (segmentsOf_ne_nil m)).trans ?_
      rw [List.foldl_cons, List.foldl_nil, hpush]
      exact @walk_append [] [_] _ hstays
    have hlist :
        url.path = .list
        (percentEncode pathSet ("api".toList ++ blanks) :: walk false [] (segmentsOf m)) := by
      rw [hresolve, path_pathState, hwalk]
    have hslashes : ∀ s ∈ percentEncode pathSet ("api".toList ++ blanks) :: walk false []
        (segmentsOf m), '/' ∉ s := by
      rw [← hwalk]
      exact fun s hs => slash_not_mem_walk hs
    rw [Url.pathname, hlist] at hpath
    obtain ⟨rest₁, heq₁, hrest₁⟩ :=
      segments_of_pathname hslashes (by decide) (by simp [AtBoundary]) hpath
    obtain ⟨hfirst, htail⟩ := List.cons.inj heq₁
    rw [htail] at hlist hslashes ⊢
    obtain ⟨more, hmore, -⟩ :=
      segments_of_pathname (fun s hs => hslashes s (List.mem_cons_of_mem _ hs)) hname hy hrest₁
    refine ⟨by rw [hlist, hfirst], ?_, more, hmore⟩
    rw [hresolve, query_pathState, heq, hclean, ← List.append_assoc, hplain.dropWhile_append,
      dropWhile_slash hc]

/-- What arrives of the rest is what routing saw after `/api`. -/
theorem arrives_of_stripped (ht : OriginTarget H target base) {rest m : List Char} {c : Char}
    (hclean : clean rest = c :: m) (hc : isSlash true c = true)
    (hstays : stays 0 (segmentsOf m) = true) (hown : Own H base rest)
    (hurl : parse H (some gatewayBase) ("/api".toList ++ rest) = some url) {name y : List Char}
    (hne : name ≠ []) (hname : '/' ∉ name) (hy : AtBoundary y)
    (hpath : url.pathname = '/' :: ("api".toList ++ '/' :: (name ++ y))) :
    ∃ u, parse H (some base) rest = some u ∧
      Arrives base (url.pathname.drop "/api".length) url.search u := by
  obtain ⟨hlist, hquery, more, hwalk⟩ := routed_path hclean hc hstays hurl hname hy hpath
  have hdrop :
      url.pathname.drop "/api".length = (Path.list (walk false [] (segmentsOf m))).pathname := by
    rw [Url.pathname, hlist]
    rfl
  have hresolve := @parse_slash H base m ht.scheme ⟨_, ht.path⟩ _ _ hclean hc
  rw [hresolve, hdrop]
  cases htwo : twoSlashes true (c :: m) with
  | false =>
    rw [resolveHttp_rooted hc htwo]
    refine ⟨_, rfl, rfl, rfl, rfl, rfl, ?_⟩
    unfold Url.search
    rw [hquery]
    rfl
  | true =>
    obtain ⟨d, ds, rfl, hd⟩ : ∃ d ds, m = d :: ds ∧ isSlash true d = true := by
      cases m with
      | nil => cases htwo
      | cons d ds =>
        simp only [twoSlashes, Bool.and_eq_true] at htwo
        exact ⟨d, ds, rfl, htwo.2⟩
    have hskip : (c :: d :: ds).dropWhile (isSlash true) = ds.dropWhile (isSlash true) := by
      rw [List.dropWhile_cons, if_pos hc, List.dropWhile_cons, if_pos hd]
    have hnamed : authorityOf (clean rest) =
        some ("http", takeAuthority true (ds.dropWhile (isSlash true))) := by
      unfold authorityOf
      rw [hclean, splitScheme_slash hc]
      simp only [htwo, if_true, hskip]
    have hbelow : walk false [[]] (segmentsOf ds) = name :: more := by
      rw [← hwalk, segmentsOf_slash hd]
      exact (@walk_segments [] false [[]] _ (segmentsOf_ne_nil ds)).symm
    obtain ⟨slashes, authority, after, hds, hslashes, hplain, hafter, -, hdrop'⟩ := split_authority ds
    rw [hds] at hbelow
    obtain ⟨c', path, rfl, hc', hpath'⟩ := walk_authority hslashes hplain hafter rfl hbelow hne
    have hauthority : parseAuthority H "http" (takeAuthority true (ds.dropWhile (isSlash true))) =
        some (base.host.getD [], base.port) := hown.2 _ hnamed
    have hstate : resolveHttp H base (c :: d :: ds) =
        some (pathState "http" (some (base.host.getD [])) base.port [] path) := by
      unfold resolveHttp authorityState
      rw [htwo, if_pos rfl, hskip]
      show (parseAuthority H "http" (takeAuthority true (ds.dropWhile (isSlash true)))).map _ = _
      rw [hauthority, Option.map_some]
      show some (pathStart "http"
        _ _ ((ds.dropWhile (isSlash true)).dropWhile fun c => !isAuthorityEnd true c)) = _
      rw [hdrop', pathStart]
      exact congrArg some (if_pos hc')
    rw [hstate]
    refine ⟨_, rfl, rfl, rfl, rfl, ?_, ?_⟩
    · rw [Url.pathname, path_pathState, hpath', hwalk]
    · unfold Url.search
      rw [hquery, query_pathState, dropWhile_slash hd, hds, dropWhile_slashes hslashes,
        hplain.dropWhile_append,
        dropWhile_slash hc']

/-- The request is confined when what `proxy` resolves arrives. -/
theorem confined_iff_arrives (hr : Reaches config world counters req route)
    (ht : OriginTarget world.hosts route.target base)
    (hurl : parse world.hosts (some gatewayBase) req.url = some url) :
    Confined config world counters req route ↔
      ∃ u, parse world.hosts (some base) (upstreamPath route req.url) = some u ∧
        Arrives base (url.pathname.drop (route.stripPrefix.elim 0 List.length)) url.search u := by
  rw [← proxy_toOption ht, ← handed_eq hr]
  constructor
  · rintro ⟨base', url', hbase, hurl', h⟩
    rw [ht.parse] at hbase
    rw [hurl] at hurl'
    cases hbase
    cases hurl'
    exact h
  · intro h
    exact ⟨base, url, ht.parse, hurl, h⟩

/-- The condition is enough, for every request target. -/
theorem confined_of_own (hr : Reaches config world counters req route)
    (ht : OriginTarget world.hosts route.target base)
    (hown : Own world.hosts base (upstreamPath route req.url))
    (hstripped : Stripped route req.url) :
    Confined config world counters req route := by
  obtain ⟨url, hurl, -, hroute, -⟩ := id hr
  rw [confined_iff_arrives hr ht hurl]
  cases hstrip : route.stripPrefix with
  | none =>
    have hwhole : upstreamPath route req.url = req.url := by
      unfold upstreamPath
      rw [hstrip]
    rw [hwhole] at hown ⊢
    exact arrives_of_own ht hown hurl
  | some text =>
    obtain ⟨rfl, name, y, hrouted, hy, hpath⟩ := pathname_of_stripped hroute hstrip
    obtain ⟨hne, hname⟩ := routed_name name hrouted
    obtain ⟨rest, c, m, htarget, hclean, hc, hstays⟩ := hstripped _ hstrip
    have hslice : upstreamPath route req.url = rest := by
      have hdrop : req.url.drop "/api".toList.length = rest := by
        rw [htarget]
        exact List.drop_left
      have hrest : rest ≠ [] := by
        rintro rfl
        cases hclean
      unfold upstreamPath
      rw [hstrip]
      simp only [hdrop, hrest, if_false]
    rw [hslice] at hown ⊢
    rw [htarget] at hurl
    exact arrives_of_stripped ht hclean hc hstays hown hurl hne hname hy hpath

end Finlytic.Gateway
