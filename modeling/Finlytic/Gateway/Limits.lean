import Finlytic.Gateway.Dispatch
import Finlytic.Gateway.Slices

/-! Whether every expensive endpoint is counted under its own limit. The limiter's
patterns are the route paths of the controllers, spelled out; the router takes more
spellings of the same path than the limiter knows. -/

namespace Finlytic.Gateway

open Lib Jws Whatwg

/-! ### Two matchers on one path -/

/-- The one spelling of a token that the limiter would take. -/
def Token.piece : Token → Piece
  | .word w => .word w
  | .param _ => .anything

/-- Of the spellings of the token, the limiter's piece takes exactly the lower-case one. -/
def Piece.covers : Piece → Token → Bool
  | .word v, .word w => v = w && (lowerCase w = w && !w.isEmpty)
  | .oneOf vs, .word w => vs.contains w && (vs.all fun v => lowerCase v ≠ w || v = w) &&
    (lowerCase w = w && !w.isEmpty)
  | .anything, .param _ => true
  | _, _ => false

def covers : List Piece → List Token → Bool
  | [], [] => true
  | p :: ps, t :: ts => p.covers t && covers ps ts
  | _, _ => false

/-- The fixed words of the path are in lower case. -/
def lowerWords : List Token → List (List Char) → Bool
  | .word _ :: ts, piece :: pieces => lowerCase piece = piece && lowerWords ts pieces
  | .param _ :: ts, _ :: pieces => lowerWords ts pieces
  | _, _ => true

variable {p : Piece} {ps qs : List Piece} {t : Token} {ts : List Token}
  {piece word name : List Char} {pieces pre more : List (List Char)}

theorem ne_nil_of_test (h : p.covers t = true) (ht : t.test piece = true) : piece ≠ [] := by
  rintro rfl
  cases t with
  | param n => cases ht
  | word w =>
    have hw : lowerCase [] = lowerCase w := of_decide_eq_true ht
    have hne : lowerCase w = w ∧ w ≠ [] := by
      cases p with
      | word v =>
        simp only [Piece.covers, Bool.and_eq_true, decide_eq_true_eq, Bool.not_eq_true',
          List.isEmpty_eq_false_iff] at h
        exact h.2
      | oneOf vs =>
        simp only [Piece.covers, Bool.and_eq_true, decide_eq_true_eq, Bool.not_eq_true',
          List.isEmpty_eq_false_iff] at h
        exact h.2
      | anything => cases h
    rw [hne.1] at hw
    exact hne.2 hw.symm

/-- Of what the router takes for a token, the limiter takes the lower-case spelling. -/
theorem test_iff_lower (h : p.covers t = true) (ht : t.test piece = true) :
    p.test piece = true ↔ lowerWords [t] [piece] = true := by
  cases t with
  | param n =>
    cases p with
    | anything => exact iff_of_true ht rfl
    | word v => cases h
    | oneOf vs => cases h
  | word w =>
    have hlower : lowerCase piece = lowerCase w := of_decide_eq_true ht
    have hgoal : lowerWords [.word w] [piece] = true ↔ lowerCase piece = piece := by simp [lowerWords]
    rw [hgoal]
    cases p with
    | anything => cases h
    | word v =>
      simp only [Piece.covers, Bool.and_eq_true, decide_eq_true_eq] at h
      obtain ⟨rfl, hw, -⟩ := h
      rw [hw] at hlower
      rw [hlower, Piece.test, decide_eq_true_eq]
      exact eq_comm
    | oneOf vs =>
      simp only [Piece.covers, Bool.and_eq_true, decide_eq_true_eq, List.contains_iff_mem,
        List.all_eq_true, Bool.or_eq_true,
        ne_eq] at h
      obtain ⟨⟨hmem, hall⟩, hw, -⟩ := h
      rw [hw] at hlower
      rw [hlower, Piece.test, List.contains_iff_mem]
      constructor
      · intro hin
        rcases hall piece hin with hne | heq
        · exact absurd hlower hne
        · exact heq.symm
      · rintro rfl
        exact hmem

/-- The limiter takes a path that the router takes when it is in lower case and no slash follows. -/
theorem testPieces_iff (h : covers ps ts = true) (ht : testTokens ts pieces = true) :
    testPieces ps pieces = true ↔ lowerWords ts pieces = true ∧ pieces.getLast? ≠ some [] := by
  induction ts generalizing ps pieces with
  | nil =>
    cases ps with
    | cons p ps => cases h
    | nil =>
      cases pieces with
      | nil => simp [testPieces, lowerWords]
      | cons piece rest =>
        cases rest with
        | nil =>
          have hempty : piece = [] := List.isEmpty_iff.mp ht
          simp [testPieces, hempty]
        | cons _ _ => cases ht
  | cons t ts ih =>
    cases ps with
    | nil => cases h
    | cons p ps =>
      cases pieces with
      | nil => cases ht
      | cons piece rest =>
        simp only [covers, Bool.and_eq_true] at h
        simp only [testTokens, Bool.and_eq_true] at ht
        have hlower : lowerWords (t :: ts) (piece :: rest) = true ↔
            lowerWords [t] [piece] = true ∧ lowerWords ts rest = true := by
          cases t <;> simp [lowerWords]
        have hlast : (piece :: rest).getLast? ≠ some [] ↔ rest.getLast? ≠ some [] := by
          cases rest with
          | nil => simp [ne_nil_of_test h.1 ht.1]
          | cons q qs => rw [List.getLast?_cons_cons]
        rw [testPieces, Bool.and_eq_true, test_iff_lower h.1 ht.1, ih h.2 ht.2, hlower, hlast,
          and_assoc]

/-! ### The limiter's table -/

/-- No piece of a path passes both. -/
def Piece.apart : Piece → Piece → Bool
  | .word v, .word w => v ≠ w
  | .word v, .oneOf ws => !ws.contains v
  | .oneOf vs, .word w => !vs.contains w
  | _, _ => false

def apart : List Piece → List Piece → Bool
  | [], [] => false
  | p :: ps, q :: qs => p.apart q || apart ps qs
  | _, _ => true

theorem not_both_pieces {q : Piece} (h : p.apart q = true) (hp : p.test piece = true) :
    q.test piece = false := by
  cases p with
  | anything => cases h
  | word v =>
    have hv : piece = v := of_decide_eq_true hp
    cases q with
    | anything => cases h
    | word w =>
      rw [Piece.test, decide_eq_false_iff_not, hv]
      exact of_decide_eq_true h
    | oneOf ws =>
      rw [Piece.test, hv]
      exact (Bool.not_eq_true' _).mp h
  | oneOf vs =>
    cases q with
    | anything => cases h
    | oneOf ws => cases h
    | word w =>
      rw [Piece.test, decide_eq_false_iff_not]
      rintro rfl
      rw [Piece.test] at hp
      rw [Piece.apart, hp] at h
      cases h

theorem not_both (h : apart ps qs = true) (hp : testPieces ps pieces = true) :
    testPieces qs pieces = false := by
  induction ps generalizing qs pieces with
  | nil =>
    cases qs with
    | nil => cases h
    | cons q qs =>
      cases pieces with
      | nil => rfl
      | cons _ _ => cases hp
  | cons p ps ih =>
    cases pieces with
    | nil => cases hp
    | cons piece pieces =>
      rw [testPieces, Bool.and_eq_true] at hp
      cases qs with
      | nil => rfl
      | cons q qs =>
        rw [apart, Bool.or_eq_true] at h
        rw [testPieces, Bool.and_eq_false_iff]
        rcases h with h | h
        · exact .inl (not_both_pieces h hp.1)
        · exact .inr (ih h hp.2)

/-- The rule's own test of a request. -/
def Rule.takes (rule : Rule) (method : String) (pathname : List Char) : Bool :=
  rule.method.all (· = method) && rule.pattern.all fun pattern => testPath pattern pathname

def Rule.apart (r s : Rule) : Bool :=
  match r.pattern, s.pattern with
  | some p, some q => Gateway.apart p q
  | _, _ => false

theorem rules_apart : ∀ r ∈ rules, ∀ s ∈ rules, r = s ∨ r.apart s = true := by decide +kernel

theorem default_not_mem : defaultRule ∉ rules := by decide

variable {r rule : Rule} {method : String} {pathname : List Char} {e : Endpoint}

theorem eq_of_takes {s : Rule} (hr : r ∈ rules) (hs : s ∈ rules)
    (htr : r.takes method pathname = true) (hts : s.takes method pathname = true) : r = s := by
  rcases rules_apart r hr s hs with heq | hapart
  · exact heq
  · exfalso
    unfold Rule.apart at hapart
    unfold Rule.takes at htr hts
    rw [Bool.and_eq_true] at htr hts
    cases hp : r.pattern with
    | none => simp [hp] at hapart
    | some p =>
      cases hq : s.pattern with
      | none => simp [hp, hq] at hapart
      | some q =>
        simp only [hp, hq] at hapart
        rw [hp, Option.all_some] at htr
        rw [hq, Option.all_some] at hts
        unfold testPath at htr hts
        have hboth : Gateway.apart (.word [] :: p) (.word [] :: q) = true := by
          rw [Gateway.apart, hapart, Bool.or_true]
        rw [not_both hboth htr.2] at hts
        cases hts.2

/-- The table's order does not matter: a rule is chosen when its own test passes. -/
theorem ruleFor_eq_iff (hr : r ∈ rules) :
    ruleFor method pathname = r ↔ r.takes method pathname = true := by
  show (rules.find? fun rule => rule.takes method pathname).getD defaultRule = r ↔ _
  cases hfind : rules.find? fun rule => rule.takes method pathname with
  | none =>
    rw [Option.getD_none]
    constructor
    · rintro rfl
      exact absurd hr default_not_mem
    · intro htakes
      exact absurd htakes (List.find?_eq_none.mp hfind r hr)
  | some s =>
    have hs := List.find?_some hfind
    rw [Option.getD_some]
    constructor
    · rintro rfl
      exact hs
    · intro htakes
      exact eq_of_takes (List.mem_of_find?_eq_some hfind) hr hs htakes

/-! ### The two tables side by side -/

/-- The limit meant for the endpoint. -/
def Endpoint.limit (e : Endpoint) : Option Rule := (limitId e.handler).bind fun id =>
    rules.find? (·.id = id)

/-- The limit has the endpoint's method, and a pattern that covers its path below `/api`. -/
def Endpoint.limited (e : Endpoint) : Bool :=
  match e.limit with
  | none => true
  | some rule => rule.method = some e.method &&
    match rule.pattern with
    | some (p :: ps) => p = apiWord && covers ps e.path
    | _ => false

theorem endpoints_limited : ∀ e ∈ endpoints, e.limited = true := by decide +kernel

/-- The path of an endpoint under `/api`, spelled out. -/
def Endpoint.spells (e : Endpoint) (pathname : List Char) : Bool :=
  testPath (apiWord :: e.path.map Token.piece) pathname

theorem limit_cases (he : e ∈ endpoints) (hlimit : e.limit = some rule) :
    rule ∈ rules ∧ rule.method = some e.method ∧
    ∃ ps, rule.pattern = some (apiWord :: ps) ∧ covers ps e.path = true := by
  obtain ⟨id, -, hfind⟩ := Option.bind_eq_some_iff.mp hlimit
  have hlimited := endpoints_limited e he
  unfold Endpoint.limited at hlimited
  simp only [hlimit, Bool.and_eq_true, decide_eq_true_eq] at hlimited
  refine ⟨List.mem_of_find?_eq_some hfind, hlimited.1, ?_⟩
  have hpattern := hlimited.2
  split at hpattern
  · rename_i p ps heq
    rw [Bool.and_eq_true, decide_eq_true_eq] at hpattern
    obtain ⟨rfl, hcovers⟩ := hpattern
    exact ⟨ps, heq, hcovers⟩
  · cases hpattern

theorem testPieces_of_spelled (h : covers ps ts = true)
    (ht : testPieces (ts.map Token.piece) pieces = true) :
    testPieces ps pieces = true := by
  induction ts generalizing ps pieces with
  | nil =>
    cases ps with
    | nil => exact ht
    | cons p ps => cases h
  | cons t ts ih =>
    cases ps with
    | nil => cases h
    | cons p ps =>
      cases pieces with
      | nil => cases ht
      | cons piece rest =>
        simp only [covers, Bool.and_eq_true] at h
        simp only [List.map_cons, testPieces, Bool.and_eq_true] at ht ⊢
        refine ⟨?_, ih h.2 ht.2⟩
        cases t with
        | param n =>
          cases p with
          | anything => exact ht.1
          | word v => cases h.1
          | oneOf vs => cases h.1
        | word w =>
          have hw : piece = w := of_decide_eq_true ht.1
          cases p with
          | anything => cases h.1
          | word v =>
            simp only [Piece.covers, Bool.and_eq_true, decide_eq_true_eq] at h
            rw [Piece.test, decide_eq_true_eq, hw, h.1.1]
          | oneOf vs =>
            simp only [Piece.covers, Bool.and_eq_true] at h
            rw [Piece.test, hw]
            exact h.1.1.1

theorem testPieces_oneOf {front : List Piece} {ws : List (List Char)} :
    testPieces (front ++ [.oneOf ws]) pieces = true ↔
    ∃ w ∈ ws, testPieces (front ++ [.word w]) pieces = true := by
  induction front generalizing pieces with
  | nil =>
    cases pieces with
    | nil => simp [testPieces]
    | cons piece rest => cases rest <;> simp [testPieces, Piece.test]
  | cons p front ih =>
    cases pieces with
    | nil => simp [testPieces]
    | cons piece rest =>
      simp only [List.cons_append, testPieces, Bool.and_eq_true, ih]
      constructor
      · rintro ⟨hp, w, hw, hrest⟩
        exact ⟨w, hw, hp, hrest⟩
      · rintro ⟨w, hw, hp, hrest⟩
        exact ⟨hp, w, hw, hrest⟩

/-- The limiter counts a request under a limit exactly when it spells out the path of an endpoint
that is meant for it. -/
theorem ruleFor_iff_spelled (hr : rule ∈ rules) : ruleFor method pathname = rule ↔
    ∃ e ∈ endpoints, e.limit = some rule ∧ method = e.method ∧ e.spells pathname = true := by
  rw [ruleFor_eq_iff hr]
  constructor
  · intro h
    have hspelled : ∀ e ∈ endpoints, e.limit = some rule → method = e.method →
        testPieces (.word [] :: apiWord :: e.path.map Token.piece) (pathname.splitOn '/') = true →
        ∃ e ∈ endpoints, e.limit = some rule ∧ method = e.method ∧ e.spells pathname = true :=
      fun e he hlimit hmethod ht => ⟨e, he, hlimit, hmethod, ht⟩
    unfold Rule.takes at h
    rw [Bool.and_eq_true] at h
    simp only [rules, List.mem_cons, List.not_mem_nil, or_false] at hr
    rcases hr with rfl | rfl | rfl | rfl | rfl
    · exact hspelled ⟨"POST", pathTokens "auth/login", .login⟩ (by decide) (by decide)
        (of_decide_eq_true h.1).symm h.2
    · exact hspelled ⟨"POST", pathTokens "auth/register", .register⟩ (by decide) (by decide)
        (of_decide_eq_true h.1).symm h.2
    · exact hspelled ⟨"POST", pathTokens "auth/refresh", .refresh⟩ (by decide) (by decide)
        (of_decide_eq_true h.1).symm h.2
    · obtain ⟨w, hw, ht⟩ :=
        (@testPieces_oneOf _ [.word [], apiWord, .word "accounts".toList, .anything] _).mp h.2
      rcases List.mem_pair.mp hw with rfl | rfl
      · exact hspelled ⟨"POST", pathTokens "accounts/:id/preview", .preview⟩ (by decide) (by decide)
          (of_decide_eq_true h.1).symm ht
      · exact hspelled ⟨"POST", pathTokens "accounts/:id/sync", .requestSync⟩ (by decide) (by decide)
          (of_decide_eq_true h.1).symm ht
    · exact hspelled ⟨"GET", pathTokens "accounts/:accountId/messages/:messageId/raw", .raw⟩
        (by decide) (by decide)
        (of_decide_eq_true h.1).symm h.2
  · rintro ⟨e, he, hlimit, rfl, hspells⟩
    obtain ⟨-, hmethod, ps, hpattern, hcovers⟩ := limit_cases he hlimit
    unfold Rule.takes
    rw [hmethod, hpattern, Option.all_some, Option.all_some, decide_eq_true rfl, Bool.true_and]
    have hall : covers (.word "api".toList :: ps) (.word "api".toList :: e.path) = true := by
      rw [covers, hcovers]
      rfl
    unfold testPath
    unfold Endpoint.spells testPath at hspells
    cases hsplit : pathname.splitOn '/' with
    | nil => exact absurd hsplit (List.splitOn_ne_nil _ _)
    | cons first rest =>
      rw [hsplit, testPieces, Bool.and_eq_true] at hspells
      rw [testPieces, Bool.and_eq_true]
      exact ⟨hspells.1, testPieces_of_spelled hall hspells.2⟩

/-! ### Remnants lead nowhere -/

/-- No two tokens in a row take a remnant of `api` and a routed name. -/
def noRemnant : List Token → Bool
  | t :: u :: ts => !(remnants.any t.test && routedNames.any u.test) && noRemnant (u :: ts)
  | _ => true

theorem not_noRemnant (hword : word ∈ remnants) (hname : name ∈ routedNames)
    (h : testTokens ts (pre ++ word :: name :: more) = true) : noRemnant ts = false := by
  induction pre generalizing ts with
  | nil =>
    match ts, h with
    | [], h => cases h
    | [t], h =>
      rw [List.nil_append, testTokens, Bool.and_eq_true] at h
      cases more with
      | cons _ _ => cases h.2
      | nil =>
        have hne : ∀ name ∈ routedNames, name.isEmpty = false := by decide
        have hempty : name.isEmpty = true := h.2
        rw [hne name hname] at hempty
        cases hempty
    | t :: u :: ts, h =>
      simp only [List.nil_append, testTokens, Bool.and_eq_true] at h
      rw [noRemnant, List.any_eq_true.mpr ⟨word, hword, h.1⟩,
        List.any_eq_true.mpr ⟨name, hname, h.2.1⟩]
      rfl
  | cons q pre ih =>
    match ts, h with
    | [], h =>
      cases pre <;> cases h
    | [t], h =>
      rw [List.cons_append, testTokens, Bool.and_eq_true] at h
      exact absurd (ih h.2) (by simp [noRemnant])
    | t :: u :: ts, h =>
      rw [List.cons_append, testTokens, Bool.and_eq_true] at h
      rw [noRemnant, ih h.2, Bool.and_false]

/-- The paths of the limited endpoints: they start with a routed name and leave no room for a
remnant. -/
def Endpoint.rooted (e : Endpoint) : Bool :=
  e.limit.isNone || (noRemnant e.path && match e.path with
    | .word w :: _ :: _ => routedNames.contains w
    | _ => false)

theorem endpoints_rooted : ∀ e ∈ endpoints, e.rooted = true := by decide +kernel

theorem rooted_cases (he : e ∈ endpoints) (hlimit : e.limit = some rule) :
    noRemnant e.path = true ∧ ∃ w ∈ routedNames, ∃ t ts, e.path = .word w :: t :: ts := by
  have h := endpoints_rooted e he
  unfold Endpoint.rooted at h
  rw [hlimit, Option.isNone_some, Bool.false_or, Bool.and_eq_true] at h
  refine ⟨h.1, ?_⟩
  have hpath := h.2
  split at hpath
  · rename_i w t ts heq
    exact ⟨w, List.contains_iff_mem.mp hpath, t, ts, heq⟩
  · cases hpath

/-! ### What is dispatched -/

theorem splitOn_nil_cons {text : List Char} :
    ('/' :: text).splitOn '/' = [] :: text.splitOn '/' := by
  have hnot : '/' ∉ ([] : List Char) := List.not_mem_nil
  rw [← List.splitOn_append_cons_self_of_not_mem hnot, List.nil_append]

theorem splitOn_pathname {segments : List (List Char)} (hne : segments ≠ [])
    (hslashes : ∀ s ∈ segments, '/' ∉ s) :
    (Path.list segments).pathname.splitOn '/' = [] :: segments := by
  have hcons : ∀ s rest, (Path.list (s :: rest)).pathname = [] ++ '/' ::
      (s ++ (Path.list rest).pathname) := fun _ _ => rfl
  have hrest : ∀ (rest : List (List Char)) (s : List Char), (∀ x ∈ s :: rest, '/' ∉ x) →
      (s ++ (Path.list rest).pathname).splitOn '/' = s :: rest := by
    intro rest
    induction rest with
    | nil =>
      intro s hs
      have hnil : (Path.list []).pathname = [] := rfl
      rw [hnil, List.append_nil, List.splitOn_eq_singleton (hs s List.mem_cons_self)]
    | cons r rest ih =>
      intro s hs
      rw [hcons, List.nil_append, List.splitOn_append_cons_self_of_not_mem (hs s List.mem_cons_self),
        ih r fun x hx => hs x (List.mem_cons_of_mem _ hx)]
  obtain ⟨s, rest, rfl⟩ := List.exists_cons_of_ne_nil hne
  rw [hcons, List.splitOn_append_cons_self_of_not_mem (by simp), hrest rest s hslashes]

theorem splitOn_walk {x : List Char} {segments : List (List Char)}
    (h : walk false [] (segmentsOf x) = segments) (hne : segments ≠ []) :
    (Path.list segments).pathname.splitOn '/' = [] :: segments := by
  apply splitOn_pathname hne
  rw [← h]
  exact fun s hs => slash_not_mem_walk hs

/-- The walk keeps a remnant of `api` that stands before segments that never climb. -/
theorem walk_remnant {x m : List Char} {front : List (List Char)} (hword : word ∈ remnants)
    (hx : segmentsOf x = front ++ word :: segmentsOf m) (hstays : stays 0 (segmentsOf m) = true) :
    ∃ pre, walk false [] (segmentsOf x) = pre ++ word :: walk false [] (segmentsOf m) := by
  refine ⟨front.foldl (push false · · false) [], ?_⟩
  have hsegments : segmentsOf x = (front ++ [word]) ++ segmentsOf m := by
    rw [hx, List.append_assoc]
    rfl
  have happend := @walk_append [] (front.foldl (push false · · false) [] ++ [word]) _ hstays
  rw [List.append_nil, List.append_assoc, List.singleton_append] at happend
  rw [hsegments, walk_segments false (segmentsOf_ne_nil m), List.foldl_append, List.foldl_cons,
    List.foldl_nil,
    remnant_push hword]
  exact happend

/-- Behind its slash, the first segment is a piece of its own. -/
theorem splitOn_first {x y : List Char} (hx : '/' ∉ x) (hy : AtBoundary y) :
    ∃ rest, ('/' :: (x ++ y)).splitOn '/' = [] :: x :: rest := by
  have hsplit : ('/' :: (x ++ y)).splitOn '/' = [] :: (x ++ y).splitOn '/' :=
    @splitOn_nil_cons (x ++ y)
  rw [hsplit]
  cases y with
  | nil => exact ⟨[], by rw [List.append_nil, List.splitOn_eq_singleton hx]⟩
  | cons c y =>
    obtain rfl : c = '/' := hy c rfl
    exact ⟨y.splitOn '/', by rw [List.splitOn_append_cons_self_of_not_mem hx]⟩

theorem accepts_of_dispatch {service : List Endpoint}
    (h : dispatch service method pathname = some e) :
    e ∈ service ∧ handles e.method method = true ∧
      ∃ pieces, pathname.splitOn '/' = [] :: pieces ∧ testTokens e.path pieces = true := by
  have haccepts := List.find?_some h
  unfold Endpoint.accepts at haccepts
  rw [Bool.and_eq_true] at haccepts
  refine ⟨List.mem_of_find?_eq_some h, haccepts.1, ?_⟩
  have hmatch := haccepts.2
  split at hmatch
  · rename_i pieces heq
    exact ⟨pieces, heq, hmatch⟩
  · cases hmatch

variable {H : HostParser} {target : List Char} {base url u : Url}

/-- The path of a limited endpoint has at least two pieces. -/
theorem root_undispatched (he : e ∈ endpoints) (hlimit : e.limit = some rule)
    (hsplit : ['/'].splitOn '/' = [] :: pieces) (htest : testTokens e.path pieces = true) :
    False := by
  obtain ⟨-, w, -, t, ts, hpath⟩ := rooted_cases he hlimit
  have hpieces : ['/'].splitOn '/' = [[], []] := by decide
  rw [hpieces] at hsplit
  rw [← (List.cons.inj hsplit).2, hpath, testTokens, Bool.and_eq_true] at htest
  cases htest.2

/-- An empty slice is sent as `/`. -/
theorem pathname_of_root (ht : OriginTarget H target base) {search : List Char}
    (hu : parse H (some base) ['/'] = some u) (harrives : Arrives base pathname search u) :
    pathname = ['/'] := by
  have hclean : clean ['/'] = ['/'] := rfl
  have hslash : isSlash true '/' = true := rfl
  rw [@parse_slash _ base _ ht.scheme ⟨_, ht.path⟩ _ _ hclean hslash,
    resolveHttp_rooted hslash rfl, Option.some.injEq] at hu
  rw [← harrives.pathname, ← hu]
  rfl

/-- The slice of a target that follows `/api` arrives as the pathname goes on after `/api`. -/
theorem pieces_of_slice (ht : OriginTarget H target base) {search rest m y : List Char} {c : Char}
    (hclean : clean rest = c :: m) (hc : isSlash true c = true)
    (hstays : stays 0 (segmentsOf m) = true) (hwalk : walk false [] (segmentsOf m) = name :: more)
    (hlist : url.path = .list ("api".toList :: name :: more))
    (hurl : parse H (some gatewayBase) ("/api".toList ++ rest) = some url) (hne : name ≠ [])
    (hname : '/' ∉ name) (hy : AtBoundary y)
    (hpath : url.pathname = '/' :: ("api".toList ++ '/' :: (name ++ y)))
    (hu : parse H (some base) rest = some u) (harrives : Arrives base pathname search u) :
    pathname.splitOn '/' = [] :: name :: more ∧ url.pathname.splitOn '/' = [] :: "api".toList ::
      name :: more := by
  obtain ⟨u', hu', harrives'⟩ :=
    arrives_of_stripped ht hclean hc hstays (own_of_arrives ht hu harrives) hurl hne hname hy hpath
  obtain rfl := Option.some.inj (hu.symm.trans hu')
  have hforward : pathname = (Path.list (name :: more)).pathname := by
    rw [← harrives.pathname, harrives'.pathname, Url.pathname, hlist]
    rfl
  constructor
  · rw [hforward]
    exact splitOn_walk hwalk (List.cons_ne_nil _ _)
  · rw [Url.pathname, hlist]
    apply splitOn_pathname (List.cons_ne_nil _ _)
    intro s hs
    rcases List.mem_cons.mp hs with rfl | hs
    · decide
    · rw [← hwalk] at hs
      exact slash_not_mem_walk hs

section Dispatched

variable {ν : Type} [LinearOrder ν] {config : GatewayConfig} {world : Surroundings ν}
  {counters : Counters} {req : GatewayRequest} {route : Route}

/-- The request is handed to the route's target, and one of the services takes it to the
endpoint. -/
def Dispatched (config : GatewayConfig) (world : Surroundings ν) (counters : Counters)
    (req : GatewayRequest) (base : Url) (e : Endpoint) : Prop :=
  ∃ up, (handle config world counters req).1.handed = some up ∧ up.hostname = base.host.getD [] ∧
    up.port = base.port ∧
    ∃ service ∈ [userManagement, emailIngestion], dispatch service req.method up.pathname = some e

theorem dispatched_cases (hr : Reaches config world counters req route)
    (ht : OriginTarget world.hosts route.target base)
    (hd : Dispatched config world counters req base e) :
    e ∈ endpoints ∧ handles e.method req.method = true ∧
      ∃ u pathname search, parse world.hosts (some base) (upstreamPath route req.url) = some u ∧
        Arrives base pathname search u ∧
        ∃ pieces, pathname.splitOn '/' = [] :: pieces ∧ testTokens e.path pieces = true := by
  obtain ⟨up, hhanded, hhost, hport, service, hservice, hdispatch⟩ := hd
  obtain ⟨hmem, hmethod, hpieces⟩ := accepts_of_dispatch hdispatch
  have hup : up = ⟨base.host.getD [], base.port, up.pathname, up.search⟩ := by
    rw [← hhost, ← hport]
  rw [handed_eq hr, hup] at hhanded
  obtain ⟨u, hu, harrives⟩ := (proxy_toOption ht).mp hhanded
  refine ⟨?_, hmethod, u, up.pathname, up.search, hu, harrives, hpieces⟩
  rcases List.mem_pair.mp hservice with rfl | rfl
  · exact List.mem_append_left _ hmem
  · exact List.mem_append_right _ hmem

/-- The route that strips nothing leads to no limited endpoint. -/
theorem stripped_of_dispatched (hr : Reaches config world counters req route)
    (ht : OriginTarget world.hosts route.target base)
    (hd : Dispatched config world counters req base e) (hlimit : e.limit = some rule) :
    route.stripPrefix ≠ none := by
  intro hnone
  obtain ⟨he, -, u, pathname, search, hu, harrives, pieces, hsplit, htest⟩ := dispatched_cases hr ht hd
  obtain ⟨url, hurl, -, hroute, -⟩ := id hr
  have hwhole : upstreamPath route req.url = req.url := by
    unfold upstreamPath
    rw [hnone]
  rw [hwhole] at hu
  obtain ⟨u', hu', harrives'⟩ := arrives_of_own ht (own_of_arrives ht hu harrives) hurl
  obtain rfl := Option.some.inj (hu.symm.trans hu')
  have hpath : pathname = url.pathname := harrives.pathname.symm.trans harrives'.pathname
  have hmem : route ∈ buildRoutes config := List.mem_of_find?_eq_some hroute
  have hoauth : route.routePrefix = "/oauth".toList := by
    simp only [buildRoutes, List.mem_cons, List.not_mem_nil, or_false] at hmem
    rcases hmem with rfl | rfl | rfl | rfl
    · cases hnone
    · cases hnone
    · cases hnone
    · rfl
  have hmatch := List.find?_some hroute
  simp only [hoauth, Bool.or_eq_true, decide_eq_true_eq] at hmatch
  obtain ⟨y, hy, hy'⟩ : ∃ y, AtBoundary y ∧ url.pathname = '/' :: ("oauth".toList ++ y) := by
    rcases hmatch with heq | hstart
    · exact ⟨[], by simp [AtBoundary], heq⟩
    · obtain ⟨y, heq⟩ := List.isPrefixOf_iff_prefix.mp hstart
      exact ⟨'/' :: y, by simp [AtBoundary], heq.symm⟩
  obtain ⟨rest, hfirst⟩ := @splitOn_first "oauth".toList y (by decide) hy
  rw [hpath, hy', hfirst] at hsplit
  obtain ⟨-, hpieces⟩ := List.cons.inj hsplit
  obtain ⟨-, w, hw, t, ts, hpath'⟩ := rooted_cases he hlimit
  rw [← hpieces, hpath', testTokens, Bool.and_eq_true] at htest
  have hnot : ∀ w ∈ routedNames, (Token.word w).test "oauth".toList = false := by decide +kernel
  rw [hnot w hw] at htest
  cases htest.1

/-- A target that is routed as it is cut is dispatched by the path it was routed by. -/
theorem routed_of_dispatched (hr : Reaches config world counters req route)
    (ht : OriginTarget world.hosts route.target base)
    (hurl : parse world.hosts (some gatewayBase) req.url = some url) (hord : Ordinary req.url)
    (hd : Dispatched config world counters req base e) (hlimit : e.limit = some rule) :
    ∃ segments, url.pathname.splitOn '/' = [] :: "api".toList :: segments ∧
      testTokens e.path segments = true := by
  obtain ⟨he, -, u, pathname, search, hu, harrives, pieces, hsplit, htest⟩ := dispatched_cases hr ht hd
  obtain ⟨url', hurl', -, hroute, -⟩ := id hr
  obtain rfl := Option.some.inj (hurl.symm.trans hurl')
  obtain ⟨text, hstrip⟩ := Option.ne_none_iff_exists'.mp (stripped_of_dispatched hr ht hd hlimit)
  obtain ⟨rfl, name, y, hrouted, hy, hpath⟩ := pathname_of_stripped hroute hstrip
  obtain ⟨hne, hname⟩ := routed_name name hrouted
  have hfour : "/api".toList.length = 4 := rfl
  unfold upstreamPath at hu
  rw [hstrip] at hu
  simp only [hfour] at hu
  split_ifs at hu with hempty
  · rw [pathname_of_root ht hu harrives] at hsplit
    exact (root_undispatched he hlimit hsplit htest).elim
  · obtain ⟨m, more, hlist, hstays, hwalk,
        ⟨rest, c, hapi, hclean, hc⟩ | ⟨x, front, word, hword, hx, hpathx⟩⟩ :=
      slice_cases ht hord hurl hname hy hpath hu harrives.scheme
    · have hrest : req.url.drop 4 = rest := by
        rw [hapi]
        rfl
      rw [hrest] at hu
      rw [hapi] at hurl
      obtain ⟨hforward, hrouted⟩ :=
        pieces_of_slice ht hclean hc hstays hwalk hlist hurl hne hname hy hpath hu harrives
      rw [hforward] at hsplit
      exact ⟨name :: more, hrouted, (List.cons.inj hsplit).2 ▸ htest⟩
    · -- A remnant of `api` stands before the routed name.
      exfalso
      obtain ⟨pre, hpre⟩ := walk_remnant hword hx hstays
      rw [hwalk] at hpre
      have hforward : pathname.splitOn '/' = [] :: (pre ++ word :: name :: more) := by
        rw [← harrives.pathname, Url.pathname, hpathx, hpre]
        exact splitOn_walk hpre (by simp)
      rw [hforward] at hsplit
      rw [← (List.cons.inj hsplit).2] at htest
      have hremnant := (rooted_cases he hlimit).1
      rw [not_noRemnant hword hrouted htest] at hremnant
      cases hremnant

/-! ### Counted as meant -/

/-- A text ends in the separator when its last piece is empty. -/
theorem getLast?_splitOn {sep : Char} {text : List Char} : (text.splitOn sep).getLast? = some [] ↔
    text = [] ∨ text.getLast? = some sep := by
  generalize hpieces : text.splitOn sep = pieces
  induction pieces generalizing text with
  | nil => exact absurd hpieces (List.splitOn_ne_nil _ _)
  | cons first pieces ih =>
    obtain ⟨hfirst, ⟨rfl, rfl⟩ | ⟨rest, rfl, hrest⟩⟩ := splitOn_eq_cons hpieces
    · rw [List.getLast?_singleton, Option.some.injEq]
      constructor
      · exact .inl
      · rintro (hnil | hlast)
        · exact hnil
        · exact absurd (List.mem_of_mem_getLast? hlast) hfirst
    · have hne : pieces ≠ [] := by
        rw [← hrest]
        exact List.splitOn_ne_nil _ _
      obtain ⟨q, qs, rfl⟩ := List.exists_cons_of_ne_nil hne
      rw [List.getLast?_cons_cons, ih hrest,
        List.getLast?_append_of_ne_nil _ (List.cons_ne_nil sep rest)]
      cases rest with
      | nil => simp
      | cons c cs => simp [List.getLast?_cons_cons]

/-- The request has the endpoint's own method, the fixed words of its path in lower case, and no
trailing slash. -/
def AsDeclared (e : Endpoint) (method : String) (pathname : List Char) : Prop :=
  method = e.method ∧ pathname.getLast? ≠ some '/' ∧
    lowerWords (.word "api".toList :: e.path) (pathname.splitOn '/').tail = true

/-- A path that is the router's under `/api` passes its limit's pattern when it is spelled as
declared. -/
theorem takes_iff_declared (he : e ∈ endpoints) (hlimit : e.limit = some rule)
    {segments : List (List Char)} (hsplit : pathname.splitOn '/' = [] :: "api".toList :: segments)
    (htest : testTokens e.path segments = true) :
    rule.takes method pathname = true ↔ AsDeclared e method pathname := by
  obtain ⟨-, hmethod, ps, hpattern, hcovers⟩ := limit_cases he hlimit
  have hall : covers (apiWord :: ps) (.word "api".toList :: e.path) = true := by
    rw [covers, hcovers]
    rfl
  have htokens : testTokens (.word "api".toList :: e.path) ("api".toList :: segments) = true := by
    rw [testTokens, htest]
    rfl
  have hlast : ("api".toList :: segments).getLast? ≠ some [] ↔ pathname.getLast? ≠ some '/' := by
    have hne : pathname ≠ [] := by
      rintro rfl
      cases hsplit
    have hiff := @getLast?_splitOn '/' pathname
    rw [hsplit, List.getLast?_cons_cons, or_iff_right hne] at hiff
    exact not_congr hiff
  unfold Rule.takes AsDeclared testPath
  rw [hmethod, hpattern, Option.all_some, Option.all_some, hsplit, List.tail_cons, testPieces,
    Bool.and_eq_true,
    Bool.and_eq_true, testPieces_iff hall htokens, hlast, decide_eq_true_eq]
  constructor
  · rintro ⟨rfl, -, hlower, hslash⟩
    exact ⟨rfl, hslash, hlower⟩
  · rintro ⟨rfl, hslash, hlower⟩
    exact ⟨rfl, rfl, hlower, hslash⟩

end Dispatched

/-- A request that is dispatched to a limited endpoint is counted under its limit when it spells
out, under `/api`, the path of an endpoint with that limit. For ordinary targets this says that it
has the declared method, the fixed words in lower case, and no trailing slash. -/
theorem counted_iff {ν : Type} [LinearOrder ν] {config : GatewayConfig} {world : Surroundings ν}
    {counters : Counters} {req : GatewayRequest} {route : Route} {base url : Url} {e : Endpoint}
    {rule : Rule} (hr : Reaches config world counters req route)
    (ht : OriginTarget world.hosts route.target base)
    (hurl : parse world.hosts (some gatewayBase) req.url = some url)
    (hd : Dispatched config world counters req base e) (hlimit : e.limit = some rule) :
    (ruleFor req.method url.pathname = rule ↔
      ∃ e' ∈ endpoints, e'.limit = some rule ∧ req.method = e'.method ∧
        e'.spells url.pathname = true) ∧
    (Ordinary req.url →
      (ruleFor req.method url.pathname = rule ↔ AsDeclared e req.method url.pathname)) := by
  have he : e ∈ endpoints := (dispatched_cases hr ht hd).1
  have hrule : rule ∈ rules := (limit_cases he hlimit).1
  refine ⟨ruleFor_iff_spelled hrule, fun hord => ?_⟩
  obtain ⟨segments, hsplit, htest⟩ := routed_of_dispatched hr ht hurl hord hd hlimit
  rw [ruleFor_eq_iff hrule]
  exact takes_iff_declared he hlimit hsplit htest

def post (url : String) : GatewayRequest := ⟨"POST", url.toList, none, none, none⟩

def authRoute : Route :=
  ⟨"/api/auth".toList, composeConfig.userManagementUrl, false, some "/api".toList⟩

def loginEndpoint : Endpoint := ⟨"POST", pathTokens "auth/login", .login⟩

def loginLimit : Rule :=
  ⟨"auth-login", some "POST", some [apiWord, .word "auth".toList, .word "login".toList], 5⟩

theorem management_origin : OriginTarget quietWorld.hosts authRoute.target managementBase :=
  ⟨by decide, rfl, rfl, rfl⟩

theorem counted_iff_login : ruleFor "POST" "/api/auth/login".toList = loginLimit := by
  have hr : Reaches composeConfig quietWorld [] (post "/api/auth/login") authRoute :=
    ⟨_, rfl, by decide, by decide, by decide⟩
  have hd : Dispatched composeConfig quietWorld []
      (post "/api/auth/login") managementBase loginEndpoint :=
    ⟨_, rfl, rfl, rfl, userManagement, List.mem_cons_self, by decide⟩
  have hurl : parse quietWorld.hosts (some gatewayBase) (post "/api/auth/login").url =
      some ⟨"http", some "gateway.invalid".toList, none,
        .list ["api".toList, "auth".toList, "login".toList], none⟩ := by decide
  have hdeclared : AsDeclared loginEndpoint "POST" "/api/auth/login".toList :=
    ⟨by decide, by decide, by decide⟩
  exact ((counted_iff hr management_origin hurl hd (by decide)).2 (.slash _)).mpr hdeclared

/-- `POST /api/auth/LOGIN` reaches the login handler and is counted under the default limit. -/
theorem login_uncounted :
    ¬ ∀ (config : GatewayConfig) (world : Surroundings ℕ) (counters : Counters)
      (req : GatewayRequest)
    (route : Route) (base url : Url) (e : Endpoint) (rule : Rule),
      Reaches config world counters req route →
      OriginTarget world.hosts route.target base → parse world.hosts (some gatewayBase) req.url =
        some url →
      Dispatched config world counters req base e → e.limit = some rule →
        ruleFor req.method url.pathname = rule := by
  intro h
  have hr : Reaches composeConfig quietWorld [] (post "/api/auth/LOGIN") authRoute :=
    ⟨_, rfl, by decide, by decide, by decide⟩
  have hd : Dispatched composeConfig quietWorld []
      (post "/api/auth/LOGIN") managementBase loginEndpoint :=
    ⟨_, rfl, rfl, rfl, userManagement, List.mem_cons_self, by decide⟩
  have hurl : parse quietWorld.hosts (some gatewayBase) (post "/api/auth/LOGIN").url =
      some ⟨"http", some "gateway.invalid".toList, none,
        .list ["api".toList, "auth".toList, "LOGIN".toList], none⟩ := by decide
  have hrule := h _ _ _ _ _ _ _ _ loginLimit hr management_origin hurl hd (by decide)
  have hdefault : ruleFor "POST" "/api/auth/LOGIN".toList ≠ loginLimit := by decide
  exact hdefault hrule

end Finlytic.Gateway
