import Finlytic.Lib.DotSegments

/-! How an input resolves against an `http` base, when it does not resolve, and
which host it names. -/

namespace Finlytic.Lib.Whatwg

/-! ### References against an `http` base -/

variable {H : HostParser} {base : Url} {s : List Char}

def twoSlashes (special : Bool) : List Char → Bool
  | c :: d :: _ => isSlash special c && isSlash special d
  | _ => false

/-- A reference without a host of its own takes that of the base. -/
def inherit (base : Url) (s : List Char) : Url :=
  match s with
  | [] => base
  | c :: cs =>
    if isSlash true c then pathState "http" base.host base.port [] cs
    else if isPathEnd c then { base with query := if c = '?' then queryOf true s else base.query }
    else pathState "http" base.host base.port (shorten false base.path.segments) s

/-- A reference without a scheme, or with the scheme of the base. -/
def resolveHttp (H : HostParser) (base : Url) (s : List Char) : Option Url :=
  if twoSlashes true s then authorityState H "http" (s.dropWhile (isSlash true))
  else some (inherit base s)

theorem isSlash_true_of_slash {c : Char} (h : c = '/') : isSlash true c = true := by
  rw [h]
  rfl

theorem relativeState_eq (hb : base.scheme = "http") :
    relativeState H base s = resolveHttp H base s := by
  have hspecial : isSpecial base.scheme = true := by
    rw [hb]
    decide
  unfold relativeState resolveHttp inherit
  rw [hspecial, hb]
  match s with
  | [] => rfl
  | [c] =>
    simp only [twoSlashes, Bool.false_eq_true, if_false]
    split_ifs <;> rfl
  | c :: d :: ds =>
    simp only [twoSlashes, Bool.true_and, Bool.and_eq_true]
    by_cases hc : isSlash true c = true
    · by_cases hd : isSlash true d = true
      · simp only [hc, hd, and_self, if_true, List.dropWhile_cons]
      · have hne : ¬ d = '/' := fun he => hd (isSlash_true_of_slash he)
        simp only [hc, hd, hne, and_false, if_true, if_false, Bool.false_eq_true]
    · simp only [hc, false_and, if_false, Bool.false_eq_true]
      split_ifs <;> rfl

/-- How every input resolves against an `http` base. -/
theorem parse_http (hb : base.scheme = "http") (hp : ∃ segments, base.path = .list segments)
    (input : List Char) :
    parse H (some base) input =
      match splitScheme (clean input) with
      | some (scheme, rest) => if scheme = "http" then resolveHttp H base rest
        else schemeState H none scheme rest
      | none => resolveHttp H base (clean input) := by
  unfold parse
  cases hsplit : splitScheme (clean input) with
  | some named =>
    obtain ⟨scheme, rest⟩ := named
    simp only
    split_ifs with hs
    · have hfile : ¬ scheme = "file" := by
        rw [hs]
        decide
      have hfilter : (some base).filter (·.scheme = scheme) = some base := by simp [hb, hs]
      have hspecial : isSpecial scheme = true := by
        rw [hs]
        decide
      unfold schemeState
      rw [if_neg hfile, if_pos hspecial]
      simp only [hfilter]
      split_ifs with hstart
      · obtain ⟨after, rfl⟩ := List.isPrefixOf_iff_prefix.mp hstart
        rw [hs]
        rfl
      · exact relativeState_eq hb
    · have hfile : (some base).filter (·.scheme = "file") = none := by simp [hb]
      have hother : (some base).filter (·.scheme = scheme) = none := by simp [hb, Ne.symm hs]
      unfold schemeState
      rw [hfile, hother]
      rfl
  | none =>
    obtain ⟨segments, hlist⟩ := hp
    have hfile : ¬ base.scheme = "file" := by
      rw [hb]
      decide
    simp only [noScheme, Option.bind_some, hlist, hfile, if_false]
    exact relativeState_eq hb

/-! ### When `new URL` throws -/

def takeAuthority (special : Bool) (text : List Char) : List Char :=
  text.takeWhile fun c => !isAuthorityEnd special c

/-- The authority that a reference names, and the scheme under which it is read. -/
def authorityOf (s : List Char) : Option (String × List Char) :=
  match splitScheme s with
  | none => if twoSlashes true s then some ("http", takeAuthority true (s.dropWhile (isSlash true)))
    else none
  | some (scheme, rest) =>
    if scheme = "file" then if twoSlashes true rest then
      some (scheme, takeAuthority true (rest.drop 2)) else none
    else if scheme = "http" then
      if twoSlashes true rest then some (scheme, takeAuthority true (rest.dropWhile (isSlash true)))
      else none
    else if isSpecial scheme then some (scheme, takeAuthority true (rest.dropWhile (isSlash true)))
    else if twoSlashes false rest then some (scheme, takeAuthority false (rest.drop 2))
    else none

/-- A `file` URL has a host only, and may do without. -/
def validAuthority (H : HostParser) (scheme : String) (authority : List Char) : Bool :=
  if scheme = "file" then isWindowsDrive authority || authority = [] || (H.domain authority).isSome
  else (parseAuthority H scheme authority).isSome

def wellFormed (H : HostParser) (input : List Char) : Bool :=
  (authorityOf (clean input)).all fun named => validAuthority H named.1 named.2

theorem isSome_authorityState {scheme : String} (text : List Char) :
    (authorityState H scheme text).isSome =
      (parseAuthority H scheme (takeAuthority (isSpecial scheme) text)).isSome :=
  Option.isSome_map

theorem isSome_resolveHttp (H : HostParser) (base : Url) (s : List Char) :
    (resolveHttp H base s).isSome =
    if twoSlashes true s then
      (parseAuthority H "http" (takeAuthority true (s.dropWhile (isSlash true)))).isSome
    else true := by
  unfold resolveHttp
  split_ifs
  · exact isSome_authorityState _
  · rfl

theorem isSome_fileHost (text : List Char) :
    (fileHost H text).isSome = validAuthority H "file" (takeAuthority true text) := by
  unfold fileHost validAuthority takeAuthority
  rw [if_pos rfl]
  by_cases hdrive : isWindowsDrive (text.takeWhile fun c => !isAuthorityEnd true c) = true
  · simp only [hdrive, if_true, Option.isSome_some, Bool.true_or]
  · by_cases hempty : text.takeWhile (fun c => !isAuthorityEnd true c) = []
    · rw [hempty]
      rfl
    · simp only [hdrive, hempty, Bool.false_eq_true, if_false, Option.isSome_map, decide_false,
        Bool.false_or]

theorem isSome_fileState (rest : List Char) : (fileState H none rest).isSome =
    if twoSlashes true rest then validAuthority H "file" (takeAuthority true (rest.drop 2))
    else true := by
  match rest with
  | [] => rfl
  | [c] =>
    unfold fileState
    simp only [twoSlashes, Bool.false_eq_true, if_false]
    split_ifs <;> rfl
  | c :: d :: ds =>
    unfold fileState
    by_cases hc : isSlash true c = true
    · by_cases hd : isSlash true d = true
      · simp only [twoSlashes, hc, hd, Bool.and_self, if_true, isSome_fileHost, List.drop_succ_cons,
          List.drop_zero]
      · simp only [twoSlashes, hc, hd, if_true, Bool.false_eq_true, if_false, Bool.and_false,
          Option.isSome_some]
    · simp only [twoSlashes, hc, Bool.false_eq_true, if_false, Bool.false_and, Option.isSome_some]

theorem schemeState_special {scheme : String} (hfile : ¬ scheme = "file")
    (hspecial : isSpecial scheme = true) {rest : List Char} :
    schemeState H none scheme rest = authorityState H scheme (rest.dropWhile (isSlash true)) := by
  unfold schemeState
  rw [if_neg hfile, if_pos hspecial]
  rfl

/-- After a scheme without special meaning. -/
theorem isSome_plainState {scheme : String} (hs : isSpecial scheme = false) (rest : List Char) :
    (schemeState H none scheme rest).isSome =
      if twoSlashes false rest then
        (parseAuthority H scheme (takeAuthority false (rest.drop 2))).isSome
      else true := by
  have hfile : ¬ scheme = "file" := by
    intro he
    rw [he] at hs
    cases hs
  unfold schemeState
  rw [if_neg hfile, if_neg (by rw [hs]; exact Bool.false_ne_true)]
  split
  · rw [isSome_authorityState, hs]
    rfl
  · rename_i after hne
    cases after with
    | nil => rfl
    | cons c cs =>
      have hc : isSlash false c = false := by
        simp only [isSlash, Bool.false_and, Bool.or_false, decide_eq_false_iff_not]
        rintro rfl
        exact hne cs rfl
      simp only [twoSlashes, hc, Bool.and_false, Bool.false_eq_true, if_false, Option.isSome_some]
  · rename_i hne hne'
    cases rest with
    | nil => rfl
    | cons c cs =>
      have hc : isSlash false c = false := by
        simp only [isSlash, Bool.false_and, Bool.or_false, decide_eq_false_iff_not]
        rintro rfl
        exact hne' cs rfl
      cases cs with
      | nil => rfl
      | cons d ds =>
        simp only [twoSlashes, hc, Bool.false_and, Bool.false_eq_true, if_false, Option.isSome_some]

/-- `new URL` throws exactly on an input that names an invalid authority. -/
theorem isSome_parse (hb : base.scheme = "http") (hp : ∃ segments, base.path = .list segments)
    (input : List Char) :
    (parse H (some base) input).isSome = wellFormed H input := by
  rw [parse_http hb hp]
  unfold wellFormed authorityOf
  cases splitScheme (clean input) with
  | none =>
    simp only [isSome_resolveHttp]
    split_ifs <;> rfl
  | some named =>
    obtain ⟨scheme, rest⟩ := named
    simp only
    by_cases hs : scheme = "http"
    · subst hs
      have hfile : ¬ "http" = "file" := by decide
      rw [if_pos rfl, isSome_resolveHttp, if_neg hfile, if_pos rfl]
      split_ifs <;> rfl
    · rw [if_neg hs, if_neg hs]
      by_cases hfile : scheme = "file"
      · subst hfile
        rw [if_pos rfl]
        refine (isSome_fileState rest).trans ?_
        split_ifs <;> rfl
      · rw [if_neg hfile]
        by_cases hspecial : isSpecial scheme = true
        · rw [if_pos hspecial]
          rw [schemeState_special hfile hspecial, isSome_authorityState, hspecial]
          simp only [Option.all_some, validAuthority, hfile, if_false]
        · rw [if_neg hspecial, isSome_plainState (Bool.eq_false_iff.mpr hspecial)]
          split_ifs
          · simp only [Option.all_some, validAuthority, hfile, if_false]
          · rfl

/-! ### The scheme of the result -/

/-- The scheme that an input names; without one, that of an `http` base. -/
def schemeOf (input : List Char) : String := ((splitScheme (clean input)).map (·.1)).getD "http"

variable {scheme : String} {host : Option (List Char)} {port : Option ℕ} {text : List Char}
  {u : Url}

theorem scheme_pathStart : (pathStart scheme host port text).scheme = scheme := by
  unfold pathStart
  split <;> split_ifs <;> rfl

theorem path_pathStart : ∃ segments, (pathStart scheme host port text).path = .list segments := by
  unfold pathStart
  split <;> split_ifs <;> exact ⟨_, rfl⟩

theorem scheme_authorityState (h : authorityState H scheme text = some u) : u.scheme = scheme := by
  obtain ⟨a, -, rfl⟩ := Option.map_eq_some_iff.mp h
  exact scheme_pathStart

theorem scheme_fileHost (h : fileHost H text = some u) : u.scheme = "file" := by
  unfold fileHost at h
  simp only at h
  split_ifs at h
  · cases h
    rfl
  · cases h
    exact scheme_pathStart
  · obtain ⟨a, -, rfl⟩ := Option.map_eq_some_iff.mp h
    exact scheme_pathStart

theorem scheme_fileState (h : fileState H none text = some u) : u.scheme = "file" := by
  cases text with
  | nil =>
    cases h
    rfl
  | cons c cs =>
    unfold fileState at h
    by_cases hc : isSlash true c = true
    · simp only [hc, if_true] at h
      split at h
      · split_ifs at h
        · exact scheme_fileHost h
        · cases h
          rfl
      · cases h
        rfl
    · simp only [hc, if_false, Bool.false_eq_true] at h
      cases h
      rfl

theorem scheme_schemeState (h : schemeState H none scheme text = some u) : u.scheme = scheme := by
  by_cases hfile : scheme = "file"
  · subst hfile
    exact scheme_fileState h
  · by_cases hspecial : isSpecial scheme = true
    · rw [schemeState_special hfile hspecial] at h
      exact scheme_authorityState h
    · unfold schemeState at h
      rw [if_neg hfile, if_neg hspecial] at h
      split at h
      · exact scheme_authorityState h
      · cases h
        rfl
      · cases h
        rfl

theorem scheme_inherit (hb : base.scheme = "http") : (inherit base s).scheme = "http" := by
  unfold inherit
  split
  · exact hb
  · split_ifs
    · rfl
    · exact hb
    · exact hb
    · rfl

theorem scheme_resolveHttp (hb : base.scheme = "http") (h : resolveHttp H base s = some u) :
    u.scheme = "http" := by
  unfold resolveHttp at h
  split_ifs at h
  · exact scheme_authorityState h
  · cases h
    exact scheme_inherit hb

theorem scheme_parse (hb : base.scheme = "http") (hp : ∃ segments, base.path = .list segments)
    {input : List Char} (h : parse H (some base) input = some u) : u.scheme = schemeOf input := by
  rw [parse_http hb hp] at h
  unfold schemeOf
  cases hsplit : splitScheme (clean input) with
  | none =>
    rw [hsplit] at h
    exact scheme_resolveHttp hb h
  | some named =>
    obtain ⟨scheme, rest⟩ := named
    rw [hsplit] at h
    simp only at h
    split_ifs at h with hs
    · rw [hs]
      exact scheme_resolveHttp hb h
    · exact scheme_schemeState h

/-- An absolute `http` URL has a list of segments. -/
theorem path_of_http {input : List Char} (h : parse H none input = some u)
    (hu : u.scheme = "http") :
    ∃ segments, u.path = .list segments := by
  unfold parse at h
  split at h
  · rename_i scheme rest hsplit
    have hs : scheme = "http" := (scheme_schemeState h).symm.trans hu
    subst hs
    rw [schemeState_special (by decide) (by decide)] at h
    obtain ⟨a, -, rfl⟩ := Option.map_eq_some_iff.mp h
    exact path_pathStart
  · cases h

/-! ### Cleaning -/

/-- What `clean` does to a text whose start is kept. -/
def cleanEnd (input : List Char) : List Char :=
  (input.rdropWhile fun c => c.toNat ≤ 0x20).filter fun c => !(c = '\t' || c = '\n' || c = '\r')

/-- A character that `clean` keeps at both ends. -/
def Solid (c : Char) : Prop := 0x20 < c.toNat

instance (c : Char) : Decidable (Solid c) := inferInstanceAs (Decidable (0x20 < c.toNat))

theorem rdropWhile_append_cons {p : Char → Bool} {b : Char} (hb : p b = false) (l bs : List Char) :
    (l ++ b :: bs).rdropWhile p = l ++ b :: bs.rdropWhile p := by
  induction bs using List.reverseRecOn with
  | nil =>
    rw [List.rdropWhile_concat_neg _ _ _ (by rw [hb]; exact Bool.false_ne_true)]
    rfl
  | append_singleton bs c ih =>
    rw [← List.cons_append, ← List.append_assoc, List.rdropWhile_concat, List.rdropWhile_concat]
    split_ifs
    · exact ih
    · rw [List.append_assoc, List.cons_append]

theorem cleanEnd_append {b : Char} (hb : Solid b) (l bs : List Char) :
    cleanEnd (l ++ b :: bs) = (l.filter fun c => !(c = '\t' || c = '\n' || c = '\r')) ++ b ::
      cleanEnd bs := by
  have hkeep : (!(b = '\t' || b = '\n' || b = '\r')) = true := by
    simp only [Bool.not_eq_true', Bool.or_eq_false_iff, decide_eq_false_iff_not]
    refine ⟨⟨?_, ?_⟩, ?_⟩
    all_goals
      rintro rfl
      exact absurd hb (by decide)
  have hlast : (decide (b.toNat ≤ 0x20)) = false := decide_eq_false (Nat.not_le_of_lt hb)
  unfold cleanEnd
  rw [rdropWhile_append_cons hlast, List.filter_append, List.filter_cons, if_pos hkeep]

theorem cleanEnd_cons {b : Char} (hb : Solid b) (bs : List Char) :
    cleanEnd (b :: bs) = b :: cleanEnd bs :=
  cleanEnd_append hb [] bs

theorem clean_cons {b : Char} (hb : Solid b) (bs : List Char) :
    clean (b :: bs) = b :: cleanEnd bs := by
  have hdrop : (b :: bs).dropWhile (fun c => decide (c.toNat ≤ 0x20)) = b :: bs := by
    rw [List.dropWhile_cons, decide_eq_false (Nat.not_le_of_lt hb), if_neg Bool.false_ne_true]
  unfold clean
  rw [hdrop]
  exact cleanEnd_cons hb bs

theorem rdropWhile_append_blank {p : Char → Bool} {bs : List Char} (h : ∀ c ∈ bs, p c = true)
    (l : List Char) :
    (l ++ bs).rdropWhile p = l.rdropWhile p := by
  induction bs using List.reverseRecOn with
  | nil => rw [List.append_nil]
  | append_singleton bs c ih =>
    rw [← List.append_assoc, List.rdropWhile_concat_pos _ _ _ (h c (by simp))]
    exact ih fun d hd => h d (List.mem_append_left _ hd)

/-- Cleaning a text and cleaning its rest differ by what stands before, and by blanks at the start
of the rest. -/
theorem cleanEnd_split (l input : List Char) :
    (clean input = [] ∧ (cleanEnd (l ++ input)).length ≤ l.length) ∨
    ∃ blanks, (∀ c ∈ blanks, c.toNat ≤ 0x20) ∧ cleanEnd (l ++ input) =
      (l.filter fun c => !(c = '\t' || c = '\n' || c = '\r')) ++ (blanks ++ clean input) := by
  have hsplit := List.takeWhile_append_dropWhile (p := fun c : Char => decide (c.toNat ≤ 0x20))
    (l := input)
  have hblanks : ∀ c ∈ input.takeWhile (fun c => decide (c.toNat ≤ 0x20)), decide (c.toNat ≤ 0x20) =
      true := by
    intro c hc
    have hblank := List.mem_takeWhile_imp hc
    exact hblank
  cases hrest : input.dropWhile (fun c => decide (c.toNat ≤ 0x20)) with
  | nil =>
    rw [hrest, List.append_nil] at hsplit
    rw [hsplit] at hblanks
    refine .inl ⟨?_, ?_⟩
    · unfold clean
      rw [hrest]
      rfl
    · unfold cleanEnd
      rw [rdropWhile_append_blank hblanks]
      exact (List.length_filter_le _ _).trans (List.rdropWhile_prefix _ _).length_le
  | cons b bs =>
    have hb : Solid b := by
      have hhead := List.head?_dropWhile_not (fun c : Char => decide (c.toNat ≤ 0x20)) input
      rw [hrest] at hhead
      exact Nat.lt_of_not_le (of_decide_eq_false hhead)
    have hclean : clean input = b :: cleanEnd bs := by
      unfold clean
      rw [hrest]
      exact cleanEnd_cons hb bs
    refine .inr ⟨(input.takeWhile fun c => decide (c.toNat ≤ 0x20)).filter fun c =>
      !(c = '\t' || c = '\n' || c = '\r'), ?_, ?_⟩
    · intro c hc
      exact of_decide_eq_true (hblanks c (List.mem_of_mem_filter hc))
    · have hinput : l ++ input = (l ++ input.takeWhile fun c => decide (c.toNat ≤ 0x20)) ++ b ::
          bs := by
        rw [List.append_assoc, ← hrest, hsplit]
      rw [hinput, cleanEnd_append hb, List.filter_append, List.append_assoc, hclean]

/-- Within a text, only blanks at the start of the rest tell the two apart. -/
theorem cleanEnd_eq (input : List Char) : clean input = [] ∨
    ∃ blanks, (∀ c ∈ blanks, c.toNat ≤ 0x20) ∧ cleanEnd input = blanks ++ clean input := by
  rcases cleanEnd_split [] input with ⟨hnil, -⟩ | ⟨blanks, hblanks, heq⟩
  · exact .inl hnil
  · exact .inr ⟨blanks, hblanks, heq⟩

/-! ### Rooted references -/

theorem splitScheme_slash {c : Char} (hc : isSlash true c = true) (s : List Char) :
    splitScheme (c :: s) = none := by
  simp only [isSlash, Bool.true_and, Bool.or_eq_true, decide_eq_true_eq] at hc
  rcases hc with rfl | rfl <;> rfl

theorem splitScheme_eq_some {scheme : String} {rest : List Char}
    (h : splitScheme s = some (scheme, rest)) :
    ∃ name, s = name ++ ':' :: rest ∧ ∀ c ∈ name, isSchemeChar c = true := by
  unfold splitScheme at h
  split at h
  · rename_i after hdrop
    split_ifs at h
    cases h
    refine ⟨s.takeWhile isSchemeChar, ?_, fun c hc => List.mem_takeWhile_imp hc⟩
    rw [← hdrop, List.takeWhile_append_dropWhile]
  · cases h

theorem parse_slash (hb : base.scheme = "http") (hp : ∃ segments, base.path = .list segments)
    {input : List Char} {c : Char} (hclean : clean input = c :: s) (hc : isSlash true c = true) :
    parse H (some base) input = resolveHttp H base (c :: s) := by
  rw [parse_http hb hp, hclean, splitScheme_slash hc]

theorem resolveHttp_rooted {c : Char} (hc : isSlash true c = true)
    (h : twoSlashes true (c :: s) = false) :
    resolveHttp H base (c :: s) = some (pathState "http" base.host base.port [] s) := by
  unfold resolveHttp inherit
  rw [h, if_neg Bool.false_ne_true]
  simp only [hc, if_true]

theorem path_pathState (path : List (List Char)) :
    (pathState "http" host port path text).path = .list (walk false path (segmentsOf text)) := rfl

theorem pathStart_cons (c : Char) (rest : List Char) : pathStart "http" host port (c :: rest) =
    if isSlash true c then pathState "http" host port [] rest
    else pathState "http" host port [] (c :: rest) := by
  have hspecial : isSpecial "http" = true := rfl
  unfold pathStart
  simp only [hspecial, Bool.not_true, Bool.false_and, Bool.false_eq_true, if_false]

theorem query_pathState (path : List (List Char)) :
    (pathState "http" host port path text).query =
      queryOf true (text.dropWhile fun c => !isPathEnd c) := rfl

/-! ### The host that an input names -/

/-- An `http` input that names an authority resolves to the same URL whatever the base. -/
theorem parse_named {input : List Char} {named : String × List Char}
    (hs : schemeOf input = "http") (hn : authorityOf (clean input) = some named) :
    named.1 = "http" ∧ ∃ text, named.2 = takeAuthority true text ∧ ∀ base :
      Url, base.scheme = "http" →
      (∃ segments, base.path = .list segments) → parse H (some base) input =
        authorityState H "http" text := by
  unfold schemeOf at hs
  unfold authorityOf at hn
  cases hsplit : splitScheme (clean input) with
  | none =>
    rw [hsplit] at hn
    simp only at hn
    split_ifs at hn with htwo
    cases hn
    refine ⟨rfl, _, rfl, fun base hb hp => ?_⟩
    rw [parse_http hb hp, hsplit]
    exact if_pos htwo
  | some pair =>
    obtain ⟨scheme, rest⟩ := pair
    rw [hsplit] at hn hs
    obtain rfl : scheme = "http" := hs
    have hfile : ¬ "http" = "file" := by decide
    simp only [hfile, if_false, if_true] at hn
    split_ifs at hn with htwo
    cases hn
    refine ⟨rfl, _, rfl, fun base hb hp => ?_⟩
    rw [parse_http hb hp, hsplit]
    exact if_pos htwo

/-- An `http` input that names no authority takes the host of the base. -/
theorem parse_unnamed {input : List Char} (hs : schemeOf input = "http")
    (hn : authorityOf (clean input) = none) :
    ∃ s, ∀ base : Url, base.scheme = "http" → (∃ segments, base.path = .list segments) →
      parse H (some base) input = some (inherit base s) := by
  unfold schemeOf at hs
  unfold authorityOf at hn
  cases hsplit : splitScheme (clean input) with
  | none =>
    rw [hsplit] at hn
    simp only at hn
    split_ifs at hn with htwo
    refine ⟨clean input, fun base hb hp => ?_⟩
    rw [parse_http hb hp, hsplit]
    exact if_neg htwo
  | some pair =>
    obtain ⟨scheme, rest⟩ := pair
    rw [hsplit] at hn hs
    obtain rfl : scheme = "http" := hs
    have hfile : ¬ "http" = "file" := by decide
    simp only [hfile, if_false, if_true] at hn
    split_ifs at hn with htwo
    refine ⟨rest, fun base hb hp => ?_⟩
    rw [parse_http hb hp, hsplit]
    exact if_neg htwo

/-- References without a host differ by the base's host and port only. -/
theorem inherit_eq {b₁ b₂ : Url} (hs : b₂.scheme = b₁.scheme) (hp : b₂.path = b₁.path)
    (hq : b₂.query = b₁.query) (s : List Char) :
    inherit b₂ s = { inherit b₁ s with host := b₂.host, port := b₂.port } := by
  obtain ⟨scheme₁, host₁, port₁, path₁, query₁⟩ := b₁
  obtain ⟨scheme₂, host₂, port₂, path₂, query₂⟩ := b₂
  obtain rfl : scheme₂ = scheme₁ := hs
  obtain rfl : path₂ = path₁ := hp
  obtain rfl : query₂ = query₁ := hq
  unfold inherit
  split
  · rfl
  · split_ifs <;> rfl

theorem host_authorityState (h : authorityState H "http" text = some u) :
    parseAuthority H "http" (takeAuthority true text) = some (u.host.getD [], u.port) := by
  obtain ⟨a, ha, rfl⟩ := Option.map_eq_some_iff.mp h
  have hhost :
    (pathStart "http" (some a.1) a.2
    (text.dropWhile fun c => !isAuthorityEnd (isSpecial "http") c)).host = some a.1 ∧
      (pathStart "http" (some a.1) a.2
        (text.dropWhile fun c => !isAuthorityEnd (isSpecial "http") c)).port = a.2 := by
    unfold pathStart
    split <;> split_ifs <;> exact ⟨rfl, rfl⟩
  rw [hhost.1, hhost.2]
  exact ha

end Finlytic.Lib.Whatwg
