import Finlytic.Gateway.Confinement

/-! The converse for targets that begin with a slash: a slice that does not start
after a first segment `/api`, or whose dot segments climb over it, leads the request
astray. The routed path starts with a segment `api` that the walk kept. Unless the
slice is cut right behind it, the proxy walks a longer path. -/

namespace Finlytic.Gateway

open Lib Jws Whatwg

variable {H : HostParser} {base url u : Url} {target : List Char}

/-! ### What stands before the routed segment -/

/-- The special schemes but `file`. -/
def webSchemes : List String := ["ftp", "http", "https", "ws", "wss"]

theorem isSpecial_web : ∀ scheme ∈ webSchemes, isSpecial scheme = true ∧ ¬ scheme = "file" := by decide

section Web

variable {scheme : String} {host : Option (List Char)} {port : Option ℕ} {text : List Char}

theorem path_pathState_web (hs : scheme ∈ webSchemes) :
    (pathState scheme host port [] text).path = .list (walk false [] (segmentsOf text)) := by
  obtain ⟨hspecial, hfile⟩ := isSpecial_web scheme hs
  unfold pathState
  simp only [hspecial, hfile, decide_false]
  rfl

theorem pathStart_web (hs : scheme ∈ webSchemes) (c : Char) :
    pathStart scheme host port (c :: text) =
    if isSlash true c then pathState scheme host port [] text
    else pathState scheme host port [] (c :: text) := by
  unfold pathStart
  simp only [(isSpecial_web scheme hs).1, Bool.not_true, Bool.false_and, Bool.false_eq_true, if_false]

theorem pathStart_web_nil (hs : scheme ∈ webSchemes) :
    pathStart scheme host port [] = pathState scheme host port [] [] :=
  if_pos (isSpecial_web scheme hs).1

theorem parseAuthority_web_nil (hs : scheme ∈ webSchemes) : parseAuthority H scheme [] = none := by
  unfold parseAuthority
  simp only [(isSpecial_web scheme hs).1]
  rfl

end Web

/-- A text before a segment: it ends in one slash, and holds no query. -/
structure Stem (g : List Char) : Prop where
  ends : ∀ b ∈ g, isPathEnd b = false
  last : ∃ g' c, g = g' ++ [c] ∧ isSlash true c = true ∧ ∀ b ∈ g'.getLast?, isSlash true b = false

theorem stem_slash : Stem ['/'] := by
  refine ⟨?_, [], '/', rfl, rfl, by simp⟩
  intro b hb
  rw [List.mem_singleton.mp hb]
  rfl

/-- Segments that all drop out end in one slash. -/
theorem stem_of_dropped {q : List Char} {c : Char} (hends : ∀ b ∈ q ++ [c], isPathEnd b = false)
    (hc : isSlash true c = true) (hq : ∃ q' b, q = q' ++ [b] ∧ isSlash true b = false) :
    Stem (q ++ [c]) := by
  obtain ⟨q', b, rfl, hb⟩ := hq
  refine ⟨hends, q' ++ [b], c, rfl, hc, fun d hd => ?_⟩
  rw [List.getLast?_concat] at hd
  rw [← Option.some.inj hd]
  exact hb

/-- A stem goes on with segments that all drop out. -/
theorem Stem.append {g q : List Char} {c : Char} (hg : Stem g) (hq : Stem (q ++ [c]))
    (hne : q ≠ []) :
    Stem (g ++ (q ++ [c])) := by
  obtain ⟨q', d, heq, hc, hlast⟩ := hq.last
  obtain ⟨rfl, hcd⟩ := List.append_inj' heq rfl
  refine ⟨?_, g ++ q, c, (List.append_assoc _ _ _).symm, ?_, ?_⟩
  · intro b hb
    rcases List.mem_append.mp hb with hb | hb
    · exact hg.ends b hb
    · exact hq.ends b hb
  · rw [(List.cons.inj hcd).1]
    exact hc
  · intro b hb
    rw [List.getLast?_append_of_ne_nil _ hne] at hb
    exact hlast b hb

/-- The end of a stem is a stem. -/
theorem Stem.of_append {w z : List Char} (h : Stem (w ++ z)) (hz : z ≠ []) : Stem z := by
  obtain ⟨g', c, heq, hc, hlast⟩ := h.last
  refine ⟨fun b hb => h.ends b (List.mem_append_right _ hb), z.dropLast, c, ?_, hc, fun b hb =>
    hlast b ?_⟩
  · have hcz : z.getLast hz = c := by
      have hl : (w ++ z).getLast? = some c := by
        rw [heq, List.getLast?_concat]
      rw [List.getLast?_append_of_ne_nil _ hz, List.getLast?_eq_getLast_of_ne_nil hz] at hl
      exact Option.some.inj hl
    rw [← hcz, List.dropLast_append_getLast]
  · have hg' : g' = w ++ z.dropLast := by
      have hdrop := congrArg List.dropLast heq
      rw [List.dropLast_append_of_ne_nil hz, List.dropLast_concat] at hdrop
      exact hdrop.symm
    rw [hg', List.getLast?_append, Option.mem_def.mp hb]
    rfl

theorem Stem.lead {z : List Char} (h : Stem z) : Lead z := by
  obtain ⟨z', c, heq, hc, -⟩ := h.last
  exact .inr ⟨z', c, heq, hc⟩

/-- The path that an authority leaves, when it is not empty. -/
theorem path_after_authority {scheme : String} (hs : scheme ∈ webSchemes) {after : List Char}
    {host : Option (List Char)} {port : Option ℕ}
    (hafter : ∀ c ∈ after.head?, isSlash true c = true ∨ isPathEnd c = true) {x : Char}
    {xs : List Char} (hpath : (pathStart scheme host port after).pathname = '/' :: x :: xs) :
    ∃ c rest, after = c :: rest ∧ isSlash true c = true ∧
      (pathStart scheme host port after).path = .list (walk false [] (segmentsOf rest)) := by
  cases after with
  | nil =>
    rw [pathStart_web_nil hs, Url.pathname, path_pathState_web hs] at hpath
    cases hpath
  | cons c rest =>
    cases hc : isSlash true c with
    | true =>
      refine ⟨c, rest, rfl, hc, ?_⟩
      rw [pathStart_web hs, if_pos hc, path_pathState_web hs]
    | false =>
      exfalso
      have hend : isPathEnd c = true :=
        (hafter c rfl).resolve_left (by rw [hc]; exact Bool.false_ne_true)
      have hsegments : segmentsOf (c :: rest) = [[]] :=
        @segmentsOf_plain [] (by simp [Plain]) (c :: rest) (by simpa using hend)
      rw [pathStart_web hs, hc, if_neg Bool.false_ne_true, Url.pathname, path_pathState_web hs,
        hsegments] at hpath
      cases hpath

/-- Behind an authority, the path is walked from the text after a stem. -/
theorem stem_of_authority {scheme : String} (hs : scheme ∈ webSchemes) {lead s : List Char}
    (hlead : ∀ b ∈ lead, isPathEnd b = false)
    (hurl : authorityState H scheme (s.dropWhile (isSlash true)) = some url) {x : Char}
    {xs : List Char} (hpath : url.pathname = '/' :: x :: xs) :
    ∃ g text, lead ++ s = g ++ text ∧ Stem g ∧
      url.path = .list (walk false [] (segmentsOf text)) := by
  obtain ⟨slashes, authority, after, hsplit, hslashes, hplain, hafter, htake, hdrop⟩ :=
    split_authority s
  obtain ⟨a, ha, rfl⟩ := Option.map_eq_some_iff.mp hurl
  rw [(isSpecial_web scheme hs).1, htake] at ha
  rw [(isSpecial_web scheme hs).1, hdrop] at hpath ⊢
  obtain ⟨c, rest, rfl, hc, hlist⟩ := path_after_authority hs hafter hpath
  refine ⟨lead ++ (slashes ++ (authority ++ [c])), rest, ?_,
    ⟨?_, lead ++ (slashes ++ authority), c, by simp, hc, ?_⟩, hlist⟩
  · rw [hsplit]
    simp
  · intro b hb
    simp only [List.mem_append, List.mem_singleton] at hb
    rcases hb with hb | hb | hb | rfl
    · exact hlead b hb
    · exact isPathEnd_of_isSlash (hslashes b hb)
    · exact (hplain b hb).2
    · exact isPathEnd_of_isSlash hc
  · intro b hb
    have hne : authority ≠ [] := by
      rintro rfl
      rw [parseAuthority_web_nil hs] at ha
      cases ha
    rw [← List.append_assoc, List.getLast?_append_of_ne_nil _ hne] at hb
    exact (hplain b (List.mem_of_mem_getLast? hb)).1

/-- The request targets that start with a slash, with an asterisk, or with a web scheme and two
slashes. -/
inductive Ordinary : List Char → Prop
  | slash (t : List Char) : Ordinary ('/' :: t)
  | asterisk (t : List Char) : Ordinary ('*' :: t)
  | absolute (name t : List Char) (letters : ∀ c ∈ name, c.isAlpha = true)
      (web : String.ofList (name.map Char.toLower) ∈ webSchemes) :
        Ordinary (name ++ ':' :: '/' :: '/' :: t)

theorem isSlash_letter {c : Char} (h : c.isAlpha = true) : isSlash true c = false := by
  simp only [isSlash, Bool.true_and, Bool.or_eq_false_iff, decide_eq_false_iff_not]
  constructor
  all_goals
    rintro rfl
    cases h

theorem letter_cases {c : Char} (h : c.isAlpha = true) :
    Solid c ∧ isSchemeChar c = true ∧ isPathEnd c = false := by
  have hge := (letter_bounds h).1
  refine ⟨(by decide : 0x20 < 65).trans_le hge, ?_, ?_⟩
  · simp [isSchemeChar, Char.isAlphanum, h]
  · simp only [isPathEnd, Bool.or_eq_false_iff, decide_eq_false_iff_not]
    constructor
    all_goals
      rintro rfl
      exact absurd hge (by decide)

theorem ne_nil_of_web {name : List Char} (h : String.ofList (name.map Char.toLower) ∈ webSchemes) :
    name ≠ [] := by
  rintro rfl
  exact absurd h (by decide)

theorem splitScheme_letters {name : List Char} (letters : ∀ c ∈ name, c.isAlpha = true)
    (hne : name ≠ []) (rest : List Char) :
    splitScheme (name ++ ':' :: rest) = some (String.ofList (name.map Char.toLower), rest) := by
  have hchars : ∀ c ∈ name, isSchemeChar c = true := fun c hc => (letter_cases (letters c hc)).2.1
  have hdrop : (name ++ ':' :: rest).dropWhile isSchemeChar = ':' :: rest := by
    rw [List.dropWhile_append_of_pos hchars]
    rfl
  have htake : (name ++ ':' :: rest).takeWhile isSchemeChar = name := by
    rw [List.takeWhile_append_of_pos hchars]
    exact List.append_nil name
  unfold splitScheme
  rw [hdrop, htake]
  cases name with
  | nil => exact absurd rfl hne
  | cons d ds => exact if_pos (letters d List.mem_cons_self)

theorem Ordinary.head {t : List Char} (h : Ordinary t) :
    ∃ b t', t = b :: t' ∧ Solid b ∧ (isSlash true b = true → b = '/') := by
  cases h with
  | slash t => exact ⟨_, _, rfl, by decide, fun _ => rfl⟩
  | asterisk t => exact ⟨_, _, rfl, by decide, fun h => by cases h⟩
  | absolute name t letters web =>
    cases name with
    | nil => exact absurd rfl (ne_nil_of_web web)
    | cons d ds =>
      have hd := letters d List.mem_cons_self
      refine ⟨d, _, rfl, (letter_cases hd).1, fun h => ?_⟩
      rw [isSlash_letter hd] at h
      cases h

theorem clean_append {l : List Char} (hne : l ≠ []) (hl : ∀ c ∈ l, Solid c) (rest : List Char) :
    clean (l ++ rest) = l ++ cleanEnd rest := by
  have hend : ∀ l : List Char, (∀ c ∈ l, Solid c) → cleanEnd (l ++ rest) = l ++ cleanEnd rest := by
    intro l hl
    induction l with
    | nil => rfl
    | cons b bs ih =>
      rw [List.cons_append, cleanEnd_cons (hl b List.mem_cons_self), ih fun c hc =>
        hl c (List.mem_cons_of_mem _ hc),
        List.cons_append]
  cases l with
  | nil => exact absurd rfl hne
  | cons b bs =>
    rw [List.cons_append, clean_cons (hl b List.mem_cons_self), hend bs fun c hc =>
      hl c (List.mem_cons_of_mem _ hc),
      List.cons_append]

/-- The path of a routed target is walked from the text after a stem, or from the start of a text
that is not `api`. -/
theorem stem_of_routed {t : List Char} (hord : Ordinary t)
    (hurl : parse H (some gatewayBase) t = some url) {x : Char} {xs : List Char}
    (hpath : url.pathname = '/' :: x :: xs) :
    ∃ g text, clean t = g ++ text ∧ (Stem g ∨ (g = [] ∧ text.head? = some '*')) ∧
      url.path = .list (walk false [] (segmentsOf text)) := by
  cases hord with
  | slash t =>
    have hclean : clean ('/' :: t) = '/' :: cleanEnd t := clean_cons (by decide) t
    have hslash : isSlash true '/' = true := rfl
    rw [@parse_slash H gatewayBase _ rfl ⟨_, rfl⟩ _ _ hclean hslash] at hurl
    cases htwo : twoSlashes true ('/' :: cleanEnd t) with
    | false =>
      rw [resolveHttp_rooted hslash htwo, Option.some.injEq] at hurl
      exact ⟨['/'], cleanEnd t, hclean, .inl stem_slash, by rw [← hurl]; rfl⟩
    | true =>
      unfold resolveHttp at hurl
      rw [htwo, if_pos rfl] at hurl
      obtain ⟨g, text, heq, hg, hlist⟩ :=
        @stem_of_authority _ _ _ (by decide) [] _ (by simp) hurl _ _ hpath
      exact ⟨g, text, hclean.trans heq, .inl hg, hlist⟩
  | asterisk t =>
    have hclean : clean ('*' :: t) = '*' :: cleanEnd t := clean_cons (by decide) t
    refine ⟨[], '*' :: cleanEnd t, hclean, .inr ⟨rfl, rfl⟩, ?_⟩
    have hsplit : splitScheme ('*' :: cleanEnd t) = none := rfl
    rw [parse_http rfl ⟨_, rfl⟩, hclean, hsplit] at hurl
    have htwo : twoSlashes true ('*' :: cleanEnd t) = false := by
      cases cleanEnd t <;> rfl
    simp only [resolveHttp, htwo, Bool.false_eq_true, if_false, Option.some.injEq] at hurl
    rw [← hurl]
    rfl
  | absolute name t letters web =>
    have hclean : clean (name ++ ':' :: '/' :: '/' :: t) = (name ++ [':']) ++ '/' :: '/' ::
        cleanEnd t := by
      rw [List.append_cons, clean_append (by simp)]
      · rw [cleanEnd_cons (by decide), cleanEnd_cons (by decide)]
      · intro c hc
        rcases List.mem_append.mp hc with hc | hc
        · exact (letter_cases (letters c hc)).1
        · rw [List.mem_singleton.mp hc]
          decide
    have hlead : ∀ b ∈ name ++ [':'], isPathEnd b = false := by
      intro b hb
      rcases List.mem_append.mp hb with hb | hb
      · exact (letter_cases (letters b hb)).2.2
      · rw [List.mem_singleton.mp hb]
        rfl
    have hstate : parse H (some gatewayBase) (name ++ ':' :: '/' :: '/' :: t) =
        authorityState H (String.ofList (name.map Char.toLower))
          (('/' :: '/' :: cleanEnd t).dropWhile (isSlash true)) := by
      rw [parse_http rfl ⟨_, rfl⟩, hclean, ← List.append_cons, splitScheme_letters letters
        (ne_nil_of_web web)]
      simp only
      split_ifs with hhttp
      · rw [hhttp]
        rfl
      · obtain ⟨hspecial, hfile⟩ := isSpecial_web _ web
        exact schemeState_special hfile hspecial
    rw [hstate] at hurl
    obtain ⟨g, text, heq, hg, hlist⟩ := stem_of_authority web hlead hurl hpath
    exact ⟨g, text, hclean.trans heq, .inl hg, hlist⟩


/-! ### What the proxy walks -/

/-- A text that names an authority within its stem leaves the rest of the stem to the path. -/
theorem after_of_stem {z text slashes authority after : List Char} (hz : Stem z)
    (htwo : twoSlashes true (z ++ text) = true) (htext : ∀ b ∈ text.head?, isSlash true b = false)
    (hsplit : z ++ text = slashes ++ (authority ++ after))
    (hslashes : ∀ c ∈ slashes, isSlash true c = true) (hplain : Plain authority)
    (hafter : ∀ c ∈ after.head?, isSlash true c = true ∨ isPathEnd c = true) :
    ∃ c z', after = c :: (z' ++ text) ∧ isSlash true c = true ∧ Lead z' ∧ ∀ b ∈ z', isPathEnd b =
      false := by
  obtain ⟨g, c, rfl, hc, hlast⟩ := hz.last
  -- The stem is longer than its slash, or the text itself would start with one.
  obtain ⟨g', b, rfl, hb⟩ : ∃ g' b, g = g' ++ [b] ∧ isSlash true b = false := by
    rcases List.eq_nil_or_concat g with rfl | ⟨g', b, rfl⟩
    · exfalso
      cases text with
      | nil => cases htwo
      | cons d ds =>
        have hd := htext d rfl
        simp [twoSlashes, hd] at htwo
    · rw [List.concat_eq_append] at hlast ⊢
      exact ⟨g', b, rfl, hlast b (by rw [List.getLast?_concat]; rfl)⟩
  have hshape : (slashes ++ authority) ++ after = (g' ++ [b]) ++ (c :: text) := by
    rw [List.append_assoc, ← hsplit]
    simp
  rcases List.append_eq_append_iff.mp hshape with ⟨v, hv, hafter'⟩ | ⟨v, hv, hafter'⟩
  · cases v with
    | nil => exact ⟨c, [], hafter', hc, .inl rfl, by simp⟩
    | cons d ds =>
      have hmem : ∀ e ∈ d :: ds, isPathEnd e = false := by
        intro e he
        refine hz.ends e (List.mem_append_left _ ?_)
        rw [hv]
        exact List.mem_append_right _ he
      have hd : isSlash true d = true := by
        refine (hafter d (by rw [hafter']; rfl)).resolve_right ?_
        rw [hmem d List.mem_cons_self]
        exact Bool.false_ne_true
      refine ⟨d, ds ++ [c], by rw [hafter']; simp, hd, .inr ⟨ds, c, rfl, hc⟩, fun e he => ?_⟩
      rcases List.mem_append.mp he with he | he
      · exact hmem e (List.mem_cons_of_mem _ he)
      · rw [List.mem_singleton.mp he]
        exact isPathEnd_of_isSlash hc
  · cases v with
    | nil =>
      rw [List.nil_append] at hafter'
      exact ⟨c, [], hafter'.symm, hc, .inl rfl, by simp⟩
    | cons d ds =>
      exfalso
      obtain ⟨rfl, -⟩ := List.cons.inj hafter'
      rcases List.append_eq_append_iff.mp hv with ⟨w, hw, hauthority⟩ | ⟨w, hw, -⟩
      · have hmem : c ∈ authority := by
          rw [hauthority]
          simp
        rw [(hplain c hmem).1] at hc
        cases hc
      · have hmem : b ∈ slashes := by
          rw [hw]
          simp
        rw [hslashes b hmem] at hb
        cases hb

/-- Behind a stem the proxy walks the segment too. -/
theorem path_of_stem {z text : List Char} (hz : Stem z)
    (htext : ∀ b ∈ text.head?, isSlash true b = false)
    (hu : resolveHttp H base (z ++ text) = some u) (hbase : base.path = .list [[]]) :
    ∃ z', Lead z' ∧ (∀ b ∈ z', isPathEnd b = false) ∧
      u.path = .list (walk false [] (segmentsOf (z' ++ text))) := by
  unfold resolveHttp at hu
  cases htwo : twoSlashes true (z ++ text) with
  | true =>
    rw [htwo, if_pos rfl] at hu
    obtain ⟨slashes, authority, after, hsplit, hslashes, hplain, hafter, -, hdrop⟩ :=
      split_authority (z ++ text)
    obtain ⟨a, -, rfl⟩ := Option.map_eq_some_iff.mp hu
    have hdrop' : ((z ++ text).dropWhile (isSlash true)).dropWhile
        (fun c => !isAuthorityEnd (isSpecial "http") c) = after :=
      hdrop
    obtain ⟨c, z', rfl, hc, hlead, hends⟩ := after_of_stem hz htwo htext hsplit hslashes hplain hafter
    refine ⟨z', hlead, hends, ?_⟩
    rw [hdrop', pathStart_cons, if_pos hc, path_pathState]
  | false =>
    rw [htwo, if_neg Bool.false_ne_true, Option.some.injEq] at hu
    obtain ⟨g, c, heq, hc, hlast⟩ := hz.last
    cases z with
    | nil => exact absurd heq (by simp)
    | cons d ds =>
      rw [List.cons_append, inherit] at hu
      cases hd : isSlash true d with
      | true =>
        simp only [hd, if_true] at hu
        refine ⟨ds, ?_, fun b hb =>
          hz.ends b (List.mem_cons_of_mem _ hb), by rw [← hu, path_pathState]⟩
        cases g with
        | nil =>
          obtain ⟨-, rfl⟩ := List.cons.inj heq
          exact .inl rfl
        | cons e es => exact .inr ⟨es, c, (List.cons.inj heq).2, hc⟩
      | false =>
        have hend : isPathEnd d = false := hz.ends d List.mem_cons_self
        simp only [hd, hend, Bool.false_eq_true, if_false, hbase, Path.segments] at hu
        exact ⟨d :: ds, hz.lead, hz.ends, by rw [← hu]; rfl⟩

theorem isSlash_cases {c : Char} (h : isSlash true c = true) :
    isSchemeChar c = false ∧ c ≠ ':' := by
  simp only [isSlash, Bool.true_and, Bool.or_eq_true, decide_eq_true_eq] at h
  rcases h with rfl | rfl
  · exact ⟨by decide, by decide⟩
  · exact ⟨by decide, by decide⟩

/-- A scheme in the slice lies within the stem, and leaves a stem. -/
theorem path_of_slice (ht : OriginTarget H target base) {z text slice : List Char} (hz : Stem z)
    (htext : ∀ b ∈ text.head?, isSlash true b = false) (hclean : clean slice = z ++ text)
    (hu : parse H (some base) slice = some u) (hscheme : u.scheme = "http") :
    ∃ z', Lead z' ∧ (∀ b ∈ z', isPathEnd b = false) ∧
      u.path = .list (walk false [] (segmentsOf (z' ++ text))) := by
  rw [parse_http ht.scheme ⟨_, ht.path⟩, hclean] at hu
  cases hsplit : splitScheme (z ++ text) with
  | none =>
    rw [hsplit] at hu
    exact path_of_stem hz htext hu ht.path
  | some pair =>
    obtain ⟨scheme, rest⟩ := pair
    rw [hsplit] at hu
    simp only at hu
    split_ifs at hu with hs
    · obtain ⟨g, c, rfl, hc, hlast⟩ := hz.last
      obtain ⟨name, hname, hchars⟩ := splitScheme_eq_some hsplit
      have hshape : g ++ (c :: text) = (name ++ [':']) ++ rest := by
        rw [List.append_assoc, List.singleton_append, ← hname]
        simp
      rcases List.append_eq_append_iff.mp hshape with ⟨v, hv, hrest⟩ | ⟨v, hv, hrest⟩
      · cases v with
        | nil =>
          rw [List.nil_append] at hrest
          rw [← hrest] at hu
          have hstem : Stem [c] := by
            apply hz.of_append
            exact List.cons_ne_nil c []
          exact path_of_stem hstem htext hu ht.path
        | cons d ds =>
          exfalso
          obtain ⟨rfl, -⟩ := List.cons.inj hrest
          have hmem : c ∈ name ++ [':'] := by
            rw [hv]
            simp
          rcases List.mem_append.mp hmem with hmem | hmem
          · have hchar := hchars c hmem
            rw [(isSlash_cases hc).1] at hchar
            cases hchar
          · exact (isSlash_cases hc).2 (List.mem_singleton.mp hmem)
      · have hstem : Stem (v ++ [c]) := by
          apply Stem.of_append (w := name ++ [':'])
          · rw [← List.append_assoc, ← hv]
            exact hz
          · simp
        have hrest' : rest = (v ++ [c]) ++ text := by
          rw [hrest]
          simp
        rw [hrest'] at hu
        exact path_of_stem hstem htext hu ht.path
    · exact absurd ((scheme_schemeState hu).symm.trans hscheme) hs

/-- A slice that starts with letters and a slash is a relative path. -/
theorem path_of_word (ht : OriginTarget H target base) {word y slice : List Char} {c : Char}
    (hne : word ≠ [])
    (hword : ∀ b ∈ word, isSchemeChar b = true ∧ isSlash true b = false ∧ isPathEnd b = false)
    (hc : isSlash true c = true) (hclean : clean slice = word ++ c :: y)
    (hu : parse H (some base) slice = some u) :
    u.path = .list (walk false [] (segmentsOf (word ++ c :: y))) := by
  have hdrop : (word ++ c :: y).dropWhile isSchemeChar = c :: y := by
    rw [List.dropWhile_append_of_pos fun b hb => (hword b hb).1, List.dropWhile_cons,
      (isSlash_cases hc).1]
    rfl
  have hsplit : splitScheme (word ++ c :: y) = none := by
    unfold splitScheme
    rw [hdrop]
    split
    · rename_i rest heq
      exact absurd (List.cons.inj heq).1 (isSlash_cases hc).2
    · rfl
  rw [parse_http ht.scheme ⟨_, ht.path⟩, hclean, hsplit] at hu
  cases word with
  | nil => exact absurd rfl hne
  | cons d ds =>
    obtain ⟨-, hd, hend⟩ := hword d List.mem_cons_self
    have htwo : twoSlashes true (d :: (ds ++ c :: y)) = false := by
      cases ds <;> simp [twoSlashes, hd]
    simp only [resolveHttp, htwo, Bool.false_eq_true, if_false, Option.some.injEq, List.cons_append,
      inherit, hd, hend] at hu
    rw [← hu, ht.path]
    rfl

/-! ### The cut -/

/-- The words that a cut inside `api` can leave. -/
def remnants : List (List Char) := ["api".toList, "pi".toList, "i".toList]

theorem remnant_word : ∀ word ∈ remnants, word ≠ [] ∧ percentEncode pathSet word = word ∧
    ∀ b ∈ word, isSchemeChar b = true ∧ isSlash true b = false ∧ isPathEnd b = false := by
  have hall : ∀ word ∈ remnants, word ≠ [] ∧ percentEncode pathSet word = word ∧
      (word.all fun b => isSchemeChar b && (!isSlash true b && !isPathEnd b)) = true := by decide
  intro word hword
  obtain ⟨hne, hencode, hchars⟩ := hall word hword
  refine ⟨hne, hencode, fun b hb => ?_⟩
  have h := List.all_eq_true.mp hchars b hb
  rw [Bool.and_eq_true, Bool.and_eq_true, Bool.not_eq_true', Bool.not_eq_true'] at h
  exact h

theorem remnant_push {word : List Char} (hword : word ∈ remnants) (path : List (List Char))
    (last : Bool) :
    push false path word last = path ++ [word] := by
  simp only [remnants, List.mem_cons, List.not_mem_nil, or_false] at hword
  rcases hword with rfl | rfl | rfl
  · exact push_plain (by decide) path _ last
  · exact push_plain (by decide) path _ last
  · exact push_plain (by decide) path _ last

theorem eq_of_solid {b : Char} {l blanks rest : List Char} (hb : Solid b)
    (hblanks : ∀ c ∈ blanks, c.toNat ≤ 0x20) (h : b :: l = blanks ++ rest) : rest = b :: l := by
  cases blanks with
  | nil => exact h.symm
  | cons d ds =>
    obtain ⟨rfl, -⟩ := List.cons.inj h
    exact absurd (hblanks b List.mem_cons_self) (Nat.not_le_of_lt hb)

theorem solid_of_isSlash {c : Char} (h : isSlash true c = true) : Solid c := by
  simp only [isSlash, Bool.true_and, Bool.or_eq_true, decide_eq_true_eq] at h
  rcases h with rfl | rfl <;> decide

/-- A cut behind the first letter of the segment. -/
theorem cut_inside {l kept blanks slice g y v : List Char} {c : Char} (hl : l.length ≤ 4)
    (hkept : kept.Sublist l) (hblanks : ∀ b ∈ blanks, b.toNat ≤ 0x20) (hg : g ≠ [])
    (hc : isSlash true c = true) (hshape : kept ++ blanks = g ++ 'a' :: v)
    (htext : 'p' :: 'i' :: c :: y = v ++ slice) :
    (∃ word ∈ remnants, slice = word ++ c :: y) ∨
      (l = g ++ "api".toList ∧ g.length = 1 ∧ slice = c :: y) := by
  have hpos : 0 < g.length := List.length_pos_of_ne_nil hg
  have hlen := hkept.length_le
  rcases List.append_eq_append_iff.mp hshape with ⟨x, -, hx⟩ | ⟨x, hx, hv⟩
  · exfalso
    exact absurd (hblanks 'a' (by rw [hx]; simp)) (by decide)
  · cases x with
    | nil =>
      exfalso
      exact absurd (hblanks 'a' (by rw [List.nil_append] at hv; rw [← hv]; simp)) (by decide)
    | cons d x =>
      obtain ⟨rfl, hvx⟩ := List.cons.inj hv
      have hvx' : v = x ++ blanks := hvx
      rw [hvx', List.append_assoc] at htext
      rw [hx, List.length_append, List.length_cons] at hlen
      match x, htext, hlen, hx with
      | [], htext, _, _ => exact .inl ⟨"pi".toList, by decide, eq_of_solid (by decide) hblanks htext⟩
      | [d], htext, _, _ =>
        exact .inl ⟨"i".toList, by decide, eq_of_solid (by decide) hblanks (List.cons.inj htext).2⟩
      | [d, e], htext, hlen, hx =>
        obtain ⟨hp, hrest⟩ := List.cons.inj htext
        obtain ⟨hi, hslice⟩ := List.cons.inj hrest
        rw [← hp, ← hi] at hx
        have heq : kept = l := hkept.eq_of_length_le (by rw [hx]; simp; omega)
        refine .inr ⟨heq.symm.trans hx, ?_, eq_of_solid (solid_of_isSlash hc) hblanks hslice⟩
        simp only [List.length_cons, List.length_nil] at hlen
        omega
      | d :: e :: f :: x, _, hlen, _ =>
        exfalso
        simp only [List.length_cons] at hlen
        omega

/-- Where four characters end in a text with a segment `api` behind a stem: before the segment
or inside it, or right behind it, and then these four are `/api`. -/
theorem cut_cases {t g y : List Char} {c : Char} (hord : Ordinary t) (hg : Stem g)
    (hc : isSlash true c = true) (hclean : clean t = g ++ ("api".toList ++ c :: y)) :
    (∃ z, Stem z ∧ clean (t.drop 4) = z ++ ("api".toList ++ c :: y)) ∨
    (∃ word ∈ remnants, clean (t.drop 4) = word ++ c :: y) ∨
    (t = "/api".toList ++ t.drop 4 ∧ clean (t.drop 4) = c :: y) := by
  obtain ⟨b, t, rfl, hb, hslash⟩ := hord.head
  have hsplit : (b :: t).take 4 ++ (b :: t).drop 4 = b :: t := List.take_append_drop 4 _
  have hend : clean (b :: t) = cleanEnd ((b :: t).take 4 ++ (b :: t).drop 4) := by
    rw [hsplit, clean_cons hb, cleanEnd_cons hb]
  have hl : ((b :: t).take 4).length ≤ 4 := List.length_take_le 4 _
  have hgne : g ≠ [] := by
    obtain ⟨g', d, rfl, -⟩ := hg.last
    simp
  rw [hend] at hclean
  rcases cleanEnd_split ((b :: t).take 4) ((b :: t).drop 4) with ⟨-, hshort⟩ | ⟨blanks, hblanks, heq⟩
  · exfalso
    have hpos := List.length_pos_of_ne_nil hgne
    rw [hclean, List.length_append, List.length_append, List.length_cons] at hshort
    have hapi : "api".toList.length = 3 := rfl
    omega
  · rw [heq, ← List.append_assoc] at hclean
    rcases List.append_eq_append_iff.mp hclean with ⟨z, hz, hslice⟩ | ⟨v, hv, hslice⟩
    · by_cases hne : z = []
      · rw [hne, List.nil_append] at hslice
        exact .inr (.inl ⟨"api".toList, by decide, hslice⟩)
      · rw [hz] at hg
        exact .inl ⟨z, hg.of_append hne, hslice⟩
    · cases v with
      | nil =>
        rw [List.nil_append] at hslice
        exact .inr (.inl ⟨"api".toList, by decide, hslice.symm⟩)
      | cons d v =>
        obtain ⟨hd, hslice⟩ := List.cons.inj hslice
        rw [← hd] at hv
        rcases cut_inside hl List.filter_sublist hblanks hgne hc hv hslice with
          hword | ⟨hfour, hone, hrest⟩
        · exact .inr (.inl hword)
        · refine .inr (.inr ⟨?_, hrest⟩)
          obtain ⟨e, rfl⟩ := List.length_eq_one_iff.mp hone
          have he : b = e := (List.cons.inj hfour).1
          obtain ⟨g', d, hd, hdslash, -⟩ := hg.last
          have hed : e = d := by
            cases g' with
            | nil => exact (List.cons.inj hd).1
            | cons f fs => simp at hd
          have hb' : b = '/' := hslash (by rw [he, hed]; exact hdslash)
          rw [hfour, ← he, hb'] at hsplit
          rw [hb']
          exact hsplit.symm

/-! ### Astray -/

/-- The slice of a routed target is what follows `/api`, or the proxy walks a path in which a
remnant of the segment `api` stands before what was routed below it. -/
theorem slice_cases (ht : OriginTarget H target base) {t : List Char} (hord : Ordinary t)
    (hurl : parse H (some gatewayBase) t = some url) {name y : List Char} (hname : '/' ∉ name)
    (hy : AtBoundary y) (hpath : url.pathname = '/' :: ("api".toList ++ '/' :: (name ++ y)))
    (hu : parse H (some base) (t.drop 4) = some u) (hscheme : u.scheme = "http") :
    ∃ m more, url.path = .list ("api".toList :: name :: more) ∧ stays 0 (segmentsOf m) = true ∧
      walk false [] (segmentsOf m) = name :: more ∧
      ((∃ rest c, t = "/api".toList ++ rest ∧ clean rest = c :: m ∧ isSlash true c = true) ∨
        ∃ x front word, word ∈ remnants ∧ segmentsOf x = front ++ word :: segmentsOf m ∧
          u.path = .list (walk false [] (segmentsOf x))) := by
  obtain ⟨g, text, hclean, hg, hlist⟩ := stem_of_routed hord hurl hpath
  rw [Url.pathname, hlist] at hpath
  obtain ⟨tail, hwalk, htail⟩ :=
    segments_of_pathname (fun s hs => slash_not_mem_walk hs) (by decide) (by simp [AtBoundary]) hpath
  have hslashes : ∀ s ∈ tail, '/' ∉ s := by
    intro s hs
    apply @slash_not_mem_walk text
    rw [hwalk]
    exact List.mem_cons_of_mem _ hs
  obtain ⟨more, rfl, -⟩ := segments_of_pathname hslashes hname hy htail
  rcases walk_head hwalk (by decide) with
    ⟨path, hnil, -⟩ | ⟨front, back, hsegments, hdropped, hstays, hback⟩
  · cases hnil
  have hbackne : back ≠ [] := by
    rintro rfl
    cases hback
  obtain ⟨q, c, m, rfl, hc, hm, hqends, hq⟩ := segmentsOf_split hsegments hbackne (by decide)
  have hstem : Stem (g ++ q) := by
    rcases hq with rfl | ⟨q', c', rfl, hc', hfront⟩
    · rcases hg with hg | ⟨-, hhead⟩
      · rw [List.append_nil]
        exact hg
      · cases hhead
    · rw [← hfront] at hdropped
      have hlast := last_of_dropped hdropped
      have hback := stem_of_dropped hqends hc' hlast
      rcases hg with hg | ⟨rfl, -⟩
      · apply hg.append hback
        obtain ⟨q'', b, rfl, -⟩ := hlast
        simp
      · exact hback
  rw [← List.append_assoc] at hclean
  refine ⟨m, more, by rw [hlist, hwalk], hm ▸ hstays, hm ▸ hback.symm, ?_⟩
  rcases cut_cases hord hstem hc hclean with ⟨z, hz, hslice⟩ | ⟨word, hword, hslice⟩ | ⟨hapi, hslice⟩
  · right
    have hhead : ∀ b ∈ ("api".toList ++ c :: m).head?, isSlash true b = false := by
      intro b hb
      rw [← Option.some.inj hb]
      rfl
    obtain ⟨z', hlead, hends, hpath'⟩ := path_of_slice ht hz hhead hslice hu hscheme
    obtain ⟨front', hx⟩ := segmentsOf_lead hlead hends plain_api hc m
    exact ⟨_, front', _, by decide, hx, hpath'⟩
  · right
    obtain ⟨hwordne, hencode, hchars⟩ := remnant_word word hword
    have hpath' := path_of_word ht hwordne hchars hc hslice hu
    have hx := segmentsOf_append (fun b hb => (hchars b hb).2) hc m
    rw [hencode] at hx
    exact ⟨_, [], word, hword, hx, hpath'⟩
  · exact .inl ⟨_, c, hapi, hslice, hc⟩

/-- A routed target that arrives as it was routed starts with `/api`, and its dot segments stay
below. -/
theorem stripped_of_arrives (ht : OriginTarget H target base) {t : List Char} (hord : Ordinary t)
    (hurl : parse H (some gatewayBase) t = some url) {name y : List Char} (hname : '/' ∉ name)
    (hy : AtBoundary y) (hpath : url.pathname = '/' :: ("api".toList ++ '/' :: (name ++ y)))
    (hu : parse H (some base) (t.drop 4) = some u)
    (harrives : Arrives base (url.pathname.drop 4) url.search u) :
    ∃ rest c m, t = "/api".toList ++ rest ∧ clean rest = c :: m ∧ isSlash true c = true ∧
      stays 0 (segmentsOf m) = true := by
  obtain ⟨m, more, hlist, hstays, hwalk,
      ⟨rest, c, hapi, hclean, hc⟩ | ⟨x, front, word, hword, hx, hpath'⟩⟩ :=
    slice_cases ht hord hurl hname hy hpath hu harrives.scheme
  · exact ⟨rest, c, m, hapi, hclean, hc, hstays⟩
  · -- The proxy's path is the routed one without its first segment, so it is not longer than the walk of the rest.
    exfalso
    have hslashes : ∀ s ∈ name :: more, '/' ∉ s := by
      rw [← hwalk]
      exact fun s hs => slash_not_mem_walk hs
    have hsame : walk false [] (segmentsOf x) = name :: more := by
      apply pathname_inj (fun s hs => slash_not_mem_walk hs) hslashes
      have hp := harrives.pathname
      rw [Url.pathname, hpath', Url.pathname, hlist] at hp
      exact hp
    have hlt := @length_walk_lt [] _ front _ (remnant_push hword) hstays
    rw [← hx, hsame, hwalk] at hlt
    exact absurd hlt (Nat.lt_irrefl _)

/-! ### Confinement -/

section Confinement

variable {ν : Type} [LinearOrder ν] {config : GatewayConfig} {world : Surroundings ν}
  {counters : Counters} {req : GatewayRequest} {route : Route}

/-- An empty slice becomes `/`, which is no path that was routed. -/
theorem slice_ne_nil (ht : OriginTarget H target base) {name y : List Char} (hne : name ≠ [])
    (hu : parse H (some base) ['/'] = some u) : u.pathname ≠ '/' :: (name ++ y) := by
  have hclean : clean ['/'] = ['/'] := rfl
  have hslash : isSlash true '/' = true := rfl
  rw [@parse_slash H base _ ht.scheme ⟨_, ht.path⟩ _ _ hclean hslash,
    resolveHttp_rooted hslash rfl, Option.some.injEq] at hu
  rw [← hu]
  intro hpath
  cases name with
  | nil => exact hne rfl
  | cons d ds => cases hpath

theorem stripped_of_confined (hr : Reaches config world counters req route)
    (ht : OriginTarget world.hosts route.target base) (hord : Ordinary req.url)
    (h : Confined config world counters req route) : Stripped route req.url := by
  intro text hstrip
  obtain ⟨url, hurl, -, hroute, -⟩ := id hr
  obtain ⟨rfl, name, y, hrouted, hy, hpath⟩ := pathname_of_stripped hroute hstrip
  obtain ⟨hne, hname⟩ := routed_name name hrouted
  obtain ⟨u, hu, harrives⟩ := (confined_iff_arrives hr ht hurl).mp h
  have hfour : "/api".toList.length = 4 := rfl
  rw [hstrip, Option.elim_some, hfour] at harrives
  unfold upstreamPath at hu
  rw [hstrip] at hu
  simp only [hfour] at hu
  split_ifs at hu with hempty
  · exfalso
    apply slice_ne_nil ht hne hu (y := y)
    rw [harrives.pathname, hpath]
    rfl
  · exact stripped_of_arrives ht hord hurl hname hy hpath hu harrives

/-- A request is confined when what is handed to `proxy` names no foreign host and the slice is
the first segment. On the route that strips nothing, and for ordinary targets, only then. -/
theorem confined_iff (hr : Reaches config world counters req route)
    (ht : OriginTarget world.hosts route.target base) :
    (Own world.hosts base (upstreamPath route req.url) ∧ Stripped route req.url →
      Confined config world counters req route) ∧
    (Ordinary req.url ∨ route.stripPrefix = none → (Confined config world counters req route ↔
      Own world.hosts base (upstreamPath route req.url) ∧ Stripped route req.url)) := by
  have hif : Own world.hosts base (upstreamPath route req.url) ∧ Stripped route req.url →
      Confined config world counters req route := fun h => confined_of_own hr ht h.1 h.2
  refine ⟨hif, fun hord => ⟨fun h => ⟨?_, ?_⟩, hif⟩⟩
  · obtain ⟨url, hurl, -⟩ := id hr
    obtain ⟨u, hu, harrives⟩ := (confined_iff_arrives hr ht hurl).mp h
    exact own_of_arrives ht hu harrives
  · rcases hord with hord | hnone
    · exact stripped_of_confined hr ht hord h
    · intro text hstrip
      rw [hnone] at hstrip
      cases hstrip

end Confinement

/-- The target of the routes to user management, parsed. -/
def managementBase : Url := ⟨"http", some "user-management-api".toList, some 3001, .list [[]], none⟩

/-- The target of the routes to email ingestion, parsed. -/
def ingestionBase : Url := ⟨"http", some "email-ingestion-api".toList, some 3002, .list [[]], none⟩

theorem confined_iff_login :
    ∃ route, Confined composeConfig quietWorld [] (get "/api/auth/login?next=1") route := by
  have hr : Reaches composeConfig quietWorld [] (get "/api/auth/login?next=1")
      ((buildRoutes composeConfig).head (by decide)) :=
    ⟨_, rfl, by decide, by decide, by decide⟩
  have ht : OriginTarget quietWorld.hosts ((buildRoutes composeConfig).head (by decide)).target
      managementBase :=
    ⟨by decide, rfl, rfl, rfl⟩
  have hown : Own quietWorld.hosts managementBase "/auth/login?next=1".toList := by
    refine ⟨by decide, fun named hn => ?_⟩
    cases hn
  refine ⟨_, (confined_iff hr ht).1 ⟨hown, fun text hstrip => ?_⟩⟩
  cases hstrip
  exact ⟨"/auth/login?next=1".toList, '/', "auth/login?next=1".toList, rfl, rfl, rfl, by decide⟩

/-- `GET //evil.com/oauth/x` is routed to email ingestion and sent to `evil.com`. -/
theorem proxy_unconfined :
    ¬ ∀ (config : GatewayConfig) (world : Surroundings ℕ) (counters : Counters)
      (req : GatewayRequest)
    (route : Route) (base : Url), Reaches config world counters req route →
      OriginTarget world.hosts route.target base →
      Confined config world counters req route := by
  intro h
  have hr : Reaches composeConfig quietWorld [] (get "//evil.com/oauth/x")
      ((buildRoutes composeConfig).getLast (by decide)) := ⟨_, rfl, by decide, by decide, by decide⟩
  have ht : OriginTarget quietWorld.hosts ((buildRoutes composeConfig).getLast (by decide)).target
      ingestionBase :=
    ⟨by decide, rfl, rfl, rfl⟩
  obtain ⟨base, url, hbase, -, hhanded⟩ := h _ _ _ _ _ _ hr ht
  have hevil :
    (handle composeConfig quietWorld [] (get "//evil.com/oauth/x")).1.handed.map Upstream.hostname =
      some "evil.com".toList := by decide
  rw [ht.parse] at hbase
  cases hbase
  rw [hhanded, Option.map_some, Option.some.injEq] at hevil
  have hne : ingestionBase.host.getD [] ≠ "evil.com".toList := by decide
  exact hne hevil

end Finlytic.Gateway
