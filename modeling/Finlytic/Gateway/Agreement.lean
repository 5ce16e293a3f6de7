import Finlytic.Gateway.Jwt
import Mathlib.Data.Int.Order.Basic

/-! Where the gateway and the services agree on who is authenticated. The two
read the header and the claims on their own: the gateway insists on typed
claims, the services on the compact form and on `nbf`. On a token that meets
both, they accept the same user. -/

namespace Finlytic.Gateway

open Lib Jws AuthLib

variable {ν : Type} [LinearOrder ν] {P : Platform ν} {config : GatewayConfig} {now : ν}

/-! ### What each side accepts -/

theorem expired_eq_false {exp : Option (Json ν)} :
    expired now exp = false ↔ ∃ e, exp = some (.num e) ∧ now < e := by
  unfold expired
  split
  · simp
  · rename_i hne
    simp only [Bool.true_eq_false, false_iff, not_exists, not_and]
    intro e he
    exact absurd he (hne e)

omit [LinearOrder ν] in
theorem isString_iff {value : Option (Json ν)} :
    isString value = true ↔ ∃ s, value = some (.str s) := by
  unfold isString
  split
  · simp
  · rename_i hne
    simp only [Bool.false_eq_true, false_iff, not_exists]
    intro s
    exact hne s

/-- The claims that the gateway accepts. -/
structure Accepted (config : GatewayConfig) (now : ν) (payload : Json ν)
    (user : AuthenticatedUser ν) : Prop where
  exp : ∃ e, payload.prop "exp" = some (.num e) ∧ now < e
  iss : payload.prop "iss" = some (.str config.issuer)
  aud : payload.prop "aud" = some (.str config.audience)
  sub : ∃ s, payload.prop "sub" = some (.str s)
  role : ∃ s, payload.prop "role" = some (.str s)
  user : user = ⟨payload.prop "sub", payload.prop "role"⟩

theorem checkClaims_eq_ok {payload : Json ν} {user : AuthenticatedUser ν} :
    checkClaims config now payload = .ok user ↔ Accepted config now payload user := by
  constructor
  · intro h
    unfold checkClaims at h
    cases hread : payload.read "exp" with
    | error message =>
      rw [hread] at h
      cases h
    | ok exp =>
      rw [hread] at h
      have hprop := Json.prop_of_read hread
      simp only [Except.bind] at h
      split_ifs at h with hexp hiss haud hstr
      simp only [Bool.or_eq_true, Bool.not_eq_true', not_or, Bool.not_eq_false] at hiss haud hstr
      refine ⟨?_, isStr_iff.mp hiss, isStr_iff.mp haud, isString_iff.mp hstr.1,
        isString_iff.mp hstr.2, ?_⟩
      · rw [hprop]
        exact expired_eq_false.mp (Bool.eq_false_iff.mpr hexp)
      · exact (Except.ok.inj h).symm
  · intro h
    obtain ⟨e, he, hlt⟩ := h.exp
    have hexp : expired now (some (.num e)) = false := expired_eq_false.mpr ⟨e, rfl, hlt⟩
    unfold checkClaims
    rw [Json.read_eq_ok he]
    simp only [Except.bind]
    rw [hexp, isStr_iff.mpr h.iss, isStr_iff.mpr h.aud, isString_iff.mpr h.sub,
      isString_iff.mpr h.role, h.user]
    rfl

/-- The three segments of a token, the signature checked by the gateway. -/
structure Verified (P : Platform ν) (token : List Char) (header payload signature : List Char)
    (claims : Json ν) : Prop where
  split : token.splitOn '.' = [header, payload, signature]
  alg : ∃ v, decodeSegment P header = .ok v ∧ v.prop "alg" = some (.str "RS256")
  signed : P.rsaVerify (ascii (header ++ '.' :: payload)) (P.base64 signature) = true
  claims : decodeSegment P payload = .ok claims

theorem verifyAccessToken_eq_ok {token : List Char} {user : AuthenticatedUser ν} :
    verifyAccessToken P config now token = .ok user ↔
      ∃ header payload signature claims, Verified P token header payload signature claims ∧
        Accepted config now claims user := by
  constructor
  · intro h
    unfold verifyAccessToken at h
    split at h
    · rename_i header payload signature hsplit
      cases hhead : decodeSegment P header with
      | error message =>
        rw [hhead] at h
        cases h
      | ok head =>
        cases halg : head.read "alg" with
        | error message =>
          rw [hhead, Except.bind, halg] at h
          cases h
        | ok alg =>
          cases hclaims : decodeSegment P payload with
          | error message =>
            rw [hhead, Except.bind, halg, hclaims] at h
            simp only [Except.bind] at h
            split_ifs at h
          | ok claims =>
            rw [hhead, Except.bind, halg, hclaims] at h
            simp only [Except.bind] at h
            split_ifs at h with hrs hsig
            simp only [Bool.not_eq_true', Bool.not_eq_false] at hrs hsig
            refine ⟨header, payload, signature, claims, ⟨hsplit, ⟨head, hhead, ?_⟩, hsig, hclaims⟩,
              checkClaims_eq_ok.mp h⟩
            rw [Json.prop_of_read halg]
            exact isStr_iff.mp hrs
    · cases h
  · rintro ⟨header, payload, signature, claims, hv, hacc⟩
    obtain ⟨head, hhead, halg⟩ := hv.alg
    unfold verifyAccessToken
    rw [hv.split]
    simp only [hhead, Except.bind, Json.read_eq_ok halg, hv.signed, hv.claims,
      isStr_iff.mpr rfl, Bool.not_true,
      Bool.false_eq_true, if_false]
    exact checkClaims_eq_ok.mpr hacc

/-- The three segments of a token that `jsonwebtoken` verifies. -/
structure Admitted (P : Platform ν) (issuer audience : String) (now : ν) (token : List Char)
    (header payload signature : List Char) (claims : Json ν) : Prop where
  split : token.splitOn '.' = [header, payload, signature]
  header_segment : isSegment header = true
  payload_segment : isSegment payload = true
  signature_segment : isSegment signature = true
  head : ∃ v, P.parse (latin1 (P.base64 header)) = .ok v ∧ v.prop "alg" = some (.str "RS256") ∧
    decodePayload P v payload = some claims
  signed : P.rsaVerify (utf8Octets (header ++ '.' :: payload)) (P.base64 signature) = true
  nbf : notBefore now claims = true
  exp : notExpired now claims = true
  aud : audienceMatches audience claims = true
  iss : claims.prop "iss" = some (.str issuer)

theorem verify_eq_some {issuer audience : String} {token : List Char} {claims : Json ν} :
    verify P issuer audience now token = some claims ↔
      ∃ header payload signature,
        Admitted P issuer audience now token header payload signature claims := by
  constructor
  · intro h
    unfold verify at h
    split at h
    · rename_i header payload signature hsplit
      by_cases hseg :
        (!(isSegment header && isSegment payload && (signature.isEmpty || isSegment signature))) =
        true
      · rw [if_pos hseg] at h
        cases h
      · rw [if_neg hseg] at h
        simp only [Bool.not_eq_true', Bool.not_eq_false, Bool.and_eq_true, Bool.or_eq_true] at hseg
        split at h
        · cases h
        · rename_i head hhead
          obtain ⟨found, hfound, hif⟩ := Option.bind_eq_some_iff.mp h
          split_ifs at hif with hemp halg hsig hnbf hexp haud hiss
          simp only [Bool.not_eq_true', Bool.not_eq_false] at halg hsig hnbf hexp haud hiss
          cases hif
          exact ⟨header, payload, signature, hsplit, hseg.1.1, hseg.1.2, hseg.2.resolve_left hemp,
            ⟨head, hhead, isStr_iff.mp halg, hfound⟩, hsig, hnbf, hexp, haud, isStr_iff.mp hiss⟩
    · cases h
  · rintro ⟨header, payload, signature, h⟩
    obtain ⟨head, hhead, halg, hfound⟩ := h.head
    have hemp : signature.isEmpty = false := by
      have hs := h.signature_segment
      rw [isSegment, Bool.and_eq_true, Bool.not_eq_true'] at hs
      exact hs.1
    unfold verify
    rw [h.split]
    simp only [h.header_segment, h.payload_segment, h.signature_segment, Bool.or_true,
      Bool.and_true, Bool.not_true,
      Bool.false_eq_true, if_false, hhead, hfound, Option.bind_some, hemp, isStr_iff.mpr halg,
        h.signed, h.nbf, h.exp, h.aud,
      isStr_iff.mpr h.iss]

/-! ### The header -/

def scheme : List Char := "Bearer".toList

theorem bearer_eq (rest : List Char) : "Bearer ".toList ++ rest = scheme ++ ' ' :: rest := rfl

theorem bearerToken_eq_some {authorization : Option (List Char)} {token : List Char} :
    bearerToken authorization = some token ↔
      ∃ rest, authorization = some (scheme ++ ' ' :: rest) ∧ token = trimChars rest ∧
        token ≠ [] := by
  constructor
  · intro h
    obtain ⟨header, hheader, hif⟩ := Option.bind_eq_some_iff.mp h
    by_cases hstart : "Bearer ".toList.isPrefixOf header = true
    · rw [hstart, Bool.not_true, if_neg Bool.false_ne_true] at hif
      obtain ⟨rest, hrest⟩ := List.isPrefixOf_iff_prefix.mp hstart
      have hdrop : header.drop "Bearer ".length = rest := by
        rw [← hrest]
        exact List.drop_left
      simp only [hdrop] at hif
      split_ifs at hif with hne
      refine ⟨rest, ?_, (Option.some.inj hif).symm, Option.some.inj hif ▸ hne⟩
      rw [hheader, ← hrest, bearer_eq]
    · rw [Bool.eq_false_iff.mpr hstart] at hif
      cases hif
  · rintro ⟨rest, rfl, rfl, hne⟩
    have hstart : "Bearer ".toList.isPrefixOf (scheme ++ ' ' :: rest) = true :=
      List.isPrefixOf_iff_prefix.mpr ⟨rest, bearer_eq rest⟩
    have hdrop : (scheme ++ ' ' :: rest).drop "Bearer ".length = rest := rfl
    rw [bearerToken, Option.bind_some, hstart, Bool.not_true, if_neg Bool.false_ne_true]
    simp only [hdrop]
    rw [if_neg hne]

theorem authenticate_eq_ok {authorization : Option (List Char)} {user : AuthenticatedUser ν} :
    authenticate P config now authorization = .ok user ↔
      ∃ rest, authorization = some (scheme ++ ' ' :: rest) ∧ verifyAccessToken P config now
        (trimChars rest) = .ok user := by
  constructor
  · intro h
    unfold authenticate at h
    split at h
    · cases h
    · rename_i token htoken
      obtain ⟨rest, hauth, rfl, -⟩ := bearerToken_eq_some.mp htoken
      exact ⟨rest, hauth, h⟩
  · rintro ⟨rest, hauth, h⟩
    have hne : trimChars rest ≠ [] := by
      intro hnil
      rw [hnil] at h
      cases h
    unfold authenticate
    rw [bearerToken_eq_some.mpr ⟨rest, hauth, rfl, hne⟩]
    exact h

theorem extractBearerToken_eq_some {authorization : Option (List Char)} {value : List Char} :
    extractBearerToken authorization = some value ↔ ∃ header name rest, authorization =
      some header ∧
      header.splitOn ' ' = name :: value :: rest ∧ name.map Char.toLower = "bearer".toList := by
  constructor
  · intro h
    obtain ⟨header, hheader, hmatch⟩ := Option.bind_eq_some_iff.mp h
    split at hmatch
    · rename_i name rest hsplit
      split_ifs at hmatch with hname
      obtain ⟨more, rfl⟩ := List.head?_eq_some_iff.mp hmatch
      exact ⟨header, name, more, hheader, hsplit, hname⟩
    · cases hmatch
  · rintro ⟨header, name, rest, rfl, hsplit, hname⟩
    unfold extractBearerToken
    rw [Option.bind_some, hsplit]
    simp only [hname, if_true, List.head?_cons]

theorem canActivate_eq_ok {issuer audience : String} {authorization : Option (List Char)}
    {user : AuthenticatedUser ν} :
    canActivate P issuer audience now authorization = .ok user ↔
      ∃ header name value rest claims, authorization = some header ∧ header.splitOn ' ' = name ::
        value :: rest ∧
        name.map Char.toLower = "bearer".toList ∧ verify P issuer audience now value = some claims ∧
        user = ⟨claims.prop "sub", claims.prop "role"⟩ := by
  constructor
  · intro h
    unfold canActivate at h
    split at h
    · cases h
    · cases h
    · rename_i value hnot hvalue
      split at h
      · cases h
      · rename_i claims hclaims
        obtain ⟨header, name, rest, hauth, hsplit, hname⟩ := extractBearerToken_eq_some.mp hvalue
        exact ⟨header, name, value, rest, claims, hauth, hsplit, hname, hclaims,
          (Except.ok.inj h).symm⟩
  · rintro ⟨header, name, value, rest, claims, hauth, hsplit, hname, hclaims, huser⟩
    have hvalue := extractBearerToken_eq_some.mpr ⟨header, name, rest, hauth, hsplit, hname⟩
    unfold canActivate
    split
    · rename_i hnone
      rw [hnone] at hvalue
      cases hvalue
    · rename_i hempty
      rw [hempty] at hvalue
      cases hvalue
      cases hclaims
    · rename_i token hnot htoken
      rw [htoken] at hvalue
      cases hvalue
      rw [hclaims, huser]

/-! ### The token -/

theorem isUrlSafe_plain {c : Char} (h : isUrlSafe c = true) : isSpace c = false ∧ c ≠ '.' := by
  have hall : ∀ n < 128, isUrlSafe (Char.ofNat n) = true → isSpace (Char.ofNat n) = false ∧
      Char.ofNat n ≠ '.' := by decide
  have hc := hall c.toNat (isUrlSafe_ascii h)
  rw [Char.ofNat_toNat] at hc
  exact hc h

theorem isUrlSafe_of_mem {segment : List Char} (h : isSegment segment = true) {c : Char}
    (hc : c ∈ segment) :
    isUrlSafe c = true := by
  rw [isSegment, Bool.and_eq_true, List.all_eq_true] at h
  exact h.2 c hc

theorem dot_not_mem_segment {segment : List Char} (h : isSegment segment = true) : '.' ∉ segment :=
  fun hmem => (isUrlSafe_plain (isUrlSafe_of_mem h hmem)).2 rfl

/-- A compact token is a word. -/
theorem isSpace_compact {header payload signature : List Char} (hh : isSegment header = true)
    (hp : isSegment payload = true) (hs : isSegment signature = true) :
    ∀ c ∈ header ++ '.' :: (payload ++ '.' :: signature), isSpace c = false := by
  have hsegment : ∀ {segment}, isSegment segment = true → ∀ c ∈ segment, isSpace c = false :=
    fun h c hc => (isUrlSafe_plain (isUrlSafe_of_mem h hc)).1
  rw [List.forall_mem_append, List.forall_mem_cons, List.forall_mem_append, List.forall_mem_cons]
  exact ⟨hsegment hh, rfl, hsegment hp, rfl, hsegment hs⟩

theorem signed_eq {header payload : List Char} (hh : isSegment header = true)
    (hp : isSegment payload = true) :
    ascii (header ++ '.' :: payload) = utf8Octets (header ++ '.' :: payload) := by
  have hsegment : ∀ {segment}, isSegment segment = true → ∀ c ∈ segment, c.toNat < 128 :=
    fun h c hc => isUrlSafe_ascii (isUrlSafe_of_mem h hc)
  apply ascii_eq_utf8Octets
  rw [List.forall_mem_append, List.forall_mem_cons]
  exact ⟨hsegment hh, by decide, hsegment hp⟩

omit [LinearOrder ν] in
/-- Both sides read the same claims from a segment that holds an object. -/
theorem decodePayload_eq {payload : List Char} {claims x : Json ν} {name : String}
    (h : decodeSegment P payload = .ok claims) (hprop : claims.prop name = some x) (head : Json ν) :
    decodePayload P head payload = some claims := by
  have hparse : P.parse (P.utf8 (P.base64 payload)) = .ok claims := h
  cases claims with
  | obj members =>
    unfold decodePayload
    simp only [hparse, Except.toOption]
    split_ifs
    · rfl
    · simp only [Option.map_some, reparse, String.toList_ofList, hparse]
  | _ => cases hprop

/-! ### Agreement -/

/-- A header in the form of the services: the compact token right after the scheme, active by its
`nbf`. -/
def Compact (P : Platform ν) (now : ν) (authorization : Option (List Char)) : Prop :=
  ∃ header payload signature, authorization =
    some (scheme ++ ' ' :: (header ++ '.' :: (payload ++ '.' :: signature))) ∧
    isSegment header = true ∧ isSegment payload = true ∧ isSegment signature = true ∧
    ∀ claims, decodeSegment P payload = .ok claims → notBefore now claims = true

/-- A header in the form of the gateway: one word after the literal scheme, with typed claims. -/
def Typed (P : Platform ν) (authorization : Option (List Char)) : Prop :=
  ∃ header payload signature claims,
    authorization = some (scheme ++ ' ' :: (header ++ '.' :: (payload ++ '.' :: signature))) ∧
    ' ' ∉ header ++ '.' :: (payload ++ '.' :: signature) ∧ '.' ∉ header ∧ '.' ∉ payload ∧
    decodeSegment P payload = .ok claims ∧ (∃ e, claims.prop "exp" = some (.num e)) ∧
    (∃ s, claims.prop "aud" = some (.str s)) ∧ (∃ s, claims.prop "sub" = some (.str s)) ∧
    ∃ s, claims.prop "role" = some (.str s)

theorem scheme_split (rest : List Char) :
    (scheme ++ ' ' :: rest).splitOn ' ' = scheme :: rest.splitOn ' ' :=
  List.splitOn_append_cons_self_of_not_mem (by decide) rest

/-- When both accept, they accept the same user. -/
theorem same_user {authorization : Option (List Char)} {u v : AuthenticatedUser ν}
    (hu : authenticate P config now authorization = .ok u)
    (hv : canActivate P config.issuer config.audience now authorization = .ok v) : u = v := by
  obtain ⟨rest, hauth, htoken⟩ := authenticate_eq_ok.mp hu
  obtain ⟨header, name, value, more, claims, hauth', hsplit, -, hverify, rfl⟩ :=
    canActivate_eq_ok.mp hv
  obtain ⟨h₁, p₁, s₁, c₁, hver, hacc⟩ := verifyAccessToken_eq_ok.mp htoken
  obtain ⟨h₂, p₂, s₂, hadm⟩ := verify_eq_some.mp hverify
  obtain ⟨hvalue, hdot, hdot', -⟩ := splitOn_eq_three hadm.split
  -- The guard's token is where the gateway's starts.
  have hrest : ∃ tail, rest = value ++ tail := by
    rw [hauth] at hauth'
    rw [← Option.some.inj hauth', scheme_split] at hsplit
    obtain ⟨-, ⟨-, hrest⟩ | ⟨tail, hrest, -⟩⟩ := splitOn_eq_cons (List.cons.inj hsplit).2
    · exact ⟨[], by rw [hrest, List.append_nil]⟩
    · exact ⟨' ' :: tail, hrest⟩
  obtain ⟨tail, hrest⟩ := hrest
  have hword := isSpace_compact hadm.header_segment hadm.payload_segment hadm.signature_segment
  have hne : value ≠ [] := by simp [hvalue]
  rw [← hvalue] at hword
  obtain ⟨tail', htrim⟩ := trimChars_append hne hword tail
  have hthree := hver.split
  rw [hrest, htrim, hvalue, List.append_assoc, List.cons_append, List.append_assoc, List.cons_append,
    splitOn_three hdot hdot'] at hthree
  have hp : p₁ = p₂ := by
    simp only [List.cons.injEq] at hthree
    exact hthree.2.1.symm
  obtain ⟨head, -, -, hpayload⟩ := hadm.head
  obtain ⟨e, he, -⟩ := hacc.exp
  rw [← hp, decodePayload_eq hver.claims he] at hpayload
  rw [hacc.user, Option.some.inj hpayload]

/-- The services accept what the gateway accepts, in the compact form and active. -/
theorem canActivate_of_authenticate {authorization : Option (List Char)} {u : AuthenticatedUser ν}
    (hu : authenticate P config now authorization = .ok u) (hc : Compact P now authorization) :
    canActivate P config.issuer config.audience now authorization = .ok u := by
  obtain ⟨rest, hauth, htoken⟩ := authenticate_eq_ok.mp hu
  obtain ⟨header, payload, signature, hauth', hh, hp, hs, hactive⟩ := hc
  obtain ⟨h₁, p₁, s₁, claims, hver, hacc⟩ := verifyAccessToken_eq_ok.mp htoken
  have hword := isSpace_compact hh hp hs
  have hrest : rest = header ++ '.' :: (payload ++ '.' :: signature) := by
    rw [hauth] at hauth'
    exact (List.cons.inj (List.append_cancel_left (Option.some.inj hauth'))).2
  have hthree := hver.split
  rw [hrest, trimChars_word (by simp) hword, splitOn_three (dot_not_mem_segment hh)
    (dot_not_mem_segment hp),
    List.splitOn_eq_singleton (dot_not_mem_segment hs)] at hthree
  simp only [List.cons.injEq, and_true] at hthree
  obtain ⟨rfl, rfl, rfl⟩ := hthree
  obtain ⟨e, he, hlt⟩ := hacc.exp
  have hsp : ' ' ∉ rest := by
    rw [hrest]
    intro hmem
    exact absurd (hword _ hmem) (by decide)
  have hadm : verify P config.issuer config.audience now rest = some claims := by
    obtain ⟨v, hv, halg⟩ := (P.parse_latin1 _).mpr hver.alg
    refine verify_eq_some.mpr
      ⟨header, payload, signature, ?_, hh, hp, hs, ⟨v, hv, halg, decodePayload_eq hver.claims he v⟩,
      ?_, hactive claims hver.claims, ?_, ?_, hacc.iss⟩
    · rw [hrest, splitOn_three (dot_not_mem_segment hh) (dot_not_mem_segment hp),
        List.splitOn_eq_singleton (dot_not_mem_segment hs)]
    · rw [← signed_eq hh hp]
      exact hver.signed
    · rw [notExpired, he]
      exact decide_eq_true hlt
    · rw [audienceMatches, hacc.aud]
      exact isStr_iff.mpr rfl
  refine canActivate_eq_ok.mpr ⟨_, scheme, rest, [], claims, hauth, ?_, by decide, hadm, hacc.user⟩
  rw [scheme_split, List.splitOn_eq_singleton hsp]

/-- The gateway accepts what the services accept, with typed claims after the literal scheme. -/
theorem authenticate_of_canActivate {authorization : Option (List Char)} {v : AuthenticatedUser ν}
    (hv : canActivate P config.issuer config.audience now authorization = .ok v)
    (ht : Typed P authorization) :
    authenticate P config now authorization = .ok v := by
  obtain ⟨text, name, value, more, claims, hauth, hsplit, -, hverify, huser⟩ := canActivate_eq_ok.mp hv
  obtain ⟨header, payload, signature, typed, hauth', hsp, hdot, hdot', hdecode, ⟨e, he⟩, ⟨a, ha⟩,
      hsub, hrole⟩ := ht
  rw [hauth] at hauth'
  rw [Option.some.inj hauth', scheme_split, List.splitOn_eq_singleton hsp] at hsplit
  obtain ⟨-, hsplit⟩ := List.cons.inj hsplit
  obtain ⟨rfl, -⟩ := List.cons.inj hsplit
  obtain ⟨h₂, p₂, s₂, hadm⟩ := verify_eq_some.mp hverify
  have hthree := hadm.split
  rw [splitOn_three hdot hdot'] at hthree
  simp only [List.cons.injEq] at hthree
  obtain ⟨rfl, rfl, -⟩ := hthree
  obtain ⟨head, hhead, halg, hpayload⟩ := hadm.head
  rw [decodePayload_eq hdecode he] at hpayload
  obtain rfl := Option.some.inj hpayload
  have haud : a = config.audience := by
    have hm := hadm.aud
    rw [audienceMatches, ha] at hm
    exact of_decide_eq_true hm
  have hexp : now < e := by
    have hm := hadm.exp
    rw [notExpired, he] at hm
    exact of_decide_eq_true hm
  have hword := isSpace_compact hadm.header_segment hadm.payload_segment hadm.signature_segment
  refine authenticate_eq_ok.mpr ⟨_, hauth.trans hauth', ?_⟩
  obtain ⟨hvalue, -⟩ := splitOn_eq_three hadm.split
  rw [hvalue, trimChars_word (by simp) hword, ← hvalue]
  refine verifyAccessToken_eq_ok.mpr ⟨header, payload, s₂, typed, ⟨hadm.split, ?_, ?_, hdecode⟩, ?_⟩
  · exact (P.parse_latin1 _).mp ⟨head, hhead, halg⟩
  · rw [signed_eq hadm.header_segment hadm.payload_segment]
    exact hadm.signed
  · exact ⟨⟨e, he, hexp⟩, hadm.iss, haud ▸ ha, hsub, hrole, huser⟩

/-- The gateway and the services never accept two users for one header. The services accept
what the gateway accepts when the token is compact and active, and the gateway accepts what
the services accept when the claims are typed. -/
theorem gateway_services_agree (P : Platform ν) (config : GatewayConfig) (now : ν)
    (authorization : Option (List Char)) :
    (∀ u v, authenticate P config now authorization = .ok u →
      canActivate P config.issuer config.audience now authorization = .ok v → u = v) ∧
    (∀ u, Compact P now authorization → authenticate P config now authorization = .ok u →
      canActivate P config.issuer config.audience now authorization = .ok u) ∧
    (∀ u, Typed P authorization →
      canActivate P config.issuer config.audience now authorization = .ok u →
      authenticate P config now authorization = .ok u) := by
  refine ⟨fun u v => same_user, fun u hc hu => ?_, fun u ht hu => ?_⟩
  · exact canActivate_of_authenticate hu hc
  · exact authenticate_of_canActivate hu ht

/-! ### Signed tokens, with and without `exp` -/

def plainConfig : GatewayConfig where
  issuer := "i"
  audience := "a"
  userManagementUrl := "http://users:3000".toList
  emailIngestionUrl := "http://mail:3000".toList
  webRoot := none
  issuer_ne := by decide
  audience_ne := by decide
  userManagementUrl_ne := by decide
  emailIngestionUrl_ne := by decide

def rs256Text : List Char := "\x7b\"alg\":\"RS256\"\x7d".toList

def rs256Segment : List Char := "eyJhbGciOiJSUzI1NiJ9".toList

def claimsText : List Char := "\x7b\"sub\":\"u\",\"role\":\"r\",\"iss\":\"i\",\"aud\":\"a\"\x7d".toList

def claimsSegment : List Char := "eyJzdWIiOiJ1Iiwicm9sZSI6InIiLCJpc3MiOiJpIiwiYXVkIjoiYSJ9".toList

def expiringText : List Char :=
  "\x7b\"sub\":\"u\",\"role\":\"r\",\"iss\":\"i\",\"aud\":\"a\",\"exp\":9\x7d".toList

def expiringSegment : List Char :=
  "eyJzdWIiOiJ1Iiwicm9sZSI6InIiLCJpc3MiOiJpIiwiYXVkIjoiYSIsImV4cCI6OX0".toList

/-- The runtime on these segments, under a signature of the key. -/
def signedPlatform : Platform ℤ where
  base64 text :=
    if text = rs256Segment then ascii rs256Text
    else if text = claimsSegment then ascii claimsText
    else if text = expiringSegment then ascii expiringText
    else []
  utf8 := latin1
  parse text :=
    if text = rs256Text then .ok (.obj [("alg", .str "RS256")])
    else if text = claimsText then
      .ok (.obj [("sub", .str "u"), ("role", .str "r"), ("iss", .str "i"), ("aud", .str "a")])
    else if text = expiringText then
      .ok (.obj [("sub", .str "u"), ("role", .str "r"), ("iss", .str "i"), ("aud", .str "a"),
        ("exp", .num 9)])
    else .error "Unexpected end of JSON input"
  text _ := ""
  rsaVerify _ _ := true
  parse_latin1 _ := Iff.rfl

def expiringHeader : List Char :=
  scheme ++ ' ' :: (rs256Segment ++ '.' :: (expiringSegment ++ '.' :: "c2ln".toList))

/-- A token that meets both forms is accepted on both sides. -/
theorem gateway_services_agree_expiring :
    canActivate signedPlatform "i" "a" 0 (some expiringHeader) =
      .ok ⟨some (.str "u"), some (.str "r")⟩ := by
  refine (gateway_services_agree signedPlatform plainConfig 0 (some expiringHeader)).2.1 _ ?_ rfl
  refine ⟨rs256Segment, expiringSegment, "c2ln".toList,
    rfl, by decide, by decide, by decide, fun claims h => ?_⟩
  have hclaims : decodeSegment signedPlatform expiringSegment = .ok (.obj
      [("sub", .str "u"), ("role", .str "r"), ("iss", .str "i"), ("aud", .str "a"),
        ("exp", .num 9)]) := rfl
  rw [← Except.ok.inj (hclaims.symm.trans h)]
  rfl

def unexpiringHeader : List Char :=
  scheme ++ ' ' :: (rs256Segment ++ '.' :: (claimsSegment ++ '.' :: "c2ln".toList))

theorem unexpiring_accepted :
    canActivate signedPlatform "i" "a" 0 (some unexpiringHeader) =
      .ok ⟨some (.str "u"), some (.str "r")⟩ := by
  rfl

theorem unexpiring_refused :
    authenticate signedPlatform plainConfig 0 (some unexpiringHeader) = .error "Token expired" := by
  rfl

/-- A signed token without `exp` passes the services and not the gateway. -/
theorem unexpiring_token_disagrees :
    ¬ ∀ (P : Platform ℤ) (config : GatewayConfig) (now : ℤ) (authorization : Option (List Char)),
    (∃ u, authenticate P config now authorization = .ok u) ↔
      ∃ v, canActivate P config.issuer config.audience now authorization = .ok v := by
  intro h
  obtain ⟨u, hu⟩ :=
    (h signedPlatform plainConfig 0 (some unexpiringHeader)).mpr ⟨_, unexpiring_accepted⟩
  rw [unexpiring_refused] at hu
  cases hu

end Finlytic.Gateway
