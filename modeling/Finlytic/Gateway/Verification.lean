import Finlytic.Gateway.Agreement
import Finlytic.Lib.Base64
import Mathlib.Algebra.Order.Ring.Unbundled.Rat

/-! What an accepted token vouches for, and whose key it was checked against. The
key is parsed from the PEM text of the config and held between the calls. The
signature is checked over the octets of the text, which a text of octets can be
read back from, so the claims are those of the text that the issuer signed. -/

namespace Finlytic.Gateway.Verification

open Lib Jws AuthLib

variable {ν κ : Type}

/-! ### The key -/

/-- The public keys of `node:crypto`. -/
structure Keys (κ : Type) where
  createPublicKey : String → Except String κ
  /-- `verify('RSA-SHA256', signed, key, signature)` -/
  verify : κ → List UInt8 → List UInt8 → Bool

/-- The held key is the one of its PEM text. -/
structure Cached (K : Keys κ) where
  pem : String
  key : κ
  parsed : K.createPublicKey pem = .ok key

def parseKey (K : Keys κ) (pem : String) : Except String (Cached K) :=
  match parsed : K.createPublicKey pem with
  | .ok key => .ok ⟨pem, key, parsed⟩
  | .error message => .error message

/-- The key that `publicKeyFor` holds when it returns. -/
def publicKeyFor (K : Keys κ) (cached : Option (Cached K)) (pem : String) :
    Except String (Cached K) :=
  match cached with
  | some held => if held.pem = pem then .ok held else parseKey K pem
  | none => parseKey K pem

/-! ### The clock -/

/-- The instants as numbers of seconds, given in milliseconds as `Date.now()` gives them. -/
structure Clock (ν : Type) [LinearOrder ν] where
  instant : ℤ → ν
  instant_lt : ∀ {a b : ℤ}, a < b → instant a < instant b

/-- `Math.floor(Date.now() / 1000)` -/
def Clock.now [LinearOrder ν] (T : Clock ν) (ms : ℤ) : ν := T.instant (ms / 1000 * 1000)

/-! ### The check -/

structure VerifyConfig extends GatewayConfig where
  /-- The PEM text at `JWT_PUBLIC_KEY_PATH`. -/
  publicKey : String

/-- What `verifyAccessToken` returns, or the message it throws, and the key it leaves held. -/
def verifyAccessToken [LinearOrder ν] (P : Platform ν) (K : Keys κ) (T : Clock ν)
    (config : VerifyConfig) (cached : Option (Cached K)) (ms : ℤ) (token : List Char) :
    Except String (AuthenticatedUser ν) × Option (Cached K) :=
  match token.splitOn '.' with
  | [headerSegment, payloadSegment, signatureSegment] =>
    match (decodeSegment P headerSegment).bind (Json.read "alg") with
    | .error message => (.error message, cached)
    | .ok alg =>
      if !isStr "RS256" alg then (.error ("Unexpected alg: " ++ P.text alg), cached)
      else
        match publicKeyFor K cached config.publicKey with
        | .error message => (.error message, cached)
        | .ok held =>
          let signed := ascii (headerSegment ++ '.' :: payloadSegment)
          if !K.verify held.key signed (P.base64 signatureSegment) then
            (.error "Signature verification failed", some held)
          -- Claims are only trustworthy once the signature checks out.
          else ((decodeSegment P payloadSegment).bind
            (checkClaims config.toGatewayConfig (T.now ms)), some held)
  | _ => (.error "Malformed token", cached)

/-- One call of `verifyAccessToken`, at that time. -/
structure VerifyCall where
  config : VerifyConfig
  ms : ℤ
  token : List Char

/-- The answers to the calls of a process, which share the held key. -/
def verifyCalls [LinearOrder ν] (P : Platform ν) (K : Keys κ) (T : Clock ν)
    (cached : Option (Cached K)) :
    List VerifyCall → List (Except String (AuthenticatedUser ν))
  | [] => []
  | call :: calls =>
    let (answer, held) := verifyAccessToken P K T call.config cached call.ms call.token
    answer :: verifyCalls P K T held calls

/-! ### What an accepted token vouches for -/

/-- A token whose three segments carry a text of the issuer and the claims of that text. -/
structure Vouched [LinearOrder ν] (P : Platform ν) (Issued : List UInt8 → Prop)
    (config : GatewayConfig) (now : ν) (token : List Char) (user : AuthenticatedUser ν)
    (header payload signature : List Char) (claims : Json ν) : Prop where
  split : token.splitOn '.' = [header, payload, signature]
  alg : ∃ v, decodeSegment P header = .ok v ∧ v.prop "alg" = some (.str "RS256")
  issued : ∃ octets, Issued octets ∧ latin1 octets = header ++ '.' :: payload
  decoded : decodeSegment P payload = .ok claims
  accepted : Accepted config now claims user

/-- The token is the issuer's word for this user. -/
def Genuine [LinearOrder ν] (P : Platform ν) (Issued : List UInt8 → Prop) (config : GatewayConfig)
    (now : ν) (token : List Char) (user : AuthenticatedUser ν) : Prop :=
  ∃ header payload signature claims,
    Vouched P Issued config now token user header payload signature claims

/-- The `exp` is a number of whole seconds, as the issuer writes it. -/
def WholeSeconds [LinearOrder ν] (T : Clock ν) (claims : Json ν) : Prop :=
  ∃ n : ℤ, claims.prop "exp" = some (.num (T.instant (n * 1000)))

/-- Only octets of the issuer verify under the configured key. -/
def OnlyIssued (K : Keys κ) (config : VerifyConfig) (Issued : List UInt8 → Prop) : Prop :=
  ∀ key, K.createPublicKey config.publicKey = .ok key → ∀ octets signature,
    K.verify key octets signature = true → Issued octets

section

variable {K : Keys κ}

theorem parseKey_eq_ok {pem : String} {held : Cached K} :
    parseKey K pem = .ok held ↔ held.pem = pem := by
  unfold parseKey
  constructor
  · intro h
    split at h
    · rw [← Except.ok.inj h]
    · cases h
  · rintro rfl
    split
    · rename_i key parsed
      have hkey : held.key = key := Except.ok.inj (held.parsed.symm.trans parsed)
      obtain ⟨pem, key', parsed'⟩ := held
      cases hkey
      rfl
    · rename_i message failed
      rw [held.parsed] at failed
      cases failed

/-- Holding the key does not change the answer. -/
theorem publicKeyFor_eq (cached : Option (Cached K)) (pem : String) :
    publicKeyFor K cached pem = parseKey K pem := by
  unfold publicKeyFor
  split
  · rename_i held
    split_ifs with hpem
    · exact (parseKey_eq_ok.mpr hpem).symm
    · rfl
  · rfl

end

variable [LinearOrder ν] {P : Platform ν} {K : Keys κ} {T : Clock ν} {Issued : List UInt8 → Prop}
  {config : VerifyConfig} {cached : Option (Cached K)} {ms : ℤ} {token : List Char}

/-- The platform, checking signatures against this key. -/
def keyed (P : Platform ν) (K : Keys κ) (key : κ) : Platform ν := { P with rsaVerify := K.verify key }

/-- With a key, the answer is the one of the check against that key. -/
theorem verifyAccessToken_keyed {key : κ} (hkey : K.createPublicKey config.publicKey = .ok key) :
    (verifyAccessToken P K T config cached ms token).1 =
      Gateway.verifyAccessToken (keyed P K key) config.toGatewayConfig (T.now ms) token := by
  have hheld : publicKeyFor K cached config.publicKey = .ok ⟨config.publicKey, key, hkey⟩ :=
    (publicKeyFor_eq cached _).trans (parseKey_eq_ok.mpr rfl)
  have hdecode : decodeSegment (keyed P K key) = decodeSegment P := rfl
  unfold verifyAccessToken Gateway.verifyAccessToken
  simp only [hdecode, hheld]
  rcases token.splitOn '.' with _ | ⟨header, _ | ⟨payload, _ | ⟨signature, _ | ⟨more, rest⟩⟩⟩⟩
  · rfl
  · rfl
  · rfl
  · dsimp only
    cases decodeSegment P header with
    | error message => rfl
    | ok head =>
      simp only [Except.bind]
      cases head.read "alg" with
      | error message => rfl
      | ok alg =>
        dsimp only
        cases isStr "RS256" alg with
        | false => rfl
        | true =>
          have hverify : (keyed P K key).rsaVerify = K.verify key := rfl
          have hbase : (keyed P K key).base64 = P.base64 := rfl
          rw [hverify, hbase]
          cases K.verify key (ascii (header ++ '.' :: payload)) (P.base64 signature) with
          | false => rfl
          | true => rfl
  · rfl

/-- Without a key, nothing is accepted. -/
theorem verifyAccessToken_unkeyed {message : String}
    (hkey : K.createPublicKey config.publicKey = .error message) :
    ∃ thrown, (verifyAccessToken P K T config cached ms token).1 = .error thrown := by
  have hheld : parseKey K config.publicKey = .error message := by
    unfold parseKey
    split
    · rename_i key parsed
      rw [hkey] at parsed
      cases parsed
    · rename_i thrown failed
      exact congrArg Except.error (Except.error.inj (failed.symm.trans hkey))
  unfold verifyAccessToken
  split
  · rw [publicKeyFor_eq, hheld]
    split
    · exact ⟨_, rfl⟩
    · split_ifs
      · exact ⟨_, rfl⟩
      · exact ⟨_, rfl⟩
  · exact ⟨_, rfl⟩

/-! ### The held key -/

/-- The answer does not depend on the key that is held. -/
theorem verifyAccessToken_uncached :
    (verifyAccessToken P K T config cached ms token).1 =
      (verifyAccessToken P K T config none ms token).1 := by
  unfold verifyAccessToken
  simp only [publicKeyFor_eq]
  split
  · split
    · rfl
    · split_ifs
      · rfl
      · split
        · rfl
        · split_ifs
          · rfl
          · rfl
  · rfl

/-- In a run of calls every answer is the one of that call alone. -/
theorem verifyCalls_eq (calls : List VerifyCall) : verifyCalls P K T cached calls =
    calls.map fun call => (verifyAccessToken P K T call.config none call.ms call.token).1 := by
  induction calls generalizing cached with
  | nil => rfl
  | cons call calls ih =>
    rw [List.map_cons]
    exact congrArg₂ List.cons verifyAccessToken_uncached ih

/-! ### The clock of the check -/

/-- An instant of whole seconds that is past the second the clock is in is in the future. -/
theorem Clock.whole_second {n : ℤ} (h : T.now ms < T.instant (n * 1000)) :
    T.instant ms < T.instant (n * 1000) := by
  apply T.instant_lt
  by_contra hpast
  have hsecond : n * 1000 ≤ ms / 1000 * 1000 := by omega
  rcases hsecond.eq_or_lt with heq | hlt
  · rw [heq] at h
    exact lt_irrefl _ h
  · exact lt_asymm h (T.instant_lt hlt)

/-! ### Soundness -/

omit [LinearOrder ν] in
/-- The signed part of a token that verifies is a text of the issuer. -/
theorem issued_of_verified {key : κ} (hkey : K.createPublicKey config.publicKey = .ok key)
    (hissued : OnlyIssued K config Issued) (hnode : ∀ c ∈ token, c.toNat ≤ 0xFF)
    {header payload signature : List Char} {claims : Json ν}
    (h : Verified (keyed P K key) token header payload signature claims) :
    ∃ octets, Issued octets ∧ latin1 octets = header ++ '.' :: payload := by
  obtain ⟨htoken, -⟩ := splitOn_eq_three h.split
  rw [htoken, List.forall_mem_append, List.forall_mem_cons, List.forall_mem_append] at hnode
  refine ⟨ascii (header ++ '.' :: payload), hissued key hkey _ _ h.signed, latin1_ascii ?_⟩
  rw [List.forall_mem_append, List.forall_mem_cons]
  exact ⟨hnode.1, hnode.2.1, hnode.2.2.1⟩

theorem genuine_of_ok (hissued : OnlyIssued K config Issued) (hnode : ∀ c ∈ token, c.toNat ≤ 0xFF)
    {user : AuthenticatedUser ν}
    (h : (verifyAccessToken P K T config cached ms token).1 = .ok user) :
    Genuine P Issued config.toGatewayConfig (T.now ms) token user := by
  cases hkey : K.createPublicKey config.publicKey with
  | error message =>
    have hthrows : ∃ thrown, (verifyAccessToken P K T config cached ms token).1 = .error thrown :=
      verifyAccessToken_unkeyed hkey
    obtain ⟨thrown, hthrown⟩ := hthrows
    rw [hthrown] at h
    cases h
  | ok key =>
    rw [verifyAccessToken_keyed hkey] at h
    obtain ⟨header, payload, signature, claims, hv, hacc⟩ := verifyAccessToken_eq_ok.mp h
    exact ⟨header, payload, signature, claims, hv.split, hv.alg,
      issued_of_verified hkey hissued hnode hv, hv.claims, hacc⟩

/-- A token with an `exp` of whole seconds is in time by the millisecond as well. -/
theorem Vouched.in_time {user : AuthenticatedUser ν} {header payload signature : List Char}
    {claims : Json ν}
    (h : Vouched P Issued config.toGatewayConfig
      (T.now ms) token user header payload signature claims)
    (hwhole : WholeSeconds T claims) :
    Vouched P Issued config.toGatewayConfig (T.instant ms) token user header payload signature
      claims := by
  obtain ⟨n, hn⟩ := hwhole
  obtain ⟨e, he, hlt⟩ := h.accepted.exp
  obtain rfl : T.instant (n * 1000) = e := by
    rw [hn] at he
    exact Json.num.inj (Option.some.inj he)
  exact { h with accepted := { h.accepted with exp := ⟨_, he, Clock.whole_second hlt⟩ } }

/-- A token is accepted only as the issuer's word for the user that is returned, and every
other text is refused. The clock of the check is the one of the whole seconds. -/
theorem verifyAccessToken_sound (P : Platform ν) (K : Keys κ) (T : Clock ν)
    (Issued : List UInt8 → Prop) (config : VerifyConfig) (cached : Option (Cached K)) (ms : ℤ)
    (token : List Char) (hissued : OnlyIssued K config Issued)
    (hnode : ∀ c ∈ token, c.toNat ≤ 0xFF) :
    (∀ user, (verifyAccessToken P K T config cached ms token).1 = .ok user →
      ∃ header payload signature claims,
      Vouched P Issued config.toGatewayConfig (T.now ms) token user header payload signature
        claims ∧
      (WholeSeconds T claims →
        Vouched P Issued config.toGatewayConfig (T.instant ms) token user header payload signature
          claims)) ∧
    ((¬ ∃ user, Genuine P Issued config.toGatewayConfig (T.now ms) token user) →
      ∃ message, (verifyAccessToken P K T config cached ms token).1 = .error message) := by
  refine ⟨fun user hok => ?_, fun hnot => ?_⟩
  · obtain ⟨header, payload, signature, claims, h⟩ := genuine_of_ok hissued hnode hok
    exact ⟨header, payload, signature, claims, h, h.in_time⟩
  · cases h : (verifyAccessToken P K T config cached ms token).1 with
    | error message => exact ⟨message, rfl⟩
    | ok user => exact absurd ⟨user, genuine_of_ok hissued hnode h⟩ hnot

/-- The signed text alone says who the user is. -/
theorem Vouched.user_eq {now later : ν}
    {token' header payload signature header' payload' signature' : List Char}
    {claims claims' : Json ν} {user user' : AuthenticatedUser ν} {gateway : GatewayConfig}
    (h : Vouched P Issued gateway now token user header payload signature claims)
    (h' : Vouched P Issued gateway later token' user' header' payload' signature' claims')
    (htext : header ++ '.' :: payload = header' ++ '.' :: payload') : user = user' := by
  obtain ⟨-, hdot, hdot', -⟩ := splitOn_eq_three h.split
  obtain ⟨-, hdot₁, hdot₁', -⟩ := splitOn_eq_three h'.split
  have hparts : (header ++ '.' :: payload).splitOn '.' = [header', payload'] := by
    rw [htext, List.splitOn_append_cons_self_of_not_mem hdot₁, List.splitOn_eq_singleton hdot₁']
  rw [List.splitOn_append_cons_self_of_not_mem hdot, List.splitOn_eq_singleton hdot'] at hparts
  simp only [List.cons.injEq, and_true] at hparts
  obtain ⟨rfl, rfl⟩ := hparts
  obtain rfl : claims = claims' := Except.ok.inj (h.decoded.symm.trans h'.decoded)
  rw [h.accepted.user, h'.accepted.user]

/-! ### Tokens within their last second -/

def halfText : List Char :=
  "\x7b\"sub\":\"u\",\"role\":\"r\",\"iss\":\"i\",\"aud\":\"a\",\"exp\":100.5\x7d".toList

def halfSegment : List Char :=
  "eyJzdWIiOiJ1Iiwicm9sZSI6InIiLCJpc3MiOiJpIiwiYXVkIjoiYSIsImV4cCI6MTAwLjV9".toList

def claimsUntil (exp : ℚ) : Json ℚ :=
  .obj [("sub", .str "u"), ("role", .str "r"), ("iss", .str "i"), ("aud", .str "a"), ("exp", .num exp)]

def signedText (payload : List Char) : List Char := rs256Segment ++ '.' :: payload

def signedToken (payload : List Char) : List Char :=
  rs256Segment ++ '.' :: (payload ++ '.' :: "c2ln".toList)

/-- The runtime on these segments. -/
def secondsPlatform : Platform ℚ where
  base64 := Base64.decode
  utf8 := latin1
  parse text :=
    if text = rs256Text then .ok (.obj [("alg", .str "RS256")])
    else if text = expiringText then .ok (claimsUntil 9)
    else if text = halfText then .ok (claimsUntil (201 / 2))
    else .error "Unexpected end of JSON input"
  text _ := ""
  rsaVerify _ _ := false
  parse_latin1 _ := Iff.rfl

/-- The texts signed with the one key. -/
def signedOctets : List (List UInt8) :=
  [ascii (signedText expiringSegment), ascii (signedText halfSegment)]

def oneKey : Keys Unit where
  createPublicKey pem := if pem = "PEM" then .ok () else .error "Failed to read asymmetric key"
  verify _ octets signature := octets ∈ signedOctets ∧ signature = ascii "sig".toList

def rationalClock : Clock ℚ where
  instant ms := ms / 1000
  instant_lt := by
    intro a b h
    have hpos : (0 : ℚ) < 1000 := by decide
    rw [Rat.lt_div_iff hpos, Rat.div_mul_cancel hpos.ne']
    exact Rat.intCast_lt_intCast.mpr h

def pemConfig : VerifyConfig := { plainConfig with publicKey := "PEM" }

def sampleUser : AuthenticatedUser ℚ := ⟨some (.str "u"), some (.str "r")⟩

theorem onlyIssued_oneKey : OnlyIssued oneKey pemConfig (· ∈ signedOctets) := by
  intro key _ octets signature h
  exact (of_decide_eq_true h).1

theorem signedToken_octets {payload : List Char} (h : isSegment payload = true) :
    ∀ c ∈ signedToken payload, c.toNat ≤ 0xFF := by
  have hsegment : ∀ {segment}, isSegment segment = true → ∀ c ∈ segment, c.toNat ≤ 0xFF :=
    fun hseg c hmem => (isUrlSafe_ascii (isUrlSafe_of_mem hseg hmem)).le.trans (by decide)
  rw [signedToken, List.forall_mem_append, List.forall_mem_cons, List.forall_mem_append,
    List.forall_mem_cons]
  exact ⟨hsegment (by decide), by decide, hsegment h, by decide, hsegment (by decide)⟩

theorem signedToken_split {payload : List Char} (h : isSegment payload = true) :
    (signedToken payload).splitOn '.' = [rs256Segment, payload, "c2ln".toList] := by
  rw [signedToken, splitOn_three (dot_not_mem_segment (by decide)) (dot_not_mem_segment h)]
  rfl

theorem decodeSegment_rs256 :
    decodeSegment secondsPlatform rs256Segment = .ok (.obj [("alg", .str "RS256")]) := by
  have htext : secondsPlatform.utf8 (secondsPlatform.base64 rs256Segment) =
      rs256Text := by decide +kernel
  rw [decodeSegment, htext]
  rfl

theorem decodeSegment_expiring :
    decodeSegment secondsPlatform expiringSegment = .ok (claimsUntil 9) := by
  have htext : secondsPlatform.utf8 (secondsPlatform.base64 expiringSegment) =
      expiringText := by decide +kernel
  rw [decodeSegment, htext]
  rfl

theorem decodeSegment_half :
    decodeSegment secondsPlatform halfSegment = .ok (claimsUntil (201 / 2)) := by
  have htext : secondsPlatform.utf8 (secondsPlatform.base64 halfSegment) =
      halfText := by decide +kernel
  rw [decodeSegment, htext]
  rfl

theorem signedToken_accepted {payload : List Char} {exp : ℚ} {ms : ℤ}
    (hsegment : isSegment payload = true) (hsigned : ascii (signedText payload) ∈ signedOctets)
    (hdecoded : decodeSegment secondsPlatform payload = .ok (claimsUntil exp))
    (hexp : rationalClock.now ms < exp) :
    (verifyAccessToken secondsPlatform oneKey rationalClock pemConfig none ms
      (signedToken payload)).1 = .ok sampleUser := by
  have hkey : oneKey.createPublicKey pemConfig.publicKey = .ok () := rfl
  rw [verifyAccessToken_keyed hkey]
  refine verifyAccessToken_eq_ok.mpr
    ⟨rs256Segment, payload, "c2ln".toList, claimsUntil exp,
      ⟨signedToken_split hsegment, ?_, ?_, hdecoded⟩, ?_⟩
  · exact ⟨_, decodeSegment_rs256, rfl⟩
  · exact decide_eq_true ⟨hsigned, rfl⟩
  · exact ⟨⟨exp, rfl, hexp⟩, rfl, rfl, ⟨_, rfl⟩, ⟨_, rfl⟩, rfl⟩

/-- A token that expires at nine seconds, one tenth before. -/
theorem verifyAccessToken_sound_expiring : ∃ header payload signature claims,
    Vouched secondsPlatform (· ∈ signedOctets) plainConfig (rationalClock.now 8900)
      (signedToken expiringSegment) sampleUser
      header payload signature claims ∧
    (WholeSeconds rationalClock claims → Vouched secondsPlatform (· ∈ signedOctets) plainConfig
      (rationalClock.instant 8900)
      (signedToken expiringSegment) sampleUser header payload signature claims) := by
  have hclock : rationalClock.now 8900 < 9 := by decide +kernel
  refine (verifyAccessToken_sound secondsPlatform oneKey rationalClock
    (· ∈ signedOctets) pemConfig none 8900
    (signedToken expiringSegment) onlyIssued_oneKey (signedToken_octets (by decide))).1 sampleUser ?_
  exact signedToken_accepted (by decide) List.mem_cons_self decodeSegment_expiring hclock

/-- A signed token with an `exp` of half a second is accepted to the end of that second. -/
theorem half_second_accepted :
    ¬ ∀ (P : Platform ℚ) (K : Keys Unit) (T : Clock ℚ) (Issued : List UInt8 → Prop)
    (config : VerifyConfig) (cached : Option (Cached K)) (ms : ℤ) (token : List Char),
      OnlyIssued K config Issued →
    (∀ c ∈ token, c.toNat ≤ 0xFF) → ∀ user, (verifyAccessToken P K T config cached ms token).1 =
      .ok user →
      Genuine P Issued config.toGatewayConfig (T.instant ms) token user := by
  intro h
  have hclock : rationalClock.now 100900 < 201 / 2 := by decide +kernel
  have hsigned : ascii (signedText halfSegment) ∈ signedOctets :=
    List.mem_cons_of_mem _ List.mem_cons_self
  have haccepted := signedToken_accepted (by decide) hsigned decodeSegment_half hclock
  obtain ⟨header, payload, signature, claims, hv⟩ :=
    h secondsPlatform oneKey rationalClock (· ∈ signedOctets) pemConfig none
    100900 (signedToken halfSegment) onlyIssued_oneKey (signedToken_octets (by decide)) sampleUser
      haccepted
  have hthree := (signedToken_split (by decide)).symm.trans hv.split
  simp only [List.cons.injEq, and_true] at hthree
  obtain ⟨rfl, rfl, rfl⟩ := hthree
  obtain rfl : claimsUntil (201 / 2) = claims :=
    Except.ok.inj (decodeSegment_half.symm.trans hv.decoded)
  obtain ⟨e, he, hlt⟩ := hv.accepted.exp
  obtain rfl : 201 / 2 = e := Json.num.inj (Option.some.inj he)
  exact absurd hlt (by decide +kernel)

end Finlytic.Gateway.Verification
