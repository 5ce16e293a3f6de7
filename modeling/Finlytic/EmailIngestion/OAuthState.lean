import Finlytic.Lib.Base64
import Finlytic.Lib.Jws
import Finlytic.Lib.Pool

/-! `OAuthStateService`: the `state` parameter that a browser carries through the
consent screen of a provider. The clock counts milliseconds, the service whole
seconds. -/

namespace Finlytic.EmailIngestion

open Lib Jws

def stateTtlSeconds : ℕ := 600

structure StateClaims where
  userId : String
  nonce : String
  exp : ℕ
  deriving DecidableEq

/-- What the runtime supplies: HMAC-SHA256 under the configured secret, and JSON. A payload
is parsed from its octets. -/
structure StateRuntime where
  hmac : List Char → List UInt8
  stringify : StateClaims → List Char
  parse : List UInt8 → Option StateClaims
  hmac_ne : ∀ payload, hmac payload ≠ []
  stringify_ne : ∀ claims, stringify claims ≠ []
  parse_stringify : ∀ claims, parse (utf8Octets (stringify claims)) = some claims

/-- A call of `issue`: its user, the nonce it drew, and the second of the clock. -/
structure Issue where
  userId : String
  nonce : String
  second : ℕ
  deriving DecidableEq

def Issue.claims (i : Issue) : StateClaims := ⟨i.userId, i.nonce, i.second + stateTtlSeconds⟩

/-- A call of `verify` that returned: what it was given, the user it answered, and the second of
the clock. -/
structure Redemption where
  state : List Char
  userId : String
  second : ℕ
  deriving DecidableEq

/-- What stands before the first dot. -/
def Redemption.payload (r : Redemption) : List Char := (r.state.splitOn '.').headD []

/-- The clock, the map of redeemed nonces, and two histories. -/
structure OAuthStates where
  now : ℕ
  redeemed : List (String × ℕ)
  issued : List Issue
  accepted : List Redemption

def OAuthStates.second (s : OAuthStates) : ℕ := s.now / 1000

variable (rt : StateRuntime)

def sign (payload : List Char) : List Char := Base64.encode (rt.hmac payload)

def payloadOf (claims : StateClaims) : List Char := Base64.encode (utf8Octets (rt.stringify claims))

/-- The text that `issue` returns. -/
def stateOf (claims : StateClaims) : List Char :=
  payloadOf rt claims ++ '.' :: sign rt (payloadOf rt claims)

def forget (now : ℕ) (redeemed : List (String × ℕ)) : List (String × ℕ) :=
  redeemed.filter fun entry => !decide (entry.2 < now)

/-- The end of `verify`, once the signature holds. -/
def redeem (s : OAuthStates) (claims : StateClaims) : Except String String × OAuthStates :=
  if claims.exp < s.second then (.error "OAuth state has expired", s)
  else
    let redeemed := forget s.second s.redeemed
    if redeemed.any (·.1 = claims.nonce) then
      (.error "OAuth state has already been used", { s with redeemed })
    else (.ok claims.userId, { s with redeemed := redeemed ++ [(claims.nonce, claims.exp)] })

/-- The signature is that of the payload, octet by octet. -/
def signed (payload signature : List Char) : Bool :=
  payload ≠ [] && signature ≠ [] && utf8Octets signature = utf8Octets (sign rt payload)

/-- `verify`; parts after the second dot are not looked at. -/
def verifyState (s : OAuthStates) (state : List Char) : Except String String × OAuthStates :=
  match state.splitOn '.' with
  | payload :: signature :: _ =>
    if payload = [] || signature = [] then (.error "Malformed OAuth state", s)
    else if utf8Octets signature ≠ utf8Octets (sign rt payload) then (.error "Invalid OAuth state", s)
    else
      match rt.parse (Base64.decode payload) with
      | none => (.error "Unexpected token in JSON", s)
      | some claims => redeem s claims
  | _ => (.error "Malformed OAuth state", s)

/-- The history keeps every call of `verify` that returned. -/
def OAuthStates.answered (s : OAuthStates) (state : List Char) : Except String String → OAuthStates
  | .ok userId => { s with accepted := ⟨state, userId, s.second⟩ :: s.accepted }
  | .error _ => s

inductive StateAct where
  | issue (userId nonce : String)
  | verify (state : List Char)
  | tick (ms : ℕ)

/-- A nonce is never drawn twice, and the clock does not go back. -/
def stateStep (s : OAuthStates) : StateAct → Option OAuthStates
  | .issue userId nonce =>
    if nonce ∈ s.issued.map (·.nonce) then none
    else some { s with issued := ⟨userId, nonce, s.second⟩ :: s.issued }
  | .verify state => some ((verifyState rt s state).2.answered state (verifyState rt s state).1)
  | .tick ms => some { s with now := s.now + ms }

/-- No one else can sign: a payload under its own signature was issued. -/
def Unforged (s : OAuthStates) : StateAct → Prop
  | .verify state => ∀ payload signature rest, state.splitOn '.' = payload :: signature :: rest →
      signed rt payload signature = true → ∃ i ∈ s.issued, payload = payloadOf rt i.claims
  | _ => True

def NoStates (s : OAuthStates) : Prop := s.redeemed = [] ∧ s.issued = [] ∧ s.accepted = []

end Finlytic.EmailIngestion
