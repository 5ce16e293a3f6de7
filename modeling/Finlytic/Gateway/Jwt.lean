import Finlytic.AuthLib.JwtAuthGuard
import Finlytic.Gateway.Routes

/-! The gateway's own check of the access token. -/

namespace Finlytic.Gateway

open Lib Jws AuthLib

variable {ν : Type}

def bearerToken (authorization : Option (List Char)) : Option (List Char) :=
  authorization.bind fun header =>
    if !"Bearer ".toList.isPrefixOf header then none
    else
      let token := trimChars (header.drop "Bearer ".length)
      if token = [] then none else some token

variable (P : Platform ν)

def decodeSegment (segment : List Char) : Except String (Json ν) := P.parse (P.utf8 (P.base64 segment))

/-- `typeof exp !== 'number' || exp <= now` -/
def expired [LinearOrder ν] (now : ν) : Option (Json ν) → Bool
  | some (.num exp) => exp ≤ now
  | _ => true

def isString : Option (Json ν) → Bool
  | some (.str _) => true
  | _ => false

/-- The claims, once the signature checks out. -/
def checkClaims [LinearOrder ν] (config : GatewayConfig) (now : ν) (payload : Json ν) :
    Except String (AuthenticatedUser ν) :=
  (payload.read "exp").bind fun exp =>
    if expired now exp then .error "Token expired"
    else if !isStr config.issuer (payload.prop "iss") then .error "Unexpected issuer"
    else if !isStr config.audience (payload.prop "aud") then .error "Unexpected audience"
    else if !isString (payload.prop "sub") || !isString (payload.prop "role") then
      .error "Token missing sub or role"
    else .ok ⟨payload.prop "sub", payload.prop "role"⟩

def verifyAccessToken [LinearOrder ν] (config : GatewayConfig) (now : ν) (token : List Char) :
    Except String (AuthenticatedUser ν) :=
  match token.splitOn '.' with
  | [headerSegment, payloadSegment, signatureSegment] =>
    (decodeSegment P headerSegment).bind fun header =>
      (header.read "alg").bind fun alg =>
        if !isStr "RS256" alg then .error ("Unexpected alg: " ++ P.text alg)
        -- The signature covers the text as it arrived.
        else if !P.rsaVerify (ascii (headerSegment ++ '.' :: payloadSegment))
          (P.base64 signatureSegment) then
          .error "Signature verification failed"
        else (decodeSegment P payloadSegment).bind (checkClaims config now)
  | _ => .error "Malformed token"

/-- The gateway's decision on an `Authorization` header. -/
def authenticate [LinearOrder ν] (config : GatewayConfig) (now : ν)
    (authorization : Option (List Char)) :
    Except String (AuthenticatedUser ν) :=
  match bearerToken authorization with
  | none => .error "Missing bearer token"
  | some token => verifyAccessToken P config now token

end Finlytic.Gateway
