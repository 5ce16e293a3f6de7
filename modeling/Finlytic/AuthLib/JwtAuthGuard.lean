import Finlytic.Lib.Jws

/-! The guard that the services put before their own routes. -/

namespace Finlytic.AuthLib

open Lib Jws

variable {ν : Type}

/-- What a request is authenticated as. An absent claim reads as `none`. -/
structure AuthenticatedUser (ν : Type) where
  id : Option (Json ν)
  role : Option (Json ν)

def extractBearerToken (authorization : Option (List Char)) : Option (List Char) :=
  authorization.bind fun header =>
    match header.splitOn ' ' with
    | scheme :: rest => if scheme.map Char.toLower = "bearer".toList then rest.head? else none
    | [] => none

/-- `canActivate`, with the user it puts on the request. -/
def canActivate [LinearOrder ν] (P : Platform ν) (issuer audience : String) (now : ν)
    (authorization : Option (List Char)) :
    Except String (AuthenticatedUser ν) :=
  match extractBearerToken authorization with
  | none => .error "Missing access token"
  | some [] => .error "Missing access token"
  | some token =>
    match verify P issuer audience now token with
    | none => .error "Invalid or expired access token"
    | some payload => .ok ⟨payload.prop "sub", payload.prop "role"⟩

end Finlytic.AuthLib
