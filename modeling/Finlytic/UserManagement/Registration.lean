import Finlytic.Lib.Text
import Finlytic.UserManagement.Operations

/-! Accounts: `AuthService.register`, `UsersService` and the checks of the DTOs in
front of them, in one program with the session calls. A statement may fail, and
one that has failed may have taken effect all the same. -/

namespace Finlytic.UserManagement

open Lib

/-! ### Bodies -/

/-- Adds the hasher and the validators. argon2id is taken as collision free: a
digest verifies the password it was made from and no other. Nothing is assumed
of the other three. -/
structure AccountConfig extends Config where
  hash : String → String → String
  verify_hash : ∀ salt password presented, verifyPassword (hash salt password) presented =
    decide (password = presented)
  toLowerCase : String → String
  isEmail : String → Bool
  length : String → ℕ

/-- A JSON body as the DTOs read it: the fields that are strings, and whether it has other keys. -/
structure Credentials where
  email : Option String
  password : Option String
  otherKeys : Bool

/-- The `@Transform` on `email`, which runs before the validators. -/
def transformEmail (cfg : AccountConfig) (value : String) : String := cfg.toLowerCase (trim value)

/-- The validation of a DTO whose passwords have at least `minLength` characters. -/
def validate (cfg : AccountConfig) (minLength : ℕ) (body : Credentials) :
    Option (String × String) :=
  match body.email, body.password with
  | some value, some password =>
    let email := transformEmail cfg value
    if body.otherKeys = false ∧ cfg.isEmail email ∧ minLength ≤ cfg.length password ∧
      cfg.length password ≤ 128 then
      some (email, password)
    else none
  | _, _ => none

def registerDto (cfg : AccountConfig) (body : Credentials) : Option (String × String) :=
  validate cfg 12 body

def loginDto (cfg : AccountConfig) (body : Credentials) : Option (String × String) :=
  validate cfg 1 body

/-! ### Calls -/

/-- A password given for an email, and the account it was given for. -/
structure Registration where
  email : String
  password : String
  userId : String
  deriving DecidableEq

/-- The tables, and two histories: the registrations that inserted a row, and the logins that
passed. -/
structure AccountStore where
  base : Store
  registered : List Registration
  logins : List Registration

inductive AccountAnswer where
  | registered (user : PublicUser)
  | profile (user : PublicUser)
  | badRequest
  | unauthorized
  | conflict (message : String)
  | failed
  deriving DecidableEq

inductive AccountCall where
  | registerHash (email password : String)
  /-- `password` is history. -/
  | registerCreate (email password passwordHash : String)
  | profileFind (userId : String)
  | answered (answer : AccountAnswer)
  | session (c : Call)
  deriving DecidableEq

/-- `me` comes with the id that the guard read from the access token. -/
inductive AccountRequest where
  | register (body : Credentials)
  | login (body : Credentials) (client : ClientMeta)
  | refresh (refreshToken : String) (client : ClientMeta)
  | logout (refreshToken : String)
  | me (userId : String)

def startAccount (cfg : AccountConfig) : AccountRequest → AccountCall
  | .register body =>
    match registerDto cfg body with
    | some (email, password) => .registerHash email password
    | none => .answered .badRequest
  | .login body client =>
    match loginDto cfg body with
    | some (email, password) => .session (start (.login email password client))
    | none => .answered .badRequest
  | .refresh refreshToken client => .session (start (.refresh refreshToken client))
  | .logout refreshToken => .session (start (.logout refreshToken))
  | .me userId => .profileFind userId

/-- `UsersService.create`, and what `register` makes of a `P2002`. -/
def create (s : AccountStore) (email password passwordHash : String) (d : Draw) :
    Option (AccountStore × AccountAnswer) :=
  match findByEmail s.base email with
  | some _ => some (s, .conflict "An account with this email already exists")
  | none =>
    if d.id ∈ s.base.users.map (·.id) then none
    else
      let user : User := ⟨d.id, email, passwordHash, .USER, true⟩
      some ({ s with base := { s.base with users := s.base.users ++ [user] }
                     registered := s.registered ++ [⟨email, password, d.id⟩] },
                       .registered (toPublicUser user))

def getPublicProfile (s : AccountStore) (userId : String) : AccountAnswer :=
  match findById s.base userId with
  | some user => if user.isActive then .profile (toPublicUser user) else .unauthorized
  | none => .unauthorized

/-- The login that passes with this statement, if it is one. -/
def signIn : Call → Call → List Registration
  | .loginFind email password _, .loginStart user _ => [⟨email, password, user.id⟩]
  | _, _ => []

/-- How the statement turns out, and the salt argon2 draws. -/
structure AccountChoice where
  attempt : Attempt
  salt : String

def accountStatement (cfg : AccountConfig) (s : AccountStore) : AccountCall → AccountChoice →
    Option (AccountStore × AccountCall)
  | .answered _, _ => none
  | .session c, choice => (attempt cfg.toConfig s.base c choice.attempt).map fun next =>
      ({ s with base := next.1, logins := s.logins ++ signIn c next.2 }, .session next.2)
  | .registerCreate email password passwordHash, ⟨.ok d, _⟩ =>
    (create s email password passwordHash d).map fun made => (made.1, .answered made.2)
  | .registerCreate email password passwordHash, ⟨.error (some d), _⟩ =>
    (create s email password passwordHash d).map fun made => (made.1, .answered .failed)
  | .registerHash email password, ⟨.ok _, salt⟩ =>
    some (s, .registerCreate email password (cfg.hash salt password))
  | .profileFind userId, ⟨.ok _, _⟩ => some (s, .answered (getPublicProfile s userId))
  | _, ⟨.error _, _⟩ => some (s, .answered .failed)

/-- Registration, profile and session calls, interleaved. -/
def accounts (cfg : AccountConfig) :
    Program AccountStore AccountRequest AccountCall AccountChoice Event where
  start := startAccount cfg
  statement := accountStatement cfg
  environment s e := (environment s.base e).map fun base => { s with base }

/-- A deployment before its first account. -/
def NoAccounts (p : Pool AccountStore AccountCall) : Prop :=
  p.calls = [] ∧ p.store.base.users = [] ∧ p.store.base.refreshTokens = [] ∧ p.store.registered =
    [] ∧ p.store.logins = []

end Finlytic.UserManagement
