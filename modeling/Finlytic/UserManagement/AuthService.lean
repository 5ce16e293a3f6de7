import Finlytic.Lib.Pool
import Finlytic.Lib.Table
import Mathlib.Logic.Function.Basic

/-! The session half of user-management: `RefreshTokenService`,
`RefreshTokenCleanupService` and the login, refresh and logout calls of
`AuthService`. Every Prisma statement is one atomic step on the store, and
nothing holds two statements of one call together. Random values (token, family
id, row id) are drawn by the environment and never repeat. -/

namespace Finlytic.UserManagement

open Lib

/-! ### The store -/

inductive UserRole where
  | USER | ADMIN
  deriving DecidableEq

structure User where
  id : String
  email : String
  passwordHash : String
  role : UserRole
  isActive : Bool
  deriving DecidableEq

structure ClientMeta where
  ipAddress : Option String
  userAgent : Option String
  deriving DecidableEq

structure RefreshToken where
  id : String
  userId : String
  tokenHash : String
  familyId : String
  expiresAt : ℕ
  revokedAt : Option ℕ
  replacedById : Option String
  ipAddress : Option String
  userAgent : Option String
  deriving DecidableEq

/-- The two tables and the clock. The last four fields are history: the values
drawn so far, and the raw token of every spend that was accepted. -/
structure Store where
  now : ℕ
  users : List User
  refreshTokens : List RefreshToken
  families : List String
  tokens : List String
  ids : List String
  spends : List String
  deriving DecidableEq

/-- What the service is configured with and calls out to. SHA-256 is taken as
collision free; the schema only admits a positive TTL. -/
structure Config where
  refreshTtlDays : ℕ
  refreshTtlDays_pos : 0 < refreshTtlDays
  accessTtlSeconds : ℕ
  fingerprint : String → String
  fingerprint_injective : Function.Injective fingerprint
  decoyHash : String
  verifyPassword : String → String → Bool
  signAccessToken : User → String

/-- The random values one `create` may use. -/
structure Draw where
  familyId : String
  raw : String
  id : String

/-! ### Statements of `RefreshTokenService` -/

def ttlMs (cfg : Config) : ℕ := cfg.refreshTtlDays * 24 * 60 * 60 * 1000

/-- The insert of `issue`. A draw that was seen before is not enabled. -/
def issue (cfg : Config) (s : Store) (userId familyId : String) (client : ClientMeta) (d : Draw) :
    Option (Store × RefreshToken) :=
  if d.raw ∈ s.tokens ∨ d.id ∈ s.ids then none
  else
    let record : RefreshToken :=
      { id := d.id, userId, tokenHash := cfg.fingerprint d.raw, familyId,
        expiresAt := s.now + ttlMs cfg, revokedAt := none, replacedById := none,
        ipAddress := client.ipAddress, userAgent := client.userAgent }
    some ({ s with refreshTokens := s.refreshTokens ++ [record], tokens := d.raw :: s.tokens,
                   ids := d.id :: s.ids, families := familyId :: s.families }, record)

/-- The `where` of the spending `updateMany`. -/
def spendable (tokenHash : String) (now : ℕ) (r : RefreshToken) : Bool :=
  r.tokenHash = tokenHash && r.revokedAt.isNone && decide (now < r.expiresAt)

/-- The row a spend of `rawToken` takes, if its `updateMany` counts one. -/
def spendRow (cfg : Config) (s : Store) (rawToken : String) : Option RefreshToken :=
  s.refreshTokens.find? (spendable (cfg.fingerprint rawToken) s.now)

def revoke (now : ℕ) (r : RefreshToken) : RefreshToken := { r with revokedAt := some now }

def spendUpdate (cfg : Config) (s : Store) (rawToken : String) : Store :=
  { s with
    refreshTokens :=
      Table.updateMany (spendable (cfg.fingerprint rawToken) s.now) (revoke s.now) s.refreshTokens
    spends := rawToken :: s.spends }

def findByHash (cfg : Config) (s : Store) (rawToken : String) : Option RefreshToken :=
  s.refreshTokens.find? fun r => r.tokenHash = cfg.fingerprint rawToken

/-- A row of the family that no one has revoked yet. -/
def liveIn (familyId : String) (r : RefreshToken) : Bool :=
  r.familyId = familyId && r.revokedAt.isNone

def revokeFamily (s : Store) (familyId : String) : Store :=
  { s with refreshTokens := Table.updateMany (liveIn familyId) (revoke s.now) s.refreshTokens }

def link (replacementId : String) (r : RefreshToken) : RefreshToken :=
  { r with replacedById := some replacementId }

/-- `linkReplacement`; Prisma's `update` throws when the row is gone. -/
def linkReplacement (s : Store) (spentId replacementId : String) : Option Store :=
  if s.refreshTokens.any (·.id = spentId) then
    some { s with refreshTokens :=
      Table.updateMany (·.id = spentId) (link replacementId) s.refreshTokens }
  else none

/-- `RefreshTokenCleanupService.sweep`. -/
def sweep (s : Store) : Store :=
  { s with refreshTokens := Table.deleteMany (fun r => decide (r.expiresAt < s.now)) s.refreshTokens }

def findById (s : Store) (userId : String) : Option User := s.users.find? (·.id = userId)

def findByEmail (s : Store) (email : String) : Option User := s.users.find? (·.email = email)

/-! ### Calls of `AuthService` -/

structure PublicUser where
  id : String
  email : String
  role : UserRole
  isActive : Bool
  deriving DecidableEq

def toPublicUser (u : User) : PublicUser := ⟨u.id, u.email, u.role, u.isActive⟩

structure LoginResponse where
  accessToken : String
  refreshToken : String
  tokenType : String
  expiresIn : ℕ
  user : PublicUser
  deriving DecidableEq

def buildSession (cfg : Config) (user : User) (refreshToken : String) : LoginResponse :=
  ⟨cfg.signAccessToken user, refreshToken, "Bearer", cfg.accessTtlSeconds, toPublicUser user⟩

inductive Outcome where
  | session (response : LoginResponse)
  | unauthorized (message : String)
  | noContent
  | failed
  deriving DecidableEq

/-- Where a call stands: the next statement it will run, with what it has read. -/
inductive Call where
  | loginFind (email password : String) (client : ClientMeta)
  | loginStart (user : User) (client : ClientMeta)
  | refreshSpend (raw : String) (client : ClientMeta)
  /-- The `updateMany` counted one; `familyId` is history. -/
  | refreshReread (raw : String) (client : ClientMeta) (familyId : String)
  | refreshExisting (raw : String)
  | refreshReuse (familyId : String)
  | refreshUser (spent : RefreshToken) (client : ClientMeta)
  | refreshInactive (familyId : String)
  | refreshIssue (user : User) (spent : RefreshToken) (client : ClientMeta)
  | refreshLink (user : User) (spentId : String) (raw issuedId : String)
  | logoutFind (raw : String)
  | logoutRevoke (familyId : String)
  | done (outcome : Outcome)
  deriving DecidableEq

inductive Request where
  | login (email password : String) (client : ClientMeta)
  | refresh (refreshToken : String) (client : ClientMeta)
  | logout (refreshToken : String)

/-- The checks a call makes before its first statement. -/
def start : Request → Call
  | .login email password client => .loginFind email password client
  | .refresh raw client => if raw = "" then .done (.unauthorized "Invalid refresh token")
    else .refreshSpend raw client
  | .logout raw => if raw = "" then .done .noContent else .logoutFind raw

inductive Choice where
  | ok (d : Draw)
  | dbError

/-- One statement of a call. -/
def statement (cfg : Config) (s : Store) : Call → Choice → Option (Store × Call)
  | .done _, _ => none
  | _, .dbError => some (s, .done .failed)
  | .loginFind email password client, .ok _ =>
    let user := findByEmail s email
    let passwordMatches := cfg.verifyPassword ((user.map (·.passwordHash)).getD cfg.decoyHash) password
    match user with
    | some user =>
      if passwordMatches && user.isActive then some (s, .loginStart user client)
      else some (s, .done (.unauthorized "Invalid email or password"))
    | none => some (s, .done (.unauthorized "Invalid email or password"))
  | .loginStart user client, .ok d =>
    -- `startFamily`: the family id is drawn with the token
    if d.familyId ∈ s.families then none
    else (issue cfg s user.id d.familyId client d).map fun issued =>
      (issued.1, .done (.session (buildSession cfg user d.raw)))
  | .refreshSpend raw client, .ok _ =>
    match spendRow cfg s raw with
    | some row => some (spendUpdate cfg s raw, .refreshReread raw client row.familyId)
    | none => some (s, .refreshExisting raw)
  | .refreshReread raw client _, .ok _ =>
    match findByHash cfg s raw with
    | some spent => some (s, .refreshUser spent client)
    | none => some (s, .done (.unauthorized "Invalid refresh token"))
  | .refreshExisting raw, .ok _ =>
    match findByHash cfg s raw with
    | some existing =>
      if existing.revokedAt.isSome then some (s, .refreshReuse existing.familyId)
      else some (s, .done (.unauthorized "Invalid refresh token"))
    | none => some (s, .done (.unauthorized "Invalid refresh token"))
  | .refreshReuse familyId, .ok _ =>
    some (revokeFamily s familyId, .done (.unauthorized "Invalid refresh token"))
  | .refreshUser spent client, .ok _ =>
    match findById s spent.userId with
    | some user =>
      if user.isActive then some (s, .refreshIssue user spent client)
      else some (s, .refreshInactive spent.familyId)
    | none => some (s, .refreshInactive spent.familyId)
  | .refreshInactive familyId, .ok _ =>
    some (revokeFamily s familyId, .done (.unauthorized "Invalid refresh token"))
  | .refreshIssue user spent client, .ok d =>
    (issue cfg s user.id spent.familyId client d).map fun issued =>
      (issued.1, .refreshLink user spent.id d.raw issued.2.id)
  | .refreshLink user spentId raw issuedId, .ok _ =>
    match linkReplacement s spentId issuedId with
    | some s => some (s, .done (.session (buildSession cfg user raw)))
    | none => some (s, .done .failed)
  | .logoutFind raw, .ok _ =>
    match findByHash cfg s raw with
    | some record => some (s, .logoutRevoke record.familyId)
    | none => some (s, .done .noContent)
  | .logoutRevoke familyId, .ok _ => some (revokeFamily s familyId, .done .noContent)

/-- What happens outside the calls: time passes, an administrator switches an
account on or off, the cleanup timer fires. -/
inductive Event where
  | tick (ms : ℕ)
  | setActive (userId : String) (active : Bool)
  | sweep

def switch (active : Bool) (u : User) : User := { u with isActive := active }

def environment (s : Store) : Event → Option Store
  | .tick ms => some { s with now := s.now + ms }
  | .setActive userId active =>
    some { s with users := Table.updateMany (·.id = userId) (switch active) s.users }
  | .sweep => some (sweep s)

/-- Login, refresh, logout, reuse detection and cleanup, interleaved. -/
def auth (cfg : Config) : Program Store Request Call Choice Event where
  start := start
  statement := statement cfg
  environment := environment

/-- A deployment before its first session. -/
def Fresh (p : Pool Store Call) : Prop :=
  p.calls = [] ∧ p.store.refreshTokens = [] ∧ p.store.families = [] ∧ p.store.tokens = [] ∧
    p.store.ids = [] ∧ p.store.spends = []

end Finlytic.UserManagement
