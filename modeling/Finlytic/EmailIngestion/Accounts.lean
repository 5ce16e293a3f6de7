import Finlytic.Lib.Pool
import Finlytic.Lib.Table

/-! Connected mailboxes: `AccountsService.connect` and `preview`,
`AccountTokenService.getConnection`, and the part of `MailSyncService.syncAccount`
around it. A call works on the account row it read, while other calls go on
writing that row. Every database statement and every request to the provider is
one atomic step; both may fail. -/

namespace Finlytic.EmailIngestion

open Lib

inductive MailProvider where
  | GMAIL | ZOHO
  deriving DecidableEq

inductive AccountStatus where
  | ACTIVE | REAUTH_REQUIRED | DISABLED
  deriving DecidableEq

def AccountStatus.name : AccountStatus → String
  | .ACTIVE => "ACTIVE"
  | .REAUTH_REQUIRED => "REAUTH_REQUIRED"
  | .DISABLED => "DISABLED"

/-- Opaque routing context of a provider. -/
abbrev ProviderMetadata := List (String × String)

structure MailAccount where
  id : String
  userId : String
  provider : MailProvider
  providerAccountId : String
  emailAddress : String
  status : AccountStatus
  accessTokenEnc : String
  accessTokenExpires : ℕ
  refreshTokenEnc : Option String
  scopes : List String
  providerMetadata : Option ProviderMetadata
  syncCursor : Option String
  lastSyncedAt : Option ℕ
  lastSyncError : Option String
  deriving DecidableEq

structure OAuthTokens where
  accessToken : String
  refreshToken : Option String
  expiresAt : ℕ
  scopes : List String

structure ConnectResult where
  tokens : OAuthTokens
  providerAccountId : String
  emailAddress : String
  metadata : Option ProviderMetadata

structure ProviderConnection where
  accessToken : String
  providerAccountId : String
  metadata : ProviderMetadata
  deriving DecidableEq

inductive CipherPurpose where
  | access | refresh | probe

/-- `EncryptionService` over AES-256-GCM: an envelope is never empty, and one
that was made under this key for this purpose opens to what was put in. -/
structure Cipher where
  encrypt : String → CipherPurpose → String → String
  /-- The text, or the message of the error. -/
  decrypt : String → CipherPurpose → Except String String
  encrypt_ne : ∀ nonce purpose text, encrypt nonce purpose text ≠ ""
  decrypt_encrypt : ∀ nonce purpose text, text ≠ "" → decrypt (encrypt nonce purpose text) purpose =
    .ok text

structure AccountsConfig extends Cipher where
  requiredScopes : MailProvider → List String

/-- The table, the clock, and two histories: the row ids drawn so far, and the
refresh tokens the provider has answered with a revoked-grant error. -/
structure AccountStore where
  now : ℕ
  accounts : List MailAccount
  ids : List String
  revoked : List String

def refreshSkewMs : ℕ := 5 * 60 * 1000

/-- The optional text a JavaScript condition takes as present. -/
def truthy : Option String → Option String
  | some "" => none
  | t => t

theorem truthy_of_ne_empty {token : Option String} (h : token ≠ some "") :
    truthy token = token := by
  unfold truthy
  split
  · exact absurd rfl h
  · rfl

theorem truthy_eq_some_iff {token : Option String} {t : String} :
    truthy token = some t ↔ token = some t ∧ t ≠ "" := by
  by_cases h : token = some ""
  · subst h
    refine iff_of_false (fun h => ?_) fun h => h.2 (Option.some.inj h.1).symm
    cases h
  · rw [truthy_of_ne_empty h]
    exact ⟨fun ht => ⟨ht, fun he => h (he ▸ ht)⟩, fun ht => ht.1⟩

/-! ### Calls -/

/-- Who asked for a connection. -/
inductive Origin where
  | preview | sync
  deriving DecidableEq

inductive AccountOutcome where
  | connected (account : MailAccount)
  | forbidden (message : String)
  | notFound (message : String)
  | unrecoverable (message : String)
  | previewed (connection : ProviderConnection)
  | synced
  | threw (reason : String)

/-- Where a call stands. The account is the row it read when it started. -/
inductive AccountCall where
  | connectUpsert (userId : String) (provider : MailProvider) (result : ConnectResult)
  | previewFind (userId accountId : String)
  | syncFind (accountId : String)
  | refresh (origin : Origin) (account : MailAccount) (refreshToken : String)
  | persist (origin : Origin) (account : MailAccount) (tokens : OAuthTokens)
  | markReauthRequired (origin : Origin) (account : MailAccount) (reason : String)
  | syncBody (account : MailAccount)
  | syncStamp (accountId : String)
  | syncError (accountId reason : String)
  | done (outcome : AccountOutcome)

inductive AccountRequest where
  | connect (userId : String) (provider : MailProvider) (result : ConnectResult)
  | preview (userId accountId : String)
  | syncAccount (accountId : String)

/-- The random values of one statement. -/
structure AccountDraw where
  id : String
  accessNonce : String
  refreshNonce : String

/-- How the next step of a call turns out. -/
inductive Answer where
  | ok (d : AccountDraw)
  | tokens (t : OAuthTokens)
  /-- `ProviderAuthRevokedError`. -/
  | revoked (message : String)
  /-- Any other error: a 5xx, a timeout, a lost database connection. -/
  | failed (message : String)
  /-- The body of a sync writes its cursor. -/
  | cursor (cursor : Option String)

variable (cfg : AccountsConfig)

/-- A partial grant is refused before anything is written. -/
def startAccount : AccountRequest → AccountCall
  | .connect userId provider result =>
    let missing := (cfg.requiredScopes provider).filter fun scope =>
      !result.tokens.scopes.contains scope
    if missing ≠ [] then
      .done (.forbidden ("Consent incomplete — missing " ++ ", ".intercalate missing ++
        ". Reconnect and approve every permission."))
    else .connectUpsert userId provider result
  | .preview userId accountId => .previewFind userId accountId
  | .syncAccount accountId => .syncFind accountId

/-- An error of `getConnection` ends a preview and is recorded by a sync. -/
def throwTo (origin : Origin) (account : MailAccount) (reason : String) : AccountCall :=
  match origin with
  | .preview => .done (.threw reason)
  | .sync => .syncError account.id reason

def withConnection (origin : Origin) (account : MailAccount) (accessToken : String) : AccountCall :=
  match origin with
  | .preview =>
    .done (.previewed ⟨accessToken, account.providerAccountId, account.providerMetadata.getD []⟩)
  | .sync => .syncBody account

/-- `getConnection` up to its first request or statement. -/
def getConnection (now : ℕ) (origin : Origin) (account : MailAccount) : AccountCall :=
  if now + refreshSkewMs < account.accessTokenExpires then
    match cfg.decrypt account.accessTokenEnc .access with
    | .ok accessToken => withConnection origin account accessToken
    | .error reason => throwTo origin account reason
  else
    match truthy account.refreshTokenEnc with
    | none => .markReauthRequired origin account "No refresh token stored"
    | some envelope =>
      match cfg.decrypt envelope .refresh with
      | .ok refreshToken => .refresh origin account refreshToken
      | .error reason => throwTo origin account reason

/-- The unique key of the upsert. -/
def sameMailbox (userId : String) (provider : MailProvider) (providerAccountId : String)
    (a : MailAccount) : Bool :=
  a.userId = userId && a.provider = provider && a.providerAccountId = providerAccountId

/-- The update half of the upsert; tokens and metadata that did not come are kept. -/
def reconnect (accessTokenEnc : String) (refreshTokenEnc : Option String) (result : ConnectResult)
    (a : MailAccount) :
    MailAccount :=
  { a with
    emailAddress := result.emailAddress
    accessTokenEnc
    accessTokenExpires := result.tokens.expiresAt
    scopes := result.tokens.scopes
    status := .ACTIVE
    lastSyncError := none
    refreshTokenEnc := refreshTokenEnc.or a.refreshTokenEnc
    providerMetadata := result.metadata.or a.providerMetadata }

/-- The row that `refresh` writes once the provider has answered with tokens. -/
def withTokens (d : AccountDraw) (tokens : OAuthTokens) (a : MailAccount) : MailAccount :=
  { a with
    accessTokenEnc := cfg.encrypt d.accessNonce .access tokens.accessToken
    accessTokenExpires := tokens.expiresAt
    status := .ACTIVE
    lastSyncError := none
    refreshTokenEnc :=
      ((truthy tokens.refreshToken).map (cfg.encrypt d.refreshNonce .refresh)).or
      a.refreshTokenEnc }

def withStatus (status : AccountStatus) (reason : String) (a : MailAccount) : MailAccount :=
  { a with status, lastSyncError := some reason }

def withCursor (cursor : Option String) (a : MailAccount) : MailAccount :=
  { a with syncCursor := cursor }

def withStamp (now : ℕ) (a : MailAccount) : MailAccount :=
  { a with lastSyncedAt := some now, lastSyncError := none }

def withError (reason : String) (a : MailAccount) : MailAccount :=
  { a with lastSyncError := some reason }

/-- `mailAccount.update` by id; Prisma throws when there is no such row. -/
def updateAccount (s : AccountStore) (id : String) (set : MailAccount → MailAccount) :
    Option AccountStore :=
  if s.accounts.any (·.id = id) then
    some { s with accounts := Table.updateMany (·.id = id) set s.accounts }
  else none

/-- A statement that updates the row and goes on, or throws. -/
def updateThen (s : AccountStore) (id : String) (set : MailAccount → MailAccount)
    (next thrown : AccountCall) :
    Option (AccountStore × AccountCall) :=
  match updateAccount s id set with
  | some s' => some (s', next)
  | none => some (s, thrown)

/-- The upsert of `connect`. -/
def upsert (s : AccountStore) (userId : String) (provider : MailProvider) (result : ConnectResult)
    (d : AccountDraw) :
    Option (AccountStore × AccountCall) :=
  let accessTokenEnc := cfg.encrypt d.accessNonce .access result.tokens.accessToken
  let refreshTokenEnc := (truthy result.tokens.refreshToken).map (cfg.encrypt d.refreshNonce .refresh)
  let key := sameMailbox userId provider result.providerAccountId
  match s.accounts.find? key with
  | some account =>
    some ({ s with accounts :=
      Table.updateMany key (reconnect accessTokenEnc refreshTokenEnc result) s.accounts },
      .done (.connected (reconnect accessTokenEnc refreshTokenEnc result account)))
  | none =>
    if d.id ∈ s.ids then none
    else
      let account : MailAccount :=
        { id := d.id, userId, provider, providerAccountId := result.providerAccountId,
          emailAddress := result.emailAddress, status := .ACTIVE, accessTokenEnc,
          accessTokenExpires := result.tokens.expiresAt, refreshTokenEnc, scopes :=
            result.tokens.scopes,
          providerMetadata := result.metadata, syncCursor := none, lastSyncedAt :=
            none, lastSyncError := none }
      some ({ s with accounts := s.accounts ++ [account], ids := d.id :: s.ids },
        .done (.connected account))

/-- One statement or one request to the provider. -/
def accountStatement (s : AccountStore) : AccountCall → Answer → Option (AccountStore × AccountCall)
  | .connectUpsert userId provider result, .ok d => upsert cfg s userId provider result d
  | .connectUpsert _ _ _, .failed message => some (s, .done (.threw message))
  | .previewFind userId accountId, .ok _ =>
    match s.accounts.find? fun a => a.id = accountId && a.userId = userId with
    | some account => some (s, getConnection cfg s.now .preview account)
    | none => some (s, .done (.notFound "Account not found"))
  | .previewFind _ _, .failed message => some (s, .done (.threw message))
  | .syncFind accountId, .ok _ =>
    match s.accounts.find? (·.id = accountId) with
    | some account =>
      if account.status ≠ .ACTIVE then
        some (s, .done (.unrecoverable ("Account " ++ accountId ++ " is " ++ account.status.name ++
          "; reconnection required")))
      else some (s, getConnection cfg s.now .sync account)
    | none => some (s, .done (.unrecoverable ("Account " ++ accountId ++ " no longer exists")))
  | .syncFind _, .failed message => some (s, .done (.threw message))
  | .refresh origin account _, .tokens tokens => some (s, .persist origin account tokens)
  | .refresh origin account refreshToken, .revoked message =>
    some ({ s with revoked := refreshToken :: s.revoked }, .markReauthRequired origin account message)
  | .refresh origin account _, .failed message => some (s, throwTo origin account message)
  | .persist origin account tokens, .ok d =>
    updateThen s account.id (withTokens cfg d tokens)
      (withConnection origin account tokens.accessToken)
      (throwTo origin account "Record to update not found")
  | .persist origin account _, .failed message => some (s, throwTo origin account message)
  | .markReauthRequired origin account reason, .ok _ =>
    updateThen s account.id (withStatus .REAUTH_REQUIRED reason)
      (throwTo origin account "Account requires reconnection")
      (throwTo origin account "Record to update not found")
  | .markReauthRequired origin account _, .failed message => some (s, throwTo origin account message)
  | .syncBody account, .cursor cursor =>
    updateThen s account.id (withCursor cursor) (.syncBody account)
      (.syncError account.id "Record to update not found")
  | .syncBody account, .ok _ => some (s, .syncStamp account.id)
  | .syncBody account, .failed message => some (s, .syncError account.id message)
  | .syncStamp accountId, .ok _ =>
    updateThen s accountId (withStamp s.now) (.done .synced)
      (.syncError accountId "Record to update not found")
  | .syncStamp accountId, .failed message => some (s, .syncError accountId message)
  | .syncError accountId reason, .ok _ =>
    updateThen s accountId (withError reason) (.done (.threw reason))
      (.done (.threw "Record to update not found"))
  | .syncError _ _, .failed message => some (s, .done (.threw message))
  | _, _ => none

/-- Connects, previews and syncs, interleaved; the environment lets time pass. -/
def accounts : Program AccountStore AccountRequest AccountCall Answer ℕ where
  start := startAccount cfg
  statement := accountStatement cfg
  environment := fun s ms => some { s with now := s.now + ms }

/-- A deployment before the first mailbox is connected. -/
def NoAccounts (p : Pool AccountStore AccountCall) : Prop :=
  p.calls = [] ∧ p.store.accounts = []

end Finlytic.EmailIngestion
