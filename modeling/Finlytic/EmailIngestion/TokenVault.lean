import Finlytic.EmailIngestion.Accounts

/-! The tokens of a mailbox over any sequence of `connect` and `getConnection`
calls, one at a time, each on the row as it is. Next to the table stands a history
of the tokens that successful calls have delivered. -/

namespace Finlytic.EmailIngestion

open Lib

/-! ### Whole calls -/

/-- The unique key of a mailbox. -/
abbrev MailboxKey := String × MailProvider × String

def keyOf (a : MailAccount) : MailboxKey := (a.userId, a.provider, a.providerAccountId)

/-- What the provider says to a refresh. -/
inductive RefreshReply where
  | tokens (t : OAuthTokens)
  | revoked (message : String)
  | failed (message : String)

variable (cfg : AccountsConfig)

/-- The statements of one call, in a row. -/
def runCall (s : AccountStore) (c : AccountCall) : List Answer → Option (AccountStore × AccountCall)
  | [] => some (s, c)
  | answer :: answers => (accountStatement cfg s c answer).bind fun next =>
    runCall next.1 next.2 answers

/-- How the steps that are left of a call turn out. -/
def answersTo (reply : RefreshReply) (d : AccountDraw) : AccountCall → List Answer
  | .connectUpsert _ _ _ => [.ok d]
  | .markReauthRequired _ _ _ => [.ok d]
  | .refresh _ _ _ =>
    match reply with
    | .tokens t => [.tokens t, .ok d]
    | .revoked message => [.revoked message, .ok d]
    | .failed message => [.failed message]
  | _ => []

/-- The tokens that a call delivers, from this point on. -/
def deliveredBy (reply : RefreshReply) : AccountCall → Option (MailboxKey × OAuthTokens)
  | .connectUpsert userId provider result =>
    some ((userId, provider, result.providerAccountId), result.tokens)
  | .refresh _ account _ =>
    match reply with
    | .tokens t => some (keyOf account, t)
    | _ => none
  | _ => none

/-- The table, and the deliveries so far, the latest first. -/
structure Vault where
  store : AccountStore
  delivered : List (MailboxKey × OAuthTokens)

def complete (v : Vault) (reply : RefreshReply) (d : AccountDraw) (c : AccountCall) :
    Option Vault :=
  (runCall cfg v.store c (answersTo reply d c)).map fun done =>
    ⟨done.1, (deliveredBy reply c).toList ++ v.delivered⟩

inductive VaultAct where
  | connect (userId : String) (provider : MailProvider) (result : ConnectResult) (d : AccountDraw)
  | getConnection (accountId : String) (reply : RefreshReply) (d : AccountDraw)
  | tick (ms : ℕ)

def vaultStep (v : Vault) : VaultAct → Option Vault
  | .connect userId provider result d =>
    complete cfg v (.failed "") d (startAccount cfg (.connect userId provider result))
  | .getConnection accountId reply d =>
    (v.store.accounts.find? (·.id = accountId)).bind fun account =>
      complete cfg v reply d (getConnection cfg v.store.now .preview account)
  | .tick ms => some { v with store := { v.store with now := v.store.now + ms } }

/-! ### What is stored -/

/-- The latest delivery for a mailbox. -/
def lastTokens (v : Vault) (key : MailboxKey) : Option OAuthTokens :=
  (v.delivered.find? (·.1 = key)).map (·.2)

/-- The latest refresh token delivered for a mailbox. -/
def lastRefreshToken (v : Vault) (key : MailboxKey) : Option String :=
  v.delivered.findSome? fun entry => if entry.1 = key then entry.2.refreshToken else none

/-- The row opens to the latest tokens, and a refresh token is never lost. -/
structure Opens (v : Vault) (a : MailAccount) : Prop where
  access : ∃ t, lastTokens v (keyOf a) = some t ∧ cfg.decrypt a.accessTokenEnc .access =
    .ok t.accessToken ∧
    a.accessTokenExpires = t.expiresAt
  refresh : ∀ refreshToken, lastRefreshToken v (keyOf a) = some refreshToken →
    ∃ envelope, a.refreshTokenEnc = some envelope ∧ cfg.decrypt envelope .refresh = .ok refreshToken
  absent : lastRefreshToken v (keyOf a) = none → a.refreshTokenEnc = none

/-- Providers deliver tokens that are not empty. -/
def NonEmpty (tokens : OAuthTokens) : Prop := tokens.accessToken ≠ "" ∧ tokens.refreshToken ≠ some ""

def DeliversNonEmpty : VaultAct → Prop
  | .connect _ _ result _ => NonEmpty result.tokens
  | .getConnection _ (.tokens t) _ => NonEmpty t
  | _ => True

/-- A partial consent, a transient failure, or a revoked grant. -/
def Harmless : VaultAct → Prop
  | .connect _ provider result _ => ¬ ∀ scope ∈ cfg.requiredScopes provider, scope ∈
    result.tokens.scopes
  | .getConnection _ (.tokens _) _ => False
  | .getConnection _ _ _ => True
  | .tick _ => False

/-- The token columns and the cursor. -/
def vaultColumns (a : MailAccount) : String × String × ℕ × Option String × Option String :=
  (a.id, a.accessTokenEnc, a.accessTokenExpires, a.refreshTokenEnc, a.syncCursor)

/-- A deployment before the first mailbox is connected. -/
def EmptyVault (v : Vault) : Prop := v.store.accounts = [] ∧ v.delivered = []

end Finlytic.EmailIngestion
