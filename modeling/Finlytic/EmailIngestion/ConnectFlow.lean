import Finlytic.EmailIngestion.GmailProvider
import Finlytic.EmailIngestion.SingleUse
import Finlytic.EmailIngestion.VaultInvariant

/-! `OAuthController`: a mailbox is connected by a browser that comes back from the
consent screen of a provider. The callback has no guard of its own; the user that
it connects a mailbox to is the one the state was issued to. Calls run
interleaved, beside previews and syncs, and any of them may stop halfway. -/

namespace Finlytic.EmailIngestion

open Lib

def MailProvider.name : MailProvider → String
  | .GMAIL => "GMAIL"
  | .ZOHO => "ZOHO"

/-- The adapters with their configuration, and what `toUpperCase` makes of a path segment. -/
structure ConnectConfig where
  accounts : AccountsConfig
  rt : StateRuntime
  gmail : Gmail.Surroundings
  zoho : Zoho.Surroundings
  zohoHome : String
  toUpperCase : String → String

variable (cfg : ConnectConfig)

/-- `MailProviderRegistry.resolve`; both providers have an adapter. -/
def resolveProvider (slug : String) : Option MailProvider :=
  [MailProvider.GMAIL, MailProvider.ZOHO].find? fun provider => provider.name = cfg.toUpperCase slug

def unknownProvider (slug : String) : String := "Unknown mail provider '" ++ slug ++ "'"

def buildAuthorizationUrl (provider : MailProvider) (state : String) : List Char :=
  match provider with
  | .GMAIL => Gmail.buildAuthorizationUrl cfg.gmail state
  | .ZOHO => Zoho.buildAuthorizationUrl cfg.zoho cfg.zohoHome state

/-- What the callback reads of its query. -/
structure CallbackQuery where
  code : Option String
  state : Option String
  error : Option String

structure ConnectStore where
  states : OAuthStates
  accounts : AccountStore

inductive ConnectOutcome where
  | authorizationUrl (url : List Char)
  | notFound (message : String)
  | badRequest (message : String)
  /-- What `verify` throws. -/
  | refused (message : String)

/-- Where a request stands. Past `verify` it holds what it redeemed. -/
inductive ConnectCall where
  | authorize (slug userId : String)
  | callback (slug : String) (query : CallbackQuery)
  | exchangeCode (redeemed : Redemption) (provider : MailProvider) (code : String)
  | account (redeemed : Option Redemption) (call : AccountCall)
  | done (outcome : ConnectOutcome)

inductive ConnectRequest where
  | authorize (slug userId : String)
  | callback (slug : String) (query : CallbackQuery)
  | preview (userId accountId : String)
  | syncAccount (accountId : String)

/-- How the next step turns out: a drawn nonce, the answer of the provider's token endpoint, or
what happens to a statement of `AccountsService`. -/
inductive ConnectAnswer where
  | drawn (nonce : String)
  | verified
  | exchanged (result : ConnectResult)
  | failed (message : String)
  | account (answer : Answer)

def startConnect : ConnectRequest → ConnectCall
  | .authorize slug userId => .authorize slug userId
  | .callback slug query => .callback slug query
  | .preview userId accountId => .account none (startAccount cfg.accounts (.preview userId accountId))
  | .syncAccount accountId => .account none (startAccount cfg.accounts (.syncAccount accountId))

/-- `authorize`, which runs without a pause. -/
def authorize (s : OAuthStates) (slug userId nonce : String) : Option (OAuthStates × ConnectCall) :=
  match resolveProvider cfg slug with
  | none => some (s, .done (.notFound (unknownProvider slug)))
  | some provider =>
    (stateStep cfg.rt s (.issue userId nonce)).map fun s' =>
      (s', .done (.authorizationUrl (buildAuthorizationUrl cfg provider
        (String.ofList (stateOf cfg.rt (Issue.claims ⟨userId, nonce, s.second⟩))))))

/-- `callback` up to its first pause, the exchange of the code. -/
def callback (s : OAuthStates) (slug : String) (query : CallbackQuery) :
    OAuthStates × ConnectCall :=
  match resolveProvider cfg slug with
  | none => (s, .done (.notFound (unknownProvider slug)))
  | some provider =>
    match truthy query.error with
    | some error => (s, .done (.badRequest (provider.name ++ " declined the request: " ++ error)))
    | none =>
      match truthy query.code, truthy query.state with
      | some code, some state =>
        match verifyState cfg.rt s state.toList with
        | (.error message, s') => (s', .done (.refused message))
        | (.ok userId, s') => (s', .exchangeCode ⟨state.toList, userId, s.second⟩ provider code)
      | _, _ => (s, .done (.badRequest "Missing code or state"))

/-- What a call has redeemed. -/
def ConnectCall.redeemed : ConnectCall → Option Redemption
  | .exchangeCode redeemed _ _ => some redeemed
  | .account redeemed _ => redeemed
  | _ => none

/-- The history keeps what a callback goes on with. -/
def remember (s : OAuthStates) (c : ConnectCall) : OAuthStates :=
  { s with accepted := c.redeemed.toList ++ s.accepted }

def connectStatement (s : ConnectStore) : ConnectCall → ConnectAnswer →
    Option (ConnectStore × ConnectCall)
  | .authorize slug userId, .drawn nonce =>
    (authorize cfg s.states slug userId nonce).map fun r => ({ s with states := r.1 }, r.2)
  | .callback slug query, .verified =>
    let next := callback cfg s.states slug query
    some ({ s with states := remember next.1 next.2 }, next.2)
  | .exchangeCode redeemed provider _, .exchanged result =>
    some (s, .account (some redeemed)
      (startAccount cfg.accounts (.connect redeemed.userId provider result)))
  | .exchangeCode redeemed _ _, .failed message =>
    some (s, .account (some redeemed) (.done (.threw message)))
  | .account redeemed call, .account answer =>
    (accountStatement cfg.accounts s.accounts call answer).map fun r =>
      ({ s with accounts := r.1 }, .account redeemed r.2)
  | _, _ => none

/-- Authorizations, callbacks, previews and syncs, interleaved; one clock for both stores. -/
def connections : Program ConnectStore ConnectRequest ConnectCall ConnectAnswer ℕ where
  start := startConnect cfg
  statement := connectStatement cfg
  environment s ms :=
    some ⟨{ s.states with now := s.states.now + ms },
    { s.accounts with now := s.accounts.now + ms }⟩

/-- No one else can sign a state. -/
def Genuine (s : ConnectStore) : ConnectCall → Prop
  | .callback _ query => ∀ state ∈ query.state, Unforged cfg.rt s.states (.verify state.toList)
  | _ => True

/-- A deployment before the first mailbox is connected. -/
def NoConnections (p : Pool ConnectStore ConnectCall) : Prop :=
  p.calls = [] ∧ NoStates p.store.states ∧ p.store.accounts.accounts = []

/-- The payload of the state that a call has redeemed. -/
def ConnectCall.payload (c : ConnectCall) : Option (List Char) := c.redeemed.map (·.payload)

end Finlytic.EmailIngestion
