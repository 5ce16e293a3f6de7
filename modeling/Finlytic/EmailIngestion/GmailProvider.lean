import Finlytic.EmailIngestion.ZohoProvider
import Finlytic.Lib.Base64

/-! `GmailProvider`, with the calls of `fetch` that it makes. What Google answers is
up to a world that has seen the calls so far. -/

namespace Finlytic.EmailIngestion.Gmail

open Lib Calling
open Zoho (MessageListPage ProviderError ProviderProfile unreadable)

def AUTH_ENDPOINT : String := "https://accounts.google.com/o/oauth2/v2/auth"

def TOKEN_ENDPOINT : String := "https://oauth2.googleapis.com/token"

def API_BASE : String := "https://gmail.googleapis.com/gmail/v1/users/me"

def GMAIL_READONLY : String := "https://www.googleapis.com/auth/gmail.readonly"

def SCOPES : List String := ["openid", "email", GMAIL_READONLY]

def requiredScopes : List String := [GMAIL_READONLY]

/-! ### Calls and answers -/

structure FetchCall where
  url : List Char
  method : String
  headers : List (String × String)
  body : Option (List Char)
  deriving DecidableEq

structure GoogleTokenResponse where
  accessToken : String
  refreshToken : Option String
  expiresIn : ℕ
  scope : String
  idToken : Option String

structure GmailProfileResponse where
  emailAddress : String
  historyId : String

structure GmailListResponse where
  /-- The ids of the messages. -/
  messages : Option (List String)
  nextPageToken : Option String

structure GmailRawMessageResponse where
  id : String
  threadId : String
  labelIds : Option (List String)
  snippet : Option String
  sizeEstimate : Option ℕ
  internalDate : String
  raw : String

structure GmailHistoryResponse where
  /-- The entries, each with the ids of `messagesAdded`. -/
  history : Option (List (Option (List String)))
  nextPageToken : Option String
  historyId : Option String

/-- A response. Its body is read as one of five payloads; `none` where reading it throws. -/
structure Reply where
  status : ℕ
  text : Option String
  token : Option GoogleTokenResponse
  profile : Option GmailProfileResponse
  list : Option GmailListResponse
  message : Option GmailRawMessageResponse
  history : Option GmailHistoryResponse

def Reply.ok (response : Reply) : Bool := 200 ≤ response.status && response.status ≤ 299

/-- The world around the adapter, what JSON makes of the claims of an id token (`sub` and
`email`), and what `new Date(Number(text))` holds. -/
structure Surroundings where
  world : List FetchCall → Except String Reply
  parseClaims : List UInt8 → Option (String × String)
  dateOf : String → ℤ
  now : ℕ
  clientId : String
  clientSecret : String
  redirectUri : String

variable (g : Surroundings)

/-! ### Authorization -/

def authorizationParams (state : String) : List (String × String) :=
  [("client_id", g.clientId), ("redirect_uri", g.redirectUri), ("response_type", "code"),
    ("scope", " ".intercalate SCOPES),
    ("access_type", "offline"), ("prompt", "consent"), ("include_granted_scopes", "true"),
      ("state", state)]

def buildAuthorizationUrl (state : String) : List Char :=
  AUTH_ENDPOINT.toList ++ '?' :: Form.serialize (authorizationParams g state)

/-! ### Tokens -/

/-- `await fetch(…)`. -/
def fetch (c : FetchCall) : Calling FetchCall ProviderError Reply := do
  match ← call g.world c with
  | .error detail => raise (.thrown detail)
  | .ok response => pure response

def tokenFields (fields : List (String × String)) : List (String × String) :=
  fields ++ [("client_id", g.clientId), ("client_secret", g.clientSecret)]

def tokenCall (fields : List (String × String)) : FetchCall where
  url := TOKEN_ENDPOINT.toList
  method := "POST"
  headers := [("Content-Type", "application/x-www-form-urlencoded")]
  body := some (Form.serialize (tokenFields g fields))

/-- Only `invalid_grant` says that the grant is gone. -/
def refused (detail : String) : ProviderError :=
  if includes detail.toList "invalid_grant".toList then .authRevoked "Google" "invalid_grant"
  else .badGateway "Could not complete Google authorization"

def readToken (response : Reply) : Calling FetchCall ProviderError GoogleTokenResponse :=
  if response.ok then
    match response.token with
    | none => raise unreadable
    | some payload => pure payload
  else
    match response.text with
    | none => raise unreadable
    | some detail => raise (refused detail)

def postToken (fields : List (String × String)) :
    Calling FetchCall ProviderError GoogleTokenResponse := do
  let response ← fetch g (tokenCall g fields)
  readToken response

def toTokens (payload : GoogleTokenResponse) : OAuthTokens where
  accessToken := payload.accessToken
  refreshToken := payload.refreshToken
  expiresAt := g.now + payload.expiresIn * 1000
  scopes := (payload.scope.toList.splitOn ' ').map String.ofList

/-- A token of one part has no payload, and `Buffer.from` throws. -/
def identityFromIdToken (idToken : Option String) :
    Calling FetchCall ProviderError (String × String) :=
  match truthy idToken with
  | none => raise (.badGateway "Google did not return an id_token")
  | some idToken =>
    match idToken.toList.splitOn '.' with
    | _ :: payloadPart :: _ =>
      match g.parseClaims (Base64.decode payloadPart) with
      | none => raise unreadable
      | some claims => pure claims
    | _ => raise unreadable

def exchangeCode (code : String) : Calling FetchCall ProviderError ConnectResult := do
  let payload ← postToken g
    [("code", code), ("redirect_uri", g.redirectUri), ("grant_type", "authorization_code")]
  let identity ← identityFromIdToken g payload.idToken
  pure ⟨toTokens g payload, identity.1, identity.2, none⟩

def refreshAccessToken (refreshToken : String) : Calling FetchCall ProviderError OAuthTokens := do
  let payload ← postToken g [("refresh_token", refreshToken), ("grant_type", "refresh_token")]
  pure (toTokens g payload)

/-! ### Reading mail -/

def requestCall (accessToken : String) (path : List Char) : FetchCall where
  url := API_BASE.toList ++ path
  method := "GET"
  headers := [("Authorization", "Bearer " ++ accessToken)]
  body := none

def request (accessToken : String) (path : List Char) : Calling FetchCall ProviderError Reply :=
  fetch g (requestCall accessToken path)

/-- What `handle` throws on a response that is not a success. -/
def rejected (status : ℕ) : ProviderError :=
  if status = 401 then .unauthorized "Gmail rejected the access token"
  else if status = 429 || status = 403 then .serviceUnavailable "Gmail rate limit exceeded"
  else .badGateway "Gmail API request failed"

/-- `handle`, with the reading of the payload it is for. -/
def handle {α : Type} (read : Reply → Option α) (response : Reply) :
    Calling FetchCall ProviderError α :=
  if response.ok then
    match read response with
    | none => raise unreadable
    | some data => pure data
  else
    match response.text with
    | none => raise unreadable
    | some _ => raise (rejected response.status)

def apiGet {α : Type} (read : Reply → Option α) (accessToken : String) (path : List Char) :
    Calling FetchCall ProviderError α := do
  let response ← request g accessToken path
  handle read response

def getProfile (connection : ProviderConnection) :
    Calling FetchCall ProviderError ProviderProfile := do
  let data ← apiGet g (·.profile) connection.accessToken "/profile".toList
  pure ⟨data.emailAddress, data.historyId⟩

/-- `if (pageToken) params.set('pageToken', pageToken)`. -/
def withPageToken (params : List (String × String)) (pageToken : Option String) :
    List (String × String) :=
  match truthy pageToken with
  | none => params
  | some pageToken => Form.set params "pageToken" pageToken

def listParams (pageToken : Option String) (maxResults : ℕ) : List (String × String) :=
  withPageToken [("maxResults", toString maxResults)] pageToken

def listMessageIds (connection : ProviderConnection) (pageToken : Option String) (maxResults : ℕ) :
    Calling FetchCall ProviderError MessageListPage := do
  let data ← apiGet g (·.list) connection.accessToken
    ("/messages?".toList ++ Form.serialize (listParams pageToken maxResults))
  pure ⟨data.messages.getD [], data.nextPageToken⟩

def rawPath (providerMessageId : String) : List Char :=
  "/messages/".toList ++ (providerMessageId.toList ++ "?format=RAW".toList)

/-- `none` where Gmail no longer has the message. -/
def fetchRawMessage (connection : ProviderConnection) (providerMessageId : String) :
    Calling FetchCall ProviderError (Option RawMessage) := do
  let response ← request g connection.accessToken (rawPath providerMessageId)
  if response.status = 404 then pure none
  else
    let data ← handle (·.message) response
    pure (some ⟨data.id, some data.threadId, data.labelIds.getD [], data.snippet, data.sizeEstimate,
      some (g.dateOf data.internalDate), Base64.decode data.raw.toList⟩)

structure MessageChangePage where
  messageIds : List String
  nextPageToken : Option String
  cursor : Option String
  cursorInvalid : Bool

def historyParams (cursor : String) (pageToken : Option String) : List (String × String) :=
  withPageToken [("startHistoryId", cursor), ("historyTypes", "messageAdded")] pageToken

/-- A history id that Gmail no longer serves is answered with 404. -/
def listChangedMessageIds (connection : ProviderConnection) (cursor : String)
    (pageToken : Option String) :
    Calling FetchCall ProviderError MessageChangePage := do
  let response ← request g connection.accessToken
    ("/history?".toList ++ Form.serialize (historyParams cursor pageToken))
  if response.status = 404 then pure ⟨[], none, none, true⟩
  else
    let data ← handle (·.history) response
    pure ⟨(data.history.getD []).flatMap fun entry => entry.getD [], data.nextPageToken,
      data.historyId, false⟩

end Finlytic.EmailIngestion.Gmail
