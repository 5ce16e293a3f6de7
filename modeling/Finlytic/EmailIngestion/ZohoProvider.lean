import Finlytic.EmailIngestion.Accounts
import Finlytic.EmailIngestion.Ingestion
import Finlytic.Lib.Calls
import Finlytic.Lib.FormUrlencoded
import Finlytic.Lib.Text

/-! `ZohoProvider`, with the calls of `fetch` that it makes. The table of data
centres is an object literal, so that a lookup also finds what every object
inherits. What Zoho answers is up to a world that has seen the calls so far. -/

namespace Finlytic.EmailIngestion.Zoho

open Lib Calling

/-! ### Data centres -/

structure DataCentre where
  accounts : String
  mail : String
  deriving DecidableEq

/-- `DATA_CENTRES`. -/
def dataCentres : List (String × DataCentre) :=
  [("us", ⟨"https://accounts.zoho.com", "https://mail.zoho.com"⟩),
    ("eu", ⟨"https://accounts.zoho.eu", "https://mail.zoho.eu"⟩),
    ("in", ⟨"https://accounts.zoho.in", "https://mail.zoho.in"⟩),
    ("au", ⟨"https://accounts.zoho.com.au", "https://mail.zoho.com.au"⟩),
    ("jp", ⟨"https://accounts.zoho.jp", "https://mail.zoho.jp"⟩),
    ("ca", ⟨"https://accounts.zohocloud.ca", "https://mail.zohocloud.ca"⟩),
    ("sa", ⟨"https://accounts.zoho.sa", "https://mail.zoho.sa"⟩),
      ("uk", ⟨"https://accounts.zoho.uk", "https://mail.zoho.uk"⟩)]

/-- The names that an object literal inherits from `Object.prototype`. -/
def inheritedNames : List String :=
  ["constructor", "__defineGetter__", "__defineSetter__", "hasOwnProperty", "__lookupGetter__",
    "__lookupSetter__",
    "isPrototypeOf", "propertyIsEnumerable", "toString", "valueOf", "__proto__", "toLocaleString"]

/-- A value under a key: a row of the table, or something inherited. -/
inductive Found where
  | row (centre : DataCentre)
  | inherited
  deriving DecidableEq

/-- `DATA_CENTRES[key]`; the literal's own properties come first. -/
def findCentre (key : String) : Option Found :=
  match dataCentres.lookup key with
  | some centre => some (.row centre)
  | none => if key ∈ inheritedNames then some .inherited else none

structure Centre where
  key : String
  accounts : Option String
  mail : Option String

/-- `{ key, ...centre }`; what is inherited has no properties of its own to spread. -/
def Found.spread (key : String) : Found → Centre
  | .row centre => ⟨key, some centre.accounts, some centre.mail⟩
  | .inherited => ⟨key, none, none⟩

/-- A value in a template literal. -/
def printed (value : Option String) : String := value.getD "undefined"

/-! ### Calls and answers -/

structure FetchCall where
  url : String
  method : String
  headers : List (String × String)
  body : List (String × String)

structure TokenResponse where
  accessToken : Option String
  refreshToken : Option String
  expiresIn : Option ℕ
  scope : Option String
  error : Option String

structure ZohoAccount where
  accountId : String
  primaryEmailAddress : String

structure ZohoMessage where
  messageId : String
  receivedTime : String
  deriving DecidableEq

/-- A response. Its body is read as one of three payloads; `none` where reading it throws. -/
structure Reply where
  status : ℕ
  text : Option String
  token : Option TokenResponse
  accounts : Option (Option (List ZohoAccount))
  messages : Option (List ZohoMessage)

def Reply.ok (response : Reply) : Bool := 200 ≤ response.status && response.status ≤ 299

inductive ProviderError where
  | badRequest (message : String)
  | unauthorized (message : String)
  | serviceUnavailable (message : String)
  | badGateway (message : String)
  | authRevoked (provider detail : String)
  /-- What `fetch` or the reading of a body throws. -/
  | thrown (detail : String)
  deriving DecidableEq

/-- The world around the adapter: what `fetch` answers or rejects with, given all calls up to this
one. -/
structure Surroundings where
  world : List FetchCall → Except String Reply
  toLowerCase : String → String
  now : ℕ
  clientId : String
  clientSecret : String
  redirectUri : String

variable (z : Surroundings)

def unreadable : ProviderError := .thrown "the body cannot be read"

/-- Resolves a region against the table rather than building a URL from it. -/
def resolveLocation (location : Option String) : Except ProviderError Centre :=
  match truthy location with
  | none => .error
    (.badRequest "Zoho did not return a location; start authorization at accounts.zoho.com")
  | some location =>
    let key := z.toLowerCase location
    match findCentre key with
    | none => .error (.badRequest ("Unknown Zoho data centre '" ++ location ++ "'"))
    | some found => .ok (found.spread key)

/-- Goes on with the region, or fails before any call. -/
def withCentre {α : Type} (location : Option String)
    (use : Centre → Calling FetchCall ProviderError α) :
    Calling FetchCall ProviderError α :=
  match resolveLocation z location with
  | .error e => raise e
  | .ok centre => use centre

variable {z} {α : Type} {location : Option String}
  {use : Centre → Calling FetchCall ProviderError α}

theorem withCentre_ok {c : Centre} (h : resolveLocation z location = .ok c) :
    withCentre z location use = use c := by
  unfold withCentre
  rw [h]

theorem withCentre_error {e : ProviderError} (h : resolveLocation z location = .error e) :
    withCentre z location use = raise e := by
  unfold withCentre
  rw [h]

variable (z)

/-! ### Tokens -/

def SCOPES : List String := ["ZohoMail.accounts.READ", "ZohoMail.messages.READ"]

/-- `split(/[\s,]+/)`: a run of separators is one. -/
def splitScopes (scope : String) : List String :=
  match scope.toList.splitOnP fun c => isSpace c || c = ',' with
  | [] => []
  | first :: more =>
    (first :: (more.dropLast.filter (· ≠ []) ++ more.getLast?.toList)).map String.ofList

def toTokens (payload : TokenResponse) : OAuthTokens where
  accessToken := payload.accessToken.getD ""
  refreshToken := payload.refreshToken
  expiresAt := z.now + payload.expiresIn.getD 3600 * 1000
  scopes := ((truthy payload.scope).map splitScopes).getD SCOPES

/-- What a token endpoint's answer that holds no token throws. -/
def refused (payload : TokenResponse) : ProviderError :=
  match payload.error with
  | some "invalid_grant" => .authRevoked "Zoho" "invalid_grant"
  | some "invalid_code" => .authRevoked "Zoho" "invalid_code"
  | _ => .badGateway "Could not complete Zoho authorization"

def readToken (response : Reply) : Calling FetchCall ProviderError TokenResponse :=
  match response.token with
  | none => raise unreadable
  | some payload =>
    if !response.ok || (truthy payload.error).isSome || (truthy payload.accessToken).isNone then
      raise (refused payload)
    else pure payload

/-- `await fetch(…)`. -/
def fetch (c : FetchCall) : Calling FetchCall ProviderError Reply := do
  match ← call z.world c with
  | .error detail => raise (.thrown detail)
  | .ok response => pure response

def tokenCall (accountsDomain : Option String) (fields : List (String × String)) : FetchCall where
  url := printed accountsDomain ++ "/oauth/v2/token"
  method := "POST"
  headers := [("Content-Type", "application/x-www-form-urlencoded")]
  body := fields ++ [("client_id", z.clientId), ("client_secret", z.clientSecret)]

def postToken (accountsDomain : Option String) (fields : List (String × String)) :
    Calling FetchCall ProviderError TokenResponse := do
  let response ← fetch z (tokenCall z accountsDomain fields)
  readToken response

/-! ### Reading mail -/

def apiCall (url accessToken : String) : FetchCall where
  url := url
  method := "GET"
  headers := [("Authorization", "Zoho-oauthtoken " ++ accessToken)]
  body := []

def readIdentity (response : Reply) : Calling FetchCall ProviderError ZohoAccount :=
  if response.ok then
    match response.accounts with
    | none => raise unreadable
    | some data =>
      match data.bind List.head? with
      | none => raise (.badGateway "Zoho returned no accounts")
      | some account => pure account
  else
    match response.text with
    | none => raise unreadable
    | some _ => raise (.badGateway "Could not read the Zoho account")

/-- The account id and the email address. -/
def fetchIdentity (mailDomain : Option String) (accessToken : String) :
    Calling FetchCall ProviderError (String × String) := do
  let response ← fetch z (apiCall (printed mailDomain ++ "/api/accounts") accessToken)
  let account ← readIdentity response
  pure (account.accountId, account.primaryEmailAddress)

def locationOf (connection : ProviderConnection) : Option String :=
  connection.metadata.lookup "location"

def requestCall (centre : Centre) (connection : ProviderConnection) (path : String) : FetchCall :=
  apiCall (printed centre.mail ++ "/api/accounts/" ++ connection.providerAccountId ++ path)
    connection.accessToken

/-- A transport failure is one that may pass. -/
def request (connection : ProviderConnection) (path : String) :
    Calling FetchCall ProviderError Reply :=
  withCentre z (locationOf connection) fun centre => do
    match ← call z.world (requestCall centre connection path) with
    | .error detail => raise (.serviceUnavailable ("Zoho transport failure: " ++ detail))
    | .ok response => pure response

/-- `handle`, where the payload is a page of messages. -/
def handle (response : Reply) : Calling FetchCall ProviderError (List ZohoMessage) :=
  if response.ok then
    match response.messages with
    | none => raise unreadable
    | some data => pure data
  else
    match response.text with
    | none => raise unreadable
    | some _ =>
      if response.status = 401 then raise (.unauthorized "Zoho rejected the access token")
      else if response.status = 429 then raise (.serviceUnavailable "Zoho rate limit exceeded")
      else raise (.badGateway "Zoho API request failed")

def view (start limit : ℕ) : String :=
  "/messages/view?start=" ++ toString start ++ "&limit=" ++ toString limit ++
    "&sortBy=date&sortorder=false"

def fetchView (connection : ProviderConnection) (start limit : ℕ) :
    Calling FetchCall ProviderError (List ZohoMessage) := do
  let response ← request z connection (view start limit)
  handle response

/-! ### The adapter -/

/-- The region of the redirect is looked up and stored under its key. -/
def exchangeCode (code : String) (location : Option String) :
    Calling FetchCall ProviderError ConnectResult :=
  withCentre z location fun centre => do
    let payload ← postToken z centre.accounts
      [("code", code), ("redirect_uri", z.redirectUri), ("grant_type", "authorization_code")]
    let identity ← fetchIdentity z centre.mail (toTokens z payload).accessToken
    pure ⟨toTokens z payload, identity.1, identity.2, some [("location", centre.key)]⟩

def refreshAccessToken (refreshToken : String) (metadata : ProviderMetadata) :
    Calling FetchCall ProviderError OAuthTokens :=
  withCentre z (metadata.lookup "location") fun centre => do
    let payload ← postToken z centre.accounts
      [("refresh_token", refreshToken), ("grant_type", "refresh_token")]
    pure (toTokens z payload)

structure ProviderProfile where
  emailAddress : String
  cursor : String

def getProfile (connection : ProviderConnection) :
    Calling FetchCall ProviderError ProviderProfile :=
  withCentre z (locationOf connection) fun centre => do
    let identity ← fetchIdentity z centre.mail connection.accessToken
    let data ← fetchView z connection 1 1
    pure ⟨identity.2, (data.head?.map (·.receivedTime)).getD "0"⟩

structure ChangePage where
  messageIds : List String
  nextPageToken : Option String
  cursor : Option String

/-- `Number` of a page token; tokens are made by `String(start + limit)`. -/
def tokenNumber (pageToken : String) : ℕ := Nat.ofDigitChars 10 pageToken.toList 0

/-- What `listChangedMessageIds` makes of a page. -/
def changePage {ν : Type} [LE ν] [DecidableLE ν] (number : String → ν) (cursor : String)
    (start limit : ℕ) (data : List ZohoMessage) : ChangePage :=
  let fresh := data.filter fun message => decide (number cursor ≤ number message.receivedTime)
  { messageIds := fresh.map (·.messageId)
    nextPageToken := if fresh.length = data.length ∧ data.length = limit then
      some (toString (start + limit)) else none
    cursor := if start = 1 then data.head?.map (·.receivedTime) else none }

def listChangedMessageIds {ν : Type} [LE ν] [DecidableLE ν] (number : String → ν)
    (connection : ProviderConnection)
    (cursor : String) (pageToken : Option String) : Calling FetchCall ProviderError ChangePage := do
  let start := tokenNumber (pageToken.getD "1")
  let data ← fetchView z connection start 200
  pure (changePage number cursor start 200 data)

structure MessageListPage where
  messageIds : List String
  nextPageToken : Option String

def listMessageIds (connection : ProviderConnection) (pageToken : Option String) (maxResults : ℕ) :
    Calling FetchCall ProviderError MessageListPage := do
  let start := tokenNumber (pageToken.getD "1")
  let limit := min maxResults 200
  let data ← fetchView z connection start limit
  pure ⟨data.map (·.messageId), if data.length = limit then some (toString (start + limit)) else none⟩

/-- `handle`, with the reading of the payload it is for. -/
def handleAs {α : Type} (read : Reply → Option α) (response : Reply) :
    Calling FetchCall ProviderError α :=
  if response.ok then
    match read response with
    | none => raise unreadable
    | some data => pure data
  else
    match response.text with
    | none => raise unreadable
    | some _ =>
      if response.status = 401 then raise (.unauthorized "Zoho rejected the access token")
      else if response.status = 429 then raise (.serviceUnavailable "Zoho rate limit exceeded")
      else raise (.badGateway "Zoho API request failed")

/-- `none` where Zoho no longer has the message. -/
def fetchRawMessage (content : Reply → Option String) (connection : ProviderConnection)
    (providerMessageId : String) :
    Calling FetchCall ProviderError (Option RawMessage) := do
  let response ← request z connection ("/messages/" ++ providerMessageId ++ "/originalmessage")
  if response.status = 404 then pure none
  else
    let content ← handleAs content response
    pure (some ⟨providerMessageId, none, [], none, none, none, Jws.utf8Octets content.toList⟩)

/-! ### Authorization -/

def authorizationParams (state : String) : List (String × String) :=
  [("client_id", z.clientId), ("redirect_uri", z.redirectUri), ("response_type", "code"),
    ("scope", ",".intercalate SCOPES),
    ("access_type", "offline"), ("prompt", "consent"), ("state", state)]

/-- `home` is the configured accounts domain. -/
def buildAuthorizationUrl (home state : String) : List Char :=
  home.toList ++ ("/oauth/v2/auth?".toList ++ Form.serialize (authorizationParams z state))

end Finlytic.EmailIngestion.Zoho
