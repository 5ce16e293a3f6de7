import Finlytic.Gateway.Server

/-! The controllers of the two services as the Express router dispatches to them: a
path is matched without regard to case, one slash may follow it, and `HEAD` is
served by the handler of `GET`. -/

namespace Finlytic.Gateway

/-- One piece of a route path. -/
inductive Token where
  | word (w : List Char)
  | param (name : String)
  deriving DecidableEq

def lowerCase (text : List Char) : List Char := text.map Char.toLower

def Token.test : Token → List Char → Bool
  | .word w, piece => lowerCase piece = lowerCase w
  | .param _, piece => !piece.isEmpty

/-- A route path against the pieces of a path; a trailing slash leaves an empty piece. -/
def testTokens : List Token → List (List Char) → Bool
  | [], [] => true
  | [], [piece] => piece.isEmpty
  | t :: ts, piece :: pieces => t.test piece && testTokens ts pieces
  | _, _ => false

inductive Handler where
  | checkHealth
  | register | login | refresh | logout
  | me
  | listAccounts | events | preview | requestSync
  | authorize | callback
  | listMessages | getMessage | raw
  deriving DecidableEq

structure Endpoint where
  method : String
  path : List Token
  handler : Handler
  deriving DecidableEq

def pathTokens (path : String) : List Token :=
  (path.toList.splitOn '/').map fun piece =>
    match piece with
    | ':' :: name => .param (String.ofList name)
    | _ => .word piece

def userManagement : List Endpoint :=
  [⟨"GET", pathTokens "health", .checkHealth⟩,
    ⟨"GET", pathTokens "users/me", .me⟩,
    ⟨"POST", pathTokens "auth/register", .register⟩,
    ⟨"POST", pathTokens "auth/login", .login⟩,
    ⟨"POST", pathTokens "auth/refresh", .refresh⟩,
    ⟨"POST", pathTokens "auth/logout", .logout⟩]

def emailIngestion : List Endpoint :=
  [⟨"GET", pathTokens "health", .checkHealth⟩,
    ⟨"GET", pathTokens "accounts", .listAccounts⟩,
    ⟨"GET", pathTokens "accounts/events", .events⟩,
    ⟨"POST", pathTokens "accounts/:id/preview", .preview⟩,
    ⟨"POST", pathTokens "accounts/:id/sync", .requestSync⟩,
    ⟨"GET", pathTokens "oauth/:provider/authorize", .authorize⟩,
    ⟨"GET", pathTokens "oauth/:provider/callback", .callback⟩,
    ⟨"GET", pathTokens "accounts/:accountId/messages", .listMessages⟩,
    ⟨"GET", pathTokens "accounts/:accountId/messages/:messageId", .getMessage⟩,
    ⟨"GET", pathTokens "accounts/:accountId/messages/:messageId/raw", .raw⟩]

def endpoints : List Endpoint := userManagement ++ emailIngestion

def handles (declared method : String) : Bool :=
  lowerCase method.toList = lowerCase declared.toList ||
    (lowerCase method.toList = "head".toList && lowerCase declared.toList = "get".toList)

def Endpoint.accepts (e : Endpoint) (method : String) (pathname : List Char) : Bool :=
  handles e.method method &&
    match pathname.splitOn '/' with
    | [] :: pieces => testTokens e.path pieces
    | _ => false

/-- The first route that takes the request. -/
def dispatch (service : List Endpoint) (method : String) (pathname : List Char) : Option Endpoint :=
  service.find? fun e => e.accepts method pathname

/-- The limit that is meant for a handler. -/
def limitId : Handler → Option String
  | .login => some "auth-login"
  | .register => some "auth-register"
  | .refresh => some "auth-refresh"
  | .preview => some "account-actions"
  | .requestSync => some "account-actions"
  | .raw => some "message-raw"
  | _ => none

end Finlytic.Gateway
