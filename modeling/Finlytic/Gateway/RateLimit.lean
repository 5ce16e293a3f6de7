import Finlytic.Lib.Text

/-! The fixed-window rate limiter of the gateway. -/

namespace Finlytic.Gateway

/-- One piece of a path pattern between two slashes. -/
inductive Piece where
  | word (w : List Char)
  | oneOf (ws : List (List Char))
  | anything
  deriving DecidableEq

def Piece.test : Piece → List Char → Bool
  | .word w, piece => piece = w
  | .oneOf ws, piece => ws.contains piece
  | .anything, piece => !piece.isEmpty

/-- An anchored pattern `^/…/…$`, where `[^/]+` is `anything`. -/
def testPieces : List Piece → List (List Char) → Bool
  | [], [] => true
  | p :: ps, piece :: pieces => p.test piece && testPieces ps pieces
  | _, _ => false

def testPath (pattern : List Piece) (pathname : List Char) : Bool :=
  testPieces (.word [] :: pattern) (pathname.splitOn '/')

structure Rule where
  id : String
  method : Option String
  pattern : Option (List Piece)
  max : ℕ
  deriving DecidableEq

def apiWord : Piece := .word "api".toList

def rules : List Rule :=
  [⟨"auth-login", some "POST", some [apiWord, .word "auth".toList, .word "login".toList], 5⟩,
    ⟨"auth-register", some "POST", some [apiWord, .word "auth".toList, .word "register".toList], 5⟩,
    ⟨"auth-refresh", some "POST", some [apiWord, .word "auth".toList, .word "refresh".toList], 20⟩,
    ⟨"account-actions", some "POST",
      some [apiWord, .word "accounts".toList, .anything, .oneOf ["preview".toList, "sync".toList]],
        10⟩,
    ⟨"message-raw", some "GET",
      some [apiWord, .word "accounts".toList, .anything, .word "messages".toList, .anything,
        .word "raw".toList], 20⟩]

/-- Without a pattern the rule is `/.*/`. -/
def defaultRule : Rule := ⟨"default", none, none, 100⟩

def ruleFor (method : String) (pathname : List Char) : Rule :=
  (rules.find? fun rule =>
    (rule.method.all (· = method)) && rule.pattern.all fun pattern =>
      testPath pattern pathname).getD defaultRule

structure Counter where
  windowStart : ℤ
  count : ℕ
  deriving DecidableEq

structure Decision where
  allowed : Bool
  limit : ℕ
  remaining : ℕ
  retryAfterSeconds : ℤ
  deriving DecidableEq

/-- The counters, one for each key. -/
abbrev Counters := List (List Char × Counter)

def windowMs : ℤ := 60000

def setCounter (counters : Counters) (key : List Char) (counter : Counter) : Counters :=
  if counters.any (·.1 = key) then counters.map fun entry => if entry.1 = key then (key, counter)
    else entry
  else counters ++ [(key, counter)]

def counterKey (client : List Char) (rule : Rule) : List Char := client ++ '|' :: rule.id.toList

/-- `createRateLimiter(windowMs).check` -/
def checkWith (windowMs : ℤ) (counters : Counters) (client : List Char) (method : String)
    (pathname : List Char) (now : ℤ) : Decision × Counters :=
  let rule := ruleFor method pathname
  let key := counterKey client rule
  let opened : Decision × Counters :=
    (⟨true, rule.max, rule.max - 1, 0⟩, setCounter counters key ⟨now, 1⟩)
  match counters.lookup key with
  | none => opened
  | some counter =>
    if windowMs ≤ now - counter.windowStart then opened
    else
      let count := counter.count + 1
      let elapsed := now - counter.windowStart
      let allowed := decide (count ≤ rule.max)
      (⟨allowed, rule.max, rule.max - count, if allowed then 0 else -(-(windowMs - elapsed) / 1000)⟩,
        setCounter counters key ⟨counter.windowStart, count⟩)

/-- `createRateLimiter(windowMs).prune` -/
def pruneWith (windowMs : ℤ) (counters : Counters) (now : ℤ) : Counters :=
  counters.filter fun entry => !decide (windowMs ≤ now - entry.2.windowStart)

/-- The server takes the default length. -/
def check : Counters → List Char → String → List Char → ℤ → Decision × Counters := checkWith windowMs

end Finlytic.Gateway
