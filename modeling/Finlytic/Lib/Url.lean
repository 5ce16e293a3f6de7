import Finlytic.Lib.Text

/-! URLs as the WHATWG standard resolves them: `new URL(input, base)`. The host
parser, which rests on the Unicode tables, is a parameter; credentials and
fragments are read and dropped. -/

namespace Finlytic.Lib.Whatwg

/-- The host parser for special schemes and the one for all others. `none` is a failure. -/
structure HostParser where
  domain : List Char → Option (List Char)
  plain : List Char → Option (List Char)

/-- A path is a list of segments, or a text for URLs like `mailto:x`. -/
inductive Path where
  | list (segments : List (List Char))
  | text (t : List Char)
  deriving DecidableEq

structure Url where
  scheme : String
  host : Option (List Char)
  port : Option ℕ
  path : Path
  query : Option (List Char)
  deriving DecidableEq

def Path.pathname : Path → List Char
  | .list segments => segments.flatMap ('/' :: ·)
  | .text t => t

def Url.pathname (u : Url) : List Char := u.path.pathname

def Url.search (u : Url) : List Char :=
  match u.query with
  | none => []
  | some [] => []
  | some q => '?' :: q

/-! ### Schemes -/

def specialSchemes : List String := ["ftp", "file", "http", "https", "ws", "wss"]

def isSpecial (scheme : String) : Bool := specialSchemes.contains scheme

def defaultPort (scheme : String) : Option ℕ :=
  if scheme = "ftp" then some 21
  else if scheme = "http" || scheme = "ws" then some 80
  else if scheme = "https" || scheme = "wss" then some 443
  else none

def isSchemeChar (c : Char) : Bool := c.isAlphanum || c = '+' || c = '-' || c = '.'

/-- The scheme that the text starts with, lower-case, and what follows its colon. -/
def splitScheme (s : List Char) : Option (String × List Char) :=
  match s.dropWhile isSchemeChar with
  | ':' :: rest =>
    if (s.head?.any Char.isAlpha) then
      some (String.ofList ((s.takeWhile isSchemeChar).map Char.toLower), rest)
    else none
  | _ => none

/-! ### Percent-encoding -/

def hexDigit (n : ℕ) : Char := (Nat.digitChar n).toUpper

def percentByte (b : UInt8) : List Char := ['%', hexDigit (b.toNat / 16), hexDigit (b.toNat % 16)]

def percentEncode (set : Char → Bool) (text : List Char) : List Char :=
  text.flatMap fun c => if set c then (String.utf8EncodeChar c).flatMap percentByte else [c]

def controlSet (c : Char) : Bool := c.toNat ≤ 0x1F || 0x7E < c.toNat

def querySet (c : Char) : Bool := controlSet c || [' ', '"', '#', '<', '>'].contains c

def specialQuerySet (c : Char) : Bool := querySet c || c = '\''

def pathSet (c : Char) : Bool := querySet c || ['?', '^', '\x60', '\x7b', '\x7d'].contains c

/-! ### The path -/

def isSlash (special : Bool) (c : Char) : Bool := c = '/' || (special && c = '\\')

def isSingleDot (segment : List Char) : Bool :=
  [".", "%2e"].contains (String.ofList (segment.map Char.toLower))

def isDoubleDot (segment : List Char) : Bool :=
  ["..", ".%2e", "%2e.", "%2e%2e"].contains (String.ofList (segment.map Char.toLower))

def isWindowsDrive : List Char → Bool
  | [a, b] => a.isAlpha && (b = ':' || b = '|')
  | _ => false

def isNormalizedDrive : List Char → Bool
  | [a, b] => a.isAlpha && b = ':'
  | _ => false

/-- A drive letter stays at the root of a `file` URL. -/
def shorten (file : Bool) (path : List (List Char)) : List (List Char) :=
  match path with
  | [drive] => if file && isNormalizedDrive drive then path else []
  | _ => path.dropLast

def driveSegment (segment : List Char) : List Char :=
  match segment with
  | [a, _] => [a, ':']
  | _ => segment

/-- One segment of the path state; a dot segment at the end leaves an empty one. -/
def push (file : Bool) (path : List (List Char)) (segment : List Char) (last : Bool) :
    List (List Char) :=
  if isDoubleDot segment then if last then shorten file path ++ [[]] else shorten file path
  else if isSingleDot segment then if last then path ++ [[]] else path
  else path ++ [if file && path = [] && isWindowsDrive segment then driveSegment segment else segment]

def walk (file : Bool) (path : List (List Char)) : List (List Char) → List (List Char)
  | [] => path
  | [segment] => push file path segment true
  | segment :: next :: rest => walk file (push file path segment false) (next :: rest)

/-- The pieces between the slashes. -/
def splitSlash (special : Bool) (text : List Char) : List (List Char) :=
  text.splitOnP (isSlash special)

def isPathEnd (c : Char) : Bool := c = '?' || c = '#'

/-- The query, when the text that follows the path has one. -/
def queryOf (special : Bool) (rest : List Char) : Option (List Char) :=
  match rest with
  | '?' :: q =>
    some (percentEncode (if special then specialQuerySet else querySet) (q.takeWhile (· ≠ '#')))
  | _ => none

/-- The path state, from a path already there. -/
def pathState (scheme : String) (host : Option (List Char)) (port : Option ℕ)
    (path : List (List Char)) (text : List Char) : Url where
  scheme := scheme
  host := host
  port := port
  path := .list (walk (scheme = "file") path
    ((splitSlash (isSpecial scheme) (text.takeWhile fun c => !isPathEnd c)).map
      (percentEncode pathSet)))
  query := queryOf (isSpecial scheme) (text.dropWhile fun c => !isPathEnd c)

/-- The path start state: a slash goes before the first segment. -/
def pathStart (scheme : String) (host : Option (List Char)) (port : Option ℕ) (text : List Char) :
    Url :=
  match text with
  | [] => if isSpecial scheme then pathState scheme host port [] []
    else ⟨scheme, host, port, .list [], none⟩
  | c :: cs =>
    if isSlash (isSpecial scheme) c then pathState scheme host port [] cs
    else if !isSpecial scheme && isPathEnd c then ⟨scheme, host, port, .list [], queryOf false text⟩
    else pathState scheme host port [] text

/-! ### The authority -/

/-- Host and port text, split at the first colon outside brackets. -/
def splitPort (inside : Bool) : List Char → List Char × Option (List Char)
  | [] => ([], none)
  | c :: cs =>
    if c = ':' && !inside then ([], some cs)
    else
      let p := splitPort (if c = '[' then true else if c = ']' then false else inside) cs
      (c :: p.1, p.2)

def digits (text : List Char) : ℕ := text.foldl (fun n c => n * 10 + (c.toNat - 48)) 0

def parsePort (scheme : String) (text : List Char) : Option (Option ℕ) :=
  if text = [] then some none
  else if !text.all Char.isDigit then none
  else if 65535 < digits text then none
  else some (if defaultPort scheme = some (digits text) then none else some (digits text))

def parseHost (H : HostParser) (scheme : String) (text : List Char) : Option (List Char) :=
  if isSpecial scheme then H.domain text else if text = [] then some [] else H.plain text

/-- Host and port of an authority. What stands before the last `@` are credentials. -/
def parseAuthority (H : HostParser) (scheme : String) (authority : List Char) :
    Option (List Char × Option ℕ) :=
  let hostport := authority.rtakeWhile (· ≠ '@')
  if authority.contains '@' && hostport = [] then none
  else
    match splitPort false hostport with
    | (host, none) =>
      if isSpecial scheme && host = [] then none else (parseHost H scheme host).map fun h => (h, none)
    | (host, some port) =>
      if host = [] then none
      else (parseHost H scheme host).bind fun h => (parsePort scheme port).map fun p => (h, p)

def isAuthorityEnd (special : Bool) (c : Char) : Bool := isSlash special c || isPathEnd c

/-- The authority state, and the path after it. -/
def authorityState (H : HostParser) (scheme : String) (text : List Char) : Option Url :=
  (parseAuthority H scheme (text.takeWhile fun c => !isAuthorityEnd (isSpecial scheme) c)).map fun a =>
    pathStart scheme (some a.1) a.2 (text.dropWhile fun c => !isAuthorityEnd (isSpecial scheme) c)

/-! ### References -/

def Path.segments : Path → List (List Char)
  | .list segments => segments
  | .text _ => []

/-- The relative state, for a base that is not a `file` URL. -/
def relativeState (H : HostParser) (base : Url) (s : List Char) : Option Url :=
  let special := isSpecial base.scheme
  match s with
  | [] => some base
  | c :: cs =>
    if isSlash special c then
      match cs with
      | d :: ds =>
        if special && isSlash special d then authorityState H base.scheme (ds.dropWhile (isSlash true))
        else if d = '/' then authorityState H base.scheme ds
        else some (pathState base.scheme base.host base.port [] cs)
      | [] => some (pathState base.scheme base.host base.port [] [])
    else if isPathEnd c then
      some { base with query := if c = '?' then queryOf special s else base.query }
    else some (pathState base.scheme base.host base.port (shorten false base.path.segments) s)

def startsWithDrive : List Char → Bool
  | [a, b] => isWindowsDrive [a, b]
  | a :: b :: c :: _ => isWindowsDrive [a, b] && isAuthorityEnd true c
  | _ => false

/-- The file host state. -/
def fileHost (H : HostParser) (text : List Char) : Option Url :=
  let host := text.takeWhile fun c => !isAuthorityEnd true c
  let rest := text.dropWhile fun c => !isAuthorityEnd true c
  if isWindowsDrive host then some (pathState "file" (some []) none [] text)
  else if host = [] then some (pathStart "file" (some []) none rest)
  else (H.domain host).map fun h =>
    pathStart "file" (some (if h = "localhost".toList then [] else h)) none rest

/-- The file state, with the base when that is a `file` URL. -/
def fileState (H : HostParser) (base : Option Url) (s : List Char) : Option Url :=
  match s with
  | c :: cs =>
    if isSlash true c then
      match cs with
      | d :: ds =>
        if isSlash true d then fileHost H ds
        else some (pathState "file" (base.elim (some []) (·.host)) none (driveOf base cs) cs)
      | [] => some (pathState "file" (base.elim (some []) (·.host)) none (driveOf base []) [])
    else
      match base with
      | none => some (pathState "file" (some []) none [] s)
      | some b =>
        if isPathEnd c then some { b with query := if c = '?' then queryOf true s else b.query }
        else some (pathState "file" b.host none
          (if startsWithDrive s then [] else shorten true b.path.segments) s)
  | [] => some (base.getD (pathState "file" (some []) none [] []))
where
  /-- The drive letter of the base, which a rooted path keeps. -/
  driveOf (base : Option Url) (rest : List Char) : List (List Char) :=
    match base with
    | none => []
    | some b =>
      match b.path.segments with
      | drive :: _ => if !startsWithDrive rest && isNormalizedDrive drive then [drive] else []
      | [] => []

/-! ### `new URL` -/

/-- Control characters and spaces around the input go, and tabs and line ends everywhere. -/
def clean (input : List Char) : List Char :=
  ((input.dropWhile fun c => c.toNat ≤ 0x20).rdropWhile fun c => c.toNat ≤ 0x20).filter
    fun c => !(c = '\t' || c = '\n' || c = '\r')

/-- After a scheme: a special scheme has an authority, unless it is that of the base. -/
def schemeState (H : HostParser) (base : Option Url) (scheme : String) (rest : List Char) :
    Option Url :=
  if scheme = "file" then fileState H (base.filter (·.scheme = "file")) rest
  else if isSpecial scheme then
    match base.filter (·.scheme = scheme) with
    | some b =>
      if ['/', '/'].isPrefixOf rest then authorityState H scheme (rest.dropWhile (isSlash true))
      else relativeState H b rest
    | none => authorityState H scheme (rest.dropWhile (isSlash true))
  else
    match rest with
    | '/' :: '/' :: after => authorityState H scheme after
    | '/' :: after => some (pathState scheme none none [] after)
    | _ => some ⟨scheme, none, none,
      .text (percentEncode controlSet (rest.takeWhile fun c => !isPathEnd c)),
        queryOf false (rest.dropWhile fun c => !isPathEnd c)⟩

/-- Without a scheme the base decides. -/
def noScheme (H : HostParser) (base : Option Url) (s : List Char) : Option Url :=
  base.bind fun b =>
    match b.path with
    | .text _ => if s.head? = some '#' then some b else none
    | .list _ => if b.scheme = "file" then fileState H (some b) s else relativeState H b s

/-- `new URL(input, base)`; `none` where it throws. -/
def parse (H : HostParser) (base : Option Url) (input : List Char) : Option Url :=
  match splitScheme (clean input) with
  | some (scheme, rest) => schemeState H base scheme rest
  | none => noScheme H base (clean input)

end Finlytic.Lib.Whatwg
