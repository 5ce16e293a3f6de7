import Finlytic.Lib.Http1

/-! The request half of `proxy()`: which headers are forwarded, what the gateway
adds, and the octets that Node's client puts on the upstream connection. -/

namespace Finlytic.Gateway

open Lib Http1

/-- A header as Node keeps it: a lower-case name with one value, or with several for
`set-cookie`. -/
structure Header where
  name : String
  values : List String
  deriving DecidableEq

def fields (headers : List Header) : List Field :=
  headers.flatMap fun h => h.values.map fun v => ⟨h.name.toList, v.toList⟩

/-- The pieces are a body that ends where the framing says. -/
def Delimits : Framing → List (List Char) → Prop
  | .empty, body => body = []
  | .length n, body => body.flatten.length = n
  | .chunked, _ => True

/-- A request the gateway has read. Node admits only well-formed headers, refuses
a request with two framings, and hands over the body in non-empty pieces. -/
structure Incoming where
  method : String
  headers : List Header
  framing : Framing
  body : List (List Char)
  method_sp : ' ' ∉ method.toList
  method_cr : '\r' ∉ method.toList
  lower : ∀ h ∈ headers, h.name.toList.map Char.toLower = h.name.toList
  values_ne : ∀ h ∈ headers, h.values ≠ []
  valid : ∀ f ∈ fields headers, f.Valid
  framed : Http1.framing (fields headers) = some framing
  read : Delimits framing body
  pieces : ∀ piece ∈ body, piece ≠ []

/-- A text that can stand as a header value. -/
def ValueText (s : String) : Prop := '\r' ∉ s.toList ∧ stripOws s.toList = s.toList

/-- What the gateway knows of the connection and of the upstream. -/
structure Hop where
  remoteAddress : Option String
  requestId : String
  host : String
  path : String
  address_value : ∀ a, remoteAddress = some a → ValueText a
  requestId_value : ValueText requestId
  host_value : ValueText host
  path_sp : ' ' ∉ path.toList
  path_cr : '\r' ∉ path.toList

def hopByHop : List String :=
  ["connection", "keep-alive", "proxy-authenticate", "proxy-authorization", "te", "trailer",
    "transfer-encoding", "upgrade"]

def forwardable (headers : List Header) : List Header :=
  headers.filter fun h => !(hopByHop.contains h.name || h.name = "host")

/-- Assignment to a property of the header object. -/
def setHeader (headers : List Header) (name value : String) : List Header :=
  if headers.any (·.name = name) then headers.map fun h => if h.name = name then ⟨name, [value]⟩ else h
  else headers ++ [⟨name, [value]⟩]

def hostHeader (headers : List Header) : String :=
  ((headers.find? (·.name = "host")).bind (·.values.head?)).getD ""

def proxyHeaders (r : Incoming) (hop : Hop) : List Header :=
  let headers := forwardable r.headers
  let headers := setHeader headers "x-forwarded-for" (hop.remoteAddress.getD "")
  let headers := setHeader headers "x-forwarded-proto" "http"
  let headers := setHeader headers "x-forwarded-host" (hostHeader r.headers)
  setHeader headers "x-request-id" hop.requestId

/-! ### Node's client -/

/-- The methods for which Node's client does not frame a body by itself. -/
def noBodyMethods : List String := ["GET", "HEAD", "DELETE", "OPTIONS", "TRACE", "CONNECT"]

def hasHeader (name : String) (headers : List Header) : Bool := headers.any (·.name = name)

/-- The framing header that Node's client adds. -/
def addedFraming (method : String) (headers : List Header) (body : List (List Char)) :
    List Header :=
  if hasHeader "content-length" headers || hasHeader "transfer-encoding" headers then []
  else if noBodyMethods.contains method then []
  else if body = [] then [⟨"Content-Length", ["0"]⟩]
  else [⟨"Transfer-Encoding", ["chunked"]⟩]

def clientHeaders (r : Incoming) (hop : Hop) : List Header :=
  proxyHeaders r hop ++ [⟨"Host", [hop.host]⟩, ⟨"Connection", ["keep-alive"]⟩] ++
    addedFraming r.method (proxyHeaders r hop) r.body

/-- The body is chunked exactly when the client has announced that itself. -/
def payload (r : Incoming) (hop : Hop) : List Char :=
  if addedFraming r.method (proxyHeaders r hop) r.body = [⟨"Transfer-Encoding", ["chunked"]⟩] then
    writeChunks r.body
  else r.body.flatten

def upstreamHead (r : Incoming) (hop : Hop) : Head :=
  ⟨r.method.toList, hop.path.toList, fields (clientHeaders r hop)⟩

/-- Everything `proxy` writes to the upstream connection. -/
def upstreamStream (r : Incoming) (hop : Hop) : List Char :=
  renderHead (upstreamHead r hop) ++ payload r hop

end Finlytic.Gateway
