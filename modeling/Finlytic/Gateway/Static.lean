import Finlytic.Lib.Posix

/-! The static file server behind the route table. -/

namespace Finlytic.Gateway

open Lib Posix

def mime : List (String × String) :=
  [(".html", "text/html; charset=utf-8"), (".js", "text/javascript; charset=utf-8"),
    (".css", "text/css; charset=utf-8"),
    (".json", "application/json; charset=utf-8"), (".svg", "image/svg+xml"), (".png", "image/png"),
      (".jpg", "image/jpeg"),
    (".webp", "image/webp"), (".ico", "image/x-icon"), (".woff2", "font/woff2"),
      (".map", "application/json; charset=utf-8")]

/-- A path inside the root, or `none` if it escapes or does not decode. -/
def resolveWithin (root pathname : List Char) : Option (List Char) :=
  (decodeURIComponent pathname).bind fun decoded =>
    let candidate := resolveAbsolute (join [root, normalize decoded])
    if candidate = root || (root ++ ['/']).isPrefixOf candidate then some candidate else none

/-- What the file system answers: `stat` fails, or finds no file, or a file of that size,
and a read ends, or breaks off. -/
structure FileSystem where
  stat : List Char → Option (Option ℕ)
  reads : List Char → Bool

inductive JsonValue where
  | num (n : ℕ)
  | str (s : String)
  deriving DecidableEq

/-- What the gateway itself writes to a client. A file whose read breaks off is not complete. -/
inductive Response where
  | json (status : ℕ) (body : List (String × JsonValue)) (headers : List (String × String))
  | file (path : List Char) (contentType : String) (contentLength : ℕ) (cacheControl : String)
    (complete : Bool)
  deriving DecidableEq

/-- What was written, and whether the request is answered. -/
structure Sent where
  written : List Response
  answered : Bool
  deriving DecidableEq

def sendFile (fs : FileSystem) (filePath : List Char) (cacheControl : String) : Sent :=
  match fs.stat filePath with
  | none => ⟨[], false⟩
  | some none => ⟨[], false⟩
  | some (some size) =>
    ⟨[.file filePath
      ((mime.lookup (String.ofList (extname filePath))).getD "application/octet-stream") size
      cacheControl
      (fs.reads filePath)], true⟩

/-- The fallback is for navigations only: a missing asset must not answer with HTML. -/
def fallback (fs : FileSystem) (root pathname : List Char) (acceptsHtml : Bool) : Sent :=
  if !acceptsHtml || extname pathname ≠ [] then ⟨[], false⟩
  else sendFile fs (join [root, "index.html".toList]) "no-cache"

def serveStatic (fs : FileSystem) (root pathname : List Char) (acceptsHtml : Bool) : Sent :=
  match resolveWithin root pathname with
  | none => ⟨[], false⟩
  | some filePath =>
    if pathname ≠ ['/'] then
      let cacheControl := if "/assets/".toList.isPrefixOf pathname then
        "public, max-age=31536000, immutable" else "no-cache"
      let first := sendFile fs filePath cacheControl
      if first.answered then first
      else
        let second := fallback fs root pathname acceptsHtml
        ⟨first.written ++ second.written, second.answered⟩
    else fallback fs root pathname acceptsHtml

end Finlytic.Gateway
