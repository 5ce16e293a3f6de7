import Finlytic.Lib.Text
import Mathlib.Algebra.Group.Nat.Defs

/-! POSIX paths as `node:path` treats them, and `decodeURIComponent`. -/

namespace Finlytic.Lib.Posix

/-! ### `decodeURIComponent` -/

def hexValue (c : Char) : Option ℕ :=
  let n := c.toNat
  if 48 ≤ n ∧ n ≤ 57 then some (n - 48)
  else if 97 ≤ n ∧ n ≤ 102 then some (n - 87)
  else if 65 ≤ n ∧ n ≤ 70 then some (n - 55)
  else none

/-- The octet written `%XX` at the head of the text. -/
def takeOctet : List Char → Option (ℕ × List Char)
  | '%' :: a :: b :: rest => (hexValue a).bind fun x => (hexValue b).map fun y => (x * 16 + y, rest)
  | _ => none

/-- That many continuation octets, gathered after the bits already read. -/
def takeContinuation : ℕ → ℕ → List Char → Option (ℕ × List Char)
  | 0, value, text => some (value, text)
  | n + 1, value, text =>
    (takeOctet text).bind fun o => if o.1 / 64 = 2 then
      takeContinuation n (value * 64 + o.1 % 64) o.2 else none

/-- The character of an escape sequence, if it is well-formed UTF-8. -/
def takeEscape (text : List Char) : Option (Char × List Char) :=
  (takeOctet text).bind fun o =>
    if o.1 < 0x80 then some (Char.ofNat o.1, o.2)
    else
      let length := if o.1 / 32 = 6 then 1 else if o.1 / 16 = 14 then 2 else if o.1 / 8 = 30 then
        3 else 0
      let least := if length = 1 then 0x80 else if length = 2 then 0x800 else 0x10000
      if length = 0 then none
      else
        (takeContinuation length (o.1 % 2 ^ (6 - length)) o.2).bind fun v =>
          if least ≤ v.1 ∧ v.1.isValidChar then some (Char.ofNat v.1, v.2) else none

/-- The fuel bounds the number of characters. -/
def decodeEscapes : ℕ → List Char → Option (List Char)
  | 0, _ => some []
  | _ + 1, [] => some []
  | n + 1, c :: cs =>
    if c = '%' then (takeEscape (c :: cs)).bind fun e => (decodeEscapes n e.2).map (e.1 :: ·)
    else (decodeEscapes n cs).map (c :: ·)

/-- `none` is a `URIError`. -/
def decodeURIComponent (text : List Char) : Option (List Char) := decodeEscapes text.length text

theorem decodeURIComponent_cons {c : Char} (hc : c ≠ '%') (cs : List Char) :
    decodeURIComponent (c :: cs) = (decodeURIComponent cs).map (c :: ·) := if_neg hc

/-! ### Paths -/

/-- One segment of `normalizeString`, on the segments already kept, the last one first. -/
def normalizeSegment (above : Bool) (kept : List (List Char)) (segment : List Char) :
    List (List Char) :=
  if segment = [] || segment = ['.'] then kept
  else if segment = ['.', '.'] then
    match kept with
    | top :: rest => if top = ['.', '.'] then segment :: kept else rest
    | [] => if above then [segment] else []
  else segment :: kept

def normalizeString (above : Bool) (path : List Char) : List (List Char) :=
  ((path.splitOn '/').foldl (normalizeSegment above) []).reverse

def isAbsolute (path : List Char) : Bool := path.head? = some '/'

def normalize (path : List Char) : List Char :=
  let absolute := isAbsolute path
  let body := ['/'].intercalate (normalizeString (!absolute) path)
  let trailing := path.getLast? = some '/'
  if path = [] then ['.']
  else if body = [] then if absolute then ['/'] else if trailing then ['.', '/'] else ['.']
  else (if absolute then ['/'] else []) ++ body ++ if trailing then ['/'] else []

def join (parts : List (List Char)) : List Char :=
  let present := parts.filter (· ≠ [])
  if present = [] then ['.'] else normalize (['/'].intercalate present)

/-- `resolve` of an absolute path. -/
def resolveAbsolute (path : List Char) : List Char :=
  '/' :: ['/'].intercalate (normalizeString false path)

/-- The extension of the last segment, its dot included. -/
def extname (path : List Char) : List Char :=
  let base := (path.rdropWhile (· = '/')).rtakeWhile (· ≠ '/')
  let stem := base.rdropWhile (· ≠ '.')
  if stem = [] || stem = ['.'] || base = ['.', '.'] then [] else base.drop (stem.length - 1)

end Finlytic.Lib.Posix
