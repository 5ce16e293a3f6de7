import Finlytic.Lib.Text
import Mathlib.Order.Lattice

/-! Signed tokens as `jsonwebtoken` verifies them. The decoding of octets, the
JSON parser and the RSA check belong to the platform. -/

namespace Finlytic.Lib.Jws

/-- A JSON value. The numbers are those of the platform, ordered, without NaN. -/
inductive Json (ν : Type) where
  | null
  | bool (b : Bool)
  | num (n : ν)
  | str (s : String)
  | arr (items : List (Json ν))
  | obj (members : List (String × Json ν))

variable {ν : Type}

/-- The property of that name, or `none` for `undefined`. -/
def Json.prop (name : String) : Json ν → Option (Json ν)
  | .obj members => members.lookup name
  | _ => none

/-- Reading a property, which throws on `null`. -/
def Json.read (name : String) : Json ν → Except String (Option (Json ν))
  | .null => .error ("Cannot read properties of null (reading '" ++ name ++ "')")
  | value => .ok (value.prop name)

def isStr (s : String) : Option (Json ν) → Bool
  | some (.str t) => t = s
  | _ => false

theorem isStr_iff {s : String} {value : Option (Json ν)} :
    isStr s value = true ↔ value = some (.str s) := by
  unfold isStr
  split
  · simp
  · rename_i hne
    simp only [Bool.false_eq_true, false_iff]
    intro h
    exact hne s h

theorem Json.read_eq_ok {name : String} {value : Json ν} {x : Json ν}
    (h : value.prop name = some x) :
    value.read name = .ok (some x) := by
  cases value with
  | obj members => exact congrArg Except.ok h
  | _ => cases h

theorem Json.prop_of_read {name : String} {value : Json ν} {x : Option (Json ν)}
    (h : value.read name = .ok x) :
    value.prop name = x := by
  cases value with
  | null => cases h
  | _ => exact Except.ok.inj h

/-! ### The platform -/

def latin1 (octets : List UInt8) : List Char := octets.map fun b => Char.ofNat b.toNat

/-- `Buffer.from(text, 'ascii')`: the low octet of every character. -/
def ascii (text : List Char) : List UInt8 := text.map fun c => UInt8.ofNat c.toNat

/-- A text as Node delivers it, of octets, is read back from its encoding. -/
theorem latin1_ascii {text : List Char} (h : ∀ c ∈ text, c.toNat ≤ 0xFF) :
    latin1 (ascii text) = text := by
  unfold latin1 ascii
  rw [List.map_map]
  refine (List.map_congr_left fun c hc => ?_).trans (List.map_id text)
  have hoctet : (UInt8.ofNat c.toNat).toNat = c.toNat :=
    UInt8.toNat_ofNat_of_lt' (Nat.lt_succ_of_le (h c hc))
  rw [Function.comp_apply, hoctet, Char.ofNat_toNat]
  rfl

def utf8Octets (text : List Char) : List UInt8 := text.flatMap String.utf8EncodeChar

theorem utf8Octets_eq_nil {text : List Char} : utf8Octets text = [] ↔ text = [] := by
  unfold utf8Octets
  rw [List.flatMap_eq_nil_iff]
  constructor
  · intro h
    cases text with
    | nil => rfl
    | cons c cs => exact absurd (h c List.mem_cons_self) (by simp)
  · rintro rfl
    simp

/-- What the runtime supplies. `base64` takes both alphabets; `rsaVerify` checks
a signature of these octets against the configured key. -/
structure Platform (ν : Type) where
  base64 : List Char → List UInt8
  utf8 : List UInt8 → List Char
  parse : List Char → Except String (Json ν)
  text : Option (Json ν) → String
  rsaVerify : List UInt8 → List UInt8 → Bool
  /-- JSON puts non-ASCII characters into strings only, so both readings of the octets find the
  same `alg`. -/
  parse_latin1 : ∀ octets, (∃ v, parse (latin1 octets) = .ok v ∧ v.prop "alg" = some (.str "RS256")) ↔
    ∃ v, parse (utf8 octets) = .ok v ∧ v.prop "alg" = some (.str "RS256")

/-! ### The compact form -/

/-- The alphabet of `base64url`. -/
def isUrlSafe (c : Char) : Bool := c.isAlphanum || c = '-' || c = '_'

/-- A non-empty segment of the alphabet. -/
def isSegment (l : List Char) : Bool := !l.isEmpty && l.all isUrlSafe

theorem isUrlSafe_ascii {c : Char} (h : isUrlSafe c = true) : c.toNat < 128 := by
  simp only [isUrlSafe, Char.isAlphanum, Bool.or_eq_true, decide_eq_true_eq] at h
  rcases h with ((letter | digit) | rfl) | rfl
  · have hmost := (letter_bounds letter).2
    omega
  · have hmost : c.toNat ≤ 57 := of_decide_eq_true (Bool.and_eq_true_iff.mp digit).2
    omega
  · decide
  · decide

/-- On ASCII text the two encodings of the signed part agree. -/
theorem ascii_eq_utf8Octets {text : List Char} (h : ∀ c ∈ text, c.toNat < 128) :
    ascii text = utf8Octets text := by
  induction text with
  | nil => rfl
  | cons c cs ih =>
    have hc := h c List.mem_cons_self
    have hsize : c.utf8Size = 1 := by
      rw [Char.utf8Size_eq_one_iff, UInt32.le_iff_toNat_le]
      exact Nat.le_of_lt_succ hc
    have hhead : String.utf8EncodeChar c = [UInt8.ofNat c.toNat] :=
      String.utf8EncodeChar_eq_singleton hsize
    unfold ascii utf8Octets at *
    rw [List.map_cons, List.flatMap_cons, hhead, ih fun d hd => h d (List.mem_cons_of_mem _ hd)]
    rfl

/-! ### `jsonwebtoken.verify` -/

section Verify

variable [LinearOrder ν] (P : Platform ν)

/-- A payload that is a text is parsed once more, and kept when that gives an object or an array. -/
def reparse : Json ν → Json ν
  | .str text =>
    match P.parse text.toList with
    | .ok (.obj members) => .obj members
    | .ok (.arr items) => .arr items
    | _ => .str text
  | value => value

def decodePayload (header : Json ν) (payload : List Char) : Option (Json ν) :=
  let text := P.utf8 (P.base64 payload)
  let first := if isStr "JWT" (header.prop "typ") then (P.parse text).toOption
    else some (.str (String.ofList text))
  first.map (reparse P)

/-- `nbf` is absent, or a number that the clock has reached. -/
def notBefore (now : ν) (payload : Json ν) : Bool :=
  match payload.prop "nbf" with
  | none => true
  | some (.num n) => n ≤ now
  | some _ => false

/-- `exp` is absent, or a number that the clock has not reached. -/
def notExpired (now : ν) (payload : Json ν) : Bool :=
  match payload.prop "exp" with
  | none => true
  | some (.num n) => now < n
  | some _ => false

def audienceMatches (audience : String) (payload : Json ν) : Bool :=
  match payload.prop "aud" with
  | some (.arr items) => items.any fun item => isStr audience (some item)
  | aud => isStr audience aud

/-- The payload of a token that verifies under RS256 with these options. -/
def verify (issuer audience : String) (now : ν) (token : List Char) : Option (Json ν) :=
  match token.splitOn '.' with
  | [header, payload, signature] =>
    if !(isSegment header && isSegment payload && (signature.isEmpty || isSegment signature)) then none
    else
      match P.parse (latin1 (P.base64 header)) with
      | .error _ => none
      | .ok head =>
        (decodePayload P head payload).bind fun claims =>
          if signature.isEmpty then none
          else if !isStr "RS256" (head.prop "alg") then none
          else if !P.rsaVerify (utf8Octets (header ++ '.' :: payload)) (P.base64 signature) then none
          else if !notBefore now claims then none
          else if !notExpired now claims then none
          else if !audienceMatches audience claims then none
          else if !isStr issuer (claims.prop "iss") then none
          else some claims
  | _ => none

end Verify

end Finlytic.Lib.Jws
