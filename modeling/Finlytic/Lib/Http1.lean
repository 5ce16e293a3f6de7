import Finlytic.Lib.Text

/-! HTTP/1.1 requests on the wire: how a message head, a body of known length
and a chunked body are written, and how a server reads them back. A `Char`
stands for one octet. -/

namespace Finlytic.Lib.Http1

/-! ### Lines and numbers -/

def crlf : List Char := ['\r', '\n']

/-- A CR ends the line only before a LF. -/
def afterCr : List Char → Option (List Char × List Char)
  | '\n' :: rest => some ([], rest)
  | _ => none

/-- The text up to the first line end, and what follows it; a bare CR is refused. -/
def takeLine : List Char → Option (List Char × List Char)
  | [] => none
  | c :: cs => if c = '\r' then afterCr cs else (takeLine cs).map fun p => (c :: p.1, p.2)

theorem takeLine_crlf (rest : List Char) : takeLine (crlf ++ rest) = some ([], rest) := rfl

theorem takeLine_append {line : List Char} (h : '\r' ∉ line) (rest : List Char) :
    takeLine (line ++ (crlf ++ rest)) = some (line, rest) := by
  induction line with
  | nil => rfl
  | cons c cs ih =>
    rw [List.mem_cons, not_or] at h
    rw [List.cons_append, takeLine, if_neg (Ne.symm h.1), ih h.2]
    rfl

/-- The text before and after the first separator. -/
def splitFirst (sep : Char) : List Char → Option (List Char × List Char)
  | [] => none
  | c :: cs => if c = sep then some ([], cs) else (splitFirst sep cs).map fun p => (c :: p.1, p.2)

theorem splitFirst_append {sep : Char} {l : List Char} (h : sep ∉ l) (rest : List Char) :
    splitFirst sep (l ++ sep :: rest) = some (l, rest) := by
  induction l with
  | nil => simp [splitFirst]
  | cons c cs ih =>
    rw [List.mem_cons, not_or] at h
    rw [List.cons_append, splitFirst, if_neg (Ne.symm h.1), ih h.2]
    rfl

def digitValue (base : ℕ) (c : Char) : Option ℕ :=
  let n := c.toNat
  let v := if 48 ≤ n ∧ n ≤ 57 then n - 48 else if 97 ≤ n ∧ n ≤ 102 then n - 87
    else if 65 ≤ n ∧ n ≤ 70 then n - 55 else base
  if v < base then some v else none

/-- The value of a non-empty text of digits. -/
def number (base : ℕ) (digits : List Char) : Option ℕ :=
  if digits = [] then none else digits.foldlM (fun n c => (digitValue base c).map (n * base + ·)) 0

theorem digitValue_digitChar : ∀ d < 16, digitValue 16 (Nat.digitChar d) = some d := by decide

theorem digitChar_ne_cr : ∀ d < 16, Nat.digitChar d ≠ '\r' := by decide

theorem number_toDigits (n : ℕ) : number 16 (Nat.toDigits 16 n) = some n := by
  have hfold : (Nat.toDigits 16 n).foldlM (fun n c => (digitValue 16 c).map (n * 16 + ·)) 0 =
      some n := by
    induction n using Nat.strongRecOn with
    | _ n ih =>
      by_cases hlt : n < 16
      · rw [Nat.toDigits_of_lt_base hlt]
        simp [digitValue_digitChar n hlt]
      · rw [Nat.toDigits_of_base_le (by decide) (by omega), List.foldlM_append, ih (n / 16) (by omega)]
        have hmod : n % 16 < 16 := Nat.mod_lt n (by decide)
        have hsum : n / 16 * 16 + n % 16 = n := by omega
        simp [digitValue_digitChar (n % 16) hmod, hsum]
  rw [number, if_neg Nat.toDigits_ne_nil, hfold]

theorem cr_not_mem_toDigits (n : ℕ) : '\r' ∉ Nat.toDigits 16 n := by
  induction n using Nat.strongRecOn with
  | _ n ih =>
    by_cases hlt : n < 16
    · rw [Nat.toDigits_of_lt_base hlt, List.mem_singleton]
      exact (digitChar_ne_cr n hlt).symm
    · rw [Nat.toDigits_of_base_le (by decide) (by omega), List.mem_append, List.mem_singleton]
      rintro (h | h)
      · exact ih (n / 16) (by omega) h
      · exact digitChar_ne_cr (n % 16) (Nat.mod_lt n (by decide)) h.symm

/-! ### The head -/

structure Field where
  name : List Char
  value : List Char
  deriving DecidableEq

structure Head where
  method : List Char
  target : List Char
  fields : List Field
  deriving DecidableEq

def isOws (c : Char) : Bool := c = ' ' || c = '\t'

def stripOws (l : List Char) : List Char := (l.dropWhile isOws).rdropWhile isOws

def renderField (f : Field) : List Char := f.name ++ ':' :: ' ' :: (f.value ++ crlf)

def renderFields (fields : List Field) : List Char := fields.flatMap renderField ++ crlf

def version : List Char := "HTTP/1.1".toList

theorem cr_not_mem_version : '\r' ∉ version := by decide

def renderHead (h : Head) : List Char :=
  h.method ++ ' ' :: (h.target ++ ' ' :: (version ++ (crlf ++ renderFields h.fields)))

/-- A field that reads back as it was written. -/
structure Field.Valid (f : Field) : Prop where
  name_ne : f.name ≠ []
  name_colon : ':' ∉ f.name
  name_cr : '\r' ∉ f.name
  value_cr : '\r' ∉ f.value
  value_ows : stripOws f.value = f.value

structure Head.Valid (h : Head) : Prop where
  method_sp : ' ' ∉ h.method
  method_cr : '\r' ∉ h.method
  target_sp : ' ' ∉ h.target
  target_cr : '\r' ∉ h.target
  fields : ∀ f ∈ h.fields, f.Valid

def parseField (line : List Char) : Option Field :=
  (splitFirst ':' line).map fun p => ⟨p.1, stripOws p.2⟩

/-- The fields up to the empty line; the fuel bounds their number. -/
def parseFields : ℕ → List Char → Option (List Field × List Char)
  | 0, _ => none
  | n + 1, cs =>
    (takeLine cs).bind fun l =>
      if l.1 = [] then some ([], l.2)
      else (parseField l.1).bind fun f => (parseFields n l.2).map fun p => (f :: p.1, p.2)

theorem stripOws_cons_space (v : List Char) : stripOws (' ' :: v) = stripOws v := by
  simp [stripOws, isOws]

theorem parseField_render {f : Field} (h : f.Valid) :
    parseField (f.name ++ ':' :: ' ' :: f.value) = some f := by
  rw [parseField, splitFirst_append h.name_colon, Option.map_some, stripOws_cons_space, h.value_ows]

theorem parseFields_render {fields : List Field} (h : ∀ f ∈ fields, f.Valid) {n : ℕ}
    (hn : fields.length < n) (rest : List Char) :
    parseFields n (renderFields fields ++ rest) = some (fields, rest) := by
  induction fields generalizing n with
  | nil =>
    cases n with
    | zero => omega
    | succ n => simp [parseFields, renderFields, takeLine_crlf]
  | cons f fs ih =>
    cases n with
    | zero => omega
    | succ n =>
      have hf := h f List.mem_cons_self
      have hline : '\r' ∉ f.name ++ ':' :: ' ' :: f.value := by
        simp [hf.name_cr, hf.value_cr]
      have hne : f.name ++ ':' :: ' ' :: f.value ≠ [] := by simp
      have hsplit : renderFields (f :: fs) ++ rest =
          (f.name ++ ':' :: ' ' :: f.value) ++ (crlf ++ (renderFields fs ++ rest)) := by
        simp [renderFields, renderField]
      have hlen : fs.length < n := by
        rw [List.length_cons] at hn
        omega
      rw [hsplit, parseFields, takeLine_append hline, Option.bind_some, if_neg hne,
        parseField_render hf, Option.bind_some,
        ih (fun g hg => h g (List.mem_cons_of_mem _ hg)) hlen, Option.map_some]

/-! ### Framing -/

def named (name : String) (f : Field) : Bool := f.name.map Char.toLower = name.toList

inductive Framing where
  | empty
  | length (n : ℕ)
  | chunked
  deriving DecidableEq

/-- The last transfer coding of the list is `chunked`. -/
def isChunked (value : List Char) : Bool :=
  stripOws ((value.map Char.toLower).reverse.takeWhile (· ≠ ',')).reverse = "chunked".toList

/-- How a server finds the end of a request body. A request with both headers is refused. -/
def framing (fields : List Field) : Option Framing :=
  match fields.filter (named "transfer-encoding"), fields.filter (named "content-length") with
  | [], [] => some .empty
  | [], [f] => (number 10 f.value).map .length
  | [f], [] => if isChunked f.value then some .chunked else none
  | _, _ => none

def writeChunk (chunk : List Char) : List Char :=
  Nat.toDigits 16 chunk.length ++ (crlf ++ (chunk ++ crlf))

def writeChunks (chunks : List (List Char)) : List Char :=
  chunks.flatMap writeChunk ++ ('0' :: (crlf ++ crlf))

/-- A chunked body; the fuel bounds the number of chunks. -/
def readChunks : ℕ → List Char → Option (List Char × List Char)
  | 0, _ => none
  | n + 1, cs =>
    (takeLine cs).bind fun l =>
      (number 16 l.1).bind fun size =>
        if size = 0 then (parseFields (l.2.length + 1) l.2).map fun t => ([], t.2)
        else if l.2.length < size then none
        else
          (takeLine (l.2.drop size)).bind fun e =>
            if e.1 = [] then (readChunks n e.2).map fun p => (l.2.take size ++ p.1, p.2) else none

theorem readChunks_writeChunks {chunks : List (List Char)} (h : ∀ c ∈ chunks, c ≠ []) {n : ℕ}
    (hn : chunks.length < n) (rest : List Char) :
    readChunks n (writeChunks chunks ++ rest) = some (chunks.flatten, rest) := by
  induction chunks generalizing n with
  | nil =>
    cases n with
    | zero => omega
    | succ n =>
      have hline : takeLine (writeChunks [] ++ rest) = some (['0'], crlf ++ rest) :=
        @takeLine_append ['0'] (by decide) (crlf ++ rest)
      have hzero : number 16 ['0'] = some 0 := by decide
      have htrailer : parseFields ((crlf ++ rest).length + 1) (crlf ++ rest) = some ([], rest) := by
        rw [parseFields, takeLine_crlf, Option.bind_some, if_pos rfl]
      rw [readChunks, hline, Option.bind_some, hzero, Option.bind_some, if_pos rfl, htrailer]
      rfl
  | cons c cs ih =>
    cases n with
    | zero => omega
    | succ n =>
      have hc : c.length ≠ 0 := fun hlen => h c List.mem_cons_self (List.length_eq_zero_iff.mp hlen)
      have hsplit : writeChunks (c :: cs) ++ rest =
          Nat.toDigits 16 c.length ++ (crlf ++ (c ++ (crlf ++ (writeChunks cs ++ rest)))) := by
        simp [writeChunks, writeChunk]
      have hlen : cs.length < n := by
        rw [List.length_cons] at hn
        omega
      rw [hsplit, readChunks, takeLine_append (cr_not_mem_toDigits _), Option.bind_some,
        number_toDigits, Option.bind_some,
        if_neg hc, if_neg (by simp), List.drop_left, takeLine_crlf, Option.bind_some, if_pos rfl,
        ih (fun d hd => h d (List.mem_cons_of_mem _ hd)) hlen, Option.map_some, List.take_left,
          List.flatten_cons]

theorem length_chunks_lt (chunks : List (List Char)) :
    chunks.length < (writeChunks chunks).length + 1 := by
  induction chunks with
  | nil => simp
  | cons c cs ih =>
    have hlen : (writeChunks (c :: cs)).length = (writeChunk c).length + (writeChunks cs).length := by
      simp [writeChunks]
    have hpos : 0 < (writeChunk c).length := by
      rw [writeChunk, List.length_append, List.length_append, crlf, List.length_cons]
      omega
    rw [List.length_cons, hlen]
    omega

def readBody (fr : Framing) (cs : List Char) : Option (List Char × List Char) :=
  match fr with
  | .empty => some ([], cs)
  | .length n => if cs.length < n then none else some (cs.take n, cs.drop n)
  | .chunked => readChunks (cs.length + 1) cs

/-! ### Requests -/

structure Request where
  head : Head
  body : List Char

def parseRequestLine (line : List Char) : Option (List Char × List Char) :=
  (splitFirst ' ' line).bind fun m =>
    (splitFirst ' ' m.2).bind fun t => if t.2 = version then some (m.1, t.1) else none

/-- One request from the stream, and the octets after it. -/
def parseRequest (cs : List Char) : Option (Request × List Char) :=
  (takeLine cs).bind fun l =>
    (parseRequestLine l.1).bind fun r =>
      (parseFields (l.2.length + 1) l.2).bind fun f =>
        (framing f.1).bind fun fr =>
          (readBody fr f.2).map fun b => (⟨⟨r.1, r.2, f.1⟩, b.1⟩, b.2)

theorem length_fields_lt (fields : List Field) (rest : List Char) :
    fields.length < (renderFields fields ++ rest).length + 1 := by
  induction fields with
  | nil => simp
  | cons f fs ih =>
    have hlen : (renderFields (f :: fs) ++ rest).length = (renderField f).length +
        (renderFields fs ++ rest).length := by
      simp [renderFields]
    have hpos : 0 < (renderField f).length := by
      rw [renderField, List.length_append, List.length_cons]
      omega
    rw [List.length_cons, hlen]
    omega

/-- A written head reads back, and what follows it is read by its framing. -/
theorem parseRequest_renderHead {h : Head} (hv : h.Valid) (tail : List Char) :
    parseRequest (renderHead h ++ tail) =
      (framing h.fields).bind fun fr => (readBody fr tail).map fun b => (⟨h, b.1⟩, b.2) := by
  have hline : '\r' ∉ h.method ++ ' ' :: (h.target ++ ' ' :: version) := by
    simp [hv.method_cr, hv.target_cr, cr_not_mem_version]
  have hsplit : renderHead h ++ tail =
      (h.method ++ ' ' :: (h.target ++ ' ' :: version)) ++
        (crlf ++ (renderFields h.fields ++ tail)) := by
    simp [renderHead]
  have hrequest : parseRequestLine (h.method ++ ' ' :: (h.target ++ ' ' :: version)) =
      some (h.method, h.target) := by
    rw [parseRequestLine, splitFirst_append hv.method_sp, Option.bind_some,
      splitFirst_append hv.target_sp,
      Option.bind_some, if_pos rfl]
  rw [hsplit, parseRequest, takeLine_append hline, Option.bind_some, hrequest, Option.bind_some,
    parseFields_render hv.fields (length_fields_lt _ _), Option.bind_some]

/-! ### Responses -/

structure ResponseHead where
  status : List Char
  reason : List Char
  fields : List Field

structure ResponseHead.Valid (h : ResponseHead) : Prop where
  status_sp : ' ' ∉ h.status
  status_cr : '\r' ∉ h.status
  reason_cr : '\r' ∉ h.reason
  fields : ∀ f ∈ h.fields, f.Valid

structure Response where
  head : ResponseHead
  body : List Char

def parseStatusLine (line : List Char) : Option (List Char × List Char) :=
  (splitFirst ' ' line).bind fun v => if v.1 = version then splitFirst ' ' v.2 else none

/-- How a client finds the end of a body before the connection ends. -/
def responseFraming (bodiless : Bool) (fields : List Field) : Option Framing :=
  if bodiless then some .empty else (framing fields).filter (· ≠ .empty)

/-- A head from the stream, and the octets after it. -/
def parseResponseHead (cs : List Char) : Option (ResponseHead × List Char) :=
  (takeLine cs).bind fun l =>
    (parseStatusLine l.1).bind fun r =>
      (parseFields (l.2.length + 1) l.2).map fun f => (⟨r.1, r.2, f.1⟩, f.2)

/-- One response from the stream, and the octets after it. Which answers have no body depends on the
request and on the status. -/
def parseResponse (bodiless : List Char → Bool) (cs : List Char) : Option (Response × List Char) :=
  (parseResponseHead cs).bind fun h =>
    (responseFraming (bodiless h.1.status) h.1.fields).bind fun fr =>
      (readBody fr h.2).map fun b => (⟨h.1, b.1⟩, b.2)

/-- A response that says nothing of its length: its body is all that came before the connection
was closed. -/
def parseToClose (bodiless : List Char → Bool) (cs : List Char) : Option Response :=
  (parseResponseHead cs).bind fun h =>
    if bodiless h.1.status = false ∧ framing h.1.fields = some .empty then some ⟨h.1, h.2⟩ else none

variable {cs line rest : List Char}

end Finlytic.Lib.Http1
