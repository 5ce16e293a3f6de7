import Finlytic.Lib.Posix
import Finlytic.Lib.Url
import Finlytic.Lib.Utf8

/-! `application/x-www-form-urlencoded`, as `URLSearchParams` writes it and as a
receiver reads it. Reading undoes writing, whatever the names and the values hold. -/

namespace Finlytic.Lib.Form

open Jws

/-! ### Writing -/

/-- The characters that are written as they are. -/
def isPlain (c : Char) : Bool := c.isAlphanum || c = '*' || c = '-' || c = '.' || c = '_'

def encodeChar (c : Char) : List Char :=
  if c = ' ' then ['+'] else if isPlain c then [c]
    else (String.utf8EncodeChar c).flatMap Whatwg.percentByte

def encode (text : List Char) : List Char := text.flatMap encodeChar

def writeField (field : String × String) : List Char :=
  encode field.1.toList ++ '=' :: encode field.2.toList

/-- `params.toString()`. -/
def serialize (fields : List (String × String)) : List Char :=
  ['&'].intercalate (fields.map writeField)

/-- `params.set(name, value)`: the first field of the name takes the value and the others go. -/
def set (fields : List (String × String)) (name value : String) : List (String × String) :=
  match fields.dropWhile (·.1 ≠ name) with
  | [] => fields ++ [(name, value)]
  | _ :: rest => fields.takeWhile (·.1 ≠ name) ++ (name, value) :: rest.filter (·.1 ≠ name)

/-! ### Reading -/

/-- The octets of a character that is not part of an escape. -/
def plainOctets (c : Char) : List UInt8 := if c = '+' then [0x20] else String.utf8EncodeChar c

/-- The octet of an escape, or the octets of its percent sign alone. -/
def octets : List Char → List UInt8
  | [] => []
  | [a] => plainOctets a
  | [a, b] => plainOctets a ++ plainOctets b
  | a :: b :: c :: rest =>
    if a = '%' then
      match Posix.hexValue b, Posix.hexValue c with
      | some x, some y => UInt8.ofNat (x * 16 + y) :: octets rest
      | _, _ => plainOctets a ++ octets (b :: c :: rest)
    else plainOctets a ++ octets (b :: c :: rest)

def decode (text : List Char) : List Char := Utf8.decode (octets text)

/-- A piece without an equals sign is a name. -/
def readField (piece : List Char) : String × String :=
  (String.ofList (decode (piece.takeWhile (· ≠ '='))),
    String.ofList (decode (piece.dropWhile (· ≠ '=')).tail))

def parse (query : List Char) : List (String × String) :=
  ((query.splitOn '&').filter (· ≠ [])).map readField

/-! ### One text -/

theorem octets_cons {a : Char} (ha : a ≠ '%') (text : List Char) :
    octets (a :: text) = plainOctets a ++ octets text := by
  match text with
  | [] => exact (List.append_nil _).symm
  | [_] => rfl
  | _ :: _ :: _ => rw [octets, if_neg ha]

theorem hexValue_hexDigit : ∀ n < 16, Posix.hexValue (Whatwg.hexDigit n) = some n := by decide

theorem hexDigit_plain : ∀ n < 16, isPlain (Whatwg.hexDigit n) = true := by decide

theorem octets_percentByte (b : UInt8) (text : List Char) :
    octets (Whatwg.percentByte b ++ text) = b :: octets text := by
  have hlt := b.toNat_lt
  unfold Whatwg.percentByte
  rw [List.cons_append, List.cons_append, List.cons_append, List.nil_append, octets, if_pos rfl,
    hexValue_hexDigit _ (by omega), hexValue_hexDigit _ (Nat.mod_lt _ (by decide))]
  simp only
  rw [Nat.div_add_mod', UInt8.ofNat_toNat]

theorem octets_flatMap (bytes : List UInt8) (text : List Char) :
    octets (bytes.flatMap Whatwg.percentByte ++ text) = bytes ++ octets text := by
  induction bytes with
  | nil => rfl
  | cons b bytes ih =>
    rw [List.flatMap_cons, List.append_assoc, octets_percentByte, ih, List.cons_append]

theorem octets_encodeChar (c : Char) (text : List Char) :
    octets (encodeChar c ++ text) = String.utf8EncodeChar c ++ octets text := by
  unfold encodeChar
  by_cases hspace : c = ' '
  · rw [if_pos hspace, hspace, List.singleton_append, octets_cons (by decide)]
    rfl
  · rw [if_neg hspace]
    by_cases hplain : isPlain c = true
    · have hpercent : c ≠ '%' := by
        rintro rfl
        exact absurd hplain (by decide)
      have hplus : c ≠ '+' := by
        rintro rfl
        exact absurd hplain (by decide)
      rw [if_pos hplain, List.singleton_append, octets_cons hpercent, plainOctets, if_neg hplus]
    · rw [if_neg hplain, octets_flatMap]

theorem octets_encode (text : List Char) : octets (encode text) = utf8Octets text := by
  induction text with
  | nil => rfl
  | cons c text ih =>
    unfold encode at ih ⊢
    rw [List.flatMap_cons, octets_encodeChar, ih, Utf8.utf8Octets_cons]

theorem decode_encode (text : List Char) : decode (encode text) = text := by
  rw [decode, octets_encode, Utf8.decode_utf8Octets]

/-! ### Fields -/

/-- What is written consists of plain characters, plus signs and percent signs. -/
theorem mem_encode {text : List Char} {c : Char} (h : c ∈ encode text) :
    isPlain c = true ∨ c = '+' ∨ c = '%' := by
  obtain ⟨a, -, hc⟩ := List.mem_flatMap.mp h
  unfold encodeChar at hc
  by_cases hspace : a = ' '
  · rw [if_pos hspace] at hc
    exact .inr (.inl (List.mem_singleton.mp hc))
  · rw [if_neg hspace] at hc
    by_cases hplain : isPlain a = true
    · rw [if_pos hplain] at hc
      rw [List.mem_singleton.mp hc]
      exact .inl hplain
    · rw [if_neg hplain] at hc
      obtain ⟨b, -, hb⟩ := List.mem_flatMap.mp hc
      have hlt := b.toNat_lt
      simp only [Whatwg.percentByte, List.mem_cons, List.not_mem_nil, or_false] at hb
      rcases hb with rfl | rfl | rfl
      · exact .inr (.inr rfl)
      · exact .inl (hexDigit_plain _ (by omega))
      · exact .inl (hexDigit_plain _ (Nat.mod_lt _ (by decide)))

theorem not_mem_encode {c : Char} (hplain : isPlain c = false) (hplus : c ≠ '+')
    (hpercent : c ≠ '%') (text : List Char) :
    c ∉ encode text := by
  intro h
  rcases mem_encode h with h | h | h
  · rw [hplain] at h
    cases h
  · exact hplus h
  · exact hpercent h

theorem readField_writeField (field : String × String) : readField (writeField field) = field := by
  have hname : ∀ c ∈ encode field.1.toList, decide (c ≠ '=') = true := by
    intro c hc
    apply decide_eq_true
    rintro rfl
    exact not_mem_encode (by decide) (by decide) (by decide) _ hc
  have hhead : (writeField field).takeWhile (· ≠ '=') = encode field.1.toList := by
    unfold writeField
    rw [List.takeWhile_append_of_pos hname, List.takeWhile_cons_of_neg (by decide), List.append_nil]
  have htail : (writeField field).dropWhile (· ≠ '=') = '=' :: encode field.2.toList := by
    unfold writeField
    rw [List.dropWhile_append_of_pos hname, List.dropWhile_cons_of_neg (by decide)]
  unfold readField
  rw [hhead, htail, List.tail_cons, decode_encode, decode_encode, String.ofList_toList,
    String.ofList_toList]

theorem not_mem_writeField {c : Char} (hplain : isPlain c = false) (hplus : c ≠ '+')
    (hpercent : c ≠ '%') (hequals : c ≠ '=') (field : String × String) : c ∉ writeField field := by
  intro h
  rcases List.mem_append.mp h with h | h
  · exact not_mem_encode hplain hplus hpercent _ h
  · rcases List.mem_cons.mp h with h | h
    · exact hequals h
    · exact not_mem_encode hplain hplus hpercent _ h

/-- Reading undoes writing. -/
theorem parse_serialize (fields : List (String × String)) : parse (serialize fields) = fields := by
  cases hfields : fields with
  | nil => rfl
  | cons first rest =>
    rw [← hfields]
    have hne : fields.map writeField ≠ [] := by simp [hfields]
    have hfree : ∀ piece ∈ fields.map writeField, '&' ∉ piece := by
      intro piece hpiece
      obtain ⟨field, -, rfl⟩ := List.mem_map.mp hpiece
      exact not_mem_writeField (by decide) (by decide) (by decide) (by decide) field
    have hkept : (fields.map writeField).filter (· ≠ []) = fields.map writeField := by
      rw [List.filter_eq_self]
      intro piece hpiece
      obtain ⟨field, -, rfl⟩ := List.mem_map.mp hpiece
      exact decide_eq_true (by simp [writeField])
    unfold parse serialize
    rw [List.splitOn_intercalate '&' hfree hne, hkept, List.map_map]
    refine (List.map_congr_left fun field _ => ?_).trans (List.map_id fields)
    exact readField_writeField field

theorem set_of_not_mem {fields : List (String × String)} {name : String}
    (h : ∀ field ∈ fields, field.1 ≠ name) (value : String) :
    set fields name value = fields ++ [(name, value)] := by
  have hdrop : fields.dropWhile (·.1 ≠ name) = [] := by
    rw [List.dropWhile_eq_nil_iff]
    exact fun field hfield => decide_eq_true (h field hfield)
  unfold set
  rw [hdrop]

end Finlytic.Lib.Form
