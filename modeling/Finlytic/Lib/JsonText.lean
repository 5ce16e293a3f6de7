import Finlytic.Lib.Jws

/-! Parts of a JSON text: strings with their escapes, fixed text between them, and
the octets in which the text travels. -/

namespace Finlytic.Lib.JsonText

open Jws

/-! ### Strings -/

/-- A character of a JSON string. -/
def escapeChar (c : Char) : List Char :=
  if c = '"' then ['\\', '"'] else if c = '\\' then ['\\', '\\'] else if c = '\n' then ['\\', 'n']
  else if c = '\r' then ['\\', 'r'] else [c]

/-- A JSON string up to its closing quote, and what follows. -/
def unescape : List Char → Option (List Char × List Char)
  | '"' :: rest => some ([], rest)
  | '\\' :: c :: rest =>
    (unescape rest).map fun r => ((if c = 'n' then '\n' else if c = 'r' then '\r' else c) :: r.1, r.2)
  | c :: rest => (unescape rest).map fun r => (c :: r.1, r.2)
  | [] => none

theorem unescape_escapeChar (c : Char) (t : List Char) :
    unescape (escapeChar c ++ t) = (unescape t).map fun r => (c :: r.1, r.2) := by
  unfold escapeChar
  split_ifs with hquote hback hlf hcr
  · rw [hquote]
    rfl
  · rw [hback]
    rfl
  · rw [hlf]
    rfl
  · rw [hcr]
    rfl
  · rw [List.singleton_append, unescape]
    · exact hquote
    · exact fun _ _ h => absurd h hback

theorem unescape_escape (text rest : List Char) :
    unescape (text.flatMap escapeChar ++ '"' :: rest) = some (text, rest) := by
  induction text with
  | nil => rfl
  | cons c text ih =>
    rw [List.flatMap_cons, List.append_assoc, unescape_escapeChar, ih]
    rfl

theorem lineBreak_not_mem_escape {c : Char} (hc : c = '\n' ∨ c = '\r') (text : List Char) :
    c ∉ text.flatMap escapeChar := by
  intro hmem
  obtain ⟨d, -, hd⟩ := List.mem_flatMap.mp hmem
  unfold escapeChar at hd
  split_ifs at hd with hquote hback hlf hcr
  · rcases hc with rfl | rfl <;> exact absurd hd (by decide)
  · rcases hc with rfl | rfl <;> exact absurd hd (by decide)
  · rcases hc with rfl | rfl <;> exact absurd hd (by decide)
  · rcases hc with rfl | rfl <;> exact absurd hd (by decide)
  · rw [List.mem_singleton.mp hd] at hc
    exact hc.elim hlf hcr

/-! ### Fixed text, numbers, octets -/

/-- What follows a fixed text. -/
def after (fixed text : List Char) : Option (List Char) :=
  if fixed.isPrefixOf text then some (text.drop fixed.length) else none

theorem after_append (fixed rest : List Char) : after fixed (fixed ++ rest) = some rest := by
  unfold after
  rw [if_pos (List.isPrefixOf_iff_prefix.mpr (List.prefix_append fixed rest)), List.drop_left]

/-- A natural number and what follows its digits. -/
def number (text : List Char) : ℕ × List Char :=
  (Nat.ofDigitChars 10 (text.takeWhile Char.isDigit) 0, text.dropWhile Char.isDigit)

theorem number_append (n : ℕ) {c : Char} (hc : c.isDigit = false) (rest : List Char) :
    number (Nat.toDigits 10 n ++ c :: rest) = (n, c :: rest) := by
  have hdigits : ∀ d ∈ Nat.toDigits 10 n, d.isDigit = true :=
    fun d hd => Nat.isDigit_of_mem_toDigits (by decide) (by decide) hd
  have hstop : ¬ c.isDigit = true := by
    rw [hc]
    exact Bool.false_ne_true
  unfold number
  rw [List.takeWhile_append_of_pos hdigits, List.dropWhile_append_of_pos hdigits,
    List.takeWhile_cons_of_neg hstop,
    List.dropWhile_cons_of_neg hstop, List.append_nil, Nat.ofDigitChars_toDigits (by decide)
      (by decide)]

/-- The text of well-formed UTF-8. -/
def utf8Text (octets : List UInt8) : List Char :=
  ((octets.toByteArray).utf8Decode?.map Array.toList).getD []

theorem utf8Text_utf8Octets (text : List Char) : utf8Text (utf8Octets text) = text := by
  have hencode : (utf8Octets text).toByteArray = text.utf8Encode := rfl
  unfold utf8Text
  rw [hencode, List.utf8Decode?_utf8Encode]
  rfl

end Finlytic.Lib.JsonText
