import Mathlib.Data.List.TakeWhile
import Mathlib.Tactic.SplitIfs

/-! `base64url` as Node's `Buffer` writes and reads it. Writing leaves out the
padding; reading takes both alphabets, stops at the first equals sign and skips every
other character, after it has cut every code unit to an octet. -/

namespace Finlytic.Lib.Base64

def alphabet : List Char := "ABCDEFGHIJKLMNOPQRSTUVWXYZabcdefghijklmnopqrstuvwxyz0123456789-_".toList

def digit (n : ℕ) : Char := alphabet.getD n 'A'

def value (c : Char) : Option ℕ := if c = '+' then some 62 else if c = '/' then some 63
    else alphabet.idxOf? c

/-- `buffer.toString('base64url')`. -/
def encode : List UInt8 → List Char
  | a :: b :: c :: rest =>
    digit (a.toNat / 4) :: digit (a.toNat % 4 * 16 + b.toNat / 16) ::
      digit (b.toNat % 16 * 4 + c.toNat / 64) ::
      digit (c.toNat % 64) :: encode rest
  | [a, b] => [digit (a.toNat / 4), digit (a.toNat % 4 * 16 + b.toNat / 16), digit (b.toNat % 16 * 4)]
  | [a] => [digit (a.toNat / 4), digit (a.toNat % 4 * 16)]
  | [] => []

/-- Four digits make three octets; a single digit at the end makes none. -/
def octets : List ℕ → List UInt8
  | w :: x :: y :: z :: rest =>
    UInt8.ofNat (w * 4 + x / 16) :: UInt8.ofNat (x % 16 * 16 + y / 4) :: UInt8.ofNat
      (y % 4 * 64 + z) :: octets rest
  | [w, x, y] => [UInt8.ofNat (w * 4 + x / 16), UInt8.ofNat (x % 16 * 16 + y / 4)]
  | [w, x] => [UInt8.ofNat (w * 4 + x / 16)]
  | _ => []

/-- A character in UTF-16. -/
def codeUnits (c : Char) : List ℕ :=
  if c.toNat < 0x10000 then [c.toNat]
  else [0xD800 + (c.toNat - 0x10000) / 0x400, 0xDC00 + (c.toNat - 0x10000) % 0x400]

def lowOctets (text : List Char) : List Char :=
  (text.flatMap codeUnits).map fun unit => Char.ofNat (unit % 256)

/-- `Buffer.from(text, 'base64url')`. -/
def decode (text : List Char) : List UInt8 :=
  octets (((lowOctets text).takeWhile (· ≠ '=')).filterMap value)

theorem value_digit : ∀ n < 64, value (digit n) = some n := by decide +kernel

theorem digit_mem : ∀ n < 64, digit n ∈ alphabet := by decide +kernel

theorem alphabet_lt : alphabet.all (fun c => decide (c.toNat < 256)) = true := by decide

/-- A character of one octet. -/
theorem lowOctets_of_lt {c : Char} (h : c.toNat < 256) : lowOctets [c] = [c] := by
  have hunit : codeUnits c = [c.toNat] := if_pos (Nat.lt_trans h (by decide))
  simp [lowOctets, hunit, Nat.mod_eq_of_lt h]

theorem lowOctets_cons (c : Char) (text : List Char) :
    lowOctets (c :: text) = lowOctets [c] ++ lowOctets text := by
  simp [lowOctets]

/-- A text of digits is read as it stands. -/
theorem lowOctets_of_forall {text : List Char} (h : ∀ c ∈ text, c ∈ alphabet) :
    lowOctets text = text := by
  induction text with
  | nil => rfl
  | cons c text ih =>
    obtain ⟨hc, htext⟩ := List.forall_mem_cons.mp h
    have hlt := of_decide_eq_true (List.all_eq_true.mp alphabet_lt c hc)
    rw [lowOctets_cons, lowOctets_of_lt hlt, ih htext, List.singleton_append]

theorem takeWhile_of_forall {text : List Char} (h : ∀ c ∈ text, c ∈ alphabet) :
    text.takeWhile (· ≠ '=') = text := by
  have hequals : '=' ∉ alphabet := by decide
  refine List.takeWhile_eq_self_iff.mpr fun c hc => decide_eq_true ?_
  rintro rfl
  exact hequals (h _ hc)

theorem mem_alphabet {bytes : List UInt8} {c : Char} (h : c ∈ encode bytes) : c ∈ alphabet := by
  fun_induction encode bytes with
  | case1 x y z rest ih =>
    have hx := x.toNat_lt
    have hy := y.toNat_lt
    have hz := z.toNat_lt
    simp only [List.mem_cons] at h
    rcases h with rfl | rfl | rfl | rfl | h
    · exact digit_mem _ (by omega)
    · exact digit_mem _ (by omega)
    · exact digit_mem _ (by omega)
    · exact digit_mem _ (by omega)
    · exact ih h
  | case2 x y =>
    have hx := x.toNat_lt
    have hy := y.toNat_lt
    simp only [List.mem_cons, List.not_mem_nil, or_false] at h
    rcases h with rfl | rfl | rfl
    · exact digit_mem _ (by omega)
    · exact digit_mem _ (by omega)
    · exact digit_mem _ (by omega)
  | case3 x =>
    have hx := x.toNat_lt
    simp only [List.mem_cons, List.not_mem_nil, or_false] at h
    rcases h with rfl | rfl
    · exact digit_mem _ (by omega)
    · exact digit_mem _ (by omega)
  | case4 => cases h

theorem ofNat_eq {a : UInt8} {n : ℕ} (h : n = a.toNat) : UInt8.ofNat n = a := by
  rw [h, UInt8.ofNat_toNat]

theorem octets_encode (bytes : List UInt8) : octets ((encode bytes).filterMap value) = bytes := by
  fun_induction encode bytes with
  | case1 a b c rest ih =>
    have ha := a.toNat_lt
    have hb := b.toNat_lt
    have hc := c.toNat_lt
    rw [List.filterMap_cons_some (value_digit _ (by omega)), List.filterMap_cons_some
      (value_digit _ (by omega)),
      List.filterMap_cons_some (value_digit _ (by omega)), List.filterMap_cons_some
        (value_digit _ (by omega)), octets, ih,
      ofNat_eq (a := a) (by omega), ofNat_eq (a := b) (by omega), ofNat_eq (a := c) (by omega)]
  | case2 a b =>
    have ha := a.toNat_lt
    have hb := b.toNat_lt
    rw [List.filterMap_cons_some (value_digit _ (by omega)), List.filterMap_cons_some
      (value_digit _ (by omega)),
      List.filterMap_cons_some (value_digit _ (by omega)), List.filterMap_nil, octets,
        ofNat_eq (a := a) (by omega),
      ofNat_eq (a := b) (by omega)]
  | case3 a =>
    have ha := a.toNat_lt
    rw [List.filterMap_cons_some (value_digit _ (by omega)), List.filterMap_cons_some
      (value_digit _ (by omega)),
      List.filterMap_nil, octets, ofNat_eq (a := a) (by omega)]
  | case4 => rfl

/-- Reading undoes writing. -/
theorem decode_encode (bytes : List UInt8) : decode (encode bytes) = bytes := by
  unfold decode
  rw [lowOctets_of_forall fun c hc => mem_alphabet hc, takeWhile_of_forall fun c hc =>
    mem_alphabet hc, octets_encode]

theorem dot_not_mem_encode (bytes : List UInt8) : '.' ∉ encode bytes := by
  intro h
  exact absurd (mem_alphabet h) (by decide)

theorem encode_eq_nil {bytes : List UInt8} : encode bytes = [] ↔ bytes = [] := by
  fun_cases encode bytes <;> simp

end Finlytic.Lib.Base64
