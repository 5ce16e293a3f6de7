import Finlytic.Lib.Jws

/-! The decoder of UTF-8 that never fails: octets that are not UTF-8 become U+FFFD,
one for each longest part that could have begun a character. The decoder reads one
octet at a time, so a text may come in chunks, cut anywhere. -/

namespace Finlytic.Lib.Utf8

open Jws

/-! ### The decoder -/

/-- A character that is not complete: its bits so far, the octets it still needs, and
the bounds of the next one. -/
structure Owed where
  bits : ℕ
  needed : ℕ
  lower : ℕ
  upper : ℕ
  deriving DecidableEq

def replacement : Char := '\uFFFD'

/-- An octet between two characters. -/
def lead (b : ℕ) : List Char × Option Owed :=
  if b ≤ 0x7F then ([Char.ofNat b], none)
  else if 0xC2 ≤ b ∧ b ≤ 0xDF then ([], some ⟨b % 0x20, 1, 0x80, 0xBF⟩)
  else if 0xE0 ≤ b ∧ b ≤ 0xEF then
    ([], some ⟨b % 0x10, 2, if b = 0xE0 then 0xA0 else 0x80, if b = 0xED then 0x9F else 0xBF⟩)
  else if 0xF0 ≤ b ∧ b ≤ 0xF4 then
    ([], some ⟨b % 0x08, 3, if b = 0xF0 then 0x90 else 0x80, if b = 0xF4 then 0x8F else 0xBF⟩)
  else ([replacement], none)

/-- An octet within a character. One that cannot go on is read again as a first octet. -/
def trail (o : Owed) (b : ℕ) : List Char × Option Owed :=
  if o.lower ≤ b ∧ b ≤ o.upper then
    if o.needed = 1 then ([Char.ofNat (o.bits * 64 + b % 64)], none)
    else ([], some ⟨o.bits * 64 + b % 64, o.needed - 1, 0x80, 0xBF⟩)
  else (replacement :: (lead b).1, (lead b).2)

def step : Option Owed → ℕ → List Char × Option Owed
  | none, b => lead b
  | some o, b => trail o b

/-- One chunk: the characters that are complete, and the one that is not. -/
def run (owed : Option Owed) : List UInt8 → List Char × Option Owed
  | [] => ([], owed)
  | b :: bs =>
    ((step owed b.toNat).1 ++ (run (step owed b.toNat).2 bs).1, (run (step owed b.toNat).2 bs).2)

/-- The end of the text. -/
def flush (owed : Option Owed) : List Char := if owed.isSome then [replacement] else []

def decode (octets : List UInt8) : List Char := (run none octets).1 ++ flush (run none octets).2

/-! ### Chunks -/

variable {owed : Option Owed} {as bs : List UInt8}

@[simp] theorem run_nil : run owed [] = ([], owed) := rfl

theorem run_cons (b : UInt8) :
    run owed (b :: bs) =
      ((step owed b.toNat).1 ++ (run (step owed b.toNat).2 bs).1,
      (run (step owed b.toNat).2 bs).2) := rfl

theorem run_append :
    run owed (as ++ bs) =
      ((run owed as).1 ++ (run (run owed as).2 bs).1, (run (run owed as).2 bs).2) := by
  induction as generalizing owed with
  | nil => rfl
  | cons a as ih => rw [List.cons_append, run_cons, run_cons, ih, List.append_assoc]

/-! ### One character -/

theorem lead_one {b : ℕ} (h : b ≤ 0x7F) : lead b = ([Char.ofNat b], none) := if_pos h

theorem lead_two {b : ℕ} (h : 0xC2 ≤ b ∧ b ≤ 0xDF) :
    lead b = ([], some ⟨b % 0x20, 1, 0x80, 0xBF⟩) := by
  unfold lead
  rw [if_neg (by omega), if_pos h]

theorem lead_three {b : ℕ} (h : 0xE0 ≤ b ∧ b ≤ 0xEF) :
    lead b = ([],
      some ⟨b % 0x10, 2, if b = 0xE0 then 0xA0 else 0x80, if b = 0xED then 0x9F else 0xBF⟩) := by
  unfold lead
  rw [if_neg (by omega), if_neg (by omega), if_pos h]

theorem lead_four {b : ℕ} (h : 0xF0 ≤ b ∧ b ≤ 0xF4) :
    lead b = ([],
      some ⟨b % 0x08, 3, if b = 0xF0 then 0x90 else 0x80, if b = 0xF4 then 0x8F else 0xBF⟩) := by
  unfold lead
  rw [if_neg (by omega), if_neg (by omega), if_neg (by omega), if_pos h]

theorem trail_last {o : Owed} {b : ℕ} (h : o.lower ≤ b ∧ b ≤ o.upper) (h1 : o.needed = 1) :
    trail o b = ([Char.ofNat (o.bits * 64 + b % 64)], none) := by
  unfold trail
  rw [if_pos h, if_pos h1]

theorem trail_more {o : Owed} {b : ℕ} (h : o.lower ≤ b ∧ b ≤ o.upper) (h1 : o.needed ≠ 1) :
    trail o b = ([], some ⟨o.bits * 64 + b % 64, o.needed - 1, 0x80, 0xBF⟩) := by
  unfold trail
  rw [if_pos h, if_neg h1]

/-- The last octet gives the character, and the others give nothing. -/
inductive Reads (c : Char) : Option Owed → List UInt8 → Prop
  | last {owed : Option Owed} {b : UInt8} (h : step owed b.toNat = ([c], none)) : Reads c owed [b]
  | more {owed : Option Owed} {b : UInt8} {o : Owed} {bs : List UInt8}
    (h : step owed b.toNat = ([], some o))
      (hs : Reads c (some o) bs) : Reads c owed (b :: bs)

variable {c : Char}

theorem Reads.run_eq (h : Reads c owed bs) : run owed bs = ([c], none) := by
  induction h with
  | last h => rw [run_cons, h]; rfl
  | more h _ ih => rw [run_cons, h, ih]; rfl

theorem Reads.part (h : Reads c owed bs) {n : ℕ} (h0 : 0 < n) (hn : n < bs.length) :
    ∃ o, run owed (bs.take n) = ([], some o) := by
  induction h generalizing n with
  | last h =>
    rw [List.length_singleton] at hn
    omega
  | @more owed b o bs h _ ih =>
    obtain ⟨n, rfl⟩ := Nat.exists_eq_add_one_of_ne_zero (Nat.ne_of_gt h0)
    rw [List.take_succ_cons, run_cons, h]
    rcases Nat.eq_zero_or_pos n with rfl | hpos
    · exact ⟨o, rfl⟩
    · rw [List.length_cons] at hn
      obtain ⟨o', ho'⟩ := ih hpos (by omega)
      exact ⟨o', by rw [ho']; rfl⟩

theorem toNat_ofNat {k : ℕ} (h : k < 256) : (UInt8.ofNat k).toNat = k := by
  rw [UInt8.toNat_ofNat']
  exact Nat.mod_eq_of_lt h

theorem Reads.lead {k : ℕ} {o : Owed} (h : lead k = ([], some o)) (hk : k < 256)
    (hs : Reads c (some o) bs) :
    Reads c none (UInt8.ofNat k :: bs) := by
  refine .more ?_ hs
  rw [toNat_ofNat hk]
  exact h

/-- An octet of the form `10xxxxxx` in the bounds, with more to come. -/
theorem Reads.trail {k : ℕ} {o : Owed} (hk : o.lower ≤ k + 0x80 ∧ k + 0x80 ≤ o.upper)
    (hlt : k < 0x40) (h1 : o.needed ≠ 1)
    (hs : Reads c (some ⟨o.bits * 64 + k, o.needed - 1, 0x80, 0xBF⟩) bs) :
    Reads c (some o) (UInt8.ofNat (k + 0x80) :: bs) := by
  have hbits : (k + 0x80) % 64 = k := by omega
  refine .more ?_ hs
  rw [toNat_ofNat (by omega)]
  exact (trail_more hk h1).trans (by rw [hbits])

theorem Reads.final {k : ℕ} {o : Owed} (hk : o.lower ≤ k + 0x80 ∧ k + 0x80 ≤ o.upper)
    (hlt : k < 0x40) (h1 : o.needed = 1) (hc : o.bits * 64 + k = c.toNat) :
    Reads c (some o) [UInt8.ofNat (k + 0x80)] := by
  have hbits : (k + 0x80) % 64 = k := by omega
  refine .last ?_
  rw [toNat_ofNat (by omega)]
  refine (trail_last hk h1).trans ?_
  rw [hbits, hc, Char.ofNat_toNat]

/-- By the number of octets; the bounds of the second octet leave out long forms and surrogates. -/
theorem reads_encode (c : Char) : Reads c none (String.utf8EncodeChar c) := by
  have hrange : c.toNat < 0xD800 ∨ 0xDFFF < c.toNat ∧ c.toNat < 0x110000 := c.valid
  have hv : c.val.toNat = c.toNat := rfl
  unfold String.utf8EncodeChar
  simp only [hv]
  split_ifs with h1 h2 h3
  · refine .last ?_
    rw [toNat_ofNat (by omega)]
    refine (lead_one h1).trans ?_
    rw [Char.ofNat_toNat]
  · refine .lead (lead_two (by omega)) (by omega) ?_
    exact .final (by simp only; omega) (by omega) rfl (by simp only; omega)
  · refine .lead (lead_three (by omega)) (by omega) (.trail ?_ (by omega) (Nat.succ_ne_self 1) ?_)
    · simp only
      split_ifs <;> omega
    · exact .final (by simp only; omega) (by omega) rfl (by simp only; omega)
  · refine .lead (lead_four (by omega)) (by omega) (.trail ?_ (by omega) (show 3 ≠ 1 by decide)
      (.trail ?_ (by omega) (show 2 ≠ 1 by decide) ?_))
    · simp only
      split_ifs <;> omega
    · simp only
      omega
    · exact .final (by simp only; omega) (by omega) rfl (by simp only; omega)

/-! ### Texts -/

theorem utf8Octets_cons (c : Char) (text : List Char) :
    utf8Octets (c :: text) = String.utf8EncodeChar c ++ utf8Octets text :=
  List.flatMap_cons

theorem utf8Octets_append (text rest : List Char) :
    utf8Octets (text ++ rest) = utf8Octets text ++ utf8Octets rest :=
  List.flatMap_append

theorem run_utf8Octets (text : List Char) : run none (utf8Octets text) = (text, none) := by
  induction text with
  | nil => rfl
  | cons c text ih =>
    rw [utf8Octets_cons, run_append, (reads_encode c).run_eq, ih]
    rfl

theorem decode_utf8Octets (text : List Char) : decode (utf8Octets text) = text := by
  unfold decode
  rw [run_utf8Octets]
  exact List.append_nil text

/-! ### Texts cut after some octets -/

end Finlytic.Lib.Utf8
