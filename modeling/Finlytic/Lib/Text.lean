import Mathlib.Data.List.Basic
import Mathlib.Data.List.DropRight

/-! Text as JavaScript treats it: trimming, decimal numbers, and separators. -/

namespace Finlytic.Lib

/-- White space and line terminators in the sense of ECMAScript. -/
def isSpace (c : Char) : Bool :=
  c.toNat ∈ [0x09, 0x0A, 0x0B, 0x0C, 0x0D, 0x20, 0xA0, 0x1680, 0x2028, 0x2029, 0x202F, 0x205F,
    0x3000, 0xFEFF] ||
    (0x2000 ≤ c.toNat && c.toNat ≤ 0x200A)

def trimChars (l : List Char) : List Char := (l.dropWhile isSpace).rdropWhile isSpace

/-- `String.prototype.trim`. -/
def trim (s : String) : String := String.ofList (trimChars s.toList)

/-- `String.prototype.padStart`. -/
def padStart (width : ℕ) (fill : Char) (s : String) : String :=
  String.ofList (List.replicate (width - s.length) fill ++ s.toList)

/-- `String.prototype.includes`. -/
def includes (text word : List Char) : Bool := text.tails.any fun tail => word.isPrefixOf tail

theorem letter_bounds {c : Char} (h : c.isAlpha = true) : 65 ≤ c.toNat ∧ c.toNat ≤ 122 := by
  have hcase : (c.isUpper || c.isLower) = true := h
  rcases Bool.or_eq_true_iff.mp hcase with upper | lower
  · have hrange : 65 ≤ c.toNat ∧ c.toNat ≤ 90 := of_decide_eq_true upper
    omega
  · have hboth := Bool.and_eq_true_iff.mp lower
    have hrange : 97 ≤ c.toNat ∧ c.toNat ≤ 122 :=
      ⟨of_decide_eq_true hboth.1, of_decide_eq_true hboth.2⟩
    omega

variable {α : Type*}

/-- Two texts with a separator agree up to the first separator and after it. -/
theorem append_cons_inj_of_first {x₁ x₂ z₁ z₂ : List α} {a : α} (h₁ : a ∉ x₁) (h₂ : a ∉ x₂)
    (h : x₁ ++ a :: z₁ = x₂ ++ a :: z₂) : x₁ = x₂ ∧ z₁ = z₂ := by
  induction x₁ generalizing x₂ with
  | nil =>
    cases x₂ with
    | nil => exact ⟨rfl, (List.cons.inj h).2⟩
    | cons b x₂ =>
      have hab : a = b := (List.cons.inj h).1
      exact absurd (hab ▸ List.mem_cons_self) h₂
  | cons b x₁ ih =>
    cases x₂ with
    | nil =>
      have hba : b = a := (List.cons.inj h).1
      exact absurd (hba ▸ List.mem_cons_self) h₁
    | cons c x₂ =>
      obtain ⟨hbc, htail⟩ := List.cons.inj h
      obtain ⟨hx, hz⟩ :=
        ih (fun ha => h₁ (List.mem_cons_of_mem _ ha))
        (fun ha => h₂ (List.mem_cons_of_mem _ ha)) htail
      exact ⟨by rw [hbc, hx], hz⟩

theorem toList_toString (n : ℕ) : (toString n).toList = Nat.toDigits 10 n := by
  rw [Nat.toString_eq_repr, Nat.toList_repr]

theorem toString_ne_empty (n : ℕ) : toString n ≠ "" := by
  intro h
  have hnil := congrArg String.toList h
  rw [toList_toString] at hnil
  exact Nat.toDigits_ne_nil hnil

/-- A character that is no digit is in no decimal number. -/
theorem not_mem_repr {c : Char} (hc : c.isDigit = false) (n : ℕ) : c ∉ (toString n).toList := by
  intro h
  have h' : c ∈ Nat.toDigits 10 n := by simpa [toString, Nat.repr] using h
  rw [Nat.isDigit_of_mem_toDigits (by decide) (by decide) h'] at hc
  cases hc

theorem not_mem_repr_int {c : Char} (hc : c.isDigit = false) (hm : c ≠ '-') (n : ℤ) :
    c ∉ (toString n).toList := by
  cases n with
  | ofNat n => exact not_mem_repr hc n
  | negSucc n =>
    intro h
    have h' : c ∈ ("-" ++ toString (n + 1)).toList := h
    rw [String.toList_append, List.mem_append] at h'
    rcases h' with h' | h'
    · exact hm (by simpa using h')
    · exact not_mem_repr hc (n + 1) h'

theorem not_mem_padStart {c fill : Char} (hc : c ≠ fill) {s : String} (hs : c ∉ s.toList)
    (width : ℕ) :
    c ∉ (padStart width fill s).toList := by
  intro h
  rw [padStart, String.toList_ofList, List.mem_append] at h
  rcases h with h | h
  · exact hc (List.eq_of_mem_replicate h)
  · exact hs h

/-! ### Splitting and trimming -/

/-- The first piece of a split ends at the first separator. -/
theorem splitOn_eq_cons [DecidableEq α] {sep : α} {l w : List α} {ws : List (List α)}
    (h : l.splitOn sep = w :: ws) :
    sep ∉ w ∧ ((ws = [] ∧ l = w) ∨ ∃ rest, l = w ++ sep :: rest ∧ rest.splitOn sep = ws) := by
  by_cases hmem : sep ∈ l
  · obtain ⟨before, rest, hl, hfirst⟩ := List.eq_append_cons_of_mem hmem
    rw [hl, List.splitOn_append_cons_self_of_not_mem hfirst] at h
    obtain ⟨hw, hws⟩ := List.cons.inj h
    rw [← hw]
    exact ⟨hfirst, .inr ⟨rest, hl, hws⟩⟩
  · rw [List.splitOn_eq_singleton hmem] at h
    obtain ⟨hw, hws⟩ := List.cons.inj h
    rw [← hw]
    exact ⟨hmem, .inl ⟨hws.symm, rfl⟩⟩

/-- A text of three pieces, written out. -/
theorem splitOn_eq_three [DecidableEq α] {sep : α} {l a b c : List α}
    (h : l.splitOn sep = [a, b, c]) :
    l = a ++ sep :: (b ++ sep :: c) ∧ sep ∉ a ∧ sep ∉ b ∧ sep ∉ c := by
  obtain ⟨ha, ⟨hws, -⟩ | ⟨rest, hl, hrest⟩⟩ := splitOn_eq_cons h
  · cases hws
  obtain ⟨hb, ⟨hws, -⟩ | ⟨last, hr, hlast⟩⟩ := splitOn_eq_cons hrest
  · cases hws
  obtain ⟨hc, ⟨-, heq⟩ | ⟨more, -, hmore⟩⟩ := splitOn_eq_cons hlast
  · rw [hl, hr, heq]
    exact ⟨rfl, ha, hb, hc⟩
  · exact absurd hmore (List.splitOn_ne_nil _ _)

theorem splitOn_three [DecidableEq α] {sep : α} {a b c : List α} (ha : sep ∉ a) (hb : sep ∉ b) :
    (a ++ sep :: (b ++ sep :: c)).splitOn sep = a :: b :: c.splitOn sep := by
  rw [List.splitOn_append_cons_self_of_not_mem ha, List.splitOn_append_cons_self_of_not_mem hb]

/-- The first piece of a split at a kind of separator. -/
theorem splitOnP_eq_cons {p : α → Bool} {l w : List α} {ws : List (List α)}
    (h : l.splitOnP p = w :: ws) :
    (∀ c ∈ w, p c = false) ∧
      ((ws = [] ∧ l = w) ∨ ∃ c rest, p c = true ∧ l = w ++ c :: rest ∧ rest.splitOnP p = ws) := by
  induction l generalizing w with
  | nil =>
    rw [List.splitOnP_nil] at h
    obtain ⟨rfl, rfl⟩ := List.cons.inj h
    exact ⟨by simp, .inl ⟨rfl, rfl⟩⟩
  | cons c cs ih =>
    by_cases hc : p c = true
    · have hsplit : (c :: cs).splitOnP p = [] :: cs.splitOnP p :=
        @List.splitOnP_append_cons_of_forall_mem _ p [] (by simp) c hc cs
      rw [hsplit] at h
      obtain ⟨rfl, rfl⟩ := List.cons.inj h
      exact ⟨by simp, .inr ⟨c, cs, hc, rfl, rfl⟩⟩
    · obtain ⟨v, vs, hv⟩ := List.exists_cons_of_ne_nil (List.splitOnP_ne_nil p cs)
      rw [List.splitOnP_cons_eq_if_modifyHead, if_neg hc, hv, List.modifyHead_cons] at h
      obtain ⟨rfl, rfl⟩ := List.cons.inj h
      obtain ⟨hall, hrest⟩ := ih hv
      refine ⟨fun d hd => ?_, ?_⟩
      · rcases List.mem_cons.mp hd with rfl | hd
        · exact Bool.eq_false_iff.mpr hc
        · exact hall d hd
      · rcases hrest with ⟨hvs, rfl⟩ | ⟨e, rest, he, rfl, hr⟩
        · exact .inl ⟨hvs, rfl⟩
        · exact .inr ⟨e, rest, he, rfl, hr⟩

/-- One piece of a split stands between two separators, or at an end. -/
theorem splitOnP_eq_append {p : α → Bool} {l w : List α} {front back : List (List α)}
    (h : l.splitOnP p = front ++ w :: back) : ∃ q y, l = q ++ (w ++ y) ∧
      ((front = [] ∧ q = []) ∨ ∃ q' c, q = q' ++ [c] ∧ p c = true ∧ q'.splitOnP p = front) ∧
      ((back = [] ∧ y = []) ∨ ∃ c y', y = c :: y' ∧ p c = true ∧ y'.splitOnP p = back) := by
  induction front generalizing l with
  | nil =>
    obtain ⟨-, ⟨hback, hl⟩ | ⟨c, rest, hc, hl, hrest⟩⟩ := splitOnP_eq_cons h
    · exact ⟨[], [], by rw [hl, List.append_nil, List.nil_append], .inl ⟨rfl, rfl⟩, .inl ⟨hback, rfl⟩⟩
    · exact ⟨[], c :: rest, hl, .inl ⟨rfl, rfl⟩, .inr ⟨c, rest, rfl, hc, hrest⟩⟩
  | cons v vs ih =>
    obtain ⟨hv, ⟨hnil, -⟩ | ⟨c, rest, hc, hl, hrest⟩⟩ := splitOnP_eq_cons h
    · cases vs <;> cases hnil
    · obtain ⟨q, y, hsplit, hq, hy⟩ := ih hrest
      refine ⟨v ++ c :: q, y, by rw [hl, hsplit, List.append_assoc, List.cons_append], .inr ?_, hy⟩
      rcases hq with ⟨rfl, rfl⟩ | ⟨q', c', rfl, hc', hq'⟩
      · exact ⟨v, c, rfl, hc, List.splitOnP_eq_singleton hv⟩
      · refine ⟨v ++ c :: q', c', by rw [List.append_assoc, List.cons_append], hc', ?_⟩
        rw [List.splitOnP_append_cons_of_forall_mem hv c hc, hq']

theorem not_of_mem_splitOnP {p : α → Bool} {l w : List α} (h : w ∈ l.splitOnP p) :
    ∀ c ∈ w, p c = false := by
  generalize hpieces : l.splitOnP p = pieces at h
  induction pieces generalizing l with
  | nil => cases h
  | cons v vs ih =>
    obtain ⟨hall, hrest⟩ := splitOnP_eq_cons hpieces
    rcases List.mem_cons.mp h with rfl | h
    · exact hall
    · rcases hrest with ⟨rfl, -⟩ | ⟨c, rest, -, -, hr⟩
      · cases h
      · exact ih hr h

theorem dropWhile_word {word : List Char} (hne : word ≠ []) (h : ∀ c ∈ word, isSpace c = false)
    (tail : List Char) :
    (word ++ tail).dropWhile isSpace = word ++ tail := by
  cases word with
  | nil => exact absurd rfl hne
  | cons c cs =>
    rw [List.cons_append, List.dropWhile_cons, h c List.mem_cons_self, if_neg Bool.false_ne_true]

theorem rdropWhile_word {word : List Char} (h : ∀ c ∈ word, isSpace c = false) :
    word.rdropWhile isSpace = word := by
  rw [List.rdropWhile_eq_self_iff]
  intro hl
  rw [h _ (List.getLast_mem hl)]
  exact Bool.false_ne_true

/-- Trimming keeps a text that starts with a word. -/
theorem trimChars_append {word : List Char} (hne : word ≠ []) (h : ∀ c ∈ word, isSpace c = false)
    (tail : List Char) :
    ∃ rest, trimChars (word ++ tail) = word ++ rest := by
  rw [trimChars, dropWhile_word hne h]
  induction tail using List.reverseRecOn with
  | nil => exact ⟨[], by rw [List.append_nil, rdropWhile_word h]⟩
  | append_singleton tail c ih =>
    rw [← List.append_assoc, List.rdropWhile_concat]
    split_ifs
    · exact ih
    · exact ⟨tail ++ [c], by rw [List.append_assoc]⟩

theorem trimChars_word {word : List Char} (hne : word ≠ []) (h : ∀ c ∈ word, isSpace c = false) :
    trimChars word = word := by
  have hdrop := dropWhile_word hne h []
  rw [List.append_nil] at hdrop
  rw [trimChars, hdrop, rdropWhile_word h]

end Finlytic.Lib
