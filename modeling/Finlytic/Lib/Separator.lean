import Mathlib.Data.List.Basic
import Mathlib.Data.List.Infix
import Mathlib.Tactic.SplitIfs

/-! Cutting a text at every occurrence of a separator, and cutting it as it
comes in: the pieces do not depend on how the text was divided into chunks. -/

namespace Finlytic.Lib.Separator

variable {α : Type*} [DecidableEq α]

/-- `text.indexOf(sep)`, where `none` is -1. -/
def indexOf (sep : List α) : List α → Option ℕ
  | [] => if sep = [] then some 0 else none
  | c :: cs => if sep.isPrefixOf (c :: cs) then some 0 else (indexOf sep cs).map (· + 1)

variable {sep text a x : List α} {i : ℕ}

theorem indexOf_eq_some (h : indexOf sep text = some i) :
    ∃ front back, text = front ++ (sep ++ back) ∧ front.length = i := by
  induction text generalizing i with
  | nil =>
    unfold indexOf at h
    split_ifs at h with hsep
    cases h
    exact ⟨[], [], by rw [hsep]; rfl, rfl⟩
  | cons c cs ih =>
    unfold indexOf at h
    split_ifs at h with hhere
    · cases h
      obtain ⟨back, hback⟩ := List.isPrefixOf_iff_prefix.mp hhere
      exact ⟨[], back, hback.symm, rfl⟩
    · obtain ⟨k, hk, rfl⟩ := Option.map_eq_some_iff.mp h
      obtain ⟨front, back, rfl, hlen⟩ := ih hk
      refine ⟨c :: front, back, rfl, ?_⟩
      rw [List.length_cons, hlen]

theorem indexOf_le (h : indexOf sep text = some i) : i + sep.length ≤ text.length := by
  obtain ⟨front, back, rfl, rfl⟩ := indexOf_eq_some h
  simp only [List.length_append]
  omega

/-- What follows does not move the first occurrence. -/
theorem indexOf_append (h : indexOf sep a = some i) (b : List α) :
    indexOf sep (a ++ b) = some i := by
  induction a generalizing i with
  | nil =>
    unfold indexOf at h
    split_ifs at h with hsep
    cases h
    cases b with
    | nil => exact if_pos hsep
    | cons d ds =>
      rw [List.nil_append, indexOf, hsep]
      rfl
  | cons c cs ih =>
    unfold indexOf at h
    rw [List.cons_append, indexOf]
    split_ifs at h with hhere
    · have hthere : sep.isPrefixOf (c :: (cs ++ b)) = true := by
        rw [List.isPrefixOf_iff_prefix] at hhere ⊢
        exact hhere.trans (List.prefix_append (c :: cs) b)
      rw [if_pos hthere]
      exact h
    · obtain ⟨k, hk, rfl⟩ := Option.map_eq_some_iff.mp h
      have hnot : ¬ sep.isPrefixOf (c :: (cs ++ b)) = true := by
        intro hthere
        apply hhere
        rw [List.isPrefixOf_iff_prefix] at hthere ⊢
        apply List.prefix_of_prefix_length_le hthere (List.prefix_append (c :: cs) b)
        have hle := indexOf_le hk
        rw [List.length_cons]
        omega
      rw [if_neg hnot, ih hk]
      rfl

/-! ### Cutting -/

/-- The pieces before each separator, and what follows the last one. -/
def cut (sep : { l : List α // l ≠ [] }) (text : List α) : List (List α) × List α :=
  match _h : indexOf sep.1 text with
  | none => ([], text)
  | some i =>
    let later := cut sep (text.drop (i + sep.1.length))
    (text.take i :: later.1, later.2)
termination_by text.length
decreasing_by
  have hle := indexOf_le _h
  have hpos := List.length_pos_of_ne_nil sep.2
  rw [List.length_drop]
  omega

variable {s : { l : List α // l ≠ [] }}

theorem cut_of_none (h : indexOf s.1 text = none) : cut s text = ([], text) := by
  unfold cut
  split
  · rfl
  · rename_i i hi
    rw [h] at hi
    cases hi

theorem cut_of_some (h : indexOf s.1 text = some i) : cut s text =
    (text.take i :: (cut s (text.drop (i + s.1.length))).1,
      (cut s (text.drop (i + s.1.length))).2) := by
  rw [cut]
  split
  · rename_i hnone
    rw [h] at hnone
    cases hnone
  · rename_i j hj
    rw [h, Option.some.injEq] at hj
    rw [hj]

/-- Cutting may stop anywhere and go on with the rest. -/
theorem cut_append (a b : List α) : cut s (a ++ b) =
    ((cut s a).1 ++ (cut s ((cut s a).2 ++ b)).1, (cut s ((cut s a).2 ++ b)).2) := by
  fun_induction cut s a with
  | case1 a h => rfl
  | case2 a i h later ih =>
    have hle := indexOf_le h
    rw [cut_of_some (indexOf_append h b), List.take_append_of_le_length (by omega),
      List.drop_append_of_le_length hle, ih]
    rfl

/-- A piece whose separator is the first one. -/
theorem cut_piece (h : indexOf s.1 (x ++ s.1) = some x.length) (y : List α) :
    cut s (x ++ (s.1 ++ y)) = (x :: (cut s y).1, (cut s y).2) := by
  have hfirst := indexOf_append h y
  rw [List.append_assoc] at hfirst
  rw [cut_of_some hfirst, List.take_left, ← List.append_assoc, ← List.length_append, List.drop_left]

/-- A part of a piece and its separator that is not all of it. -/
theorem cut_unfinished (h : indexOf s.1 (x ++ s.1) = some x.length) {part : List α}
    (hpart : part <+: x ++ s.1) (hne : part ≠ x ++ s.1) : cut s part = ([], part) := by
  obtain ⟨more, hmore⟩ := hpart
  cases hindex : indexOf s.1 part with
  | none => exact cut_of_none hindex
  | some i =>
    exfalso
    have hsame := indexOf_append hindex more
    rw [hmore, h, Option.some.injEq] at hsame
    have hle := indexOf_le hindex
    have hlen := congrArg List.length hmore
    rw [List.length_append, List.length_append] at hlen
    apply hne
    rw [← hmore, List.length_eq_zero_iff.mp (by omega : more.length = 0), List.append_nil]

/-! ### What a cut keeps -/

theorem isInfix_of_indexOf (h : indexOf sep text = some i) : sep <:+: text := by
  obtain ⟨front, back, rfl, -⟩ := indexOf_eq_some h
  exact ⟨front, back, List.append_assoc _ _ _⟩

theorem indexOf_eq_none : indexOf sep text = none ↔ ¬ sep <:+: text := by
  constructor
  · intro h
    induction text with
    | nil =>
      unfold indexOf at h
      split_ifs at h with hsep
      rw [List.infix_nil]
      exact hsep
    | cons c cs ih =>
      unfold indexOf at h
      split_ifs at h with hhere
      rw [List.isPrefixOf_iff_prefix] at hhere
      rw [List.infix_cons_iff, not_or]
      exact ⟨hhere, ih (Option.map_eq_none_iff.mp h)⟩
  · intro h
    cases hindex : indexOf sep text with
    | none => rfl
    | some i => exact absurd (isInfix_of_indexOf hindex) h

/-- What lies before the first separator has none. -/
theorem take_free (h : indexOf s.1 text = some i) : ¬ s.1 <:+: text.take i := by
  intro hinfix
  have hpos := List.length_pos_of_ne_nil s.2
  cases hindex : indexOf s.1 (text.take i) with
  | none => exact indexOf_eq_none.mp hindex hinfix
  | some j =>
    have hsame := indexOf_append hindex (text.drop i)
    rw [List.take_append_drop, h, Option.some.injEq] at hsame
    have hle := indexOf_le hindex
    rw [List.length_take] at hle
    omega

theorem cut_free (text : List α) :
    (∀ piece ∈ (cut s text).1, ¬ s.1 <:+: piece) ∧ ¬ s.1 <:+: (cut s text).2 := by
  fun_induction cut s text with
  | case1 text h =>
    refine ⟨?_, indexOf_eq_none.mp h⟩
    intro piece hpiece
    cases hpiece
  | case2 text i h later ih =>
    refine ⟨?_, ih.2⟩
    intro piece hpiece
    rcases List.mem_cons.mp hpiece with rfl | hlater
    · exact take_free h
    · exact ih.1 piece hlater

/-- The pieces, each with its separator, and the rest make up the text. -/
theorem cut_join (text : List α) :
    ((cut s text).1.flatMap fun piece => piece ++ s.1) ++ (cut s text).2 = text := by
  fun_induction cut s text with
  | case1 text h => rfl
  | case2 text i h later ih =>
    obtain ⟨front, back, rfl, rfl⟩ := indexOf_eq_some h
    have hback : (front ++ (s.1 ++ back)).drop (front.length + s.1.length) = back := by
      rw [← List.append_assoc, ← List.length_append, List.drop_left]
    rw [hback] at ih
    have hlater : later = cut s back := congrArg (cut s) hback
    rw [hlater, List.take_left, List.flatMap_cons, List.append_assoc, ih, List.append_assoc]

/-! ### Chunks -/

/-- One chunk: the pieces so far, and what is left in the buffer. -/
def feed (s : { l : List α // l ≠ [] }) (state : List (List α) × List α) (chunk : List α) :
    List (List α) × List α :=
  (state.1 ++ (cut s (state.2 ++ chunk)).1, (cut s (state.2 ++ chunk)).2)

theorem foldl_feed (done : List (List α)) (text : List α) (chunks : List (List α)) :
    chunks.foldl (feed s) (done ++ (cut s text).1, (cut s text).2) =
      (done ++ (cut s (text ++ chunks.flatten)).1, (cut s (text ++ chunks.flatten)).2) := by
  induction chunks generalizing text with
  | nil => rw [List.foldl_nil, List.flatten_nil, List.append_nil]
  | cons chunk chunks ih =>
    have hstep : feed s (done ++ (cut s text).1, (cut s text).2) chunk =
        (done ++ (cut s (text ++ chunk)).1, (cut s (text ++ chunk)).2) := by
      unfold feed
      rw [cut_append text chunk, List.append_assoc]
    rw [List.foldl_cons, hstep, ih, List.flatten_cons, List.append_assoc]

/-- Chunk by chunk, the text is cut as it is in one piece. -/
theorem foldl_feed_nil (chunks : List (List α)) :
    chunks.foldl (feed s) ([], []) = cut s chunks.flatten := by
  have hnil : cut s ([] : List α) = ([], []) := cut_of_none (if_neg s.2)
  have hall := @foldl_feed _ _ s [] [] chunks
  rw [hnil] at hall
  exact hall

end Finlytic.Lib.Separator
