import Mathlib.Data.List.Nodup

/-! Ordered queries over a table: filter, sort, start at a cursor row, skip, take. The
cursor is looked up in the whole table, whatever the filter says; a cursor that is
not there leaves nothing to return. The answer depends on the table only through the
rows that pass the filter and the cursor row. -/

namespace Finlytic.Lib.Query

variable {ρ : Type*}

/-- A query; `le` says that one row does not come after another. -/
structure FindMany (ρ : Type*) where
  sel : ρ → Bool
  le : ρ → ρ → Bool
  cursor : Option (ρ → Bool)
  skip : ℕ
  take : ℕ

/-- The rows that pass the filter, in order. -/
def ordered (q : FindMany ρ) (table : List ρ) : List ρ := (table.filter q.sel).mergeSort q.le

/-- The rows from the cursor on. -/
def fromCursor (q : FindMany ρ) (table : List ρ) : List ρ :=
  match q.cursor with
  | none => ordered q table
  | some isCursor =>
    match table.find? isCursor with
    | some c => (ordered q table).filter (q.le c)
    | none => []

def findMany (q : FindMany ρ) (table : List ρ) : List ρ :=
  ((fromCursor q table).drop q.skip).take q.take

variable {q : FindMany ρ} {table other : List ρ} {r : ρ}

@[simp] theorem mem_ordered : r ∈ ordered q table ↔ r ∈ table ∧ q.sel r = true := by
  rw [ordered, List.mem_mergeSort, List.mem_filter]

@[simp] theorem length_ordered : (ordered q table).length = (table.filter q.sel).length := by
  rw [ordered, List.length_mergeSort]

/-- Two tables with the same rows behind the filter are read in the same order. -/
theorem ordered_congr (htrans : ∀ a b c, q.le a b = true → q.le b c = true → q.le a c = true)
    (htotal : ∀ a b, (q.le a b || q.le b a) = true)
    (hanti : ∀ a ∈ table, ∀ b ∈ table, q.le a b = true → q.le b a = true → a = b)
    (hnodup : table.Nodup) (hother : other.Nodup)
    (hrows : ∀ r, q.sel r = true → (r ∈ table ↔ r ∈ other)) :
    ordered q table = ordered q other := by
  have hperm : (table.filter q.sel).Perm (other.filter q.sel) := by
    rw [List.perm_ext_iff_of_nodup (hnodup.filter _) (hother.filter _)]
    intro r
    rw [List.mem_filter, List.mem_filter]
    exact and_congr_left (hrows r)
  have hsorted : (ordered q table).Perm (ordered q other) :=
    ((List.mergeSort_perm _ _).trans hperm).trans (List.mergeSort_perm _ _).symm
  refine hsorted.eq_of_pairwise (fun a b ha hb hab hba => ?_) (List.pairwise_mergeSort htrans htotal _)
    (List.pairwise_mergeSort htrans htotal _)
  have hb' : b ∈ ordered q table := hsorted.mem_iff.mpr hb
  exact hanti a (mem_ordered.mp ha).1 b (mem_ordered.mp hb').1 hab hba

/-- The answer is fixed by the ordered rows and the cursor row. -/
theorem findMany_congr (hordered : ordered q table = ordered q other)
    (hcursor : ∀ isCursor ∈ q.cursor, table.find? isCursor = other.find? isCursor) :
    findMany q table = findMany q other := by
  have hfrom : fromCursor q table = fromCursor q other := by
    unfold fromCursor
    cases hc : q.cursor with
    | none => exact hordered
    | some isCursor =>
      simp only [hcursor isCursor hc, hordered]
  unfold findMany
  rw [hfrom]

/-- Behind a cursor that is not there, nothing comes. -/
theorem findMany_missing {isCursor : ρ → Bool} (hcursor : q.cursor = some isCursor)
    (hmissing : table.find? isCursor = none) :
    findMany q table = [] := by
  unfold findMany fromCursor
  simp only [hcursor, hmissing, List.drop_nil, List.take_nil]

/-- No more rows come back than the filter lets through. -/
theorem length_fromCursor_le : (fromCursor q table).length ≤ (table.filter q.sel).length := by
  unfold fromCursor
  cases q.cursor with
  | none => exact Nat.le_of_eq length_ordered
  | some isCursor =>
    simp only
    cases table.find? isCursor with
    | none => exact Nat.zero_le _
    | some c => exact Nat.le_trans (List.length_filter_le _ _) (Nat.le_of_eq length_ordered)

/-! ### Reading on from a row -/

/-- Strictly later in the order. -/
def later (le : ρ → ρ → Bool) (c r : ρ) : Bool := le c r && !le r c

variable {le : ρ → ρ → Bool} {l front back : List ρ} {a b c : ρ}

theorem later_iff : later le a b = true ↔ le a b = true ∧ le b a = false := by
  rw [later, Bool.and_eq_true, Bool.not_eq_true']

theorem later_asymm (h : later le a b = true) : later le b a = false := by
  rw [later, (later_iff.mp h).1, Bool.not_true, Bool.and_false]

theorem later_irrefl (a : ρ) : later le a a = false := by
  rw [later, Bool.and_not_self]

theorem later_trans (htrans : ∀ a b c, le a b = true → le b c = true → le a c = true)
    (hab : later le a b = true) (hbc : later le b c = true) : later le a c = true := by
  rw [later_iff] at hab hbc ⊢
  refine ⟨htrans a b c hab.1 hbc.1, ?_⟩
  rw [← Bool.not_eq_true]
  intro hca
  rw [htrans b c a hbc.1 hca] at hab
  exact absurd hab.2 Bool.true_eq_false.mp

/-- Distinct rows in order are strictly in order. -/
theorem pairwise_later (hsorted : l.Pairwise fun a b => le a b = true) (hnodup : l.Nodup)
    (hanti : ∀ a ∈ l, ∀ b ∈ l, le a b = true → le b a = true → a = b) :
    l.Pairwise fun a b => later le a b = true := by
  refine (hsorted.and hnodup).imp_of_mem fun {a b} ha hb hab => ?_
  rw [later_iff]
  refine ⟨hab.1, ?_⟩
  rw [← Bool.not_eq_true]
  exact fun hba => hab.2 (hanti a ha b hb hab.1 hba)

theorem filter_later (hsorted : (front ++ c :: back).Pairwise fun a b => later le a b = true) :
    (front ++ c :: back).filter (later le c) = back := by
  obtain ⟨-, hback, hfront⟩ := List.pairwise_append.mp hsorted
  have hnone : front.filter (later le c) = [] := by
    rw [List.filter_eq_nil_iff]
    intro a ha
    rw [later_asymm (hfront a ha c List.mem_cons_self)]
    exact Bool.false_ne_true
  rw [List.filter_append, hnone, List.nil_append,
    List.filter_cons_of_neg (by rw [later_irrefl]; exact Bool.false_ne_true)]
  exact List.filter_eq_self.mpr (List.pairwise_cons.mp hback).1

/-- From the cursor row on, without that row. -/
theorem drop_filter_le (hsorted : (front ++ c :: back).Pairwise fun a b => later le a b = true)
    (hrefl : le c c = true) :
    ((front ++ c :: back).filter (le c)).drop 1 = back := by
  obtain ⟨-, hback, hfront⟩ := List.pairwise_append.mp hsorted
  have hnone : front.filter (le c) = [] := by
    rw [List.filter_eq_nil_iff]
    intro a ha
    rw [(later_iff.mp (hfront a ha c List.mem_cons_self)).2]
    exact Bool.false_ne_true
  have hall : back.filter (le c) = back :=
    List.filter_eq_self.mpr fun b hb => (later_iff.mp ((List.pairwise_cons.mp hback).1 b hb)).1
  rw [List.filter_append, hnone, List.nil_append, List.filter_cons_of_pos hrefl, hall,
    List.drop_one, List.tail_cons]

/-- With `skip: 1` a query goes on strictly after its cursor row. -/
theorem drop_fromCursor {isCursor : ρ → Bool} (hcursor : q.cursor = some isCursor)
    (hfind : table.find? isCursor = some c) (hmem : c ∈ ordered q table) (hrefl : q.le c c = true)
    (hsorted : (ordered q table).Pairwise fun a b => later q.le a b = true) :
    (fromCursor q table).drop 1 = (ordered q table).filter (later q.le c) := by
  obtain ⟨front, back, hsplit⟩ := List.append_of_mem hmem
  unfold fromCursor
  simp only [hcursor, hfind]
  rw [hsplit] at hsorted ⊢
  rw [drop_filter_le hsorted hrefl, filter_later hsorted]

/-- Going on from a row that came later. -/
theorem filter_later_filter (htrans : ∀ a b c, le a b = true → le b c = true → le a c = true)
    (h : later le a b = true) :
    (l.filter (later le a)).filter (later le b) = l.filter (later le b) := by
  rw [List.filter_filter]
  refine List.filter_congr fun r _ => ?_
  cases hr : later le b r with
  | false => rfl
  | true => rw [later_trans htrans h hr, Bool.and_self]

end Finlytic.Lib.Query
