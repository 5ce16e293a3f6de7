import Mathlib.Data.List.Forall2
import Mathlib.Data.List.Nodup
import Mathlib.Order.Basic
import Mathlib.Tactic.SplitIfs

/-! Tables as lists of rows, with the two statement shapes the services use:
update every row a filter selects, and delete every row a filter selects. -/

namespace Finlytic.Lib.Table

variable {ρ κ : Type*}

/-- `UPDATE … SET … WHERE`. -/
def updateMany (sel : ρ → Bool) (set : ρ → ρ) (rows : List ρ) : List ρ :=
  rows.map fun r => if sel r then set r else r

/-- `DELETE … WHERE`. -/
def deleteMany (sel : ρ → Bool) (rows : List ρ) : List ρ :=
  rows.filter fun r => !sel r

variable {sel : ρ → Bool} {set : ρ → ρ} {rows : List ρ} {r x : ρ}

theorem mem_updateMany : x ∈ updateMany sel set rows ↔
    ∃ r ∈ rows, (sel r = true ∧ x = set r) ∨ (sel r = false ∧ x = r) := by
  simp only [updateMany, List.mem_map]
  refine exists_congr fun r => and_congr_right fun _ => ?_
  cases h : sel r <;> simp [eq_comm]

theorem mem_deleteMany : x ∈ deleteMany sel rows ↔ x ∈ rows ∧ sel x = false := by
  simp [deleteMany]

/-- A column the update does not write is unchanged. -/
theorem map_updateMany (key : ρ → κ) (h : ∀ r, key (set r) = key r) :
    (updateMany sel set rows).map key = rows.map key := by
  rw [updateMany, List.map_map]
  refine List.map_congr_left fun r _ => ?_
  simp only [Function.comp_apply]
  split_ifs
  · exact h r
  · rfl

theorem nodup_deleteMany (key : ρ → κ) (h : (rows.map key).Nodup) :
    ((deleteMany sel rows).map key).Nodup :=
  h.sublist (List.filter_sublist.map key)

/-- Rows with pairwise distinct keys are determined by their key. -/
theorem eq_of_nodup_key {key : ρ → κ} (h : (rows.map key).Nodup) (hr : r ∈ rows) (hx : x ∈ rows)
    (he : key r = key x) : r = x :=
  List.inj_on_of_nodup_map h hr hx he

/-- An insert whose key is new keeps the keys distinct. -/
theorem nodup_append_row (key : ρ → κ) (h : (rows.map key).Nodup)
    (hnew : ∀ r ∈ rows, key r ≠ key x) :
    ((rows ++ [x]).map key).Nodup := by
  rw [List.map_append, List.map_singleton]
  apply List.nodup_append.mpr
  refine ⟨h, List.nodup_singleton _, fun y hy z hz heq => ?_⟩
  obtain ⟨r, hr, rfl⟩ := List.mem_map.mp hy
  rw [List.mem_singleton.mp hz] at heq
  exact hnew r hr heq

/-- An update that does not change whether a row gets deleted may be run on either side of the
delete. -/
theorem updateMany_deleteMany {del : ρ → Bool} (h : ∀ r, del (set r) = del r) :
    updateMany sel set (deleteMany del rows) = deleteMany del (updateMany sel set rows) := by
  rw [updateMany, updateMany, deleteMany, deleteMany, List.filter_map]
  congr 1
  refine List.filter_congr fun r _ => ?_
  simp only [Function.comp_apply]
  split_ifs
  · rw [h r]
  · rfl

/-- A delete that spares every row a query could find is not seen by the query. -/
theorem find?_deleteMany {del : ρ → Bool} (h : ∀ r ∈ rows, sel r = true → del r = false) :
    (deleteMany del rows).find? sel = rows.find? sel := by
  induction rows with
  | nil => rfl
  | cons r rows ih =>
    have ih := ih fun x hx => h x (List.mem_cons_of_mem r hx)
    rw [deleteMany] at ih ⊢
    rw [List.filter_cons]
    cases hsel : sel r with
    | true =>
      rw [h r List.mem_cons_self hsel, Bool.not_false, if_pos rfl, List.find?_cons_of_pos hsel,
        List.find?_cons_of_pos hsel]
    | false =>
      have hsel' : ¬ sel r = true := by rw [hsel]; exact Bool.false_ne_true
      rw [List.find?_cons_of_neg hsel']
      split_ifs
      · rw [List.find?_cons_of_neg hsel', ih]
      · exact ih

theorem any_deleteMany {del : ρ → Bool} (h : ∀ r ∈ rows, sel r = true → del r = false) :
    (deleteMany del rows).any sel = rows.any sel := by
  rw [← List.isSome_find?, ← List.isSome_find?, find?_deleteMany h]

/-- A delete after one that took less leaves what it leaves alone. -/
theorem deleteMany_deleteMany {del del' : ρ → Bool} (h : ∀ r, del r = true → del' r = true) :
    deleteMany del' (deleteMany del rows) = deleteMany del' rows := by
  rw [deleteMany, deleteMany, deleteMany, List.filter_filter]
  refine List.filter_congr fun r _ => ?_
  cases hdel : del r with
  | false => rw [Bool.not_false, Bool.and_true]
  | true => rw [h r hdel, Bool.not_true, Bool.false_and]

theorem deleteMany_append_row {del : ρ → Bool} (h : del x = false) :
    deleteMany del (rows ++ [x]) = deleteMany del rows ++ [x] := by
  rw [deleteMany, deleteMany, List.filter_append, List.filter_singleton, h, Bool.not_false, cond_true]

theorem countP_deleteMany_le (f : ρ → Bool) : (deleteMany sel rows).countP f ≤ rows.countP f :=
  List.filter_sublist.countP_le

/-- An update that only takes rows out of `f` does not raise its count. -/
theorem countP_updateMany_le (f : ρ → Bool) (h : ∀ r, f (set r) = true → f r = true) :
    (updateMany sel set rows).countP f ≤ rows.countP f := by
  induction rows with
  | nil => exact Nat.le_refl _
  | cons r rows ih =>
    simp only [updateMany, List.map_cons, List.countP_cons] at ih ⊢
    have hr : (if f (if sel r then set r else r) = true then 1 else 0) ≤
        (if f r = true then 1 else 0) := by
      have := h r
      cases sel r <;> cases hf : f (set r) <;> cases hf' : f r <;> simp_all
    omega

/-- An update that takes every selected row out of `f`, and selects one row of `f`, lowers its
count. -/
theorem countP_updateMany_lt (f : ρ → Bool) (h : ∀ r, f (set r) = false) (hr : r ∈ rows)
    (hsel : sel r = true) (hf : f r = true) :
    (updateMany sel set rows).countP f + 1 ≤ rows.countP f := by
  induction rows with
  | nil => cases hr
  | cons y rows ih =>
    simp only [updateMany, List.map_cons, List.countP_cons] at ih ⊢
    rcases List.mem_cons.mp hr with rfl | hr
    · have hle : (rows.map fun r => if sel r then set r else r).countP f ≤ rows.countP f :=
        countP_updateMany_le f (fun r hr => by rw [h r] at hr; cases hr)
      simp only [hsel, if_true, h, hf, Bool.false_eq_true, if_false]
      omega
    · have ih := ih hr
      have hy : (if f (if sel y then set y else y) = true then 1 else 0) ≤
          (if f y = true then 1 else 0) := by
        cases sel y <;> simp [h y]
      omega

/-- An update that takes every row of `f` out of `f` leaves none. -/
theorem countP_updateMany_eq_zero (f : ρ → Bool) (h : ∀ r, f (set r) = false)
    (hsel : ∀ r, f r = true → sel r = true) : (updateMany sel set rows).countP f = 0 := by
  rw [List.countP_eq_zero]
  intro x hx
  obtain ⟨r, -, ⟨-, rfl⟩ | ⟨hs, rfl⟩⟩ := mem_updateMany.mp hx
  · simp [h r]
  · intro hf
    rw [hsel x hf] at hs
    cases hs

/-! ### Two tables, row by row -/

variable {τ : Type*} {R : ρ → τ → Prop} {other : List τ} {y : τ}

theorem exists_of_mem_left (h : List.Forall₂ R rows other) (hr : r ∈ rows) :
    ∃ y ∈ other, R r y := by
  induction h with
  | nil => cases hr
  | cons hhead _ ih =>
    rcases List.mem_cons.mp hr with rfl | hr
    · exact ⟨_, List.mem_cons_self, hhead⟩
    · obtain ⟨y, hy, hry⟩ := ih hr
      exact ⟨y, List.mem_cons_of_mem _ hy, hry⟩

/-- Rows that correspond have the same keys. -/
theorem map_eq_of_forall₂ {key : ρ → κ} {key' : τ → κ} (hkey : ∀ r y, R r y → key r = key' y)
    (h : List.Forall₂ R rows other) :
    rows.map key = other.map key' := by
  induction h with
  | nil => rfl
  | cons hhead _ ih => rw [List.map_cons, List.map_cons, hkey _ _ hhead, ih]

theorem forall₂_updateMany (hset : ∀ r y, R r y → R (set r) y) (h : List.Forall₂ R rows other) :
    List.Forall₂ R (updateMany sel set rows) other := by
  induction h with
  | nil => exact .nil
  | cons hhead _ ih =>
    refine .cons ?_ ih
    dsimp only
    split_ifs
    · exact hset _ _ hhead
    · exact hhead

end Finlytic.Lib.Table
