import Mathlib.Algebra.Order.Monoid.Defs
import Mathlib.Data.List.Basic
import Mathlib.Tactic.SplitIfs

/-! Counting arrivals in fixed windows of one length. A window opens at the
first arrival at or after the end of the one before, so windows lie where the
arrivals put them and not on a grid. Arrivals come in order of time. -/

namespace Finlytic.Lib.FixedWindow

structure Window (τ : Type*) where
  start : τ
  count : ℕ
  deriving DecidableEq

variable {τ : Type*} [LinearOrder τ] [Add τ]

/-- The window an arrival at `t` is counted in, itself included. -/
def arrive (length t : τ) : Option (Window τ) → Window τ
  | none => ⟨t, 1⟩
  | some w => if w.start + length ≤ t then ⟨t, 1⟩ else ⟨w.start, w.count + 1⟩

/-- The window, if it is still open at `t`. -/
def openAt (length t : τ) : Option (Window τ) → Option (Window τ)
  | none => none
  | some w => if w.start + length ≤ t then none else some w

/-- The window that these arrivals leave behind. -/
def latest (length : τ) (w : Option (Window τ)) (ts : List τ) : Option (Window τ) :=
  ts.foldl (fun w t => some (arrive length t w)) w

/-- Each arrival with its number in its window. -/
def numbers (length : τ) : Option (Window τ) → List τ → List (τ × ℕ)
  | _, [] => []
  | w, t :: ts => (t, (arrive length t w).count) :: numbers length (some (arrive length t w)) ts

/-- The windows, each with its arrivals. -/
def windows (length : τ) : List τ → List (List τ)
  | [] => []
  | t :: ts => (t :: ts.takeWhile fun u => !decide (t + length ≤ u)) ::
      windows length (ts.dropWhile fun u => !decide (t + length ≤ u))
  termination_by ts => ts.length
  decreasing_by
    rw [List.length_cons]
    exact Nat.lt_succ_of_le (List.dropWhile_sublist _).length_le

variable {length t u : τ} {w : Option (Window τ)} {ts : List τ}

theorem arrive_none : arrive length t none = ⟨t, 1⟩ := rfl

theorem arrive_ended {v : Window τ} (h : v.start + length ≤ t) :
    arrive length t (some v) = ⟨t, 1⟩ := if_pos h

theorem arrive_inside {v : Window τ} (h : ¬ v.start + length ≤ t) :
    arrive length t (some v) = ⟨v.start, v.count + 1⟩ := if_neg h

/-- Arrivals inside a window count it up. -/
theorem latest_inside {v : Window τ} (h : ∀ u ∈ ts, ¬ v.start + length ≤ u) :
    latest length (some v) ts = some ⟨v.start, v.count + ts.length⟩ := by
  induction ts generalizing v with
  | nil => rfl
  | cons u ts ih =>
    obtain ⟨hu, hts⟩ := List.forall_mem_cons.mp h
    show latest length (some (arrive length u (some v))) ts = _
    rw [arrive_inside hu, @ih ⟨v.start, v.count + 1⟩ hts, List.length_cons, Nat.add_assoc,
      Nat.add_comm 1]

/-! ### A window that has ended -/

/-- A window that has ended is as good as none. -/
theorem arrive_openAt : arrive length t (openAt length t w) = arrive length t w := by
  cases w with
  | none => rfl
  | some w =>
    by_cases hend : w.start + length ≤ t
    · rw [openAt, if_pos hend, arrive_ended hend, arrive_none]
    · rw [openAt, if_neg hend]

theorem openAt_openAt (h : t ≤ u) : openAt length u (openAt length t w) = openAt length u w := by
  cases w with
  | none => rfl
  | some w =>
    by_cases hend : w.start + length ≤ t
    · have hu : w.start + length ≤ u := hend.trans h
      simp only [openAt, if_pos hend, if_pos hu]
    · rw [openAt, if_neg hend]

/-- What is open later is decided by what is open now. -/
theorem openAt_mono {v : Option (Window τ)} (hvw : openAt length t v = openAt length t w)
    (h : t ≤ u) :
    openAt length u v = openAt length u w := by
  rw [← openAt_openAt h, hvw, openAt_openAt h]

theorem arrive_congr {v : Option (Window τ)} (hvw : openAt length t v = openAt length t w) :
    arrive length t v = arrive length t w := by
  rw [← arrive_openAt, hvw, arrive_openAt]

/-! ### The windows of a sequence of arrivals -/

/-- The arrivals of the open window are numbered on, and the next one starts anew. -/
theorem numbers_some (s : τ) (n : ℕ) : numbers length (some ⟨s, n⟩) ts =
    (ts.takeWhile fun u => !decide (s + length ≤ u)).mapIdx (fun i u => (u, n + i + 1)) ++
      numbers length none (ts.dropWhile fun u => !decide (s + length ≤ u)) := by
  induction ts generalizing n with
  | nil => rfl
  | cons t ts ih =>
    by_cases hend : s + length ≤ t
    · rw [List.takeWhile_cons_of_neg (by simp [hend]), List.dropWhile_cons_of_neg (by simp [hend])]
      rw [numbers, numbers, arrive_ended hend, arrive_none, List.mapIdx_nil, List.nil_append]
    · rw [List.takeWhile_cons_of_pos (by simp [hend]), List.dropWhile_cons_of_pos (by simp [hend])]
      rw [numbers, arrive_inside hend, ih (n + 1), List.mapIdx_cons, List.cons_append, Nat.add_zero]
      congr 3
      funext i u
      rw [Nat.add_right_comm n 1 i, Nat.add_assoc n i 1]

/-- Arrivals are numbered from one in every window. -/
theorem numbers_none : numbers length none ts =
    (windows length ts).flatMap fun window => window.mapIdx fun i u => (u, i + 1) := by
  induction ts using windows.induct length with
  | case1 => rw [windows]; rfl
  | case2 t ts ih =>
    rw [windows, List.flatMap_cons, ← ih, List.mapIdx_cons]
    rw [numbers, arrive_none, numbers_some, List.cons_append]
    congr 3
    funext i u
    rw [Nat.add_comm 1 i]

/-! ### The bound on a sliding interval -/

section Sliding

variable {max : ℕ} {a : τ}

/-- The arrivals of the half-open interval from `a` whose number is at most `max`. -/
def admitted (length : τ) (max : ℕ) (a : τ) (entries : List (τ × ℕ)) : ℕ :=
  entries.countP fun e => decide (e.2 ≤ max) && decide (a ≤ e.1) && !decide (a + length ≤ e.1)

theorem admitted_cons_le (e : τ × ℕ) (es : List (τ × ℕ)) :
    admitted length max a (e :: es) ≤ (if e.2 ≤ max then 1 else 0) + admitted length max a es := by
  rw [admitted, List.countP_cons, Nat.add_comm]
  refine Nat.add_le_add_right ?_ _
  split_ifs <;> simp_all

theorem admitted_cons_before {e : τ × ℕ} (h : e.1 < a) (es : List (τ × ℕ)) :
    admitted length max a (e :: es) = admitted length max a es := by
  rw [admitted, List.countP_cons, if_neg]
  · rfl
  · simp [not_le.mpr h]

theorem mem_numbers {e : τ × ℕ} (h : e ∈ numbers length w ts) : e.1 ∈ ts := by
  induction ts generalizing w with
  | nil => cases h
  | cons t ts ih =>
    rcases List.mem_cons.mp h with rfl | h
    · exact List.mem_cons_self
    · exact List.mem_cons_of_mem _ (ih h)

/-- Nothing is admitted after the interval. -/
theorem admitted_after (h : ∀ u ∈ ts, a + length ≤ u) :
    admitted length max a (numbers length w ts) = 0 := by
  rw [admitted, List.countP_eq_zero]
  intro e he
  simp [h e.1 (mem_numbers he)]

variable [AddRightMono τ]

/-- From a window that opened in the interval on: no later one opens in it. -/
theorem admitted_of_opened {v : Window τ} (hv : a ≤ v.start) (hts : ts.Pairwise (· ≤ ·)) :
    admitted length max a (numbers length (some v) ts) ≤ max - v.count := by
  induction ts generalizing v with
  | nil => exact Nat.zero_le _
  | cons t ts ih =>
    obtain ⟨hle, hrest⟩ := List.pairwise_cons.mp hts
    by_cases hend : v.start + length ≤ t
    · have hafter : ∀ u ∈ t :: ts, a + length ≤ u := by
        intro u hu
        have htu : t ≤ u := by
          rcases List.mem_cons.mp hu with rfl | hu
          · exact le_refl u
          · exact hle u hu
        exact ((add_le_add_left hv length).trans hend).trans htu
      rw [admitted_after hafter]
      exact Nat.zero_le _
    · have hnext : admitted length max a (numbers length (some ⟨v.start, v.count + 1⟩) ts) ≤
          max - (v.count + 1) :=
        ih hv hrest
      rw [numbers, arrive_inside hend]
      refine (admitted_cons_le (t, v.count + 1) _).trans ?_
      split_ifs <;> omega

/-- From inside the interval, in a window that opened before it. -/
theorem admitted_of_inside {v : Window τ} (hmax : 1 ≤ max) (hin : ∀ u ∈ ts, a ≤ u)
    (hts : ts.Pairwise (· ≤ ·)) :
    admitted length max a (numbers length (some v) ts) ≤ (max - v.count) + max := by
  induction ts generalizing v with
  | nil => exact Nat.zero_le _
  | cons t ts ih =>
    obtain ⟨ht, hin⟩ := List.forall_mem_cons.mp hin
    obtain ⟨-, hrest⟩ := List.pairwise_cons.mp hts
    by_cases hend : v.start + length ≤ t
    · have hopened : admitted length max a (numbers length (some ⟨t, 1⟩) ts) ≤ max - 1 :=
        admitted_of_opened ht hrest
      rw [numbers, arrive_ended hend]
      refine (admitted_cons_le _ _).trans ?_
      rw [if_pos hmax]
      omega
    · have hnext : admitted length max a (numbers length (some ⟨v.start, v.count + 1⟩) ts) ≤
          max - (v.count + 1) + max :=
        ih hin hrest
      rw [numbers, arrive_inside hend]
      refine (admitted_cons_le (t, v.count + 1) _).trans ?_
      split_ifs <;> omega

/-- At most two windows meet the interval, and the first arrival of the earlier one lies before
it. -/
theorem admitted_le (hmax : 1 ≤ max) (hw : ∀ v ∈ w, v.start < a ∧ 1 ≤ v.count)
    (hts : ts.Pairwise (· ≤ ·)) :
    admitted length max a (numbers length w ts) ≤ 2 * max - 1 := by
  induction ts generalizing w with
  | nil => exact Nat.zero_le _
  | cons t ts ih =>
    obtain ⟨hle, hrest⟩ := List.pairwise_cons.mp hts
    by_cases ht : a ≤ t
    · cases w with
      | none =>
        have hopened : admitted length max a (numbers length (some ⟨t, 1⟩) ts) ≤ max - 1 :=
          admitted_of_opened ht hrest
        rw [numbers, arrive_none]
        refine (admitted_cons_le _ _).trans ?_
        rw [if_pos hmax]
        omega
      | some v =>
        obtain ⟨-, hcount⟩ := hw v rfl
        have hin : ∀ u ∈ t :: ts, a ≤ u :=
          List.forall_mem_cons.mpr ⟨ht, fun u hu => ht.trans (hle u hu)⟩
        have hinside : admitted length max a (numbers length (some v) (t :: ts)) ≤
            max - v.count + max :=
          admitted_of_inside hmax hin hts
        omega
    · have hbefore : t < a := not_le.mp ht
      rw [numbers, admitted_cons_before hbefore]
      refine ih (fun v hv => ?_) hrest
      obtain rfl := Option.some.inj hv
      cases w with
      | none => exact ⟨hbefore, Nat.le_refl 1⟩
      | some v =>
        by_cases hend : v.start + length ≤ t
        · rw [arrive_ended hend]
          exact ⟨hbefore, Nat.le_refl 1⟩
        · rw [arrive_inside hend]
          exact ⟨(hw v rfl).1, Nat.le_add_left 1 _⟩

end Sliding

end Finlytic.Lib.FixedWindow
