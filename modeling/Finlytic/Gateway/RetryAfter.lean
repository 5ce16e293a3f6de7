import Finlytic.Gateway.Windows

/-! What a denied check tells its client: the time left in the window, rounded
up to whole seconds. One second less is too early, and the time itself is not,
unless other checks have opened the next window. -/

namespace Finlytic.Gateway

open Lib FixedWindow

variable (windowMs : ℤ)

/-- The end of the window that is stored for this client under this rule. -/
def windowEnd (counters : Counters) (client : List Char) (rule : Rule) : Option ℤ :=
  (counters.lookup (counterKey client rule)).map fun counter => counter.windowStart + windowMs

variable {windowMs} {client : List Char} {rule : Rule} {counters : Counters} {now t ending : ℤ}
  {before calls : List LimiterCall} {method : String} {pathname : List Char}

/-! ### The window of a denied check -/

theorem verdict_denied {w : Window ℤ} (h : (verdict windowMs rule now w).allowed = false) :
    rule.max < w.count := by
  have hcount : ¬ w.count ≤ rule.max := of_decide_eq_false h
  omega

theorem verdict_over {w : Window ℤ} (h : rule.max < w.count) :
    (verdict windowMs rule now w).allowed = false := by
  apply decide_eq_false
  omega

theorem verdict_opened (hrule : rule ∈ defaultRule :: rules) :
    (verdict windowMs rule now ⟨now, 1⟩).allowed = true :=
  decide_eq_true (rule_max_pos rule hrule)

/-- What a denied check is told is the time to the end of its window, rounded up. -/
theorem verdict_retry {w : Window ℤ} (h : (verdict windowMs rule now w).allowed = false) :
    (verdict windowMs rule now w).retryAfterSeconds = -(-(w.start + windowMs - now) / 1000) := by
  have hcount : ¬ w.count ≤ rule.max := of_decide_eq_false h
  have hleft : windowMs - (now - w.start) = w.start + windowMs - now := by omega
  simp only [verdict, decide_eq_true_eq, if_neg hcount, hleft]

theorem clocked_split {c : LimiterCall} (h : Clocked (before ++ c :: calls)) :
    Clocked before ∧ ∀ d ∈ before, d.now ≤ c.now := by
  rw [Clocked, List.map_append] at h
  obtain ⟨hbefore, -, hcross⟩ := List.pairwise_append.mp h
  exact ⟨hbefore, fun d hd => hcross d.now (List.mem_map_of_mem hd) c.now List.mem_cons_self⟩

/-- The window that a denied check is counted in, as the checks before have left it. -/
structure Full (windowMs now : ℤ) (client : List Char) (rule : Rule) (before : List LimiterCall)
    (v : Window ℤ) : Prop where
  left : latest windowMs none (checkTimes client rule before) = some v
  inside : ¬ v.start + windowMs ≤ now
  full : rule.max ≤ v.count
  ends : windowEnd windowMs (after windowMs [] before) client rule = some (v.start + windowMs)

theorem full_of_denied (hclock : Clocked (before ++ .check client method pathname now :: calls))
    (hdenied : (checkWith windowMs (after windowMs [] before) client method pathname
      now).1.allowed = false) :
    ∃ v, Full windowMs now client (ruleFor method pathname) before v := by
  have hrule := ruleFor_mem method pathname
  have hpos := rule_max_pos _ hrule
  obtain ⟨hbefore, hto⟩ := clocked_split hclock
  have htracks := @tracks_after windowMs client _ now before hrule hbefore hto
  rw [htracks.verdict] at hdenied
  have hcount := verdict_denied hdenied
  cases hleft : latest windowMs none (checkTimes client (ruleFor method pathname) before) with
  | none =>
    rw [hleft, arrive_none] at hcount
    exact absurd hpos (Nat.not_le_of_lt hcount)
  | some v =>
    rw [hleft] at hcount
    by_cases hended : v.start + windowMs ≤ now
    · rw [arrive_ended hended] at hcount
      exact absurd hpos (Nat.not_le_of_lt hcount)
    · rw [arrive_inside hended] at hcount
      refine ⟨v, hleft, hended, Nat.le_of_lt_succ hcount, ?_⟩
      -- the stored window is still open, so it is the tracked one
      have hstored := htracks.2
      rw [hleft, openAt, if_neg hended] at hstored
      unfold windowOf at hstored
      unfold windowEnd
      cases hlookup :
        (after windowMs [] before).lookup (counterKey client (ruleFor method pathname)) with
      | none =>
        rw [hlookup] at hstored
        cases hstored
      | some counter =>
        rw [hlookup, Option.map_some, openAt] at hstored
        split_ifs at hstored
        cases hstored
        rfl

/-- The time told is more than a second less than it takes to reach the end, and no less. -/
theorem retry_bounds (h : ¬ ending ≤ now) :
    1 ≤ -(-(ending - now) / 1000) ∧ now + 1000 * (-(-(ending - now) / 1000) - 1) < ending ∧
      ending ≤ now + 1000 * -(-(ending - now) / 1000) := by
  omega

/-! ### Later checks -/

theorem mem_checkTimes (h : t ∈ checkTimes client rule calls) :
    ∃ c ∈ calls, c.concerns client rule = true ∧ c.now = t := by
  obtain ⟨c, hc, hnow⟩ := List.mem_map.mp h
  obtain ⟨hmem, hconcerns⟩ := List.mem_filter.mp hc
  exact ⟨c, hmem, hconcerns, hnow⟩

variable {v : Window ℤ} {between : List LimiterCall}

/-- The window after the denied check and more calls, none of which comes after its end. -/
theorem Full.later (h : Full windowMs t client (ruleFor method pathname) before v)
    (hinside : ∀ c ∈ between, c.concerns client (ruleFor method pathname) = true →
      ¬ v.start + windowMs ≤ c.now) :
    ∃ count, v.count < count ∧
      latest windowMs none
        (checkTimes client (ruleFor method pathname)
        (before ++ .check client method pathname t :: between)) =
        some ⟨v.start, count⟩ := by
  have hconcerns : (LimiterCall.check client method pathname t).concerns client
      (ruleFor method pathname) = true :=
    (concerns_iff (ruleFor_mem method pathname)).mpr rfl
  have htimes : checkTimes client (ruleFor method pathname)
    (before ++ .check client method pathname t :: between) =
      checkTimes client (ruleFor method pathname) before ++ t :: checkTimes client
        (ruleFor method pathname) between := by
    unfold checkTimes
    rw [List.filter_append, List.map_append, List.filter_cons_of_pos hconcerns]
    rfl
  have hmid : ∀ u ∈ checkTimes client (ruleFor method pathname) between, ¬ v.start + windowMs ≤ u := by
    intro u hu
    obtain ⟨c, hc, hsame, rfl⟩ := mem_checkTimes hu
    exact hinside c hc hsame
  refine ⟨v.count + 1 + (checkTimes client (ruleFor method pathname) between).length, by omega, ?_⟩
  rw [htimes, latest, List.foldl_append]
  show latest windowMs (some (arrive windowMs t (latest windowMs none _))) _ = _
  rw [h.left, arrive_inside h.inside]
  exact @latest_inside _ _ _ _ _ ⟨v.start, v.count + 1⟩ hmid

variable {method' : String} {pathname' : List Char} {t' : ℤ} {rest : List LimiterCall}

/-- A later check of the client under the rule, none in between having opened the next window. -/
theorem Full.answer (h : Full windowMs t client (ruleFor method pathname) before v)
    (hclock : Clocked
      (before ++ .check client method pathname t ::
      (between ++ .check client method' pathname' t' :: rest)))
    (hsame : ruleFor method' pathname' = ruleFor method pathname)
    (hinside : ∀ c ∈ between, c.concerns client (ruleFor method pathname) = true →
      ¬ v.start + windowMs ≤ c.now) :
    (checkWith windowMs (after windowMs [] (before ++ .check client method pathname t :: between))
      client method' pathname' t').1.allowed = decide (v.start + windowMs ≤ t') := by
  have hsplit :
      Clocked ((before ++ .check client method pathname t :: between) ++
      .check client method' pathname' t' :: rest) := by
    rw [List.append_assoc]
    exact hclock
  obtain ⟨hclocked, hupto⟩ := clocked_split hsplit
  obtain ⟨count, hcount, hlatest⟩ := h.later hinside
  have hanswer :=
    (@tracks_after windowMs client _ t' _ (ruleFor_mem method' pathname') hclocked hupto).verdict
  rw [hsame, hlatest] at hanswer
  rw [hanswer]
  have hfull := h.full
  by_cases hended : v.start + windowMs ≤ t'
  · rw [@arrive_ended _ _ _ windowMs t' ⟨v.start, count⟩ hended, decide_eq_true hended]
    exact verdict_opened (ruleFor_mem method pathname)
  · rw [@arrive_inside _ _ _ windowMs t' ⟨v.start, count⟩ hended, decide_eq_false hended]
    apply verdict_over
    show _ < count + 1
    omega

/-- A denied check is told when its window ends, in whole seconds from now: every further check of
the client under the rule that comes before the end is denied, and the first one after it, at the
time told, is allowed. -/
theorem retryAfter_exact (windowMs : ℤ) (before later : List LimiterCall) (client : List Char)
    (method : String)
    (pathname : List Char) (t : ℤ)
      (hclock : Clocked (before ++ .check client method pathname t :: later))
    (hdenied : (checkWith windowMs (after windowMs [] before) client method pathname t).1.allowed =
      false) :
    let rule := ruleFor method pathname
    let r := (checkWith windowMs (after windowMs [] before) client method pathname
      t).1.retryAfterSeconds
    ∃ ending, windowEnd windowMs (after windowMs [] before) client rule = some ending ∧
      1 ≤ r ∧ t + 1000 * (r - 1) < ending ∧ ending ≤ t + 1000 * r ∧
      ∀ between method' pathname' t' rest, later = between ++
        .check client method' pathname' t' :: rest →
        ruleFor method' pathname' = rule →
        let answer :=
          (checkWith windowMs
          (after windowMs [] (before ++ .check client method pathname t :: between))
          client method' pathname' t').1
        (t' < ending → answer.allowed = false) ∧
        (t' = t + 1000 * r →
          (∀ c ∈ between, c.concerns client rule = true → ¬ (ending ≤ c.now ∧ c.now ≤ t')) →
          answer.allowed = true) := by
  obtain ⟨v, hfull⟩ := full_of_denied hclock hdenied
  intro rule r
  have hr : r = -(-(v.start + windowMs - t) / 1000) := by
    obtain ⟨hbefore, hto⟩ := clocked_split hclock
    have hverdict :=
      (@tracks_after windowMs client _ t before (ruleFor_mem method pathname) hbefore hto).verdict
    rw [hfull.left, arrive_inside hfull.inside] at hverdict
    rw [hverdict] at hdenied
    exact (congrArg Decision.retryAfterSeconds hverdict).trans (verdict_retry hdenied)
  obtain ⟨hpos, hearly, hlate⟩ := retry_bounds hfull.inside
  rw [← hr] at hpos hearly hlate
  refine ⟨v.start + windowMs, hfull.ends, hpos, hearly, hlate, ?_⟩
  intro between method' pathname' t' rest hlater hsame answer
  rw [hlater] at hclock
  have hbetween : ∀ c ∈ between, c.now ≤ t' := by
    have hsplit : Clocked ((before ++ .check client method pathname t :: between) ++
        .check client method' pathname' t' :: rest) := by
      rw [List.append_assoc]
      exact hclock
    intro c hc
    exact (clocked_split hsplit).2 c (List.mem_append_right _ (List.mem_cons_of_mem _ hc))
  constructor
  · intro hinside
    have hanswer := hfull.answer hclock hsame fun c hc _ =>
      Int.not_le.mpr (Int.lt_of_le_of_lt (hbetween c hc) hinside)
    exact hanswer.trans (decide_eq_false (Int.not_le.mpr hinside))
  · intro htime hfree
    have hanswer := hfull.answer hclock hsame fun c hc hconcerns hafter =>
      hfree c hc hconcerns ⟨hafter, hbetween c hc⟩
    exact hanswer.trans (decide_eq_true (by rw [htime]; exact hlate))

/-- Six logins in one instant, ten seconds before the next. -/
theorem retryAfter_exact_login : ∃ ending,
    windowEnd 60000
      (after 60000 []
      (List.replicate 6 (.check "10.0.0.1".toList "POST" "/api/auth/login".toList 1000)))
      "10.0.0.1".toList (ruleFor "POST" "/api/auth/login".toList) = some ending ∧
        11000 + 1000 * (50 - 1) < ending := by
  have hclock :
    Clocked (List.replicate 6 (.check "10.0.0.1".toList "POST" "/api/auth/login".toList 1000) ++
      [.check "10.0.0.1".toList "POST" "/api/auth/login".toList 11000]) := by decide
  have hdenied : (checkWith 60000 (after 60000 []
      (List.replicate 6 (.check "10.0.0.1".toList "POST" "/api/auth/login".toList 1000)))
      "10.0.0.1".toList "POST" "/api/auth/login".toList 11000).1 = ⟨false, 5, 0, 50⟩ := by decide
  obtain ⟨ending, hend, -, hearly, -⟩ :=
    retryAfter_exact 60000 _ [] _ _ _ _ hclock (congrArg Decision.allowed hdenied)
  rw [hdenied] at hearly
  exact ⟨ending, hend, hearly⟩

end Finlytic.Gateway
