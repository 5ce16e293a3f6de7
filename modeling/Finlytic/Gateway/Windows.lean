import Finlytic.Gateway.RateLimit
import Finlytic.Lib.FixedWindow
import Finlytic.Lib.Table
import Finlytic.Lib.Text
import Mathlib.Algebra.Order.Group.Int

/-! The counters of the rate limiter over a whole run. Keys separate clients and
rules, a pruned counter is one that the next check would have replaced, and what
is left for one key is a sequence of fixed windows. -/

namespace Finlytic.Gateway

open Lib FixedWindow

/-! ### Runs of the limiter -/

inductive LimiterCall where
  | check (client : List Char) (method : String) (pathname : List Char) (now : ℤ)
  | prune (now : ℤ)
  deriving DecidableEq

def LimiterCall.now : LimiterCall → ℤ
  | .check _ _ _ now => now
  | .prune now => now

/-- A check of this client under this rule. -/
def LimiterCall.concerns (client : List Char) (rule : Rule) : LimiterCall → Bool
  | .check c method pathname _ => c = client && ruleFor method pathname = rule
  | .prune _ => false

variable (windowMs : ℤ)

def LimiterCall.run (counters : Counters) : LimiterCall → Counters
  | .check client method pathname now => (checkWith windowMs counters client method pathname now).2
  | .prune now => pruneWith windowMs counters now

/-- The counters after these calls. -/
def after (counters : Counters) (calls : List LimiterCall) : Counters :=
  calls.foldl (LimiterCall.run windowMs) counters

/-- The answers to the checks of this client under this rule, with the time of each. -/
def answers (client : List Char) (rule : Rule) : Counters → List LimiterCall → List (ℤ × Decision)
  | _, [] => []
  | counters, .prune now :: calls => answers client rule (pruneWith windowMs counters now) calls
  | counters, .check c method pathname now :: calls =>
    let (decision, counters) := checkWith windowMs counters c method pathname now
    if c = client && ruleFor method pathname = rule then
      (now, decision) :: answers client rule counters calls
    else answers client rule counters calls

/-- The times of those checks. -/
def checkTimes (client : List Char) (rule : Rule) (calls : List LimiterCall) : List ℤ :=
  (calls.filter (LimiterCall.concerns client rule)).map (·.now)

/-- The clock never goes backwards. -/
def Clocked (calls : List LimiterCall) : Prop := (calls.map (·.now)).Pairwise (· ≤ ·)

instance (calls : List LimiterCall) : Decidable (Clocked calls) :=
  inferInstanceAs (Decidable (List.Pairwise _ _))

variable {windowMs} {counters : Counters} {client client' : List Char} {rule rule' : Rule}
  {key k : List Char} {counter : Counter} {now : ℤ} {calls : List LimiterCall}

/-! ### Keys -/

theorem ruleFor_mem (method : String) (pathname : List Char) :
    ruleFor method pathname ∈ defaultRule :: rules := by
  unfold ruleFor
  cases hfind : rules.find? fun rule =>
    (rule.method.all (· = method)) && rule.pattern.all fun pattern => testPath pattern pathname with
  | none => exact List.mem_cons_self
  | some rule => exact List.mem_cons_of_mem _ (List.mem_of_find?_eq_some hfind)

theorem rule_max_pos : ∀ rule ∈ defaultRule :: rules, 1 ≤ rule.max := by decide

theorem rule_id_inj :
    ∀ rule ∈ defaultRule :: rules, ∀ rule' ∈ defaultRule :: rules, rule.id = rule'.id →
      rule = rule' := by
  decide

theorem bar_not_mem_id : ∀ rule ∈ defaultRule :: rules, rule.id.toList.contains '|' =
    false := by decide

/-- The rule is what follows the last bar, so no client can name another client's counter. -/
theorem counterKey_inj (hrule : rule ∈ defaultRule :: rules) (hrule' : rule' ∈ defaultRule :: rules)
    (h : counterKey client rule = counterKey client' rule') : client = client' ∧ rule = rule' := by
  have hbar : ∀ {r : Rule}, r ∈ defaultRule :: rules → '|' ∉ r.id.toList.reverse := by
    intro r hr hmem
    have hid := bar_not_mem_id r hr
    rw [List.contains_eq_mem, decide_eq_false_iff_not] at hid
    exact hid (List.mem_reverse.mp hmem)
  have hrev := congrArg List.reverse h
  simp only [counterKey, List.reverse_append, List.reverse_cons, List.append_assoc,
    List.singleton_append] at hrev
  obtain ⟨hid, hclient⟩ := append_cons_inj_of_first (hbar hrule) (hbar hrule') hrev
  refine ⟨List.reverse_injective hclient, rule_id_inj rule hrule rule' hrule' ?_⟩
  exact String.toList_injective (List.reverse_injective hid)

/-! ### One counter -/

def Counter.window (counter : Counter) : Window ℤ := ⟨counter.windowStart, counter.count⟩

theorem ended_iff :
    windowMs ≤ now - counter.windowStart ↔ counter.window.start + windowMs ≤ now := by
  show windowMs ≤ now - counter.windowStart ↔ counter.windowStart + windowMs ≤ now
  omega

/-- The window that is stored under a key. -/
def windowOf (counters : Counters) (key : List Char) : Option (Window ℤ) :=
  (counters.lookup key).map Counter.window

/-- The answer to the check that the window was counted up for. -/
def verdict (windowMs : ℤ) (rule : Rule) (now : ℤ) (w : Window ℤ) : Decision :=
  let allowed := decide (w.count ≤ rule.max)
  ⟨allowed, rule.max, rule.max - w.count, if allowed then 0
    else -(-(windowMs - (now - w.start)) / 1000)⟩

theorem lookup_cons_if (e : List Char × Counter) (es : Counters) :
    (e :: es).lookup k = if k = e.1 then some e.2 else es.lookup k := by
  rw [List.lookup_cons]
  by_cases h : k = e.1
  · rw [if_pos h, beq_iff_eq.mpr h]
  · rw [if_neg h, beq_false_of_ne h]

/-- Overwriting the entry of a key. -/
theorem lookup_replace : (counters.map fun e => if e.1 = key then (key, counter) else e).lookup k =
    if k = key then (counters.lookup k).map fun _ => counter else counters.lookup k := by
  induction counters with
  | nil => split_ifs <;> rfl
  | cons e es ih =>
    rw [List.map_cons, lookup_cons_if, lookup_cons_if, ih]
    by_cases he : e.1 = key
    · by_cases hk : k = key
      · simp [he, hk]
      · simp [he, hk]
    · by_cases hk : k = e.1
      · have hne : k ≠ key := fun h => he (hk.symm.trans h)
        simp [he, hk]
      · simp [he, hk]

theorem lookup_setCounter :
    (setCounter counters key counter).lookup k = if k = key then some counter
      else counters.lookup k := by
  unfold setCounter
  split_ifs with hany hk hk
  · obtain ⟨e, he, hkey⟩ := List.any_eq_true.mp hany
    have hsome : counters.lookup k ≠ none := by
      intro hnone
      have hne := List.lookup_eq_none_iff.mp hnone e he
      rw [hk] at hne
      exact bne_iff_ne.mp hne (of_decide_eq_true hkey).symm
    obtain ⟨c, hc⟩ := Option.ne_none_iff_exists'.mp hsome
    rw [lookup_replace, if_pos hk, hc, Option.map_some]
  · rw [lookup_replace, if_neg hk]
  · have hnone : counters.lookup k = none := by
      rw [List.lookup_eq_none_iff]
      intro e he
      refine bne_iff_ne.mpr fun hke => hany ?_
      exact List.any_eq_true.mpr ⟨e, he, decide_eq_true (hke.symm.trans hk)⟩
    rw [List.lookup_append, hnone, Option.none_or, lookup_cons_if, if_pos hk]
  · rw [List.lookup_append, lookup_cons_if, if_neg hk]
    exact Option.or_none

/-- Keys are distinct, as in a `Map`. -/
def Distinct (counters : Counters) : Prop := (counters.map (·.1)).Nodup

theorem Distinct.setCounter (h : Distinct counters) :
    Distinct (setCounter counters key counter) := by
  unfold Gateway.setCounter
  split_ifs with hany
  · have hkeys : (counters.map fun e => if e.1 = key then (key, counter) else e).map (·.1) =
        counters.map (·.1) := by
      rw [List.map_map]
      refine List.map_congr_left fun e _ => ?_
      by_cases he : e.1 = key
      · simp [he]
      · simp [he]
    unfold Distinct
    rwa [hkeys]
  · refine Table.nodup_append_row _ h fun e he hkey => hany ?_
    exact List.any_eq_true.mpr ⟨e, he, decide_eq_true hkey⟩

theorem Distinct.pruneWith (h : Distinct counters) : Distinct (pruneWith windowMs counters now) :=
  h.sublist (List.filter_sublist.map _)

theorem windowOf_setCounter : windowOf (setCounter counters key counter) k =
    if k = key then some counter.window else windowOf counters k := by
  unfold windowOf
  rw [lookup_setCounter]
  split_ifs
  · rfl
  · rfl

/-- A counter is dropped exactly when the next check would replace it. -/
theorem windowOf_pruneWith (h : Distinct counters) :
    windowOf (pruneWith windowMs counters now) k = openAt windowMs now (windowOf counters k) := by
  induction counters with
  | nil => rfl
  | cons e es ih =>
    obtain ⟨hnew, hes⟩ := List.nodup_cons.mp h
    have ih := ih hes
    unfold windowOf pruneWith at ih ⊢
    rw [lookup_cons_if, List.filter_cons]
    have hend : windowMs ≤ now - e.2.windowStart ↔ e.2.window.start + windowMs ≤ now :=
      ended_iff
    by_cases hk : k = e.1
    · have hnone : es.lookup k = none := by
        rw [List.lookup_eq_none_iff]
        intro x hx
        have hne : k ≠ x.1 := fun h => hnew (List.mem_map.mpr ⟨x, hx, (hk.symm.trans h).symm⟩)
        exact bne_iff_ne.mpr hne
      rw [if_pos hk, Option.map_some]
      by_cases hexpired : e.2.window.start + windowMs ≤ now
      · rw [if_neg (by simp [hend.mpr hexpired]), ih, hnone, openAt, if_pos hexpired]
        rfl
      · rw [if_pos (by simpa [hend] using hexpired), lookup_cons_if, if_pos hk, openAt,
          if_neg hexpired]
        rfl
    · rw [if_neg hk, ← ih]
      split_ifs
      · rw [lookup_cons_if, if_neg hk]
      · rfl

/-- A check counts its window up, and answers by the number it gets. -/
theorem checkWith_eq (method : String) (pathname : List Char) :
    let key := counterKey client (ruleFor method pathname)
    let w := arrive windowMs now (windowOf counters key)
    checkWith windowMs counters client method pathname now =
      (verdict windowMs (ruleFor method pathname) now w, setCounter counters key
        ⟨w.start, w.count⟩) := by
  have hmax := rule_max_pos _ (ruleFor_mem method pathname)
  have hopened : verdict windowMs (ruleFor method pathname) now ⟨now, 1⟩ =
      ⟨true, (ruleFor method pathname).max, (ruleFor method pathname).max - 1, 0⟩ := by
    simp [verdict, hmax]
  simp only [checkWith, windowOf]
  cases hlookup : counters.lookup (counterKey client (ruleFor method pathname)) with
  | none => rw [Option.map_none, arrive_none, hopened]
  | some counter =>
    have hend : windowMs ≤ now - counter.windowStart ↔ counter.window.start + windowMs ≤ now :=
      ended_iff
    simp only [Option.map_some]
    by_cases hexpired : counter.window.start + windowMs ≤ now
    · rw [if_pos (hend.mpr hexpired), arrive_ended hexpired, hopened]
    · rw [if_neg (fun h => hexpired (hend.mp h)), arrive_inside hexpired]
      rfl

/-! ### One key over a run -/

/-- Under this key the counters hold the window, as far as it is still open. -/
def Tracks (windowMs now : ℤ) (key : List Char) (counters : Counters) (w : Option (Window ℤ)) :
    Prop :=
  Distinct counters ∧ openAt windowMs now (windowOf counters key) = openAt windowMs now w

variable {w : Option (Window ℤ)} {method : String} {pathname : List Char}

theorem Tracks.later {t : ℤ} (h : Tracks windowMs t key counters w) (ht : t ≤ now) :
    Tracks windowMs now key counters w :=
  ⟨h.1, openAt_mono h.2 ht⟩

theorem Tracks.prune (h : Tracks windowMs now key counters w) :
    Tracks windowMs now key (pruneWith windowMs counters now) w := by
  refine ⟨h.1.pruneWith, ?_⟩
  rw [windowOf_pruneWith h.1, openAt_openAt (le_refl now)]
  exact h.2

/-- A check under another key leaves this one alone. -/
theorem Tracks.check_other (h : Tracks windowMs now key counters w)
    (hkey : key ≠ counterKey client (ruleFor method pathname)) :
    Tracks windowMs now key (checkWith windowMs counters client method pathname now).2 w := by
  rw [checkWith_eq]
  refine ⟨h.1.setCounter, ?_⟩
  rw [windowOf_setCounter, if_neg hkey]
  exact h.2

theorem Tracks.check_same
    (h : Tracks windowMs now (counterKey client (ruleFor method pathname)) counters w) :
    Tracks windowMs now (counterKey client (ruleFor method pathname))
      (checkWith windowMs counters client method pathname now).2
        (some (arrive windowMs now w)) := by
  rw [checkWith_eq]
  refine ⟨h.1.setCounter, ?_⟩
  rw [windowOf_setCounter, if_pos rfl, arrive_congr h.2]
  rfl

/-- The answer depends on the counters only through the open window of the key. -/
theorem Tracks.verdict
    (h : Tracks windowMs now (counterKey client (ruleFor method pathname)) counters w) :
    (checkWith windowMs counters client method pathname now).1 =
      verdict windowMs (ruleFor method pathname) now (arrive windowMs now w) := by
  rw [checkWith_eq, arrive_congr h.2]

/-- A check is under the key of a client and a rule only if it concerns them. -/
theorem concerns_iff (hrule : rule ∈ defaultRule :: rules) :
    (LimiterCall.check client' method pathname now).concerns client rule = true ↔
      counterKey client rule = counterKey client' (ruleFor method pathname) := by
  simp only [LimiterCall.concerns, Bool.and_eq_true, decide_eq_true_eq]
  constructor
  · rintro ⟨rfl, rfl⟩
    rfl
  · intro h
    obtain ⟨hclient, hr⟩ := counterKey_inj hrule (ruleFor_mem method pathname) h
    exact ⟨hclient.symm, hr.symm⟩

theorem checkTimes_cons (c : LimiterCall) (calls : List LimiterCall) :
    checkTimes client rule (c :: calls) =
    if c.concerns client rule then c.now :: checkTimes client rule calls
    else checkTimes client rule calls := by
  unfold checkTimes
  rw [List.filter_cons]
  split_ifs
  · rfl
  · rfl

/-- One call moves the window on if it is a check of this client under this rule, and not
otherwise. -/
theorem Tracks.run (hrule : rule ∈ defaultRule :: rules) {c : LimiterCall}
    (h : Tracks windowMs c.now (counterKey client rule) counters w) :
    Tracks windowMs c.now (counterKey client rule) (c.run windowMs counters)
      (if c.concerns client rule then some (arrive windowMs c.now w) else w) := by
  cases c with
  | prune now => exact h.prune
  | check c method pathname now =>
    split_ifs with hconcerns
    · have hkey := (concerns_iff hrule).mp hconcerns
      rw [hkey] at h ⊢
      exact h.check_same
    · exact h.check_other fun hkey => hconcerns ((concerns_iff hrule).mpr hkey)

theorem clocked_cons {c : LimiterCall} :
    Clocked (c :: calls) ↔ (∀ d ∈ calls, c.now ≤ d.now) ∧ Clocked calls := by
  simp only [Clocked, List.map_cons, List.pairwise_cons, List.mem_map, forall_exists_index, and_imp,
    forall_apply_eq_imp_iff₂]

/-- After any calls the counters hold the window that the checks of the key leave by themselves. -/
theorem Tracks.after (hrule : rule ∈ defaultRule :: rules) {t : ℤ}
    (h : Tracks windowMs t (counterKey client rule) counters w) (hclock : Clocked calls)
    (hfrom : ∀ c ∈ calls, t ≤ c.now) (hto : ∀ c ∈ calls, c.now ≤ now) (ht : t ≤ now) :
    Tracks windowMs now (counterKey client rule) (after windowMs counters calls)
      (latest windowMs w (checkTimes client rule calls)) := by
  induction calls generalizing counters w t with
  | nil => exact h.later ht
  | cons c calls ih =>
    obtain ⟨hle, hclock⟩ := clocked_cons.mp hclock
    obtain ⟨hc, -⟩ := List.forall_mem_cons.mp hfrom
    obtain ⟨hcn, hto⟩ := List.forall_mem_cons.mp hto
    have hnext := ih (Tracks.run hrule (h.later hc)) hclock hle hto hcn
    rw [checkTimes_cons]
    split_ifs at hnext ⊢
    · exact hnext
    · exact hnext

theorem tracks_nil (t : ℤ) : Tracks windowMs t key [] none := ⟨List.nodup_nil, rfl⟩

theorem tracks_after (hrule : rule ∈ defaultRule :: rules) (hclock : Clocked calls)
    (hto : ∀ c ∈ calls, c.now ≤ now) :
    Tracks windowMs now (counterKey client rule) (after windowMs [] calls)
      (latest windowMs none (checkTimes client rule calls)) := by
  cases calls with
  | nil => exact tracks_nil now
  | cons c calls =>
    have hfrom : ∀ d ∈ c :: calls, c.now ≤ d.now :=
      List.forall_mem_cons.mpr ⟨le_refl c.now, (clocked_cons.mp hclock).1⟩
    exact (tracks_nil c.now).after hrule hclock hfrom hto (List.forall_mem_cons.mp hto).1

/-! ### Isolation -/

theorem checkTimes_filter (before : List LimiterCall) :
    checkTimes client rule (before.filter (LimiterCall.concerns client rule)) =
      checkTimes client rule before := by
  unfold checkTimes
  rw [List.filter_filter]
  simp only [Bool.and_self]

/-- A check is answered as if the limiter had seen only the earlier checks of the same client
under the same rule. -/
theorem check_isolated (windowMs : ℤ) (before later : List LimiterCall) (client : List Char)
    (method : String) (pathname : List Char) (now : ℤ)
    (hclock : Clocked (before ++ .check client method pathname now :: later)) :
    (checkWith windowMs (after windowMs [] before) client method pathname now).1 =
      (checkWith windowMs
        (after windowMs [] (before.filter (LimiterCall.concerns client (ruleFor method pathname))))
        client method pathname now).1 := by
  have hrule := ruleFor_mem method pathname
  rw [Clocked, List.map_append] at hclock
  obtain ⟨hbefore, -, hlater⟩ := List.pairwise_append.mp hclock
  have hto : ∀ c ∈ before, c.now ≤ now := fun c hc =>
    hlater c.now (List.mem_map_of_mem hc) now List.mem_cons_self
  have hfiltered : Clocked (before.filter (LimiterCall.concerns client (ruleFor method pathname))) :=
    hbefore.sublist (List.filter_sublist.map _)
  have htofiltered : ∀ c ∈ before.filter (LimiterCall.concerns client (ruleFor method pathname)),
      c.now ≤ now :=
    fun c hc => hto c (List.mem_filter.mp hc).1
  rw [(tracks_after hrule hbefore hto).verdict, (tracks_after hrule hfiltered htofiltered).verdict,
    checkTimes_filter]

/-- Five logins, a prune and another client's check, whose address ends like a key. -/
def busyMinute : List LimiterCall :=
  List.replicate 5 (.check "10.0.0.1".toList "POST" "/api/auth/login".toList 0) ++
    [.prune 30000, .check "10.0.0.1|auth-login".toList "GET" "/api/accounts".toList 40000]

theorem check_isolated_login :
    (checkWith 60000 (after 60000 [] busyMinute) "10.0.0.1".toList "POST" "/api/auth/login".toList
      50000).1 =
      (checkWith 60000
        (after 60000 []
        (List.replicate 5 (.check "10.0.0.1".toList "POST" "/api/auth/login".toList 0)))
        "10.0.0.1".toList "POST" "/api/auth/login".toList 50000).1 := by
  have hclock :
      Clocked (busyMinute ++
      [.check "10.0.0.1".toList "POST" "/api/auth/login".toList 50000]) := by decide
  exact check_isolated 60000 busyMinute [] _ _ _ _ hclock

/-! ### Windows -/

/-- The answers to one key are those of the fixed windows of its checks. -/
theorem answers_numbers (hrule : rule ∈ defaultRule :: rules) {t : ℤ}
    (h : Tracks windowMs t (counterKey client rule) counters w) (hclock : Clocked calls)
    (hfrom : ∀ c ∈ calls, t ≤ c.now) :
    (answers windowMs client rule counters calls).map (fun a => (a.1, a.2.allowed)) =
      (numbers windowMs w (checkTimes client rule calls)).map fun e =>
        (e.1, decide (e.2 ≤ rule.max)) := by
  induction calls generalizing counters w t with
  | nil => rfl
  | cons c calls ih =>
    obtain ⟨hle, hclock⟩ := clocked_cons.mp hclock
    have hnow := h.later (List.forall_mem_cons.mp hfrom).1
    have hnext := ih (Tracks.run hrule hnow) hclock hle
    rw [checkTimes_cons]
    cases c with
    | prune now => exact hnext
    | check c method pathname now =>
      by_cases hconcerns : c = client && ruleFor method pathname = rule
      · have hsame : (LimiterCall.check c method pathname now).concerns client rule = true := hconcerns
        obtain ⟨rfl, rfl⟩ : c = client ∧ ruleFor method pathname = rule := by simpa using hconcerns
        have hverdict : (checkWith windowMs counters c method pathname now).1 =
            verdict windowMs (ruleFor method pathname) now (arrive windowMs now w) :=
              Tracks.verdict hnow
        rw [if_pos hsame] at hnext ⊢
        simp only [answers, List.map_cons, numbers, hverdict]
        exact congrArg _ hnext
      · have hother : ¬ (LimiterCall.check c method pathname now).concerns client rule = true :=
          hconcerns
        rw [if_neg hother] at hnext ⊢
        simp only [answers, if_neg hconcerns]
        exact hnext

/-- No check is under a rule that is not in the table. -/
theorem not_concerns_of_not_mem (hrule : rule ∉ defaultRule :: rules) (c : LimiterCall) :
    ¬ c.concerns client rule = true := by
  cases c with
  | prune now => exact Bool.false_ne_true
  | check c method pathname now =>
    intro h
    simp only [LimiterCall.concerns, Bool.and_eq_true, decide_eq_true_eq] at h
    exact hrule (h.2 ▸ ruleFor_mem method pathname)

theorem checkTimes_of_not_mem (hrule : rule ∉ defaultRule :: rules) :
    checkTimes client rule calls = [] := by
  unfold checkTimes
  rw [List.filter_eq_nil_iff.mpr fun c _ => not_concerns_of_not_mem hrule c, List.map_nil]

theorem answers_of_not_mem (hrule : rule ∉ defaultRule :: rules) :
    answers windowMs client rule counters calls = [] := by
  induction calls generalizing counters with
  | nil => rfl
  | cons c calls ih =>
    cases c with
    | prune now => exact ih
    | check c method pathname now =>
      have hother : ¬ (c = client && ruleFor method pathname = rule) = true :=
        @not_concerns_of_not_mem client rule hrule (.check c method pathname now)
      simp only [answers, if_neg hother]
      exact ih

theorem answers_eq (hclock : Clocked calls) :
    (answers windowMs client rule [] calls).map (fun a => (a.1, a.2.allowed)) =
    (numbers windowMs none (checkTimes client rule calls)).map fun e =>
      (e.1, decide (e.2 ≤ rule.max)) := by
  by_cases hrule : rule ∈ defaultRule :: rules
  · cases calls with
    | nil => rfl
    | cons c calls =>
      have hfrom : ∀ d ∈ c :: calls, c.now ≤ d.now :=
        List.forall_mem_cons.mpr ⟨le_refl c.now, (clocked_cons.mp hclock).1⟩
      exact answers_numbers hrule (tracks_nil c.now) hclock hfrom
  · rw [answers_of_not_mem hrule, checkTimes_of_not_mem hrule]
    rfl

theorem checkTimes_pairwise (hclock : Clocked calls) :
    (checkTimes client rule calls).Pairwise (· ≤ ·) :=
  hclock.sublist (List.filter_sublist.map _)

/-- Windows open at the first check at or after the end of the one before. In each of them the
first `max` checks are allowed and no others, so that an interval of a window's length holds at
most `2 * max - 1`. -/
theorem windows_bound (windowMs : ℤ) (client : List Char) (rule : Rule) (calls : List LimiterCall)
    (hclock : Clocked calls) :
    (answers windowMs client rule [] calls).map (fun a => (a.1, a.2.allowed)) =
      (windows windowMs (checkTimes client rule calls)).flatMap
        (fun window => window.mapIdx fun i t => (t, decide (i < rule.max))) ∧
    ∀ t, ((answers windowMs client rule [] calls).countP
      fun a => a.2.allowed && decide (t ≤ a.1) && decide (a.1 < t + windowMs)) ≤
        2 * rule.max - 1 := by
  have heq := @answers_eq windowMs client rule calls hclock
  constructor
  · rw [heq, numbers_none, List.map_flatMap]
    congr 1
    funext window
    rw [List.mapIdx_eq_zipIdx_map, List.mapIdx_eq_zipIdx_map, List.map_map]
    rfl
  · intro t
    have hcount : (answers windowMs client rule [] calls).countP
        (fun a => a.2.allowed && decide (t ≤ a.1) && decide (a.1 < t + windowMs)) =
        admitted windowMs rule.max t (numbers windowMs none (checkTimes client rule calls)) := by
      have hmap :=
        congrArg (List.countP fun e => e.2 && decide (t ≤ e.1) && decide (e.1 < t + windowMs)) heq
      rw [List.countP_map, List.countP_map] at hmap
      refine hmap.trans ?_
      unfold admitted
      congr 1
      funext e
      simp only [Function.comp_apply, ← not_le, decide_not]
    rw [hcount]
    by_cases hrule : rule ∈ defaultRule :: rules
    · exact admitted_le (rule_max_pos rule hrule) (fun v hv => nomatch hv) (checkTimes_pairwise hclock)
    · rw [checkTimes_of_not_mem hrule]
      exact Nat.zero_le _

theorem windows_bound_busyMinute :
    (answers 60000 "10.0.0.1".toList (rules.headD defaultRule) [] busyMinute).countP
    (fun a => a.2.allowed && decide (0 ≤ a.1) && decide (a.1 < 0 + 60000)) ≤ 2 * 5 - 1 := by
  have hclock : Clocked busyMinute := by decide
  exact (windows_bound 60000 "10.0.0.1".toList (rules.headD defaultRule) busyMinute hclock).2 0

end Finlytic.Gateway
