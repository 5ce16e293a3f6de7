import Finlytic.UserManagement.FamilyInvariant

/-! Calls that run one at a time, each to its end. Any statement may fail, and one that
has failed may have taken effect all the same. -/

namespace Finlytic.UserManagement

open Lib

/-- How a statement turns out; an error may come after the statement was applied. -/
inductive Attempt where
  | ok (d : Draw)
  | error (applied : Option Draw)

def attempt (cfg : Config) (s : Store) (c : Call) : Attempt → Option (Store × Call)
  | .ok d => statement cfg s c (.ok d)
  | .error none => statement cfg s c .dbError
  | .error (some d) => (statement cfg s c (.ok d)).map fun next => (next.1, .done .failed)

/-- The call, run to its end. -/
def settle (cfg : Config) (s : Store) : Call → List Attempt → Option (Store × Outcome)
  | .done o, [] => some (s, o)
  | _, [] => none
  | c, a :: as => (attempt cfg s c a).bind fun next => settle cfg next.1 next.2 as

/-- A request; `signs` is whether the access token of a new session gets signed, which is the last
thing to be done. -/
def operate (cfg : Config) (s : Store) (r : Request) (attempts : List Attempt) (signs : Bool) :
    Option (Store × Outcome) :=
  (settle cfg s (start r) attempts).map fun result =>
    match result.2 with
    | .session _ => if signs then result else (result.1, .failed)
    | _ => result

variable {cfg : Config} {s s' : Store} {c c' : Call} {a : Attempt} {as : List Attempt} {o : Outcome}

theorem settle_cons :
    settle cfg s c (a :: as) = (attempt cfg s c a).bind fun next =>
      settle cfg next.1 next.2 as := by
  cases c <;> rfl

/-- A call that has ended, or one more statement. -/
theorem settle_cases (h : settle cfg s c as = some (s', o)) : (c = .done o ∧ as = [] ∧ s' = s) ∨
    ∃ a as' t c', as = a :: as' ∧ attempt cfg s c a = some (t, c') ∧ settle cfg t c' as' =
      some (s', o) := by
  cases as with
  | nil =>
    cases c with
    | done o => cases h; exact .inl ⟨rfl, rfl, rfl⟩
    | _ => cases h
  | cons a as =>
    rw [settle_cons] at h
    obtain ⟨⟨t, c'⟩, ht, hrest⟩ := Option.bind_eq_some_iff.mp h
    exact .inr ⟨a, as, t, c', rfl, ht, hrest⟩

theorem settle_done {o' : Outcome} (h : settle cfg s (.done o') as = some (s', o)) :
    s' = s ∧ o = o' := by
  rcases settle_cases h with ⟨hc, -, hs⟩ | ⟨a, as', t, c', -, ha, -⟩
  · cases hc
    exact ⟨hs, rfl⟩
  · cases a with
    | ok d => cases ha
    | error applied =>
      cases applied with
      | none => cases ha
      | some d => cases ha

/-- What an attempt leaves is what one transition of the call leaves. -/
theorem attempt_transition (h : attempt cfg s c a = some (s', c')) :
    ∃ c'', Transition cfg s c s' c'' ∧
    (c' = c'' ∨ c' = .done .failed) := by
  cases a with
  | ok d => exact ⟨c', statement_transition h, .inl rfl⟩
  | error applied =>
    cases applied with
    | none => exact ⟨c', statement_transition h, .inl rfl⟩
    | some d =>
      obtain ⟨⟨t, c''⟩, hst, heq⟩ := Option.map_eq_some_iff.mp h
      cases heq
      exact ⟨c'', statement_transition hst, .inr rfl⟩

/-- A store invariant that every transition keeps holds after the call. -/
theorem settle_invariant {I : Store → Prop}
    (hstep : ∀ s c s' c', I s → Transition cfg s c s' c' → I s') (hs : I s)
    (h : settle cfg s c as = some (s', o)) : I s' := by
  induction as generalizing s c with
  | nil =>
    rcases settle_cases h with ⟨-, -, rfl⟩ | ⟨a, as', t, c', hnil, -, -⟩
    · exact hs
    · cases hnil
  | cons a as ih =>
    rcases settle_cases h with ⟨-, -, rfl⟩ | ⟨a', as', t, c', hcons, ha, hrest⟩
    · exact hs
    · cases hcons
      obtain ⟨c'', ht, -⟩ := attempt_transition ha
      exact ih (hstep s c t c'' hs ht) hrest

theorem operate_cases {r : Request} {signs : Bool} (h : operate cfg s r as signs = some (s', o)) :
    ∃ o', settle cfg s (start r) as = some (s', o') ∧ (o = o' ∨ signs = false ∧ o = .failed) := by
  obtain ⟨⟨t, o'⟩, hsettle, heq⟩ := Option.map_eq_some_iff.mp h
  cases o' with
  | session response =>
    cases signs with
    | false => cases heq; exact ⟨_, hsettle, .inr ⟨rfl, rfl⟩⟩
    | true => cases heq; exact ⟨_, hsettle, .inl rfl⟩
  | unauthorized message => cases heq; exact ⟨_, hsettle, .inl rfl⟩
  | noContent => cases heq; exact ⟨_, hsettle, .inl rfl⟩
  | failed => cases heq; exact ⟨_, hsettle, .inl rfl⟩

end Finlytic.UserManagement
