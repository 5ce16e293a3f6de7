import Mathlib.Algebra.GroupWithZero.Nat
import Mathlib.Data.List.Basic
import Mathlib.Data.List.Forall2
import Mathlib.Data.List.Induction

/-! Runs of guarded transition systems, and the one pattern every service here
follows: a pool of sequential calls over a shared store. A call is a program
counter; each of its statements is one atomic step on the store. Calls are
interleaved freely, any call may stop between two statements, and the
environment may change the store on its own. -/

namespace Finlytic.Lib

section Runs

variable {σ α : Type*}

/-- Replay a list of actions; `none` as soon as one of them is not enabled. -/
def exec (step : σ → α → Option σ) : σ → List α → Option σ
  | s, [] => some s
  | s, a :: as => (step s a).bind fun t => exec step t as

/-- Every step of the replay is taken in a state where `ok` allows it. -/
def Meets (step : σ → α → Option σ) (ok : σ → α → Prop) : σ → List α → Prop
  | _, [] => True
  | s, a :: as => ok s a ∧ ∀ t, step s a = some t → Meets step ok t as

/-- The states that some replay from a state of `start` ends in. -/
def Reachable (step : σ → α → Option σ) (start : σ → Prop) (s : σ) : Prop :=
  ∃ s₀ as, start s₀ ∧ exec step s₀ as = some s

variable {step : σ → α → Option σ} {ok : σ → α → Prop} {start : σ → Prop} {s t : σ} {a : α}
  {as : List α}

@[simp] theorem exec_nil : exec step s [] = some s := rfl

theorem exec_cons : exec step s (a :: as) = (step s a).bind fun t => exec step t as := rfl

theorem exec_cons_some (h : step s a = some t) : exec step s (a :: as) = exec step t as := by
  rw [exec_cons, h, Option.bind_some]

theorem exec_append (as bs : List α) :
    exec step s (as ++ bs) = (exec step s as).bind fun t => exec step t bs := by
  induction as generalizing s with
  | nil => rfl
  | cons a as ih =>
    rw [List.cons_append, exec_cons, exec_cons, Option.bind_assoc]
    congr 1
    funext t
    exact ih

/-- An invariant that every allowed step keeps holds after every run whose steps are allowed. -/
theorem exec_invariant_of_meets {I : σ → Prop}
    (hstep : ∀ s a t, I s → ok s a → step s a = some t → I t) :
    I s → Meets step ok s as → exec step s as = some t → I t := by
  induction as generalizing s with
  | nil => intro hs _ h; cases h; exact hs
  | cons a as ih =>
    intro hs hm h
    obtain ⟨u, hu, h⟩ := Option.bind_eq_some_iff.mp h
    exact ih (hstep s a u hs hm.1 hu) (hm.2 u hu) h

theorem meets_cons_some (h : step s a = some t) :
    Meets step ok s (a :: as) ↔ ok s a ∧ Meets step ok t as := by
  constructor
  · rintro ⟨hok, hrest⟩
    exact ⟨hok, hrest t h⟩
  · rintro ⟨hok, hrest⟩
    refine ⟨hok, fun u hu => ?_⟩
    obtain rfl := Option.some.inj (h.symm.trans hu)
    exact hrest

theorem meets_cons_none (h : step s a = none) : Meets step ok s (a :: as) ↔ ok s a := by
  constructor
  · exact fun hm => hm.1
  · intro hok
    refine ⟨hok, fun t ht => ?_⟩
    rw [h] at ht
    cases ht

instance decidableMeets [∀ s a, Decidable (ok s a)] (s : σ) (as : List α) :
    Decidable (Meets step ok s as) :=
  match as with
  | [] => .isTrue trivial
  | a :: as =>
    match h : step s a with
    | none => decidable_of_iff _ (meets_cons_none h).symm
    | some t => have := decidableMeets t as; decidable_of_iff _ (meets_cons_some h).symm

/-- A condition on the actions alone. -/
theorem meets_of_forall {p : α → Prop} (h : ∀ a ∈ as, p a) : Meets step (fun _ a => p a) s as := by
  induction as generalizing s with
  | nil => trivial
  | cons a as ih =>
    obtain ⟨ha, has⟩ := List.forall_mem_cons.mp h
    exact ⟨ha, fun t _ => ih has⟩

theorem meets_true (s : σ) (as : List α) : Meets step (fun _ _ => True) s as :=
  meets_of_forall fun _ _ => trivial

/-- The unconditional rule: an invariant that every step keeps holds after every run. -/
theorem exec_invariant {I : σ → Prop} (hstep : ∀ s a t, I s → step s a = some t → I t)
    (hs : I s) (h : exec step s as = some t) : I t :=
  exec_invariant_of_meets (fun s a t hs _ => hstep s a t hs) hs (meets_true s as) h

theorem Reachable.invariant {I : σ → Prop} (h : Reachable step start s) (h0 : ∀ s, start s → I s)
    (hstep : ∀ s a t, I s → step s a = some t → I t) : I s := by
  obtain ⟨s₀, as, hs₀, hr⟩ := h
  exact exec_invariant hstep (h0 s₀ hs₀) hr

theorem Reachable.exec (h : Reachable step start s) (hr : exec step s as = some t) :
    Reachable step start t := by
  obtain ⟨s₀, bs, hs₀, hs⟩ := h
  exact ⟨s₀, bs ++ as, hs₀, by rw [exec_append, hs]; exact hr⟩

/-- Some state along the replay satisfies `Q`. -/
def Passes (step : σ → α → Option σ) (s : σ) (as : List α) (Q : σ → Prop) : Prop :=
  ∃ bs cs t, as = bs ++ cs ∧ Lib.exec step s bs = some t ∧ Q t

theorem Passes.here {Q : σ → Prop} (h : Lib.exec step s as = some t) (hQ : Q t) :
    Passes step s as Q :=
  ⟨as, [], t, (List.append_nil as).symm, h, hQ⟩

theorem Passes.append {Q : σ → Prop} (h : Passes step s as Q) (bs : List α) :
    Passes step s (as ++ bs) Q := by
  obtain ⟨cs, ds, t, rfl, ht, hQ⟩ := h
  exact ⟨cs, ds ++ bs, t, List.append_assoc cs ds bs, ht, hQ⟩

theorem exec_concat :
    Lib.exec step s (as ++ [a]) = (Lib.exec step s as).bind fun t => step t a := by
  rw [exec_append]
  congr 1
  funext t
  rw [exec_cons]
  cases step t a <;> rfl

/-- An invariant of the state and the actions so far, by induction on the last action. -/
theorem exec_history {H : List α → σ → Prop} (h0 : H [] s)
    (hstep : ∀ as t a u, Lib.exec step s as = some t → H as t → step t a = some u → H (as ++ [a]) u)
    (hr : Lib.exec step s as = some t) : H as t := by
  induction as using List.reverseRecOn generalizing t with
  | nil => cases hr; exact h0
  | append_singleton as a ih =>
    rw [exec_concat] at hr
    obtain ⟨u, hu, ha⟩ := Option.bind_eq_some_iff.mp hr
    exact hstep as u a t hu (ih hu) ha

theorem Reachable.succ (h : Reachable step start s) (ht : step s a = some t) :
    Reachable step start t := by
  have hr : Lib.exec step s [a] = some t := exec_cons_some ht
  exact h.exec hr

end Runs

/-! ### Pools of calls -/

/-- The calls of a component: how a request starts, what one statement does to
the store and to the call's program counter (under the environment's choice
`δ`), and what the environment may do to the store. -/
structure Program (σ ρ κ δ ε : Type*) where
  start : ρ → κ
  statement : σ → κ → δ → Option (σ × κ)
  environment : σ → ε → Option σ

structure Pool (σ κ : Type*) where
  store : σ
  calls : List κ
  deriving DecidableEq

/-- A store invariant, and an assertion about the store at every call's program counter. -/
def Pool.Holds {σ κ : Type*} (I : σ → Prop) (J : σ → κ → Prop) (p : Pool σ κ) : Prop :=
  I p.store ∧ ∀ c ∈ p.calls, J p.store c

section Holds

variable {σ κ : Type*} {I : σ → Prop} {J : σ → κ → Prop} {p : Pool σ κ} {s : σ} {c : κ}

theorem Pool.Holds.call (h : p.Holds I J) (hc : J p.store c) :
    (Pool.mk p.store (p.calls ++ [c])).Holds I J := by
  refine ⟨h.1, fun x hx => ?_⟩
  rcases List.mem_append.mp hx with hx | hx
  · exact h.2 x hx
  · rw [List.mem_singleton.mp hx]
    exact hc

/-- One call moves on, and the assertions of the others stand. -/
theorem Pool.Holds.run {i : ℕ} (h : p.Holds I J) (hI : I s) (hc : J s c)
    (hst : ∀ x, J p.store x → J s x) :
    (Pool.mk s (p.calls.set i c)).Holds I J := by
  refine ⟨hI, fun x hx => ?_⟩
  rcases List.mem_or_eq_of_mem_set hx with hx | rfl
  · exact hst x (h.2 x hx)
  · exact hc

theorem Pool.Holds.env (h : p.Holds I J) (hI : I s) (hst : ∀ x, J p.store x → J s x) :
    (Pool.mk s p.calls).Holds I J :=
  ⟨hI, fun x hx => hst x (h.2 x hx)⟩

end Holds

inductive Action (ρ δ ε : Type*) where
  | call (r : ρ)
  | run (i : ℕ) (d : δ)
  | env (e : ε)

/-- The requests of a run, in the order of their calls. -/
def requests {ρ δ ε : Type*} (as : List (Action ρ δ ε)) : List ρ :=
  as.filterMap fun a =>
    match a with
    | .call r => some r
    | _ => none

theorem forall₂_set {ρ κ : Type*} {R S : ρ → κ → Prop} {rs : List ρ} {l : List κ}
    (h : List.Forall₂ R rs l) {i : ℕ} {c c' : κ} (hi : l[i]? = some c) (hc : ∀ r, R r c → S r c')
    (hother : ∀ r x, R r x → S r x) :
    List.Forall₂ S rs (l.set i c') := by
  induction h generalizing i with
  | nil => exact .nil
  | cons hrx hrest ih =>
    cases i with
    | zero =>
      obtain rfl := Option.some.inj hi
      exact .cons (hc _ hrx) (hrest.imp hother)
    | succ i => exact .cons (hother _ _ hrx) (ih hi)

theorem forall₂_getElem? {ρ κ : Type*} {R : ρ → κ → Prop} {rs : List ρ} {l : List κ}
    (h : List.Forall₂ R rs l) {k : ℕ} {c : κ} (hc : l[k]? = some c) :
    ∃ r, rs[k]? = some r ∧ R r c := by
  induction h generalizing k with
  | nil => cases hc
  | cons hrx _ ih =>
    cases k with
    | zero =>
      obtain rfl := Option.some.inj hc
      exact ⟨_, rfl, hrx⟩
    | succ k => exact ih hc

namespace Program

variable {σ ρ κ δ ε : Type*} (P : Program σ ρ κ δ ε)

def step (p : Pool σ κ) : Action ρ δ ε → Option (Pool σ κ)
  | .call r => some ⟨p.store, p.calls ++ [P.start r]⟩
  | .run i d => p.calls[i]?.bind fun c =>
      (P.statement p.store c d).map fun next => ⟨next.1, p.calls.set i next.2⟩
  | .env e => (P.environment p.store e).map fun s => ⟨s, p.calls⟩

variable {P} {p q : Pool σ κ} {i : ℕ} {d : δ} {e : ε}

theorem step_run : P.step p (.run i d) = some q ↔
    ∃ c s c', p.calls[i]? = some c ∧ P.statement p.store c d = some (s, c') ∧
      q = ⟨s, p.calls.set i c'⟩ := by
  simp only [step, Option.bind_eq_some_iff, Option.map_eq_some_iff, Prod.exists]
  constructor
  · rintro ⟨c, hc, s, c', hs, rfl⟩
    exact ⟨c, s, c', hc, hs, rfl⟩
  · rintro ⟨c, s, c', hc, hs, rfl⟩
    exact ⟨c, hc, s, c', hs, rfl⟩

theorem step_env : P.step p (.env e) = some q ↔
    ∃ s, P.environment p.store e = some s ∧ q = ⟨s, p.calls⟩ := by
  simp only [step, Option.map_eq_some_iff, eq_comm (a := q)]

/-- Everything a step of the pool can do. -/
theorem step_cases {a : Action ρ δ ε} (h : P.step p a = some q) :
    (∃ r, a = .call r ∧ q = ⟨p.store, p.calls ++ [P.start r]⟩) ∨
    (∃ i d c s c', a = .run i d ∧ p.calls[i]? = some c ∧ P.statement p.store c d = some (s, c') ∧
      q = ⟨s, p.calls.set i c'⟩) ∨
    (∃ e s, a = .env e ∧ P.environment p.store e = some s ∧ q = ⟨s, p.calls⟩) := by
  cases a with
  | call r => exact .inl ⟨r, rfl, (Option.some.inj h).symm⟩
  | run i d =>
    obtain ⟨c, s, c', hc, hs, hq⟩ := step_run.mp h
    exact .inr (.inl ⟨i, d, c, s, c', rfl, hc, hs, hq⟩)
  | env e =>
    obtain ⟨s, hs, hq⟩ := step_env.mp h
    exact .inr (.inr ⟨e, s, rfl, hs, hq⟩)

/-- A call that has no next statement stays as it is. -/
theorem step_ended {a : Action ρ δ ε} {j : ℕ} {c : κ} (hc : ∀ s d, P.statement s c d = none)
    (hj : p.calls[j]? = some c) (h : P.step p a = some q) : q.calls[j]? = some c := by
  obtain ⟨r, -, rfl⟩ | ⟨i, d, c', s, c'', -, hi, hs, rfl⟩ | ⟨e, s, -, -, rfl⟩ := step_cases h
  · exact (List.getElem?_append_left (List.getElem?_eq_some_iff.mp hj).1).trans hj
  · have hne : i ≠ j := by
      rintro rfl
      rw [Option.some.inj (hi.symm.trans hj), hc] at hs
      cases hs
    exact (List.getElem?_set_ne hne).trans hj
  · exact hj

/-- The statement about to run is taken in a state where `ok` allows it. -/
def Allows (ok : σ → κ → Prop) (p : Pool σ κ) : Action ρ δ ε → Prop
  | .run i _ => ∀ c ∈ p.calls[i]?, ok p.store c
  | _ => True

instance {ok : σ → κ → Prop} [∀ s c, Decidable (ok s c)] (p : Pool σ κ) (a : Action ρ δ ε) :
    Decidable (Allows ok p a) :=
  match a with
  | .call _ => .isTrue trivial
  | .env _ => .isTrue trivial
  | .run i _ =>
    match h : p.calls[i]? with
    | none => .isTrue (by simp [Allows, h])
    | some c => decidable_of_iff (ok p.store c) (by simp [Allows, h])

/-- Owicki and Gries for a pool: a store invariant and an assertion at every
program counter that no allowed statement of another call can break. -/
theorem step_stable_of {ok : σ → κ → Prop} {I : σ → Prop} {J : σ → κ → Prop}
    (hcall : ∀ s r, I s → J s (P.start r))
    (hrun : ∀ s c d s' c', I s → J s c → ok s c → P.statement s c d = some (s', c') →
      I s' ∧ J s' c' ∧ ∀ c₂, J s c₂ → J s' c₂)
    (henv : ∀ s e s', I s → P.environment s e = some s' → I s' ∧ ∀ c₂, J s c₂ → J s' c₂)
    {a : Action ρ δ ε} (hp : p.Holds I J) (hok : Allows ok p a) (h : P.step p a = some q) :
    q.Holds I J := by
  obtain ⟨r, -, rfl⟩ | ⟨i, d, c, s, c', rfl, hc, hs, rfl⟩ | ⟨e, s, -, hs, rfl⟩ := step_cases h
  · exact hp.call (hcall _ r hp.1)
  · obtain ⟨hI', hJ', hst⟩ := hrun _ c d s c' hp.1 (hp.2 c (List.mem_of_getElem? hc)) (hok c hc) hs
    exact hp.run hI' hJ' hst
  · obtain ⟨hI', hst⟩ := henv _ e s hp.1 hs
    exact hp.env hI' hst

/-- The unconditional rule, when every statement is allowed everywhere. -/
theorem step_stable {I : σ → Prop} {J : σ → κ → Prop} (hcall : ∀ s r, I s → J s (P.start r))
    (hrun : ∀ s c d s' c', I s → J s c → P.statement s c d = some (s', c') →
      I s' ∧ J s' c' ∧ ∀ c₂, J s c₂ → J s' c₂)
    (henv : ∀ s e s', I s → P.environment s e = some s' → I s' ∧ ∀ c₂, J s c₂ → J s' c₂)
    {a : Action ρ δ ε} (hp : p.Holds I J) (h : P.step p a = some q) : q.Holds I J := by
  have hok : Allows (fun _ _ => True) p a := by
    cases a with
    | run i d => exact fun _ _ => trivial
    | _ => trivial
  exact step_stable_of hcall (fun s c d s' c' hI hJ _ => hrun s c d s' c' hI hJ) henv hp hok h

/-- One call is followed: an assertion that its own statements carry on, and that no
allowed statement of another call can break. -/
theorem step_follow {ok : σ → κ → Prop} {I : σ → Prop} {J K : σ → κ → Prop} {i : ℕ} {c : κ}
    (hown : ∀ s c d s' c', I s → J s c → ok s c → K s c → P.statement s c d = some (s', c') →
      K s' c')
    (hother : ∀ s c₂ d s' c', I s → J s c₂ → ok s c₂ → P.statement s c₂ d = some (s', c') →
      ∀ c, J s c → K s c → K s' c)
    (henv : ∀ s e s', I s → P.environment s e = some s' → ∀ c, J s c → K s c → K s' c)
    {a : Action ρ δ ε} (hp : p.Holds I J) (hi : p.calls[i]? = some c) (hK : K p.store c)
    (hok : Allows ok p a) (h : P.step p a = some q) :
    ∃ c', q.calls[i]? = some c' ∧ K q.store c' := by
  obtain ⟨r, -, rfl⟩ | ⟨j, d, c₂, s, c', rfl, hc, hs, rfl⟩ | ⟨e, s, -, hs, rfl⟩ := step_cases h
  · exact ⟨c, (List.getElem?_append_left (List.getElem?_eq_some_iff.mp hi).1).trans hi, hK⟩
  · have hJ₂ := hp.2 c₂ (List.mem_of_getElem? hc)
    by_cases hij : j = i
    · subst hij
      obtain rfl := Option.some.inj (hc.symm.trans hi)
      refine ⟨c', ?_, hown _ _ d s c' hp.1 hJ₂ (hok _ hc) hK hs⟩
      rw [List.getElem?_set_self (List.getElem?_eq_some_iff.mp hi).1]
    · exact ⟨c, (List.getElem?_set_ne hij).trans hi,
        hother _ c₂ d s c' hp.1 hJ₂ (hok _ hc) hs c (hp.2 c (List.mem_of_getElem? hi)) hK⟩
  · exact ⟨c, hi, henv _ e s hp.1 hs c (hp.2 c (List.mem_of_getElem? hi)) hK⟩

/-- What each call owes to its own request: an assertion that the statements of the call carry on,
and that nothing else breaks. -/
theorem exec_requests {K : σ → ρ → κ → Prop} (hcall : ∀ s r, K s r (P.start r))
    (hrun : ∀ s c d s' c', P.statement s c d = some (s', c') → (∀ r, K s r c → K s' r c') ∧ ∀ r c₂,
      K s r c₂ → K s' r c₂)
    (henv : ∀ s e s', P.environment s e = some s' → ∀ r c, K s r c → K s' r c)
    {as : List (Action ρ δ ε)} {rs : List ρ} (hp : List.Forall₂ (K p.store) rs p.calls)
    (h : exec P.step p as = some q) :
    List.Forall₂ (K q.store) (rs ++ requests as) q.calls := by
  induction as generalizing p rs with
  | nil =>
    cases h
    rw [show requests ([] : List (Action ρ δ ε)) = [] from rfl, List.append_nil]
    exact hp
  | cons a as ih =>
    obtain ⟨u, hu, h⟩ := Option.bind_eq_some_iff.mp h
    obtain ⟨r, rfl, rfl⟩ | ⟨i, d, c, s, c', rfl, hc, hs, rfl⟩ | ⟨e, s, rfl, hs, rfl⟩ := step_cases hu
    · rw [show requests (Action.call r :: as) = [r] ++ requests as from rfl, ← List.append_assoc]
      exact ih (List.rel_append hp (.cons (hcall p.store r) .nil)) h
    · obtain ⟨hown, hother⟩ := hrun _ c d s c' hs
      exact @ih _ rs (forall₂_set hp hc hown hother) h
    · exact @ih _ rs (hp.imp fun r x hx => henv _ e s hs r x hx) h

end Program

/-! ### One call moves on -/

variable {κ : Type*}

theorem getElem?_set_same {l : List κ} {i : ℕ} {c : κ} (c' : κ) (h : l[i]? = some c) :
    (l.set i c')[i]? = some c' := by
  have hlt := (List.getElem?_eq_some_iff.mp h).1
  rw [List.getElem?_set_self hlt]

/-- One call begins: a call of the longer list is an old one or the new one. -/
theorem getElem?_concat_cases {l : List κ} {i : ℕ} {x y : κ} (h : (l ++ [y])[i]? = some x) :
    l[i]? = some x ∨ (i = l.length ∧ x = y) := by
  rw [List.getElem?_append] at h
  split_ifs at h with hlt
  · exact .inl h
  · have hx := List.mem_singleton.mp (List.mem_of_getElem? h)
    have hi := (List.getElem?_eq_some_iff.mp h).1
    rw [List.length_singleton] at hi
    exact .inr ⟨by omega, hx⟩

theorem getElem?_set_cases {l : List κ} {i j : ℕ} {x y : κ} (h : (l.set i y)[j]? = some x) :
    (j = i ∧ x = y) ∨ (j ≠ i ∧ l[j]? = some x) := by
  by_cases hij : i = j
  · subst hij
    have hlt : i < l.length := by
      have := (List.getElem?_eq_some_iff.mp h).1
      rwa [List.length_set] at this
    rw [List.getElem?_set_self hlt] at h
    exact .inl ⟨rfl, (Option.some.inj h).symm⟩
  · rw [List.getElem?_set_ne hij] at h
    exact .inr ⟨Ne.symm hij, h⟩

theorem mem_set_or_eq {l : List κ} {i : ℕ} {x c : κ} (c' : κ) (hi : l[i]? = some c) (hx : x ∈ l) :
    x ∈ l.set i c' ∨ x = c := by
  obtain ⟨j, hj⟩ := List.mem_iff_getElem?.mp hx
  by_cases hij : i = j
  · subst hij
    exact .inr (Option.some.inj (hj.symm.trans hi))
  · refine .inl (List.mem_of_getElem? (i := j) ?_)
    rw [List.getElem?_set_ne hij, hj]

/-- One call moves on: what some call witnesses is still witnessed, when this one goes on to. -/
theorem exists_set {l : List κ} {i : ℕ} {c c' : κ} {Q : κ → Prop} (hi : l[i]? = some c)
    (hc : Q c → Q c') (h : ∃ x ∈ l, Q x) :
    ∃ x ∈ l.set i c', Q x := by
  obtain ⟨x, hx, hQ⟩ := h
  rcases mem_set_or_eq c' hi hx with hin | rfl
  · exact ⟨x, hin, hQ⟩
  · exact ⟨c', List.mem_of_getElem? (getElem?_set_same c' hi), hc hQ⟩

/-- One call moves on: the count changes by that call alone. -/
theorem countP_set_add {l : List κ} {i : ℕ} {c : κ} (c' : κ) (f : κ → Bool) (h : l[i]? = some c) :
    (l.set i c').countP f + (f c).toNat = l.countP f + (f c').toNat := by
  induction l generalizing i with
  | nil => simp at h
  | cons x xs ih =>
    cases i with
    | zero =>
      simp only [List.getElem?_cons_zero, Option.some.injEq] at h
      subst h
      simp only [List.set_cons_zero, List.countP_cons]
      cases f x <;> cases f c' <;> simp
    | succ i =>
      simp only [List.getElem?_cons_succ] at h
      simp only [List.set_cons_succ, List.countP_cons]
      have := ih h
      omega

/-- One call moves on: a sum over the calls changes by that call alone. -/
theorem sum_map_set_add {l : List κ} {i : ℕ} {c : κ} (c' : κ) (f : κ → ℕ) (h : l[i]? = some c) :
    ((l.set i c').map f).sum + f c = (l.map f).sum + f c' := by
  induction l generalizing i with
  | nil => cases h
  | cons x xs ih =>
    cases i with
    | zero =>
      obtain rfl := Option.some.inj h
      simp only [List.set_cons_zero, List.map_cons, List.sum_cons]
      omega
    | succ i =>
      have hrest := ih h
      simp only [List.set_cons_succ, List.map_cons, List.sum_cons]
      omega

/-- At most one element satisfies `f`: two positions that do are the same. -/
theorem eq_of_countP_le_one {l : List κ} {f : κ → Bool} {i j : ℕ} {x y : κ} (h : l.countP f ≤ 1)
    (hi : l[i]? = some x) (hj : l[j]? = some y) (hx : f x = true) (hy : f y = true) : i = j := by
  induction l generalizing i j with
  | nil => simp at hi
  | cons a l ih =>
    rw [List.countP_cons] at h
    cases i with
    | zero =>
      obtain rfl : a = x := by simpa using hi
      cases j with
      | zero => rfl
      | succ j =>
        have hpos : 0 < l.countP f :=
          List.countP_pos_iff.mpr ⟨y, List.mem_of_getElem? (by simpa using hj), hy⟩
        simp only [hx, if_true] at h
        omega
    | succ i =>
      cases j with
      | zero =>
        obtain rfl : a = y := by simpa using hj
        have hpos : 0 < l.countP f :=
          List.countP_pos_iff.mpr ⟨x, List.mem_of_getElem? (by simpa using hi), hx⟩
        simp only [hy, if_true] at h
        omega
      | succ j =>
        have hij : i = j := ih (by omega) (by simpa using hi) (by simpa using hj)
        rw [hij]

/-! ### What is held by one call at most -/

variable {β : Type*} {key : κ → Option β} {calls : List κ}

/-- No two calls hold the same key. -/
def HeldOnce (key : κ → Option β) (calls : List κ) : Prop :=
  ∀ (i j : ℕ) x y k, calls[i]? = some x → calls[j]? = some y → key x = some k → key y = some k → i = j

theorem HeldOnce.nil : HeldOnce key [] := by
  intro i j x y k hx
  cases hx

/-- A call begins without a key. -/
theorem HeldOnce.concat (h : HeldOnce key calls) {c : κ} (hc : key c = none) :
    HeldOnce key (calls ++ [c]) := by
  have hold : ∀ {i : ℕ} {x k}, (calls ++ [c])[i]? = some x → key x = some k → calls[i]? = some x := by
    intro i x k hi hk
    rcases getElem?_concat_cases hi with hi | ⟨-, rfl⟩
    · exact hi
    · rw [hc] at hk
      cases hk
  intro i j x y k hi hj hx hy
  exact h i j x y k (hold hi hx) (hold hj hy) hx hy

/-- A call keeps its key, or takes one that nobody holds. -/
theorem HeldOnce.set (h : HeldOnce key calls) {i : ℕ} {c c' : κ} (hi : calls[i]? = some c)
    (hc : ∀ k, key c' = some k → key c = some k ∨ ∀ x ∈ calls, key x ≠ some k) :
    HeldOnce key (calls.set i c') := by
  have hother : ∀ {j : ℕ} {y k}, j ≠ i → calls[j]? = some y → key c' = some k → key y ≠ some k := by
    intro j y k hne hj hk hy
    rcases hc k hk with hold | hnone
    · exact hne (h j i y c k hj hi hy hold)
    · exact hnone y (List.mem_of_getElem? hj) hy
  intro j l x y k hj hl hx hy
  rcases getElem?_set_cases hj with ⟨hji, hxc⟩ | ⟨hji, hj'⟩ <;> rcases getElem?_set_cases hl with
    ⟨hli, hyc⟩ | ⟨hli, hl'⟩
  · rw [hji, hli]
  · exact absurd hy (hother hli hl' (hxc ▸ hx))
  · exact absurd hx (hother hji hj' (hyc ▸ hy))
  · exact h j l x y k hj' hl' hx hy

theorem Program.step_heldOnce {σ ρ δ ε : Type*} {P : Program σ ρ κ δ ε} {p q : Pool σ κ}
    {ok : σ → κ → Prop} (hstart : ∀ r, key (P.start r) = none)
    (hrun : ∀ c ∈ p.calls, ∀ d s c', ok p.store c → P.statement p.store c d = some (s, c') →
      ∀ k, key c' = some k → key c = some k ∨ ∀ x ∈ p.calls, key x ≠ some k)
    {a : Action ρ δ ε} (hp : HeldOnce key p.calls) (hok : Allows ok p a) (h : P.step p a = some q) :
    HeldOnce key q.calls := by
  obtain ⟨r, -, rfl⟩ | ⟨i, d, c, s, c', rfl, hc, hs, rfl⟩ | ⟨e, s, -, -, rfl⟩ := step_cases h
  · exact hp.concat (hstart r)
  · exact hp.set hc (hrun c (List.mem_of_getElem? hc) d s c' (hok c hc) hs)
  · exact hp

end Finlytic.Lib
