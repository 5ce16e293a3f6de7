import Mathlib.Data.List.Basic

/-! Computations that call out to a world. Each one goes from the calls made so
far to its result and the calls made by then; the world answers by what has been
called. What a computation may call, and what it calls first, is found from its
parts. -/

namespace Finlytic.Lib

def Calling (κ ε : Type) (α : Type) : Type := List κ → Except ε α × List κ

namespace Calling

variable {κ ε ρ α β : Type} {P : κ → Prop} {m : Calling κ ε α} {f : α → Calling κ ε β}
  {made made' : List κ}

/-- A failure ends the computation. -/
def andThen (m : Calling κ ε α) (f : α → Calling κ ε β) : Calling κ ε β := fun made =>
  match m made with
  | (.error e, made) => (.error e, made)
  | (.ok a, made) => f a made

instance : Monad (Calling κ ε) where
  pure a := fun made => (.ok a, made)
  bind := andThen

def raise (e : ε) : Calling κ ε α := fun made => (.error e, made)

def call (world : List κ → ρ) (c : κ) : Calling κ ε ρ :=
  fun made => (.ok (world (made ++ [c])), made ++ [c])

/-! ### Running -/

theorem call_run (world : List κ → ρ) (c : κ) :
    (call world c : Calling κ ε ρ) made = (.ok (world (made ++ [c])), made ++ [c]) := rfl

theorem bind_ok {a : α} (h : m made = (.ok a, made')) : (m >>= f) made = f a made' := by
  show andThen m f made = _
  unfold andThen
  rw [h]

/-! ### What is called -/

/-- It makes only calls like this. -/
def Only (P : κ → Prop) (m : Calling κ ε α) : Prop :=
  ∀ made, ∃ more, (m made).2 = made ++ more ∧ ∀ c ∈ more, P c

/-- This is the first call that it makes. -/
def Starts (c : κ) (m : Calling κ ε α) : Prop := ∀ made, ∃ more, (m made).2 = made ++ c :: more

theorem only_pure (a : α) : Only P (pure a : Calling κ ε α) := fun made =>
  ⟨[], (List.append_nil made).symm, List.forall_mem_nil _⟩

theorem only_raise (e : ε) : Only P (raise e : Calling κ ε α) := fun made =>
  ⟨[], (List.append_nil made).symm, List.forall_mem_nil _⟩

theorem only_call (world : List κ → ρ) {c : κ} (h : P c) : Only P (call world c : Calling κ ε ρ) :=
  fun _ =>
  ⟨[c], rfl, List.forall_mem_singleton.mpr h⟩

theorem Only.bind (hm : Only P m) (hf : ∀ a, Only P (f a)) : Only P (m >>= f) := by
  intro made
  obtain ⟨more, hmore, hcalls⟩ := hm made
  show ∃ more, (andThen m f made).2 = made ++ more ∧ ∀ c ∈ more, P c
  unfold andThen
  cases hrun : m made with
  | mk result made' =>
    rw [hrun] at hmore
    cases result with
    | error e => exact ⟨more, hmore, hcalls⟩
    | ok a =>
      obtain ⟨later, hlater, hlatercalls⟩ := hf a made'
      refine ⟨more ++ later, ?_, List.forall_mem_append.mpr ⟨hcalls, hlatercalls⟩⟩
      rw [← List.append_assoc, ← hmore]
      exact hlater

theorem starts_call (world : List κ → ρ) (c : κ) : Starts c (call world c : Calling κ ε ρ) :=
  fun _ => ⟨[], rfl⟩

/-- What comes after the first call does not undo it. -/
theorem Starts.bind {c : κ} (hm : Starts c m) (hf : ∀ a, Only P (f a)) : Starts c (m >>= f) := by
  intro made
  obtain ⟨more, hmore⟩ := hm made
  show ∃ more, (andThen m f made).2 = made ++ c :: more
  unfold andThen
  cases hrun : m made with
  | mk result made' =>
    rw [hrun] at hmore
    cases result with
    | error e => exact ⟨more, hmore⟩
    | ok a =>
      obtain ⟨later, hlater, -⟩ := hf a made'
      refine ⟨more ++ later, ?_⟩
      rw [← List.cons_append, ← List.append_assoc, ← hmore]
      exact hlater

theorem Starts.not_only {c : κ} (h : Starts c m) (hc : ¬ P c) : ¬ Only P m := by
  intro honly
  obtain ⟨more, hmore⟩ := h []
  obtain ⟨calls, hcalls, hall⟩ := honly []
  rw [hcalls] at hmore
  apply hc
  apply hall
  rw [List.nil_append, List.nil_append] at hmore
  rw [hmore]
  exact List.mem_cons_self

theorem Starts.ne_raise {c : κ} (h : Starts c m) (e : ε) : m ≠ raise e := by
  rintro rfl
  obtain ⟨more, hmore⟩ := h []
  cases hmore

end Calling

end Finlytic.Lib
