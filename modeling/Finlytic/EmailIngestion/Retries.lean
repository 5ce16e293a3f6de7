import Finlytic.EmailIngestion.SyncAttempt
import Mathlib.Logic.Relation

/-! Attempts on a mailbox that stays as it is. What an attempt will ingest and which
cursor it will store is a plan, fixed by the cursor it starts from. An attempt that
fails leaves the plan of the next one as it was, and only adds rows that the plan
asks for, so however often it fails the end is the same. -/

namespace Finlytic.EmailIngestion

open Lib

variable {provider : MailProvider} {pageSize : ℕ} {s t : SyncState} {a b : Attempt}

/-! ### Plans -/

def Collected.plan (provider : MailProvider) (box : Mailbox) : Collected → Plan
  | .cursorInvalid => initialPlan provider box
  | .done ids nextCursor => ⟨.incremental, ids, nextCursor⟩

def planOf (provider : MailProvider) (pageSize : ℕ) (s : SyncState) : Option Plan :=
  match s.syncCursor with
  | some c =>
    (collect (listChangedMessageIds provider pageSize s.box c) (s.box.log.length + 1) [] c none).map
      (Collected.plan provider s.box)
  | none => some (initialPlan provider s.box)

theorem planOf_isSome (hpos : 0 < pageSize) (s : SyncState) :
    ∃ plan, planOf provider pageSize s = some plan := by
  unfold planOf
  split
  · obtain ⟨r, hr⟩ := Option.isSome_iff_exists.mp (@collect_isSome provider pageSize _ s.box hpos)
    exact ⟨_, by rw [hr, Option.map_some]⟩
  · exact ⟨_, rfl⟩

/-- A run of `syncAccount` carries out its plan. -/
theorem syncAccount_eq (available : String → Bool) (s : SyncState) :
    syncAccount provider pageSize available s =
    (planOf provider pageSize s).map fun plan =>
      ingestThenStore available s plan.mode plan.messageIds plan.cursor := by
  unfold syncAccount planOf
  cases s.syncCursor with
  | none => rfl
  | some c =>
    simp only [incrementalSync, Option.map_map]
    congr 1
    funext r
    cases r <;> rfl

/-- The plan depends on the mailbox and the cursor alone. -/
theorem planOf_congr (hbox : t.box = s.box) (hcursor : t.syncCursor = s.syncCursor) :
    planOf provider pageSize t = planOf provider pageSize s := by
  unfold planOf
  rw [hbox, hcursor]

theorem planOf_none (hcursor : s.syncCursor = none) :
    planOf provider pageSize s = some (initialPlan provider s.box) := by
  unfold planOf
  rw [hcursor]

/-! ### What an attempt keeps -/

/-- The cursor is as it was, or cleared after the provider's answer. -/
def CursorKept (provider : MailProvider) (s : SyncState) (plan : Plan) (a : Attempt) : Prop :=
  a.state.syncCursor = s.syncCursor ∨
    a.state.syncCursor = none ∧ a.invalid = true ∧ plan = initialPlan provider s.box

/-- How far the plan has been carried out. -/
def Stage (provider : MailProvider) (pageSize : ℕ) (s : SyncState) (plan : Plan) (a : Attempt) :
    Prop :=
  match a.call with
  | .find => a.state.syncCursor = s.syncCursor
  | .connect cursor => a.state.syncCursor = s.syncCursor ∧ cursor = s.syncCursor
  | .listChanged c collected nextCursor pageToken =>
    a.state.syncCursor = s.syncCursor ∧ ∃ fuel r,
      collect (listChangedMessageIds provider pageSize s.box c) fuel collected nextCursor
        pageToken = some r ∧
      plan = Collected.plan provider s.box r
  | .clearCursor => a.state.syncCursor = s.syncCursor ∧ a.invalid = true ∧
    plan = initialPlan provider s.box
  | .profile => CursorKept provider s plan a ∧ plan = initialPlan provider s.box
  | .listBatch cursor => CursorKept provider s plan a ∧ plan = initialPlan provider s.box ∧
    cursor = getProfile provider s.box
  | .dedupe mode cursor messageIds => CursorKept provider s plan a ∧ plan = ⟨mode, messageIds, cursor⟩
  | .fetch cursor _ id rest => CursorKept provider s plan a ∧ cursor = plan.cursor ∧
    Left s plan a (id :: rest)
  | .ingest cursor _ id rest =>
    CursorKept provider s plan a ∧ cursor = plan.cursor ∧ Left s plan a (id :: rest) ∧
      id ∉ s.box.deleted
  | .store cursor _ => CursorKept provider s plan a ∧ cursor = plan.cursor ∧ Left s plan a []
  | .done _ => a.state.syncCursor = some plan.cursor ∧ Left s plan a []
  | .threw => CursorKept provider s plan a

structure Underway (provider : MailProvider) (pageSize : ℕ) (s : SyncState) (plan : Plan)
    (a : Attempt) : Prop where
  box : a.state.box = s.box
  kept : ∀ x ∈ s.rows, x ∈ a.state.rows
  added : ∀ x ∈ a.state.rows, x ∈ s.rows ∨ x ∈ plan.messageIds ∧ x ∉ s.box.deleted
  fetched : ∀ x ∈ a.fetched, x ∉ s.rows
  stage : Stage provider pageSize s plan a

variable {plan : Plan} {c : ℕ} {counts : SyncOutcome} {id x : String} {rest todo : List String}

/-- The loop of `ingestAll` goes on with what is left. -/
theorem stage_fetchNext (hcall : a.call = fetchNext plan.cursor counts todo)
    (hcursor : CursorKept provider s plan a) (hleft : Left s plan a todo) :
    Stage provider pageSize s plan a := by
  unfold Stage
  rw [hcall]
  cases todo with
  | nil => exact ⟨hcursor, rfl, hleft⟩
  | cons id rest => exact ⟨hcursor, rfl, hleft⟩

/-- A fetch is for an id that had no row. -/
theorem fetched_append (h : ∀ x ∈ a.fetched, x ∉ s.rows) (hleft : Left s plan b (id :: rest)) :
    ∀ x ∈ a.fetched ++ [id], x ∉ s.rows := by
  intro x hx
  rcases List.mem_append.mp hx with hx | hx
  · exact h x hx
  · rw [List.mem_singleton.mp hx]
    exact (hleft.2 id List.mem_cons_self).2

/-- The attempt knows the cursor that it has read, and so its plan. -/
theorem Underway.connect (h : Underway provider pageSize s plan a)
    (hplan : planOf provider pageSize s = some plan) {cursor : Option ℕ}
    (hcall : a.call = .connect cursor) (hs : EmailIngestion.proceed provider pageSize a = some b) :
    Underway provider pageSize s plan b := by
  have hstage := h.stage
  unfold Stage at hstage
  unfold EmailIngestion.proceed at hs
  unfold planOf at hplan
  rw [hcall] at hs hstage
  obtain ⟨hcursor, rfl⟩ := hstage
  cases hc : s.syncCursor with
  | none =>
    simp only [hc, Option.some.injEq] at hs hplan
    subst hs
    exact ⟨h.box, h.kept, h.added, h.fetched, .inl hcursor, hplan.symm⟩
  | some c =>
    simp only [hc, Option.some.injEq] at hs hplan
    subst hs
    obtain ⟨r, hr, hrplan⟩ := Option.map_eq_some_iff.mp hplan
    exact ⟨h.box, h.kept, h.added, h.fetched, hcursor, _, r, hr, hrplan.symm⟩

/-- A page of changes is one turn of the loop that the plan was collected by. -/
theorem Underway.listChanged (h : Underway provider pageSize s plan a) {cursor nextCursor : ℕ}
    {collected : List String} {pageToken : Option ℕ}
    (hcall : a.call = .listChanged cursor collected nextCursor pageToken)
    (hs : EmailIngestion.proceed provider pageSize a = some b) :
    Underway provider pageSize s plan b := by
  have hstage := h.stage
  unfold Stage at hstage
  unfold EmailIngestion.proceed at hs
  rw [hcall] at hs hstage
  obtain ⟨hcursor, fuel, r, hr, hrplan⟩ := hstage
  cases fuel with
  | zero => cases hr
  | succ fuel =>
    simp only [h.box] at hs
    split_ifs at hs with hinvalid
    · cases hs
      simp only [collect, hinvalid, if_true, Option.some.injEq] at hr
      subst hr
      exact ⟨h.box, h.kept, h.added, h.fetched, hcursor, rfl, hrplan⟩
    · cases hs
      rw [Bool.not_eq_true] at hinvalid
      refine ⟨h.box, h.kept, h.added, h.fetched, ?_⟩
      unfold Stage
      rcases collect_page fuel cursor collected nextCursor hinvalid with
        ⟨token, ids, next, htake, hnext⟩ | ⟨ids, next, htake, hdone⟩
      · rw [htake]
        exact ⟨hcursor, fuel, r, hnext.symm.trans hr, hrplan⟩
      · rw [htake]
        rw [hdone, Option.some.injEq] at hr
        subst hr
        exact ⟨.inl hcursor, hrplan⟩

/-- A row is written that the plan asks for. -/
theorem Underway.addRow (h : Underway provider pageSize s plan a)
    (hleft : Left s plan a (id :: rest)) (hid : id ∉ s.box.deleted)
    (hstate : b.state = EmailIngestion.addRow a.state id) (hfetched : b.fetched = a.fetched)
    (hstage : Stage provider pageSize s plan b) : Underway provider pageSize s plan b := by
  constructor
  · rw [hstate]
    exact addRow_box.trans h.box
  · intro x hx
    rw [hstate]
    exact mem_addRow.mpr (.inl (h.kept x hx))
  · rw [hstate]
    intro x hx
    rcases mem_addRow.mp hx with hx | rfl
    · exact h.added x hx
    · exact .inr ⟨(hleft.2 x List.mem_cons_self).1, hid⟩
  · rw [hfetched]
    exact h.fetched
  · exact hstage

theorem CursorKept.addRow (h : CursorKept provider s plan a)
    (hstate : b.state = EmailIngestion.addRow a.state id) (hinvalid : b.invalid = a.invalid) :
    CursorKept provider s plan b := by
  unfold CursorKept
  rw [hstate, addRow_syncCursor, hinvalid]
  exact h

theorem Underway.proceed (h : Underway provider pageSize s plan a)
    (hplan : planOf provider pageSize s = some plan)
    (hs : EmailIngestion.proceed provider pageSize a = some b) :
    Underway provider pageSize s plan b := by
  have hstage := h.stage
  unfold Stage at hstage
  unfold EmailIngestion.proceed at hs
  cases hcall : a.call with
  | find =>
    simp only [hcall, Option.some.injEq] at hs hstage
    subst hs
    exact ⟨h.box, h.kept, h.added, h.fetched, hstage, hstage⟩
  | connect cursor =>
    exact h.connect hplan hcall hs
  | listChanged cursor collected nextCursor pageToken =>
    exact h.listChanged hcall hs
  | clearCursor =>
    rw [hcall] at hs hstage
    cases hs
    exact ⟨h.box, h.kept, h.added, h.fetched, .inr ⟨rfl, hstage.2⟩, hstage.2.2⟩
  | profile =>
    rw [hcall] at hs hstage
    cases hs
    exact ⟨h.box, h.kept, h.added, h.fetched, hstage.1, hstage.2, by rw [h.box]⟩
  | listBatch cursor =>
    rw [hcall] at hs hstage
    cases hs
    refine ⟨h.box, h.kept, h.added, h.fetched, hstage.1, ?_⟩
    rw [hstage.2.1, hstage.2.2, h.box]
    rfl
  | dedupe mode cursor messageIds =>
    rw [hcall] at hs hstage
    obtain ⟨hcursor, rfl⟩ := hstage
    cases hs
    exact ⟨h.box, h.kept, h.added, h.fetched, stage_fetchNext rfl hcursor (left_toFetch h.kept)⟩
  | fetch cursor counts id rest =>
    rw [hcall] at hs hstage
    obtain ⟨hcursor, rfl, hleft⟩ := hstage
    simp only at hs
    split_ifs at hs with hgone
    · cases hs
      refine ⟨h.box, h.kept, h.added, fetched_append h.fetched hleft, stage_fetchNext rfl hcursor ?_⟩
      exact hleft.settle (fun _ hx => hx) rfl (.inr hgone)
    · cases hs
      rw [h.box] at hgone
      exact ⟨h.box, h.kept, h.added, fetched_append h.fetched hleft, hcursor, rfl, hleft, hgone⟩
  | ingest cursor counts id rest =>
    rw [hcall] at hs hstage
    obtain ⟨hcursor, rfl, hleft, hid⟩ := hstage
    cases hs
    refine h.addRow hleft hid rfl rfl (stage_fetchNext rfl (hcursor.addRow rfl rfl) ?_)
    exact hleft.settle (fun x hx => mem_addRow.mpr (.inl hx)) addRow_box
      (.inl (mem_addRow.mpr (.inr rfl)))
  | store cursor counts =>
    rw [hcall] at hs hstage
    obtain ⟨-, rfl, hleft⟩ := hstage
    cases hs
    exact ⟨h.box, h.kept, h.added, h.fetched, rfl, hleft⟩
  | done outcome =>
    rw [hcall] at hs
    cases hs
  | threw =>
    rw [hcall] at hs
    cases hs

/-- At every point before the cursor is stored, it is as it was or cleared. -/
theorem Underway.cursorKept (h : Underway provider pageSize s plan a)
    (hdone : ∀ outcome, a.call ≠ .done outcome) :
    CursorKept provider s plan a := by
  have hstage := h.stage
  unfold Stage at hstage
  split at hstage
  case h_1 => exact .inl hstage
  case h_2 => exact .inl hstage.1
  case h_3 => exact .inl hstage.1
  case h_4 => exact .inl hstage.1
  case h_11 outcome hcall => exact absurd hcall (hdone outcome)
  case h_12 => exact hstage
  all_goals exact hstage.1

theorem Underway.throwAt (h : Underway provider pageSize s plan a) {written : Bool}
    (hs : EmailIngestion.throwAt written a = some b) : Underway provider pageSize s plan b := by
  have hstage := h.stage
  unfold Stage at hstage
  unfold EmailIngestion.throwAt at hs
  split at hs
  case h_1 hcall =>
    rw [hcall] at hstage
    cases hs
    cases written with
    | false => exact ⟨h.box, h.kept, h.added, h.fetched, .inl hstage.1⟩
    | true => exact ⟨h.box, h.kept, h.added, h.fetched, .inr ⟨rfl, hstage.2⟩⟩
  case h_2 hcall =>
    rw [hcall] at hstage
    cases hs
    exact ⟨h.box, h.kept, h.added, fetched_append h.fetched hstage.2.2, hstage.1⟩
  case h_3 hcall =>
    rw [hcall] at hstage
    obtain ⟨hcursor, -, hleft, hid⟩ := hstage
    cases hs
    cases written with
    | false => exact ⟨h.box, h.kept, h.added, h.fetched, hcursor⟩
    | true =>
      exact h.addRow hleft hid rfl rfl (hcursor.addRow rfl rfl)
  case h_4 => cases hs
  case h_5 => cases hs
  case h_6 hdone _ =>
    cases hs
    exact ⟨h.box, h.kept, h.added, h.fetched, h.cursorKept hdone⟩

/-! ### Attempts -/

/-- An attempt from `s`, as far as it has come. -/
def Attempted (provider : MailProvider) (pageSize : ℕ) (s : SyncState) (a : Attempt) : Prop :=
  ∃ as, (∀ act ∈ as, act.Still) ∧ exec (attemptStep provider pageSize) (startAttempt s) as = some a

/-- An attempt from `s` that threw and left the account as `t`. -/
def FailedAttempt (provider : MailProvider) (pageSize : ℕ) (s t : SyncState) : Prop :=
  ∃ a, Attempted provider pageSize s a ∧ a.call = .threw ∧ a.state = t

theorem Attempted.underway (hplan : planOf provider pageSize s = some plan)
    (h : Attempted provider pageSize s a) :
    Underway provider pageSize s plan a := by
  obtain ⟨as, has, hrun⟩ := h
  have hmeets : Meets (attemptStep provider pageSize) (fun _ act => act.Still) (startAttempt s) as :=
    meets_of_forall has
  refine exec_invariant_of_meets (fun a act b ha hact hs => ?_) ?_ hmeets hrun
  · cases act with
    | proceed => exact ha.proceed hplan hs
    | throw written => exact ha.throwAt hs
    | mailbox act => exact hact.elim
  · exact ⟨rfl, fun _ hx => hx, fun _ hx => .inl hx, fun _ hx => (List.not_mem_nil hx).elim, rfl⟩

/-- What failed attempts leave: the same plan, and some of its rows. -/
structure Resumes (provider : MailProvider) (pageSize : ℕ) (s : SyncState) (plan : Plan)
    (t : SyncState) : Prop where
  box : t.box = s.box
  planned : planOf provider pageSize t = some plan
  kept : ∀ x ∈ s.rows, x ∈ t.rows
  added : ∀ x ∈ t.rows, x ∈ s.rows ∨ x ∈ plan.messageIds ∧ x ∉ s.box.deleted

/-- A failed attempt leaves the plan of the next one as it was. -/
theorem Resumes.failed {u : SyncState} (h : Resumes provider pageSize s plan t)
    (hfail : FailedAttempt provider pageSize t u) : Resumes provider pageSize s plan u := by
  obtain ⟨a, ha, hcall, rfl⟩ := hfail
  have hun := ha.underway h.planned
  constructor
  · exact hun.box.trans h.box
  · rcases hun.cursorKept (by simp [hcall]) with hsame | ⟨hnone, -, hinitial⟩
    · rw [planOf_congr hun.box hsame]
      exact h.planned
    · rw [planOf_none hnone, hun.box, hinitial]
  · exact fun x hx => hun.kept x (h.kept x hx)
  · intro x hx
    rcases hun.added x hx with hx | hx
    · exact h.added x hx
    · rw [h.box] at hx
      exact .inr hx

theorem Resumes.retries (hplan : planOf provider pageSize s = some plan)
    (h : Relation.ReflTransGen (FailedAttempt provider pageSize) s t) :
    Resumes provider pageSize s plan t := by
  induction h with
  | refl => exact ⟨rfl, hplan, fun _ hx => hx, fun _ hx => .inl hx⟩
  | tail _ hfail ih => exact ih.failed hfail

/-- The rows at the end of an attempt: those the account started with, and what the plan found at
the provider. -/
theorem mem_rows_of_done {outcome : SyncOutcome} (h : Resumes provider pageSize s plan t)
    (ha : Underway provider pageSize t plan a) (hcall : a.call = .done outcome) :
    x ∈ a.state.rows ↔ x ∈ s.rows ∨ x ∈ plan.messageIds ∧ x ∉ s.box.deleted := by
  have hstage := ha.stage
  unfold Stage at hstage
  rw [hcall] at hstage
  obtain ⟨-, hall, -⟩ := hstage
  constructor
  · intro hx
    rcases ha.added x hx with hx | hx
    · exact h.added x hx
    · rw [h.box] at hx
      exact .inr hx
  · rintro (hx | ⟨hid, hav⟩)
    · exact ha.kept x (h.kept x hx)
    · rcases hall x hid with hrow | hgone | hnil
      · exact hrow
      · rw [ha.box, h.box] at hgone
        exact absurd hgone hav
      · cases hnil

/-- After any number of failed attempts, an attempt asks for no id that has a row, throws with the
cursor as it was or cleared after `cursorInvalid`, and if it succeeds it ends where one run
without faults from the start would have ended. -/
theorem retries_converge (provider : MailProvider) {pageSize : ℕ} (hpos : 0 < pageSize)
    (s : SyncState) :
    ∃ whole outcome, syncAccount provider pageSize (fun id => decide (id ∉ s.box.deleted)) s =
      some (whole, outcome) ∧
    ∀ t a, Relation.ReflTransGen (FailedAttempt provider pageSize) s t →
      Attempted provider pageSize t a →
      (∀ x ∈ a.fetched, x ∉ t.rows) ∧
      (a.call = .threw → a.state.syncCursor = t.syncCursor ∨ a.state.syncCursor = none ∧
        a.invalid = true) ∧
      ∀ outcome, a.call = .done outcome →
        a.state.syncCursor = whole.syncCursor ∧ ∀ x, x ∈ a.state.rows ↔ x ∈ whole.rows := by
  obtain ⟨plan, hplan⟩ := @planOf_isSome provider pageSize hpos s
  have hwhole : syncAccount provider pageSize (fun id => decide (id ∉ s.box.deleted)) s =
      some (ingestThenStore (fun id => decide (id ∉ s.box.deleted)) s plan.mode plan.messageIds
        plan.cursor) := by
    rw [syncAccount_eq, hplan, Option.map_some]
  refine ⟨_, _, hwhole, fun t a hretries ha => ?_⟩
  have hresumes := Resumes.retries hplan hretries
  have hun := ha.underway hresumes.planned
  refine ⟨hun.fetched, fun hcall => ?_, fun outcome hcall => ⟨?_, fun x => ?_⟩⟩
  · rcases hun.cursorKept (by simp [hcall]) with hsame | ⟨hnone, hinvalid, -⟩
    · exact .inl hsame
    · exact .inr ⟨hnone, hinvalid⟩
  · have hstage := hun.stage
    unfold Stage at hstage
    rw [hcall] at hstage
    exact hstage.1
  · rw [mem_rows_of_done hresumes hun hcall]
    show _ ↔ x ∈ (ingestAll _ s plan.messageIds).rows
    rw [mem_rows_ingestAll, decide_eq_true_eq]

/-- Two messages have come since the cursor. -/
def twoBehind : SyncState := ⟨burst 2, some 0, [], []⟩

/-- The first one is stored, then the fetch of the second one fails. -/
def halfWay : SyncState := { twoBehind with rows := [burstId 0] }

theorem halfWay_failed : FailedAttempt .GMAIL 100 twoBehind halfWay :=
  ⟨_, ⟨List.replicate 6 .proceed ++ [.throw false], by simp [AttemptAct.Still], rfl⟩, rfl, rfl⟩

theorem retries_converge_halfWay :
    ∃ a outcome, Attempted .GMAIL 100 halfWay a ∧ a.call = .done outcome ∧
    a.fetched = [burstId 1] ∧ (∀ x ∈ a.fetched, x ∉ halfWay.rows) ∧
    ∃ whole, (syncAccount .GMAIL 100 (fun id => decide (id ∉ twoBehind.box.deleted)) twoBehind).map
      (·.1) = some whole ∧
      a.state.syncCursor = whole.syncCursor ∧ ∀ x, x ∈ a.state.rows ↔ x ∈ whole.rows := by
  obtain ⟨whole, outcome, hwhole, hall⟩ := @retries_converge .GMAIL 100 (by decide) twoBehind
  have hattempt : Attempted .GMAIL 100 halfWay
      ⟨⟨burst 2, some 2, [burstId 0, burstId 1], []⟩, .done ⟨.incremental, 1, 1, 1, 0⟩, [burstId 1],
        false⟩ :=
    ⟨List.replicate 7 .proceed, by simp [AttemptAct.Still], rfl⟩
  obtain ⟨hfetched, -, hdone⟩ := hall halfWay _ (.single halfWay_failed) hattempt
  exact ⟨_, _, hattempt, rfl, rfl, hfetched, whole, by rw [hwhole, Option.map_some], hdone _ rfl⟩

end Finlytic.EmailIngestion
