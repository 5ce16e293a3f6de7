import Finlytic.Lib.Pool
import Mathlib.Logic.Function.Basic

/-! `SyncQueueService`. The jobs of an account share one id, so that an account is queued at most
once. The look at the job, the removal of a stale one and the add are separate commands on that
id, and other calls and the workers come between them. -/

namespace Finlytic.EmailIngestion

open Lib

/-! ### The queue -/

/-- The states of a job. A worker holds the lock of an active one. -/
inductive JobState where
  | waiting | waitingChildren | active | delayed | prioritized | completed | failed
  deriving DecidableEq

inductive SyncReason where
  | manual | scheduled
  deriving DecidableEq

/-- `requestId` is absent for scheduled runs. -/
structure MailSyncJobData where
  accountId : String
  reason : SyncReason
  requestId : Option String
  deriving DecidableEq

structure Job where
  data : MailSyncJobData
  state : JobState
  deriving DecidableEq

abbrev Jobs := String → Option Job

/-- `add` with a job id: nothing happens when the id is taken. -/
def addJob (jobs : Jobs) (id : String) (data : MailSyncJobData) : Jobs :=
  match jobs id with
  | some _ => jobs
  | none => Function.update jobs id (some ⟨data, .waiting⟩)

def removeJob (jobs : Jobs) (id : String) : Jobs := Function.update jobs id none

/-- The worker that has taken the job holds its lock. -/
def locked (jobs : Jobs) (id : String) : Bool := (jobs id).any fun job => decide (job.state = .active)

/-- The job moves from one state to another, or out of the queue. -/
def move (jobs : Jobs) (id : String) (source : JobState) (target : Option JobState) : Option Jobs :=
  (jobs id).bind fun job =>
    if job.state = source then
      some (Function.update jobs id (target.map fun state => { job with state }))
    else none

/-- What the workers do to a job. The last two are the end of a retry's delay, and `removeOnFail`
at its age. -/
inductive WorkerStep where
  | take (id : String)
  | complete (id : String)
  | fail (id : String)
  | retry (id : String)
  | promote (id : String)
  | purge (id : String)

def work (jobs : Jobs) : WorkerStep → Option Jobs
  | .take id => move jobs id .waiting (some .active)
  | .complete id => move jobs id .active none
  | .fail id => move jobs id .active (some .failed)
  | .retry id => move jobs id .active (some .delayed)
  | .promote id => move jobs id .delayed (some .waiting)
  | .purge id => move jobs id .failed none

/-! ### Calls of `enqueueAccountSync` -/

def jobId (accountId : String) : String := "sync-" ++ accountId

/-- The states in which the job is left alone. -/
def pending : List JobState := [.waiting, .waitingChildren, .active, .delayed, .prioritized]

/-- The next command of a call. What it returns besides `alreadyQueued` is its job id. -/
inductive EnqueueStage where
  | getJob
  | getState
  | remove
  | add
  | returning (alreadyQueued : Bool)
  | returned (alreadyQueued : Bool)
  | threw
  deriving DecidableEq

structure EnqueueCall where
  data : MailSyncJobData
  stage : EnqueueStage
  deriving DecidableEq

def EnqueueCall.id (c : EnqueueCall) : String := jobId c.data.accountId

/-- One command; the job may be another one than the call has seen. -/
def enqueueStage (jobs : Jobs) (id : String) (data : MailSyncJobData) :
    EnqueueStage → Option (Jobs × EnqueueStage)
  | .getJob => some (jobs, if (jobs id).isSome then .getState else .add)
  | .getState =>
    -- `getState` is 'unknown' for a job that has gone, which is not among the pending ones
    some (jobs, if (jobs id).any (fun job => decide (job.state ∈ pending)) then .returning true
      else .remove)
  | .remove => some (if locked jobs id then (jobs, .threw) else (removeJob jobs id, .add))
  | .add => some (addJob jobs id data, .returning false)
  | .returning alreadyQueued => some (jobs, .returned alreadyQueued)
  | .returned _ | .threw => none

def enqueueAccountSync (jobs : Jobs) (c : EnqueueCall) (_ : Unit) : Option (Jobs × EnqueueCall) :=
  (enqueueStage jobs c.id c.data c.stage).map fun next => (next.1, { c with stage := next.2 })

/-- Manual requests and scheduler polls, interleaved with each other and with the workers. -/
def enqueueing : Program Jobs MailSyncJobData EnqueueCall Unit WorkerStep where
  start data := ⟨data, .getJob⟩
  statement := enqueueAccountSync
  environment := work

/-- A job of that id that has not come to its end. -/
def Queued (jobs : Jobs) (id : String) : Prop :=
  ∃ job, jobs id = some job ∧ job.state ≠ .completed ∧ job.state ≠ .failed

def EnqueueStage.ended : EnqueueStage → Bool
  | .returned _ | .threw => true
  | _ => false

/-- The commands a call still has before it. -/
def EnqueueStage.left : EnqueueStage → ℕ
  | .getJob => 5
  | .getState => 4
  | .remove => 3
  | .add => 2
  | .returning _ => 1
  | .returned _ | .threw => 0

/-- A moment of the run between the start and the end of call `i`, with a live job of that id. -/
def SeesJob (p₀ : Pool Jobs EnqueueCall) (as : List (Action MailSyncJobData Unit WorkerStep))
    (i : ℕ) (id : String) : Prop :=
  Passes enqueueing.step p₀ as fun q => (∃ c, q.calls[i]? = some c ∧ c.stage.ended = false) ∧
    Queued q.store id

/-- What every call can count on: it does not throw, it comes closer to its end with every
command, and by the time it returns its account has had a live job. -/
structure Served (p₀ : Pool Jobs EnqueueCall) (as : List (Action MailSyncJobData Unit WorkerStep))
    (p : Pool Jobs EnqueueCall) (i : ℕ) (c : EnqueueCall) : Prop where
  returns : c.stage ≠ .threw
  progress : c.stage.ended = true ∨ ∃ jobs c', enqueueAccountSync p.store c () = some (jobs, c') ∧
    c'.stage.left < c.stage.left
  moment : c.stage.ended = true → SeesJob p₀ as i c.id

/-- A job is removed while no worker holds it. -/
def Unlocked (jobs : Jobs) (c : EnqueueCall) : Prop := c.stage = .remove → locked jobs c.id = false

instance (jobs : Jobs) (c : EnqueueCall) : Decidable (Unlocked jobs c) :=
  inferInstanceAs (Decidable (_ → _))

variable {jobs jobs' : Jobs} {id : String} {c c' : EnqueueCall} {p p₀ q : Pool Jobs EnqueueCall}
  {a : Action MailSyncJobData Unit WorkerStep} {as : List (Action MailSyncJobData Unit WorkerStep)}
  {i : ℕ}

/-! ### Commands on the queue -/

theorem queued_of_pending (h : (jobs id).any (fun job => decide (job.state ∈ pending)) = true) :
    Queued jobs id := by
  obtain ⟨job, hjob, hstate⟩ := (Option.any_eq_true _ _).mp h
  refine ⟨job, hjob, ?_⟩
  obtain ⟨data, state⟩ := job
  cases state with
  | completed => cases hstate
  | failed => cases hstate
  | _ => exact ⟨(fun h => nomatch h), (fun h => nomatch h)⟩

theorem queued_of_locked (h : locked jobs id = true) : Queued jobs id := by
  obtain ⟨job, hjob, hstate⟩ := (Option.any_eq_true _ _).mp h
  rw [decide_eq_true_eq] at hstate
  exact ⟨job, hjob, hstate ▸ (fun h => nomatch h), hstate ▸ (fun h => nomatch h)⟩

theorem queued_addJob (h : jobs id = none) (data : MailSyncJobData) :
    Queued (addJob jobs id data) id := by
  refine ⟨⟨data, .waiting⟩, ?_, (fun h => nomatch h), (fun h => nomatch h)⟩
  rw [addJob, h]
  exact Function.update_self id _ jobs

theorem removeJob_self (jobs : Jobs) (id : String) : removeJob jobs id id = none := by
  rw [removeJob, Function.update_self]

theorem removeJob_none (h : jobs id = none) (x : String) : removeJob jobs x id = none := by
  by_cases hid : id = x
  · rw [hid, removeJob_self]
  · exact (Function.update_of_ne hid none jobs).trans h

/-- A free id stays free, or has a live job. -/
theorem addJob_none (h : jobs id = none) (x : String) (data : MailSyncJobData) :
    addJob jobs x data id = none ∨ Queued (addJob jobs x data) id := by
  by_cases hid : id = x
  · subst hid
    exact .inr (queued_addJob h data)
  · unfold addJob
    cases jobs x with
    | none => exact .inl ((Function.update_of_ne hid _ jobs).trans h)
    | some job => exact .inl h

/-- A worker makes no job. -/
theorem work_none {e : WorkerStep} (h : jobs id = none) (he : work jobs e = some jobs') :
    jobs' id = none := by
  have moved : ∀ {x : String} {source : JobState} {target : Option JobState},
    move jobs x source target = some jobs' →
      jobs' id = none := by
    intro x source target hm
    obtain ⟨job, hjob, hm⟩ := Option.bind_eq_some_iff.mp hm
    split_ifs at hm
    cases hm
    have hne : id ≠ x := by
      rintro rfl
      rw [h] at hjob
      cases hjob
    exact (Function.update_of_ne hne _ jobs).trans h
  cases e with
  | take x => exact moved he
  | complete x => exact moved he
  | fail x => exact moved he
  | retry x => exact moved he
  | promote x => exact moved he
  | purge x => exact moved he

/-! ### Commands of a call -/

/-- What one command of a call does, with what it has found. -/
inductive Command (jobs : Jobs) (id : String) (data : MailSyncJobData) :
    EnqueueStage → Jobs → EnqueueStage → Prop where
  | found : Command jobs id data .getJob jobs .getState
  | absent : jobs id = none → Command jobs id data .getJob jobs .add
  | pending : Queued jobs id → Command jobs id data .getState jobs (.returning true)
  | stale : Command jobs id data .getState jobs .remove
  | locked : locked jobs id = true → Command jobs id data .remove jobs .threw
  | removed : locked jobs id = false → Command jobs id data .remove (removeJob jobs id) .add
  | add : Command jobs id data .add (addJob jobs id data) (.returning false)
  | return (alreadyQueued : Bool) :
    Command jobs id data (.returning alreadyQueued) jobs (.returned alreadyQueued)

theorem enqueueStage_command {data : MailSyncJobData} {stage stage' : EnqueueStage}
    (h : enqueueStage jobs id data stage = some (jobs', stage')) :
    Command jobs id data stage jobs' stage' := by
  cases stage with
  | getJob =>
    simp only [enqueueStage] at h
    split_ifs at h with hsome
    · cases h
      exact .found
    · cases h
      exact .absent (Option.not_isSome_iff_eq_none.mp hsome)
  | getState =>
    simp only [enqueueStage] at h
    split_ifs at h with hpending
    · cases h
      exact .pending (queued_of_pending hpending)
    · cases h
      exact .stale
  | remove =>
    simp only [enqueueStage] at h
    split_ifs at h with hlocked
    · cases h
      exact .locked hlocked
    · cases h
      exact .removed (eq_false_of_ne_true hlocked)
  | add => cases h; exact .add
  | returning alreadyQueued => cases h; exact .return alreadyQueued
  | returned alreadyQueued => cases h
  | threw => cases h

/-- A command of a call keeps its data. -/
theorem enqueueAccountSync_command (h : enqueueAccountSync jobs c () = some (jobs', c')) :
    c'.data = c.data ∧ Command jobs c.id c.data c.stage jobs' c'.stage := by
  obtain ⟨⟨u, stage⟩, hstage, heq⟩ := Option.map_eq_some_iff.mp h
  cases heq
  exact ⟨rfl, enqueueStage_command hstage⟩

/-- A call has a next command until it ends, and gets closer to its end with it. -/
theorem enqueueAccountSync_progress (jobs : Jobs) (c : EnqueueCall) : c.stage.ended = true ∨
    ∃ jobs' c', enqueueAccountSync jobs c () = some (jobs', c') ∧ c'.stage.left < c.stage.left := by
  obtain ⟨data, stage⟩ := c
  cases stage with
  | getJob =>
    refine .inr ⟨_, _, rfl, ?_⟩
    simp only
    split_ifs <;> simp only [EnqueueStage.left] <;> omega
  | getState =>
    refine .inr ⟨_, _, rfl, ?_⟩
    simp only
    split_ifs <;> simp only [EnqueueStage.left] <;> omega
  | remove =>
    refine .inr ⟨_, _, rfl, ?_⟩
    simp only
    split_ifs <;> simp only [EnqueueStage.left] <;> omega
  | add => exact .inr ⟨_, _, rfl, Nat.lt_succ_self 1⟩
  | returning alreadyQueued => exact .inr ⟨_, _, rfl, Nat.lt_succ_self 0⟩
  | returned alreadyQueued => exact .inl rfl
  | threw => exact .inl rfl

/-- Only an `add` puts a job under a free id, and it puts a live one there. -/
theorem step_none (h : p.store id = none) (hs : enqueueing.step p a = some q) :
    q.store id = none ∨ Queued q.store id := by
  obtain ⟨r, -, rfl⟩ | ⟨i, d, c, jobs, c', -, -, hc, rfl⟩ | ⟨e, jobs, -, he, rfl⟩ :=
    Program.step_cases hs
  · exact .inl h
  · have hcommand := (enqueueAccountSync_command hc).2
    generalize c'.stage = stage' at hcommand
    generalize c.stage = stage at hcommand
    cases hcommand with
    | removed => exact .inl (removeJob_none h c.id)
    | add => exact addJob_none h c.id c.data
    | _ => exact .inl h
  · exact .inl (work_none h he)

/-! ### Runs -/

/-- What the run so far tells about a call: once it is about to add, the id has been free since it
began, and a job that is there now came alive in between. -/
def Knows (p₀ : Pool Jobs EnqueueCall) (as : List (Action MailSyncJobData Unit WorkerStep))
    (jobs : Jobs) (i : ℕ) (c : EnqueueCall) : Prop :=
  match c.stage with
  | .getJob | .getState | .remove => True
  | .add => jobs c.id = none ∨ SeesJob p₀ as i c.id
  | .returning _ | .returned _ | .threw => SeesJob p₀ as i c.id

theorem seesJob_here (hr : exec enqueueing.step p₀ as = some p) (hi : p.calls[i]? = some c)
    (hopen : c.stage.ended = false) (hq : Queued p.store id) : SeesJob p₀ as i id :=
  .here hr ⟨⟨c, hi, hopen⟩, hq⟩

/-- A call that is left alone, while the queue goes on. -/
theorem Knows.wait (h : Knows p₀ as p.store i c)
    (hr : exec enqueueing.step p₀ (as ++ [a]) = some q) (hs : enqueueing.step p a = some q)
    (hi : q.calls[i]? = some c) : Knows p₀ (as ++ [a]) q.store i c := by
  unfold Knows at *
  cases hstage : c.stage with
  | getJob | getState | remove => trivial
  | add =>
    simp only [hstage] at h ⊢
    rcases h with hfree | hsaw
    · have hopen : c.stage.ended = false := by rw [hstage]; rfl
      exact (step_none hfree hs).imp_right fun hq => seesJob_here hr hi hopen hq
    · exact .inr (hsaw.append [a])
  | returning b | returned b | threw =>
    simp only [hstage] at h ⊢
    exact h.append [a]

/-- A call that runs its next command. -/
theorem Knows.command (h : Knows p₀ as p.store i c) (hr : exec enqueueing.step p₀ as = some p)
    (hi : p.calls[i]? = some c) (hr' : exec enqueueing.step p₀ (as ++ [a]) = some q)
    (hi' : q.calls[i]? = some c') (hdata : c'.data = c.data)
    (hc : Command p.store c.id c.data c.stage q.store c'.stage) :
    Knows p₀ (as ++ [a]) q.store i c' := by
  obtain ⟨data, stage⟩ := c
  obtain ⟨data', stage'⟩ := c'
  obtain ⟨jobs, calls⟩ := q
  obtain rfl : data' = data := hdata
  cases hc with
  | found | stale => trivial
  | absent hfree => exact .inl hfree
  | pending hq => exact seesJob_here hr' hi' rfl hq
  | locked hlocked => exact (seesJob_here hr hi rfl (queued_of_locked hlocked)).append [a]
  | removed => exact .inl (removeJob_self p.store _)
  | add =>
    rcases h with hfree | hsaw
    · exact seesJob_here hr' hi' rfl (queued_addJob hfree _)
    · exact hsaw.append [a]
  | «return» alreadyQueued => exact h.append [a]

/-- By the end of a run every call that has ended has seen a live job. -/
theorem knows_run (h0 : p₀.calls = []) (hr : exec enqueueing.step p₀ as = some p)
    (hi : p.calls[i]? = some c) :
    Knows p₀ as p.store i c := by
  have hrun :=
    exec_history
    (H := fun as p => ∀ (i : ℕ) (c : EnqueueCall), p.calls[i]? = some c → Knows p₀ as p.store i c)
    ?_ ?_ hr
  · exact hrun i c hi
  · intro i c hi
    rw [h0] at hi
    cases hi
  · intro as p a q hr hknows hs i c hi
    have hr' : exec enqueueing.step p₀ (as ++ [a]) = some q := by
      rw [exec_concat, hr]
      exact hs
    obtain ⟨r, -, rfl⟩ | ⟨j, d, c₁, jobs, c₂, -, hj, hc, rfl⟩ | ⟨e, jobs, -, he, rfl⟩ :=
      Program.step_cases hs
    · rcases getElem?_concat_cases hi with hi' | ⟨-, rfl⟩
      · exact (hknows i c hi').wait hr' hs hi
      · trivial
    · obtain ⟨hdata, hcommand⟩ := enqueueAccountSync_command hc
      rcases getElem?_set_cases hi with ⟨rfl, rfl⟩ | ⟨-, hi'⟩
      · exact (hknows i c₁ hj).command hr hj hr' hi hdata hcommand
      · exact (hknows i c hi').wait hr' hs hi
    · exact (hknows i c hi).wait hr' hs hi

/-- A `remove` of a job that a worker holds throws. -/
theorem threw_of_locked {d : Unit} (hi : p.calls[i]? = some c) (hc : ¬ Unlocked p.store c)
    (hs : enqueueing.step p (.run i d) = some q) :
    ∃ c', q.calls[i]? = some c' ∧ c'.stage = .threw := by
  obtain ⟨hremove, hlocked⟩ := Classical.not_imp.mp hc
  obtain ⟨c₁, jobs, c', hi', hst, rfl⟩ := Program.step_run.mp hs
  obtain rfl := Option.some.inj (hi.symm.trans hi')
  refine ⟨c', getElem?_set_same c' hi, ?_⟩
  have hcommand := (enqueueAccountSync_command hst).2
  rw [hremove] at hcommand
  generalize c'.stage = stage at hcommand
  cases hcommand with
  | locked => rfl
  | removed hfree => exact absurd hfree hlocked

/-- A call that has thrown is there at the end of the run. -/
theorem meets_of_returns (hr : exec enqueueing.step p as = some q)
    (hq : ∀ c ∈ q.calls, c.stage ≠ .threw) :
    Meets enqueueing.step (Program.Allows Unlocked) p as := by
  induction as generalizing p with
  | nil => trivial
  | cons a as ih =>
    obtain ⟨u, hu, hrest⟩ := Option.bind_eq_some_iff.mp hr
    refine (meets_cons_some hu).mpr ⟨?_, ih hrest⟩
    cases a with
    | call r => trivial
    | env e => trivial
    | run i d =>
      intro c hc
      by_contra hlocked
      obtain ⟨c', hi', hthrew⟩ := threw_of_locked hc hlocked hu
      have hended : ∀ jobs d, enqueueing.statement jobs c' d = none := by
        obtain ⟨data, stage⟩ := c'
        cases hthrew
        exact fun _ _ => rfl
      have hend : q.calls[i]? = some c' :=
        exec_invariant (I := fun p => p.calls[i]? = some c')
          (fun _ _ _ h hs => Program.step_ended hended h hs) hi' hrest
      exact hq c' (List.mem_of_getElem? hend) hthrew

theorem returns_step (h : ∀ c ∈ p.calls, c.stage ≠ .threw) (hok : Program.Allows Unlocked p a)
    (hs : enqueueing.step p a = some q) : ∀ c ∈ q.calls, c.stage ≠ .threw := by
  intro x hx
  obtain ⟨r, -, rfl⟩ | ⟨i, d, c, jobs, c', rfl, hi, hc, rfl⟩ | ⟨e, jobs, -, -, rfl⟩ :=
    Program.step_cases hs
  · rcases List.mem_append.mp hx with hx | hx
    · exact h x hx
    · rw [List.mem_singleton.mp hx]
      exact (fun h => nomatch h)
  · rcases List.mem_or_eq_of_mem_set hx with hx | rfl
    · exact h x hx
    · have hcommand := (enqueueAccountSync_command hc).2
      have hfree := hok c hi
      intro hthrew
      rw [hthrew] at hcommand
      unfold Unlocked at hfree
      generalize c.stage = stage at hcommand hfree
      cases hcommand with
      | locked hlocked =>
        rw [hfree rfl] at hlocked
        cases hlocked
  · exact h x hx

/-- Every call is served exactly in the runs that remove no job while a worker holds it. The
moment is there in every run: only the throw goes wrong. -/
theorem served_iff (h0 : p₀.calls = []) (hr : exec enqueueing.step p₀ as = some p) :
    (∀ (i : ℕ) (c : EnqueueCall), p.calls[i]? = some c → Served p₀ as p i c) ↔
      Meets enqueueing.step (Program.Allows Unlocked) p₀ as := by
  constructor
  · intro hserved
    refine meets_of_returns hr fun c hc => ?_
    obtain ⟨i, hi⟩ := List.mem_iff_getElem?.mp hc
    exact (hserved i c hi).returns
  · intro hm i c hi
    have hnil : ∀ c ∈ p₀.calls, c.stage ≠ .threw := by
      rw [h0]
      exact fun _ hc => absurd hc List.not_mem_nil
    have hreturns := exec_invariant_of_meets (fun _ _ _ h hok hs => returns_step h hok hs) hnil hm hr
    refine ⟨hreturns c (List.mem_of_getElem? hi), enqueueAccountSync_progress p.store c,
      fun hended => ?_⟩
    have hknows := knows_run h0 hr hi
    obtain ⟨data, stage⟩ := c
    cases stage with
    | returned alreadyQueued => exact hknows
    | threw => exact hknows
    | _ => cases hended

/-! ### Two calls for one account -/

/-- An account whose last sync has failed, and its job is kept. -/
def failedSync : Pool Jobs EnqueueCall :=
  ⟨Function.update (fun _ => none) "sync-a" (some ⟨⟨"a", .scheduled, none⟩, .failed⟩), []⟩

/-- A request clears the failed job and adds one; a poll finds it waiting. -/
def requestThenPoll : List (Action MailSyncJobData Unit WorkerStep) :=
  [.call ⟨"a", .manual, some "r1"⟩, .run 0 (), .run 0 (), .run 0 (), .call ⟨"a", .scheduled, none⟩,
    .run 0 (), .run 0 (),
    .run 1 (), .run 1 (), .run 1 ()]

theorem served_iff_requestThenPoll : ∃ p, exec enqueueing.step failedSync requestThenPoll = some p ∧
    p.calls.map (·.stage) = [.returned false, .returned true] ∧
    ∀ (i : ℕ) (c : EnqueueCall), p.calls[i]? = some c →
      Served failedSync requestThenPoll p i c := by
  refine ⟨_, rfl, by decide, ?_⟩
  exact (@served_iff _ failedSync requestThenPoll rfl rfl).mpr (by decide)

/-- Both have found the failed job when the first replaces it, and a worker takes the new one
before the second removes it. -/
def requestAcrossPoll : List (Action MailSyncJobData Unit WorkerStep) :=
  [.call ⟨"a", .manual, some "r1"⟩, .call ⟨"a", .scheduled, none⟩, .run 0 (), .run 0 (), .run 1 (),
    .run 1 (), .run 0 (),
    .run 0 (), .env (.take "sync-a"), .run 1 ()]

theorem poll_throws : ¬ ∀ p₀ as p, p₀.calls = [] → exec enqueueing.step p₀ as = some p →
    ∀ (i : ℕ) (c : EnqueueCall), p.calls[i]? = some c → Served p₀ as p i c := by
  intro h
  have hserved :=
    h failedSync requestAcrossPoll _ rfl rfl 1 ⟨⟨"a", .scheduled, none⟩, .threw⟩ (by decide)
  exact hserved.returns rfl

end Finlytic.EmailIngestion
