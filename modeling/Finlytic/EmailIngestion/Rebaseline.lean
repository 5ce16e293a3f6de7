import Finlytic.EmailIngestion.SyncAttempt

/-! What an expired cursor costs. After `cursorInvalid` the attempt takes the mailbox's
current history id as its cursor and ingests the newest `INITIAL_BATCH` messages that
exist. A message that came after the old cursor, is covered by the new one and is not
in the batch is never listed again. -/

namespace Finlytic.EmailIngestion

open Lib

variable {provider : MailProvider} {pageSize c : ℕ} {s : SyncState} {p a b : Attempt}
  {box old new : Mailbox} {m : Mail} {plan : Plan}

/-! ### Listings -/

/-- The incremental run from `cursor` collects the message. -/
def Listed (provider : MailProvider) (pageSize : ℕ) (box : Mailbox) (cursor : ℕ) (m : Mail) :
    Prop :=
  ∃ ids next, collect (listChangedMessageIds provider pageSize box cursor) (box.log.length + 1)
    [] cursor none =
    some (.done ids next) ∧ m.id ∈ ids

/-- The messages that came after the mailbox was `old`, in the order in which they came. -/
def arrivedSince (old new : Mailbox) : List Mail := new.log.drop old.log.length

/-- A message that had its row before, is among the newest ones when the batch is listed, or came
after the profile, close enough behind it and with the history from then on still kept. -/
def Recovered (pageSize : ℕ) (rows : List String) (profiled listed ended : Mailbox) (m : Mail) :
    Prop :=
  m.id ∈ rows ∨ m ∈ listed.present.reverse.take initialBatch ∨
    ended.floor ≤ profiled.clock ∧ m ∈ (arrivedSince profiled ended).take (reach pageSize)

theorem eq_of_same_id {n : Mail} (hm : m ∈ box.log) (hn : n ∈ box.log) (hid : m.id = n.id) :
    m = n :=
  List.inj_on_of_nodup_map box.nodup hm hn hid

/-- An id of the mailbox names one message. -/
theorem mem_of_id_mem {l : List Mail} (hl : ∀ n ∈ l, n ∈ box.log) (hm : m ∈ box.log) :
    m.id ∈ l.map (·.id) ↔ m ∈ l := by
  constructor
  · intro hin
    obtain ⟨n, hn, hid⟩ := List.mem_map.mp hin
    rw [← eq_of_same_id (hl n hn) hm hid]
    exact hn
  · intro hin
    exact List.mem_map.mpr ⟨m, hin, rfl⟩

/-- Gmail lists the history after a cursor that it still knows, up to the page that meets the
cap. -/
theorem listed_gmail_iff (hpos : 0 < pageSize) (hm : m ∈ box.log) : Listed .GMAIL pageSize box c m ↔
    box.floor ≤ c ∧ m ∈ (box.log.filter fun m => decide (c < m.stamp)).take (reach pageSize) := by
  unfold Listed listChangedMessageIds
  by_cases hfloor : c < box.floor
  · have hcollect : collect (gmailListChanged pageSize box c) (box.log.length + 1) [] c none =
        some .cursorInvalid := by
      simp only [collect, gmailListChanged, if_pos hfloor, if_true]
    apply iff_of_false
    · rintro ⟨ids, next, hdone, -⟩
      rw [hcollect] at hdone
      cases hdone
    · rintro ⟨hle, -⟩
      exact absurd hfloor (Nat.not_lt_of_le hle)
  · obtain ⟨r, hcollect, hle, hr⟩ := @gmail_collect pageSize c box hpos (Nat.le_of_not_lt hfloor)
    have htake : (box.log.filter fun m => decide (c < m.stamp)).take r =
        (box.log.filter fun m => decide (c < m.stamp)).take (reach pageSize) := by
      rcases hr with hr | rfl
      · rw [List.take_of_length_le hr, List.take_of_length_le (Nat.le_trans hr hle)]
      · rfl
    have hlog : ∀ n ∈ (box.log.filter fun m => decide (c < m.stamp)).take (reach pageSize),
        n ∈ box.log :=
      fun n hn => (List.mem_filter.mp (List.mem_of_mem_take hn)).1
    rw [and_iff_right (Nat.le_of_not_lt hfloor), ← mem_of_id_mem hlog hm, ← htake]
    constructor
    · rintro ⟨ids, next, hdone, hin⟩
      rw [hcollect] at hdone
      cases hdone
      exact hin
    · intro hin
      exact ⟨_, _, hcollect, hin⟩

theorem zoho_never_invalid {pageToken : Option ℕ} :
    (listChangedMessageIds .ZOHO pageSize box c pageToken).cursorInvalid = false :=
  rfl

/-! ### What the mailbox does meanwhile -/

/-- New mail comes after all that was there, and what was deleted stays so. -/
structure Grown (provider : MailProvider) (old new : Mailbox) : Prop where
  log : ∃ arrived, new.log = old.log ++ arrived ∧ ∀ m ∈ arrived,
    admits provider old.clock m.stamp = true
  clock : old.clock ≤ new.clock
  deleted : old.deleted ⊆ new.deleted

theorem Grown.of_log (hlog : new.log = old.log) (hclock : old.clock ≤ new.clock)
    (hdeleted : old.deleted ⊆ new.deleted) :
    Grown provider old new :=
  ⟨⟨[], by rw [hlog, List.append_nil], List.forall_mem_nil _⟩, hclock, hdeleted⟩

theorem Grown.refl (box : Mailbox) : Grown provider box box :=
  .of_log rfl (Nat.le_refl _) (List.Subset.refl _)

theorem admits_mono {clock clock' stamp : ℕ} (hle : clock ≤ clock')
    (h : admits provider clock' stamp = true) :
    admits provider clock stamp = true := by
  cases provider <;> simp only [admits, decide_eq_true_eq] at h ⊢ <;> omega

theorem Grown.trans (h : Grown provider old box) (h' : Grown provider box new) :
    Grown provider old new := by
  obtain ⟨arrived, hlog, harrived⟩ := h.log
  obtain ⟨later, hlog', hlater⟩ := h'.log
  refine ⟨⟨arrived ++ later, by rw [hlog', hlog, List.append_assoc], fun m hm => ?_⟩,
    Nat.le_trans h.clock h'.clock,
    List.Subset.trans h.deleted h'.deleted⟩
  rcases List.mem_append.mp hm with hm | hm
  · exact harrived m hm
  · exact admits_mono h.clock (hlater m hm)

theorem Grown.subset (h : Grown provider old new) : old.log ⊆ new.log := by
  obtain ⟨arrived, hlog, -⟩ := h.log
  rw [hlog]
  exact List.subset_append_left _ _

/-- What came after Gmail's history id of a moment is what came after that moment. -/
theorem Grown.history (h : Grown .GMAIL old new) :
    (new.log.filter fun m => decide (old.clock < m.stamp)) = arrivedSince old new := by
  obtain ⟨arrived, hlog, harrived⟩ := h.log
  have hold : (old.log.filter fun m => decide (old.clock < m.stamp)) = [] := by
    rw [List.filter_eq_nil_iff]
    intro m hm
    rw [decide_eq_true_eq]
    exact Nat.not_lt_of_le (old.le_clock m hm)
  have hnew : (arrived.filter fun m => decide (old.clock < m.stamp)) = arrived :=
    List.filter_eq_self.mpr harrived
  rw [arrivedSince, hlog, List.filter_append, hold, hnew, List.nil_append, List.drop_left]

theorem attemptStep_mailbox {act : SyncAct}
    (h : attemptStep provider pageSize a (.mailbox act) = some b) :
    ∃ box, Grown provider a.state.box box ∧ b = { a with state := { a.state with box } } := by
  cases act with
  | arrive m =>
    obtain ⟨s, hs, rfl⟩ := Option.map_eq_some_iff.mp h
    simp only [syncStep] at hs
    split_ifs at hs with hok
    cases hs
    refine ⟨_, ?_, rfl⟩
    exact ⟨⟨[m], rfl, List.forall_mem_singleton.mpr hok.2⟩, le_of_admits hok.2, List.Subset.refl _⟩
  | delete id =>
    obtain ⟨s, hs, rfl⟩ := Option.map_eq_some_iff.mp h
    simp only [syncStep] at hs
    split_ifs at hs with hid
    cases hs
    refine ⟨_, ?_, rfl⟩
    exact .of_log rfl (Nat.le_refl _) (List.subset_cons_self _ _)
  | tick clock =>
    obtain ⟨s, hs, rfl⟩ := Option.map_eq_some_iff.mp h
    simp only [syncStep] at hs
    split_ifs at hs with hle
    cases hs
    refine ⟨_, ?_, rfl⟩
    exact .of_log rfl hle (List.Subset.refl _)
  | forget floor =>
    cases h
    refine ⟨_, ?_, rfl⟩
    exact .of_log rfl (Nat.le_refl _) (List.Subset.refl _)
  | sync available => cases h

/-- The mailbox alone moves on. -/
theorem mailbox_run {acts : List SyncAct}
    (h : exec (attemptStep provider pageSize) a (acts.map .mailbox) = some b) :
    ∃ box, Grown provider a.state.box box ∧ b = { a with state := { a.state with box } } := by
  induction acts generalizing a with
  | nil =>
    cases h
    exact ⟨_, .refl _, rfl⟩
  | cons act acts ih =>
    obtain ⟨a', ha', hrest⟩ := Option.bind_eq_some_iff.mp h
    obtain ⟨box, hgrown, rfl⟩ := attemptStep_mailbox ha'
    obtain ⟨box', hgrown', rfl⟩ := ih hrest
    exact ⟨box', hgrown.trans hgrown', rfl⟩

/-! ### Up to the batch -/

/-- Nothing is ingested before the batch is listed, and from a stored cursor the batch is
reached only through `cursorInvalid`, which is Gmail's answer. -/
def BeforeBatch (provider : MailProvider) (c : ℕ) (s : SyncState) (a : Attempt) : Prop :=
  match a.call with
  | .find => a.state.rows = s.rows ∧ a.state.syncCursor = some c
  | .connect cursor => a.state.rows = s.rows ∧ cursor = some c
  | .listChanged _ _ _ _ => a.state.rows = s.rows
  | .clearCursor => a.state.rows = s.rows ∧ provider = .GMAIL
  | .profile => a.state.rows = s.rows ∧ provider = .GMAIL
  | .listBatch _ => a.state.rows = s.rows ∧ provider = .GMAIL
  | _ => True

theorem beforeBatch_fetchNext {cursor : ℕ} {counts : SyncOutcome} {todo : List String}
    (hcall : b.call = fetchNext cursor counts todo) : BeforeBatch provider c s b := by
  unfold BeforeBatch
  rw [hcall]
  cases todo <;> trivial

theorem beforeBatch_proceed (h : BeforeBatch provider c s a)
    (hs : proceed provider pageSize a = some b) :
    BeforeBatch provider c s b := by
  unfold BeforeBatch at h
  unfold proceed at hs
  cases hcall : a.call with
  | find =>
    rw [hcall] at hs h
    cases hs
    exact h
  | connect cursor =>
    rw [hcall] at hs h
    obtain ⟨hrows, rfl⟩ := h
    cases hs
    exact hrows
  | listChanged cursor collected nextCursor pageToken =>
    rw [hcall] at hs h
    simp only at hs
    split_ifs at hs with hinvalid
    · cases hs
      refine ⟨h, ?_⟩
      cases provider with
      | GMAIL => rfl
      | ZOHO =>
        rw [zoho_never_invalid] at hinvalid
        cases hinvalid
    · cases hs
      rw [Bool.not_eq_true] at hinvalid
      unfold BeforeBatch
      rcases collect_page 0 cursor collected nextCursor hinvalid with
        ⟨token, ids, next, htake, -⟩ | ⟨ids, next, htake, -⟩
      · rw [htake]
        exact h
      · rw [htake]
        trivial
  | clearCursor =>
    rw [hcall] at hs h
    cases hs
    exact h
  | profile =>
    rw [hcall] at hs h
    cases hs
    exact h
  | listBatch cursor =>
    rw [hcall] at hs
    cases hs
    trivial
  | dedupe mode cursor messageIds =>
    rw [hcall] at hs
    cases hs
    exact beforeBatch_fetchNext rfl
  | fetch cursor counts id rest =>
    rw [hcall] at hs
    simp only at hs
    split_ifs at hs
    · cases hs
      exact beforeBatch_fetchNext rfl
    · cases hs
      trivial
  | ingest cursor counts id rest =>
    rw [hcall] at hs
    cases hs
    exact beforeBatch_fetchNext rfl
  | store cursor counts =>
    rw [hcall] at hs
    cases hs
    trivial
  | done outcome =>
    rw [hcall] at hs
    cases hs
  | threw =>
    rw [hcall] at hs
    cases hs

theorem call_throwAt {written : Bool} (hs : throwAt written a = some b) : b.call = .threw := by
  unfold throwAt at hs
  split at hs
  all_goals
    cases hs
    try rfl

theorem beforeBatch_step {act : AttemptAct} (h : BeforeBatch provider c s a)
    (hs : attemptStep provider pageSize a act = some b) : BeforeBatch provider c s b := by
  cases act with
  | proceed => exact beforeBatch_proceed h hs
  | throw written =>
    unfold BeforeBatch
    rw [call_throwAt hs]
    trivial
  | mailbox act =>
    obtain ⟨box, -, rfl⟩ := attemptStep_mailbox hs
    exact h

/-! ### From the batch on -/

/-- How far the batch is dealt with. -/
def BatchStage (s : SyncState) (plan : Plan) (a : Attempt) : Prop :=
  match a.call with
  | .dedupe _ cursor messageIds => cursor = plan.cursor ∧ messageIds = plan.messageIds
  | .fetch cursor _ id rest => cursor = plan.cursor ∧ Left s plan a (id :: rest)
  | .ingest cursor _ id rest => cursor = plan.cursor ∧ Left s plan a (id :: rest)
  | .store cursor _ => cursor = plan.cursor ∧ Left s plan a []
  | .done _ => a.state.syncCursor = some plan.cursor ∧ Left s plan a []
  | _ => False

structure AfterBatch (provider : MailProvider) (s : SyncState) (listed : Mailbox) (plan : Plan)
    (a : Attempt) : Prop where
  grown : Grown provider listed a.state.box
  kept : ∀ x ∈ s.rows, x ∈ a.state.rows
  added : ∀ x ∈ a.state.rows, x ∈ s.rows ∨ x ∈ plan.messageIds
  stage : BatchStage s plan a

theorem batchStage_fetchNext {counts : SyncOutcome} {todo : List String}
    (hcall : a.call = fetchNext plan.cursor counts todo) (hleft : Left s plan a todo) :
    BatchStage s plan a := by
  unfold BatchStage
  rw [hcall]
  cases todo with
  | nil => exact ⟨rfl, hleft⟩
  | cons id rest => exact ⟨rfl, hleft⟩

theorem AfterBatch.proceed (h : AfterBatch provider s box plan a)
    (hs : EmailIngestion.proceed provider pageSize a = some b) :
    AfterBatch provider s box plan b := by
  have hstage := h.stage
  unfold BatchStage at hstage
  unfold EmailIngestion.proceed at hs
  split at hstage
  case h_1 mode cursor messageIds hcall =>
    rw [hcall] at hs
    obtain ⟨rfl, rfl⟩ := hstage
    cases hs
    exact ⟨h.grown, h.kept, h.added, batchStage_fetchNext rfl (left_toFetch h.kept)⟩
  case h_2 cursor counts id rest hcall =>
    rw [hcall] at hs
    obtain ⟨rfl, hleft⟩ := hstage
    simp only at hs
    split_ifs at hs with hgone
    · cases hs
      refine ⟨h.grown, h.kept, h.added, batchStage_fetchNext rfl ?_⟩
      exact hleft.settle (fun _ hx => hx) rfl (.inr hgone)
    · cases hs
      exact ⟨h.grown, h.kept, h.added, rfl, hleft⟩
  case h_3 cursor counts id rest hcall =>
    rw [hcall] at hs
    obtain ⟨rfl, hleft⟩ := hstage
    cases hs
    refine ⟨by simpa using h.grown, fun x hx => mem_addRow.mpr (.inl (h.kept x hx)), fun x hx => ?_,
      batchStage_fetchNext rfl ?_⟩
    · rcases mem_addRow.mp hx with hx | rfl
      · exact h.added x hx
      · exact .inr (hleft.2 x List.mem_cons_self).1
    · exact hleft.settle (fun x hx => mem_addRow.mpr (.inl hx)) addRow_box
        (.inl (mem_addRow.mpr (.inr rfl)))
  case h_4 cursor counts hcall =>
    rw [hcall] at hs
    obtain ⟨rfl, hleft⟩ := hstage
    cases hs
    exact ⟨h.grown, h.kept, h.added, rfl, hleft⟩
  case h_5 hcall =>
    rw [hcall] at hs
    cases hs
  case h_6 => exact hstage.elim

/-- What the mailbox does and what is deleted there does not undo the batch. -/
theorem AfterBatch.congr (h : AfterBatch provider s box plan a)
    (hgrown : Grown provider a.state.box b.state.box) (hcall : b.call = a.call)
    (hrows : b.state.rows = a.state.rows) (hcursor : b.state.syncCursor = a.state.syncCursor) :
    AfterBatch provider s box plan b := by
  have hleft : ∀ todo, Left s plan a todo → Left s plan b todo := by
    rintro todo ⟨hall, htodo⟩
    refine ⟨fun x hx => ?_, htodo⟩
    rw [hrows]
    rcases hall x hx with hrow | hgone | hin
    · exact .inl hrow
    · exact .inr (.inl (hgrown.deleted hgone))
    · exact .inr (.inr hin)
  constructor
  · exact h.grown.trans hgrown
  · rw [hrows]
    exact h.kept
  · rw [hrows]
    exact h.added
  · have hstage := h.stage
    unfold BatchStage at hstage
    split at hstage
    case h_1 heq =>
      unfold BatchStage
      rw [hcall, heq]
      exact hstage
    case h_5 heq =>
      unfold BatchStage
      rw [hcall, heq, hcursor]
      exact hstage.imp_right (hleft _)
    case h_6 => exact hstage.elim
    all_goals
      rename_i heq
      unfold BatchStage
      rw [hcall, heq]
      exact hstage.imp_right (hleft _)

theorem afterBatch_step {act : AttemptAct}
    (h : a.call = .threw ∨ AfterBatch provider s box plan a)
    (hs : attemptStep provider pageSize a act = some b) :
    b.call = .threw ∨ AfterBatch provider s box plan b := by
  cases act with
  | proceed =>
    rcases h with hthrew | h
    · simp only [attemptStep, proceed, hthrew] at hs
      cases hs
    · exact .inr (h.proceed hs)
  | throw written => exact .inl (call_throwAt hs)
  | mailbox act =>
    obtain ⟨box, hgrown, rfl⟩ := attemptStep_mailbox hs
    exact h.imp_right fun h => h.congr hgrown rfl rfl rfl

/-! ### The batch and the gap -/

/-- A run from the stored cursor `c` that falls back to `initialSync`: it asks for the profile,
then, when it stands at `a` and the mailbox has moved on, for the batch, and it ends at `b`. -/
structure Rebaselined (provider : MailProvider) (pageSize c : ℕ) (s : SyncState) (p a b : Attempt) :
    Prop where
  started : s.syncCursor = some c
  fallback : ∃ before, exec (attemptStep provider pageSize) (startAttempt s) before = some p
  profiling : p.call = .profile
  profiled : ∃ acts :
    List SyncAct, exec (attemptStep provider pageSize) p (.proceed :: acts.map .mailbox) = some a
  finished : ∃ after, exec (attemptStep provider pageSize) a (.proceed :: after) = some b
  succeeded : ∃ outcome, b.call = .done outcome

section Fallback

variable (h : Rebaselined provider pageSize c s p a b)
include h

theorem Rebaselined.before : p.state.rows = s.rows ∧ provider = .GMAIL := by
  obtain ⟨before, hrun⟩ := h.fallback
  have hinit : BeforeBatch provider c s (startAttempt s) := ⟨rfl, h.started⟩
  have hbefore := exec_invariant (fun _ _ _ ha hs => beforeBatch_step ha hs) hinit hrun
  unfold BeforeBatch at hbefore
  rw [h.profiling] at hbefore
  exact hbefore

/-- Between the two requests only the mailbox moves. -/
theorem Rebaselined.listing : Grown provider p.state.box a.state.box ∧ a.state.rows = s.rows ∧
    a.call = .listBatch (getProfile provider p.state.box) := by
  obtain ⟨acts, hrun⟩ := h.profiled
  obtain ⟨p', hp', hrest⟩ := Option.bind_eq_some_iff.mp hrun
  simp only [attemptStep, proceed, h.profiling, Option.some.injEq] at hp'
  subst hp'
  obtain ⟨box, hgrown, rfl⟩ := mailbox_run hrest
  exact ⟨hgrown, h.before.1, rfl⟩

theorem Rebaselined.after : AfterBatch provider s a.state.box
    ⟨.initial, listMessageIds a.state.box initialBatch, getProfile provider p.state.box⟩ b := by
  obtain ⟨-, hrows, hasked⟩ := h.listing
  obtain ⟨after, hrun⟩ := h.finished
  obtain ⟨outcome, hdone⟩ := h.succeeded
  obtain ⟨a', ha', hrest⟩ := Option.bind_eq_some_iff.mp hrun
  have hinit : AfterBatch provider s a.state.box
      ⟨.initial, listMessageIds a.state.box initialBatch, getProfile provider p.state.box⟩ a' := by
    simp only [attemptStep, proceed, hasked, Option.some.injEq] at ha'
    subst ha'
    refine ⟨.refl _, ?_, ?_, rfl, rfl⟩
    · rw [hrows]
      exact fun _ hx => hx
    · rw [hrows]
      exact fun _ hx => .inl hx
  rcases exec_invariant (fun _ _ _ ha hs => afterBatch_step ha hs) (.inr hinit) hrest with
    hthrew | hafter
  · rw [hdone] at hthrew
    cases hthrew
  · exact hafter

/-- What the end of the run has in common with the batch. -/
theorem Rebaselined.ended : b.state.syncCursor = some (getProfile provider p.state.box) ∧
    ∀ x ∈ listMessageIds a.state.box initialBatch, x ∈ b.state.rows ∨ x ∈ b.state.box.deleted := by
  obtain ⟨outcome, hdone⟩ := h.succeeded
  have hstage := h.after.stage
  unfold BatchStage at hstage
  rw [hdone] at hstage
  obtain ⟨hcursor, hall, -⟩ := hstage
  refine ⟨hcursor, fun x hx => ?_⟩
  rcases hall x hx with hrow | hgone | hnil
  · exact .inl hrow
  · exact .inr hgone
  · cases hnil

/-- At the end, a message that still exists has a row if it had one before or is in the batch. -/
theorem Rebaselined.row_iff (hm : m ∈ b.state.box.present) :
    m.id ∈ b.state.rows ↔ m.id ∈ s.rows ∨ m ∈ a.state.box.present.reverse.take initialBatch := by
  obtain ⟨hlog, hexists⟩ := mem_present.mp hm
  have hbatch : ∀ n ∈ a.state.box.present.reverse.take initialBatch, n ∈ b.state.box.log :=
    fun n hn => h.after.grown.subset (mem_present.mp (List.mem_reverse.mp (List.mem_of_mem_take hn))).1
  rw [← mem_of_id_mem hbatch hlog]
  constructor
  · exact h.after.added m.id
  · rintro (hrow | hin)
    · exact h.after.kept m.id hrow
    · exact (h.ended.2 m.id hin).resolve_right hexists

end Fallback

/-- The message has a row, or is listed from the stored cursor. -/
def Kept (provider : MailProvider) (pageSize : ℕ) (b : Attempt) (m : Mail) : Prop :=
  m.id ∈ b.state.rows ∨ ∃ cursor, b.state.syncCursor = some cursor ∧
    Listed provider pageSize b.state.box cursor m

theorem Rebaselined.kept_iff (hpos : 0 < pageSize) (h : Rebaselined provider pageSize c s p a b)
    (hm : m ∈ b.state.box.present) :
    Kept provider pageSize b m ↔
      Recovered pageSize s.rows p.state.box a.state.box b.state.box m := by
  obtain ⟨-, rfl⟩ := h.before
  have hgrown : Grown .GMAIL p.state.box b.state.box := h.listing.1.trans h.after.grown
  have hlisted := @listed_gmail_iff pageSize p.state.box.clock b.state.box m hpos (mem_present.mp hm).1
  rw [hgrown.history] at hlisted
  unfold Kept Recovered
  rw [h.row_iff hm, h.ended.1, or_assoc, ← hlisted]
  simp [getProfile]

/-- Every message that came after `c` and still exists is kept if and only if each of them is
recovered: it had its row before, is in the batch, or came closely enough after the profile. -/
theorem rebaseline_keeps_iff (provider : MailProvider) {pageSize c : ℕ} {s : SyncState}
    {p a b : Attempt} (hpos : 0 < pageSize) (h : Rebaselined provider pageSize c s p a b) :
    (∀ m ∈ b.state.box.present, c < m.stamp → Kept provider pageSize b m) ↔
    ∀ m ∈ b.state.box.present, c < m.stamp →
      Recovered pageSize s.rows p.state.box a.state.box b.state.box m := by
  apply forall₂_congr
  intro m hm
  apply imp_congr_right
  intro _
  exact h.kept_iff hpos hm

/-! ### An attempt without faults ends -/

/-- The loop of `ingestAll` ends, and the cursor is stored. -/
theorem fetchNext_completes {cursor : ℕ} {todo : List String} {a : Attempt} {counts : SyncOutcome}
    (hcall : a.call = fetchNext cursor counts todo) : ∃ as b outcome,
    exec (attemptStep provider pageSize) a as = some b ∧ b.call = .done outcome ∧ b.state.box =
      a.state.box := by
  induction todo generalizing a counts with
  | nil =>
    refine ⟨[.proceed],
      { a with state := { a.state with syncCursor := some cursor }, call := .done counts }, counts,
      ?_, rfl, rfl⟩
    simp only [exec, attemptStep, proceed, hcall, fetchNext, Option.bind_some]
  | cons id rest ih =>
    by_cases hgone : id ∈ a.state.box.deleted
    · obtain ⟨as, b, outcome, hrun, hdone, hbox⟩ := @ih
        { a with
          state := { a.state with gone := a.state.gone ++ [id] }
          call := fetchNext cursor { counts with gone := counts.gone + 1 } rest
          fetched := a.fetched ++ [id] } _ rfl
      refine ⟨.proceed :: as, b, outcome, ?_, hdone, hbox⟩
      rw [← hrun]
      apply exec_cons_some
      simp only [attemptStep, proceed, hcall, fetchNext, if_pos hgone]
    · obtain ⟨as, b, outcome, hrun, hdone, hbox⟩ := @ih
        { a with
          state := addRow a.state id
          call := fetchNext cursor (countIngest a.state id counts) rest
          fetched := a.fetched ++ [id] } _ rfl
      refine ⟨.proceed :: .proceed :: as, b, outcome, ?_, hdone, hbox.trans addRow_box⟩
      rw [← hrun]
      have hfetch : attemptStep provider pageSize a .proceed =
          some { a with call := .ingest cursor counts id rest, fetched := a.fetched ++ [id] } := by
        simp only [attemptStep, proceed, hcall, fetchNext, if_neg hgone]
      rw [exec_cons_some hfetch]
      exact exec_cons_some rfl

/-- From an expired cursor, the run goes through the fallback and ends. -/
theorem rebaseline_completes (pageSize : ℕ) (hs : s.syncCursor = some c)
    (hexpired : c < s.box.floor) :
    ∃ p a b, Rebaselined .GMAIL pageSize c s p a b ∧ p.state.box = s.box ∧ a.state.box = s.box ∧
      b.state.box = s.box := by
  have hprofile : exec (attemptStep .GMAIL pageSize) (startAttempt s) (List.replicate 4 .proceed) =
      some ⟨{ s with syncCursor := none }, .profile, [], true⟩ := by
    simp only [List.replicate, exec, attemptStep, proceed, startAttempt, hs, listChangedMessageIds,
      gmailListChanged,
      if_pos hexpired, if_true, Option.bind_some]
  obtain ⟨as, b, outcome, hrun, hdone, hbox⟩ := @fetchNext_completes .GMAIL pageSize _ _
    ⟨{ s with syncCursor := none }, fetchNext s.box.clock
      ⟨.initial, (toFetch { s with syncCursor := none } (listMessageIds s.box initialBatch)).length, 0,
        (known { s with syncCursor := none } (listMessageIds s.box initialBatch)).length, 0⟩
      (toFetch { s with syncCursor := none } (listMessageIds s.box initialBatch)), [], true⟩ _ rfl
  refine ⟨_, _, b, ⟨hs, ⟨_, hprofile⟩, rfl, ⟨[], rfl⟩, ⟨.proceed :: as, ?_⟩, outcome, hdone⟩,
    rfl, rfl, hbox⟩
  rw [← hrun, exec_cons_some rfl, exec_cons_some rfl]
  rfl

/-- A Gmail mailbox that got `n` messages while its cursor expired. -/
def expired (n : ℕ) : SyncState := ⟨{ burst n with floor := 1 }, some 0, [], []⟩

/-- As before, and one more message, the newest one, was deleted since. -/
def newestDeleted (n : ℕ) : SyncState :=
  ⟨{ (burst (n + 1)).delete (burstId n) (burstId_mem n) with floor := 1 }, some 0, [], []⟩

theorem rebaseline_keeps_iff_newestDeleted :
    ∃ p a b, Rebaselined .GMAIL 100 0 (newestDeleted 50) p a b ∧
    ∀ m ∈ b.state.box.present, 0 < m.stamp → Kept .GMAIL 100 b m := by
  obtain ⟨p, a, b, h, hp, ha, hb⟩ := @rebaseline_completes 0 (newestDeleted 50) 100 rfl Nat.one_pos
  refine ⟨p, a, b, h, (rebaseline_keeps_iff .GMAIL (by decide) h).mpr ?_⟩
  intro m hm _
  rw [hb] at hm
  rw [ha]
  have hall : ∀ m ∈ (newestDeleted 50).box.present,
      m ∈ (newestDeleted 50).box.present.reverse.take initialBatch := by decide
  exact .inr (.inl (hall m hm))

/-- Of 51 messages, the oldest one gets no row and is not listed from the new cursor. -/
theorem rebaseline_loses_mail :
    ¬ ∀ provider pageSize c s p a b, 0 < pageSize → Rebaselined provider pageSize c s p a b →
    ∀ m ∈ b.state.box.present, c < m.stamp → Kept provider pageSize b m := by
  intro hall
  obtain ⟨p, a, b, h, hp, ha, hb⟩ := @rebaseline_completes 0 (expired 51) 100 rfl Nat.one_pos
  have hmem : (⟨burstId 0, 1⟩ : Mail) ∈ b.state.box.present := by
    rw [hb]
    decide
  have hkept := hall .GMAIL 100 0 _ p a b (by decide) h _ hmem (by decide)
  rcases (h.kept_iff (by decide) hmem).mp hkept with hrow | hin | ⟨-, hin⟩
  · cases hrow
  · rw [ha] at hin
    exact absurd hin (by decide)
  · rw [hb, hp] at hin
    exact absurd hin (by decide)

end Finlytic.EmailIngestion
