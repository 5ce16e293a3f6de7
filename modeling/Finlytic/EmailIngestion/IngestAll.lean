import Finlytic.EmailIngestion.BlobBeforePointer
import Finlytic.Lib.Table
import Mathlib.Data.List.Dedup

/-! `MailSyncService.ingestAll`, any number of runs at once. A run asks which of
its ids are stored, fetches the others one by one and ingests them, and other
runs may insert between any two of its statements. Whichever check finds a
message stored, the run counts it once; and a run that inserts a row is the one
that counts it as created. -/

namespace Finlytic.EmailIngestion.IngestAll

open Lib

variable {cfg : IngestConfig}

/-! ### Runs -/

/-- What a run is given; the ids are distinct. -/
structure Batch where
  account : AccountId
  messageIds : List String
  nodup : messageIds.Nodup

/-- The local variables of a run. -/
structure Locals where
  batch : Batch
  known : List String
  created : ℕ
  skipped : ℕ
  gone : ℕ

structure SyncCounts where
  fetched : ℕ
  created : ℕ
  skipped : ℕ
  gone : ℕ
  deriving DecidableEq

/-- The ids of the batch that the query finds stored, as a set. -/
def findKnown (s : MailStore) (batch : Batch) : List String :=
  ((s.messages.filter fun m =>
    decide (m.accountId = batch.account) && batch.messageIds.contains m.providerMessageId).map
    (·.providerMessageId)).dedup

def Locals.toFetch (v : Locals) : List String := v.batch.messageIds.filter fun id =>
    !v.known.contains id

def Locals.outcome (v : Locals) : SyncCounts := ⟨v.toFetch.length, v.created, v.skipped, v.gone⟩

inductive IngestRun (cfg : IngestConfig) where
  | query (batch : Batch)
  | fetch (v : Locals) (id : String) (rest : List String)
  | ingest (v : Locals) (rest : List String) (call : IngestCall cfg)
  | done (v : Locals)
  | failed

/-- How the next statement turns out. -/
inductive RunChoice (cfg : IngestConfig) where
  | found
  | raw (d : Delivery cfg)
  | gone
  | step (choice : IngestChoice)
  | failed

/-- The head of the loop over `toFetch`. -/
def advance (v : Locals) : List String → IngestRun cfg
  | [] => .done v
  | id :: rest => .fetch v id rest

def start (s : MailStore) (batch : Batch) : Locals where
  batch := batch
  known := findKnown s batch
  created := 0
  skipped := (findKnown s batch).length
  gone := 0

/-- The run goes on with what `ingest` returns, and fails where it throws. -/
def settle (v : Locals) (rest : List String) : IngestCall cfg → IngestRun cfg
  | .done none => .failed
  | .done (some result) =>
    if result.created then advance { v with created := v.created + 1 } rest
    else advance { v with skipped := v.skipped + 1 } rest
  | call => .ingest v rest call

def ingestAllStatement (s : MailStore) : IngestRun cfg → RunChoice cfg →
    Option (MailStore × IngestRun cfg)
  | .query batch, .found => some (s, advance (start s batch) (start s batch).toFetch)
  | .fetch v _ rest, .gone => some (s, advance { v with gone := v.gone + 1 } rest)
  | .fetch v _ rest, .raw d => if d.account = v.batch.account then
    some (s, .ingest v rest (.find d)) else none
  | .ingest v rest call, .step choice => (ingestStatement s call choice).map fun next =>
    (next.1, settle v rest next.2)
  | .query _, .failed => some (s, .failed)
  | .fetch _ _ _, .failed => some (s, .failed)
  | _, _ => none

/-- Runs, interleaved; the environment moves the clock. -/
def ingestRuns (cfg : IngestConfig) :
    Program MailStore Batch (IngestRun cfg) (RunChoice cfg) ℤ where
  start := .query
  statement := ingestAllStatement
  environment := fun s now => some { s with now }

variable {s s' : MailStore} {c c' : IngestCall cfg} {r r' : IngestRun cfg} {v : Locals}
  {a : AccountId} {rest : List String}

/-! ### One message -/

/-- The call is under way, for a message of this account. -/
def CallFor (a : AccountId) : IngestCall cfg → Prop
  | .find d | .parse d | .putRaw d _ | .putBody d _ _ | .create d _ _ => d.account = a
  | .done _ => False

/-- The rows stay and the call is not the one that created, or it inserts the one row of its
message. -/
inductive Ingested (s s' : MailStore) (a : AccountId) (c' : IngestCall cfg) : Prop where
  | goesOn (rows : s'.messages = s.messages) (under : CallFor a c')
  | throws (rows : s'.messages = s.messages) (ends : c' = .done none)
  | skips (result : IngestResult) (rows : s'.messages = s.messages) (ends : c' = .done (some result))
      (created : result.created = false)
  | creates (m : Message) (result : Option IngestResult) (rows : s'.messages = s.messages ++ [m])
    (account : m.accountId = a)
      (fresh : stored s m.accountId m.providerMessageId = false) (ends : c' = .done result)
      (created : ∀ x, result = some x → x.created = true)

theorem ingestOk_cases {id : String} (hc : CallFor a c) (h : ingestOk s id c = some (s', c')) :
    Ingested s s' a c' := by
  cases c with
  | find d =>
    simp only [ingestOk] at h
    split_ifs at h
    · cases h
      exact .skips _ rfl rfl rfl
    · cases h
      exact .goesOn rfl hc
  | parse d =>
    cases h
    exact .goesOn rfl hc
  | putRaw d sentAt =>
    simp only [ingestOk] at h
    cases hbody : bodyText (parsedMail d) with
    | none =>
      rw [hbody] at h
      cases h
      exact .goesOn rfl hc
    | some text =>
      rw [hbody] at h
      cases h
      exact .goesOn rfl hc
  | putBody d sentAt text =>
    cases h
    exact .goesOn rfl hc
  | create d sentAt bodyTextKey =>
    simp only [ingestOk] at h
    split_ifs at h with hstored
    · cases h
      exact .skips _ rfl rfl rfl
    · cases h
      refine .creates (row d sentAt bodyTextKey id) _ rfl hc (Bool.eq_false_iff.mpr hstored) rfl ?_
      rintro x ⟨⟩
      rfl
  | done result => cases h

theorem ingestStatement_cases {d : IngestChoice} (hc : CallFor a c)
    (h : ingestStatement s c d = some (s', c')) :
    Ingested s s' a c' := by
  cases d with
  | ok id => exact ingestOk_cases hc h
  | failed =>
    obtain ⟨next, -, he⟩ := Option.map_eq_some_iff.mp h
    cases he
    exact .throws rfl rfl
  | lost id =>
    obtain ⟨⟨t, next⟩, hok, he⟩ := Option.map_eq_some_iff.mp h
    cases he
    cases ingestOk_cases hc hok with
    | goesOn rows under => exact .throws rows rfl
    | throws rows ends => exact .throws rows rfl
    | skips result rows ends created => exact .throws rows rfl
    | creates m result rows account fresh ends created =>
      refine .creates m none rows account fresh rfl ?_
      rintro x ⟨⟩

/-! ### The ids of a run -/

theorem mem_findKnown {batch : Batch} {id : String} :
    id ∈ findKnown s batch ↔ id ∈ batch.messageIds ∧ stored s batch.account id = true := by
  unfold findKnown stored
  simp only [List.mem_dedup, List.mem_map, List.mem_filter, List.any_eq_true, Bool.and_eq_true,
    decide_eq_true_eq,
    List.contains_iff_mem]
  constructor
  · rintro ⟨m, ⟨hm, hacc, hid⟩, rfl⟩
    exact ⟨hid, m, hm, hacc, rfl⟩
  · rintro ⟨hid, m, hm, hacc, rfl⟩
    exact ⟨m, ⟨hm, hacc, hid⟩, rfl⟩

/-- What is known and what is fetched make up the batch. -/
theorem toFetch_start (s : MailStore) (batch : Batch) :
    (start s batch).toFetch.length + (findKnown s batch).length = batch.messageIds.length := by
  have hperm : (batch.messageIds.filter fun id => (findKnown s batch).contains id).Perm
      (findKnown s batch) := by
    apply (List.perm_ext_iff_of_nodup (batch.nodup.filter _) (List.nodup_dedup _)).mpr
    intro id
    rw [List.mem_filter, List.contains_iff_mem]
    constructor
    · exact fun h => h.2
    · exact fun h => ⟨(mem_findKnown.mp h).1, h⟩
  have hsplit := @List.length_eq_length_filter_add _ batch.messageIds fun id =>
    (findKnown s batch).contains id
  rw [hperm.length_eq] at hsplit
  show (batch.messageIds.filter fun id => !(findKnown s batch).contains id).length + _ = _
  omega

/-! ### What a run knows -/

/-- So many ids of the batch are still to be counted; what was known is stored. -/
structure Tallied (s : MailStore) (v : Locals) (left : ℕ) : Prop where
  counted : v.created + v.skipped + v.gone + left = v.batch.messageIds.length
  fetched : v.toFetch.length + v.known.length = v.batch.messageIds.length
  known : ∀ id ∈ v.known, id ∈ v.batch.messageIds ∧ stored s v.batch.account id = true

def Knows (s : MailStore) : IngestRun cfg → Prop
  | .query _ => True
  | .fetch v _ rest => Tallied s v (rest.length + 1)
  | .ingest v rest call => Tallied s v (rest.length + 1) ∧ CallFor v.batch.account call
  | .done v => Tallied s v 0
  | .failed => True

theorem knows_advance (h : Tallied s v rest.length) : Knows s (advance v rest : IngestRun cfg) := by
  cases rest with
  | nil => exact h
  | cons id rest => exact h

/-- Rows are only added. -/
def Grows (s s' : MailStore) : Prop := ∃ inserted, s'.messages = s.messages ++ inserted

theorem grows_of_rows (h : s'.messages = s.messages) : Grows s s' := ⟨[], by rw [h, List.append_nil]⟩

theorem stored_grows (h : Grows s s') {id : String} (hid : stored s a id = true) :
    stored s' a id = true := by
  obtain ⟨inserted, hrows⟩ := h
  unfold stored at hid ⊢
  rw [hrows, List.any_append, hid, Bool.true_or]

theorem Tallied.grows {left : ℕ} (hg : Grows s s') (h : Tallied s v left) : Tallied s' v left :=
  ⟨h.counted, h.fetched, fun id hid => ⟨(h.known id hid).1, stored_grows hg (h.known id hid).2⟩⟩

/-- One more id is counted, whatever it is counted as. -/
theorem Tallied.next {v' : Locals} {left : ℕ} (h : Tallied s v (left + 1))
    (hbatch : v'.batch = v.batch) (hknown : v'.known = v.known)
    (hsum : v'.created + v'.skipped + v'.gone = v.created + v.skipped + v.gone + 1) :
    Tallied s v' left := by
  refine ⟨?_, ?_, ?_⟩
  · have hcounted := h.counted
    rw [hbatch]
    omega
  · rw [Locals.toFetch, hbatch, hknown]
    exact h.fetched
  · rw [hbatch, hknown]
    exact h.known

theorem Knows.grows (hg : Grows s s') (h : Knows s r) : Knows s' r := by
  cases r with
  | query batch => trivial
  | fetch v id rest => exact h.grows hg
  | ingest v rest call => exact ⟨h.1.grows hg, h.2⟩
  | done v => exact h.grows hg
  | failed => trivial

/-! ### The unique constraint -/

/-- `@@unique([accountId, providerMessageId])` -/
def Unique (s : MailStore) : Prop := (s.messages.map fun m => (m.accountId, m.providerMessageId)).Nodup

theorem Unique.insert {m : Message} (h : Unique s)
    (hfresh : stored s m.accountId m.providerMessageId = false)
    (hrows : s'.messages = s.messages ++ [m]) : Unique s' := by
  unfold Unique
  rw [hrows]
  apply Table.nodup_append_row _ h
  intro other hother hkey
  have hstored : stored s m.accountId m.providerMessageId = true := by
    unfold stored
    refine List.any_eq_true.mpr ⟨other, hother, ?_⟩
    rw [Bool.and_eq_true, decide_eq_true_eq, decide_eq_true_eq]
    exact ⟨congrArg Prod.fst hkey, congrArg Prod.snd hkey⟩
  rw [hfresh] at hstored
  cases hstored

/-! ### What a statement inserts and counts -/

def IngestRun.locals : IngestRun cfg → Option Locals
  | .fetch v _ _ | .ingest v _ _ | .done v => some v
  | .query _ | .failed => none

/-- What the run has counted as created for this account. -/
def createdFor (a : AccountId) (r : IngestRun cfg) : ℕ :=
  match r.locals with
  | some v => if v.batch.account = a then v.created else 0
  | none => 0

theorem locals_advance (v : Locals) (rest : List String) :
    (advance v rest : IngestRun cfg).locals = some v := by
  cases rest with
  | nil => rfl
  | cons id rest => rfl

theorem createdFor_advance (a : AccountId) (v : Locals) (rest : List String) :
    createdFor a (advance v rest : IngestRun cfg) = if v.batch.account = a then v.created
      else 0 := by
  unfold createdFor
  rw [locals_advance]

theorem settle_created {result : IngestResult} (v : Locals) (rest : List String)
    (h : result.created = true) :
    (settle v rest (.done (some result)) : IngestRun cfg) =
      advance { v with created := v.created + 1 } rest := by
  show (if result.created = true then _ else _) = _
  rw [h, if_pos rfl]

theorem settle_skipped {result : IngestResult} (v : Locals) (rest : List String)
    (h : result.created = false) :
    (settle v rest (.done (some result)) : IngestRun cfg) =
      advance { v with skipped := v.skipped + 1 } rest := by
  show (if result.created = true then _ else _) = _
  rw [h, if_neg Bool.false_ne_true]

def rowsOf (a : AccountId) (rows : List Message) : ℕ := rows.countP fun m => decide (m.accountId = a)

/-- A statement inserts what it counts as created, unless the run fails with it. -/
structure Balances (s s' : MailStore) (r r' : IngestRun cfg) : Prop where
  unique : Unique s → Unique s'
  knows : Knows s' r'
  inserts : ∃ inserted, s'.messages = s.messages ++ inserted ∧
    (r' ≠ .failed → ∀ a, createdFor a r + rowsOf a inserted = createdFor a r')

/-- Nothing is inserted, and the locals of the run count as many created. -/
theorem balances_of_rows (hrows : s'.messages = s.messages) (hknows : Knows s' r')
    (hcreated : r' ≠ .failed → ∀ a, createdFor a r = createdFor a r') : Balances s s' r r' where
  unique h := by
    unfold Unique
    rw [hrows]
    exact h
  knows := hknows
  inserts := by
    refine ⟨[], by rw [hrows, List.append_nil], ?_⟩
    intro hne a
    exact hcreated hne a

theorem balances_settle {d : IngestChoice} {call call' : IngestCall cfg}
    (hknows : Knows s (.ingest v rest call)) (h : ingestStatement s call d = some (s', call')) :
    Balances s s' (.ingest v rest call) (settle v rest call') := by
  obtain ⟨htallied, hfor⟩ := hknows
  cases ingestStatement_cases hfor h with
  | goesOn rows under =>
    have hsettle : settle v rest call' = .ingest v rest call' := by
      cases call' with
      | done result => exact under.elim
      | _ => rfl
    rw [hsettle]
    exact balances_of_rows rows ⟨htallied.grows (grows_of_rows rows), under⟩ fun _ a => rfl
  | throws rows ends =>
    rw [ends]
    exact balances_of_rows rows trivial fun hne => absurd rfl hne
  | skips result rows ends created =>
    rw [ends, settle_skipped v rest created]
    refine balances_of_rows rows ?_ ?_
    · exact knows_advance ((htallied.grows (grows_of_rows rows)).next rfl rfl (by simp only; omega))
    · intro _ a
      rw [createdFor_advance]
      rfl
  | creates m result rows account fresh ends created =>
    rw [ends]
    have hgrows : Grows s s' := ⟨[m], rows⟩
    cases result with
    | none =>
      refine ⟨fun hu => hu.insert fresh rows, trivial, [m], rows, ?_⟩
      intro hne
      exact absurd rfl hne
    | some result =>
      rw [settle_created v rest (created result rfl)]
      refine ⟨fun hu => hu.insert fresh rows, ?_, [m], rows, ?_⟩
      · exact knows_advance ((htallied.grows hgrows).next rfl rfl (by simp only; omega))
      · intro _ a
        rw [createdFor_advance, rowsOf, List.countP_singleton, account]
        show (if v.batch.account = a then v.created else 0) + _ = if v.batch.account = a then
          v.created + 1 else 0
        by_cases ha : v.batch.account = a
        · rw [if_pos ha, if_pos ha, if_pos (decide_eq_true ha)]
        · rw [if_neg ha, if_neg ha, if_neg (by simpa using ha)]

theorem statement_balances {choice : RunChoice cfg} (hknows : Knows s r)
    (h : ingestAllStatement s r choice = some (s', r')) :
    Balances s s' r r' := by
  cases r with
  | query batch =>
    cases choice with
    | found =>
      cases h
      refine balances_of_rows rfl ?_ ?_
      · apply knows_advance
        have hlength := toFetch_start s batch
        refine ⟨?_, hlength, fun id hid => mem_findKnown.mp hid⟩
        show 0 + (findKnown s batch).length + 0 + _ = batch.messageIds.length
        omega
      · intro _ a
        rw [createdFor_advance]
        show 0 = if batch.account = a then 0 else 0
        rw [ite_self]
    | failed =>
      cases h
      exact balances_of_rows rfl trivial fun hne => absurd rfl hne
    | _ => cases h
  | fetch v id rest =>
    cases choice with
    | gone =>
      cases h
      refine balances_of_rows rfl ?_ ?_
      · exact knows_advance (Tallied.next hknows rfl rfl (by simp only; omega))
      · intro _ a
        rw [createdFor_advance]
        rfl
    | raw d =>
      simp only [ingestAllStatement] at h
      split_ifs at h with hacc
      cases h
      exact balances_of_rows rfl ⟨hknows, hacc⟩ fun _ a => rfl
    | failed =>
      cases h
      exact balances_of_rows rfl trivial fun hne => absurd rfl hne
    | _ => cases h
  | ingest v rest call =>
    cases choice with
    | step choice =>
      obtain ⟨⟨t, call'⟩, hst, he⟩ := Option.map_eq_some_iff.mp h
      cases he
      exact balances_settle hknows hst
    | _ => cases h
  | done v => cases choice <;> cases h
  | failed => cases choice <;> cases h

/-! ### All runs together -/

/-- Since `base`: rows are unique and only added, and the runs have counted the added ones, unless
one has failed. -/
structure Accounted (base : MailStore) (p : Pool MailStore (IngestRun cfg)) : Prop where
  unique : Unique p.store
  knows : ∀ r ∈ p.calls, Knows p.store r
  sums : ∃ inserted, p.store.messages = base.messages ++ inserted ∧
    ((∀ r ∈ p.calls, r ≠ .failed) → ∀ a, (p.calls.map (createdFor a)).sum = rowsOf a inserted)

theorem rowsOf_append (a : AccountId) (rows more : List Message) :
    rowsOf a (rows ++ more) = rowsOf a rows + rowsOf a more :=
  List.countP_append

/-- A run that takes a step has not failed. -/
theorem not_failed_of_statement {choice : RunChoice cfg}
    (h : ingestAllStatement s r choice = some (s', r')) : r ≠ .failed := by
  rintro rfl
  cases choice <;> cases h

theorem accounted_step {base : MailStore} {p q : Pool MailStore (IngestRun cfg)}
    {act : Action Batch (RunChoice cfg) ℤ} (hp : Accounted base p)
    (h : (ingestRuns cfg).step p act = some q) : Accounted base q := by
  obtain ⟨inserted, hrows, hsum⟩ := hp.sums
  obtain ⟨batch, -, rfl⟩ | ⟨i, choice, r, s, r', -, hi, hst, rfl⟩ | ⟨now, s, -, he, rfl⟩ :=
    Program.step_cases h
  · refine ⟨hp.unique, ?_, inserted, hrows, ?_⟩
    · intro r hr
      rcases List.mem_append.mp hr with hr | hr
      · exact hp.knows r hr
      · rw [List.mem_singleton.mp hr]
        trivial
    · intro hnone a
      rw [List.map_append, List.sum_append, hsum fun r hr => hnone r (List.mem_append_left _ hr)]
      rfl
  · have hmem : r ∈ p.calls := List.mem_of_getElem? hi
    have hbalances := statement_balances (hp.knows r hmem) hst
    obtain ⟨more, hmore, hcreated⟩ := hbalances.inserts
    refine ⟨hbalances.unique hp.unique, ?_, inserted ++ more, ?_, ?_⟩
    · intro x hx
      rcases List.mem_or_eq_of_mem_set hx with hx | rfl
      · exact (hp.knows x hx).grows ⟨more, hmore⟩
      · exact hbalances.knows
    · rw [hmore, hrows, List.append_assoc]
    · intro hnone a
      have hr' : r' ≠ .failed := hnone r' (List.mem_of_getElem? (getElem?_set_same r' hi))
      have hall : ∀ x ∈ p.calls, x ≠ .failed := by
        intro x hx
        rcases mem_set_or_eq r' hi hx with hx | rfl
        · exact hnone x hx
        · exact not_failed_of_statement hst
      have hmoves := sum_map_set_add r' (createdFor a) hi
      rw [hsum hall a, ← hcreated hr' a] at hmoves
      rw [rowsOf_append]
      show ((p.calls.set i r').map (createdFor a)).sum = _
      omega
  · cases he
    have hgrows : Grows p.store { p.store with now } := grows_of_rows rfl
    exact ⟨hp.unique, fun r hr => Knows.grows hgrows (hp.knows r hr), inserted, hrows, hsum⟩

theorem countP_le_one (h : Unique s) (a : AccountId) (id : String) :
    (s.messages.countP fun m => decide (m.accountId = a) && decide (m.providerMessageId = id)) ≤
      1 := by
  have hcount := List.nodup_iff_count_le_one.mp h (a, id)
  rw [List.count, List.countP_map] at hcount
  exact hcount

/-- However runs are interleaved: a run that completes has counted each of its ids once, and
fetched those it did not find stored; a message has at most one row; and when all have completed,
they have counted the inserted rows as created. -/
theorem ingestAll_exactly_once (cfg : IngestConfig) (p q : Pool MailStore (IngestRun cfg))
    (as : List (Action Batch (RunChoice cfg) ℤ)) (hcalls : p.calls = [])
    (hunique : Unique p.store) (hr : exec (ingestRuns cfg).step p as = some q) :
    (∀ v, .done v ∈ q.calls →
      v.outcome.created + v.outcome.skipped + v.outcome.gone = v.batch.messageIds.length ∧
      v.outcome.fetched + v.known.length = v.batch.messageIds.length ∧
      ∀ id ∈ v.known, id ∈ v.batch.messageIds ∧ stored q.store v.batch.account id = true) ∧
    (∀ a id, (q.store.messages.countP fun m =>
      decide (m.accountId = a) && decide (m.providerMessageId = id)) ≤ 1) ∧
    ∃ inserted, q.store.messages = p.store.messages ++ inserted ∧
      ((∀ r ∈ q.calls, ∃ v, r = .done v) → ∀ a, (q.calls.map (createdFor a)).sum =
        rowsOf a inserted) := by
  have h0 : Accounted p.store p := by
    refine ⟨hunique, ?_, [], (List.append_nil _).symm, ?_⟩
    · rw [hcalls]
      exact List.forall_mem_nil _
    · intro _ a
      rw [hcalls]
      rfl
  have hq : Accounted p.store q := exec_invariant (fun _ _ _ => accounted_step) h0 hr
  obtain ⟨inserted, hrows, hsum⟩ := hq.sums
  refine ⟨?_, countP_le_one hq.unique, inserted, hrows, ?_⟩
  · intro v hv
    have htallied : Tallied q.store v 0 := hq.knows _ hv
    exact ⟨htallied.counted, htallied.fetched, htallied.known⟩
  · intro hdone
    apply hsum
    intro r hr
    obtain ⟨v, rfl⟩ := hdone r hr
    intro hfailed
    cases hfailed

/-! ### Two runs that race for a message -/

def bothMessages : Batch := ⟨inbox, ["m/1", "m/2"], by decide⟩

def firstMessage : Batch := ⟨inbox, ["m/1"], by decide⟩

/-- Neither query finds the message; the first run inserts it and finds the other message gone,
and the second run is skipped. -/
def race : List (Action Batch (RunChoice plainMail) ℤ) :=
  [.call bothMessages, .call firstMessage, .run 0 .found, .run 1 .found, .run 0 (.raw hello),
    .run 1 (.raw hello)] ++
    List.replicate 3 (.run 1 (.step (.ok ""))) ++ List.replicate 4 (.run 0 (.step (.ok ""))) ++
    [.run 0 (.step (.ok "row")), .run 0 .gone, .run 1 (.step (.ok "")), .run 1 (.step (.ok "row2"))]

theorem ingestAll_exactly_once_race :
    ∃ q, exec (ingestRuns plainMail).step ⟨emptyPool.store, []⟩ race = some q ∧
    (q.calls.map (createdFor inbox)).sum = 1 ∧
    ∃ inserted, q.store.messages = inserted ∧ (q.calls.map (createdFor inbox)).sum =
      rowsOf inbox inserted := by
  obtain ⟨q, hq⟩ : ∃ q, exec (ingestRuns plainMail).step ⟨emptyPool.store, []⟩ race = some q :=
    ⟨_, rfl⟩
  have hunique : Unique emptyPool.store := List.nodup_nil
  obtain ⟨-, -, inserted, hrows, hsum⟩ := ingestAll_exactly_once plainMail _ q race rfl hunique hq
  have hdone : ∀ r ∈ q.calls, ∃ v, r = .done v := by
    cases hq
    intro r hr
    rcases List.mem_cons.mp hr with rfl | hr
    · exact ⟨_, rfl⟩
    · exact ⟨_, List.mem_singleton.mp hr⟩
  refine ⟨q, hq, ?_, inserted, hrows, hsum hdone inbox⟩
  cases hq
  rfl

end Finlytic.EmailIngestion.IngestAll
