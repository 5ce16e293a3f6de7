import Finlytic.EmailIngestion.GmailProvider
import Finlytic.EmailIngestion.NoGap
import Finlytic.EmailIngestion.ZohoChanges

/-! `MailSyncService.syncAccount` over the requests of an adapter, with its cursors
and page tokens as the texts they are. Against a provider that serves a mailbox it
does what the run on the mailbox itself does, at Gmail and at Zoho. -/

namespace Finlytic.EmailIngestion.Wire

open Lib Calling
open Zoho (MessageListPage ProviderError ProviderProfile)

/-- What the sync uses of an adapter. -/
structure MailProviderAdapter (κ : Type) where
  getProfile : ProviderConnection → Calling κ ProviderError ProviderProfile
  listMessageIds : ProviderConnection → Option String → ℕ → Calling κ ProviderError MessageListPage
  listChangedMessageIds : ProviderConnection → String → Option String →
    Calling κ ProviderError Gmail.MessageChangePage
  fetchRawMessage : ProviderConnection → String → Calling κ ProviderError (Option RawMessage)

def gmail (g : Gmail.Surroundings) : MailProviderAdapter Gmail.FetchCall where
  getProfile := Gmail.getProfile g
  listMessageIds := Gmail.listMessageIds g
  listChangedMessageIds := Gmail.listChangedMessageIds g
  fetchRawMessage := Gmail.fetchRawMessage g

/-- A page of Zoho never says that the cursor is invalid. -/
def zoho (z : Zoho.Surroundings) (content : Zoho.Reply → Option String) :
    MailProviderAdapter Zoho.FetchCall where
  getProfile := Zoho.getProfile z
  listMessageIds := Zoho.listMessageIds z
  listChangedMessageIds connection cursor pageToken := do
    let page ← Zoho.listChangedMessageIds z Zoho.tokenNumber connection cursor pageToken
    pure ⟨page.messageIds, page.nextPageToken, page.cursor, false⟩
  fetchRawMessage := Zoho.fetchRawMessage z content

/-! ### A run -/

section Run

variable {κ : Type} (adapter : MailProviderAdapter κ) (connection : ProviderConnection)

/-- The loop of `ingestAll`. -/
def ingestEach : List String → Tally → Calling κ ProviderError Tally
  | [], t => pure t
  | providerMessageId :: ids, t => do
    match ← adapter.fetchRawMessage connection providerMessageId with
    | none => ingestEach ids { t with gone := t.gone ++ [providerMessageId], missing := t.missing + 1 }
    | some raw =>
      if raw.providerMessageId ∈ t.rows then ingestEach ids { t with skipped := t.skipped + 1 }
      else ingestEach ids { t with rows := t.rows ++ [raw.providerMessageId], created := t.created + 1 }

/-- What a run leaves: the rows, the ids reported gone, and the cursor it stored. -/
structure Ran where
  rows : List String
  gone : List String
  syncCursor : Option String
  outcome : SyncOutcome
  deriving DecidableEq

def ingestThenStore (rows gone : List String) (mode : SyncMode) (messageIds : List String)
    (cursor : String) :
    Calling κ ProviderError Ran := do
  let known := rows.filter (· ∈ messageIds)
  let toFetch := messageIds.filter (· ∉ known)
  let t ← ingestEach adapter connection toFetch ⟨rows, gone, 0, known.length, 0⟩
  pure ⟨t.rows, t.gone, some cursor, mode, toFetch.length, t.created, t.skipped, t.missing⟩

def initialSync (rows gone : List String) : Calling κ ProviderError Ran := do
  let profile ← adapter.getProfile connection
  let page ← adapter.listMessageIds connection none initialBatch
  ingestThenStore adapter connection rows gone .initial page.messageIds profile.cursor

inductive Collected where
  | cursorInvalid
  | done (ids : List String) (nextCursor : String)

/-- The do-while loop of `incrementalSync`; `none` when the fuel runs out. -/
def collect (cursor : String) : ℕ → List String → String → Option String →
    Calling κ ProviderError (Option Collected)
  | 0, _, _, _ => pure none
  | fuel + 1, collected, nextCursor, pageToken => do
    let page ← adapter.listChangedMessageIds connection cursor pageToken
    if page.cursorInvalid then pure (some .cursorInvalid)
    else
      let collected := page.messageIds.foldl addId collected
      let nextCursor := (truthy page.cursor).getD nextCursor
      match truthy page.nextPageToken with
      | some token =>
        if collected.length < maxIdsPerRun then collect cursor fuel collected nextCursor (some token)
        else pure (some (.done collected nextCursor))
      | none => pure (some (.done collected nextCursor))

def incrementalSync (fuel : ℕ) (rows gone : List String) (cursor : String) :
    Calling κ ProviderError (Option Ran) := do
  match ← collect adapter connection cursor fuel [] cursor none with
  | none => pure none
  | some .cursorInvalid =>
    let ran ← initialSync adapter connection rows gone
    pure (some ran)
  | some (.done ids nextCursor) =>
    let ran ← ingestThenStore adapter connection rows gone .incremental ids nextCursor
    pure (some ran)

def syncAccount (fuel : ℕ) (rows gone : List String) (syncCursor : Option String) :
    Calling κ ProviderError (Option Ran) :=
  match truthy syncCursor with
  | some cursor => incrementalSync adapter connection fuel rows gone cursor
  | none => do
    let ran ← initialSync adapter connection rows gone
    pure (some ran)

end Run

/-! ### What a provider serves -/

/-- A page as the adapter returns it. -/
def pageOf (token : ℕ → String) (page : MessageChangePage) : Gmail.MessageChangePage :=
  ⟨page.messageIds, page.nextPageToken.map token, page.cursor.map toString, page.cursorInvalid⟩

/-- Every request of the adapter is answered from the mailbox; a message may go between its
listing and its fetch. -/
structure Serves {κ : Type} (adapter : MailProviderAdapter κ) (connection : ProviderConnection)
    (provider : MailProvider) (pageSize : ℕ) (box : Mailbox) (available : String → Bool)
    (token : ℕ → String) : Prop where
  token_ne : ∀ n, token n ≠ ""
  profile : ∀ made, ∃ emailAddress made', adapter.getProfile connection made =
    (.ok ⟨emailAddress, toString (getProfile provider box)⟩, made')
  list : ∀ made, ∃ next made', adapter.listMessageIds connection none initialBatch made =
    (.ok ⟨listMessageIds box initialBatch, next⟩, made')
  changed : ∀ cursor pageToken made, ∃ made',
    adapter.listChangedMessageIds connection (toString cursor) (Option.map token pageToken) made =
      (.ok (pageOf token (listChangedMessageIds provider pageSize box cursor pageToken)), made')
  raw : ∀ m ∈ box.log, ∀ made, ∃ message made', adapter.fetchRawMessage connection m.id made =
    (.ok message, made') ∧
    message.isSome = available m.id ∧ ∀ raw ∈ message, raw.providerMessageId = m.id

/-- What a run on the mailbox leaves, with its cursor as a text. -/
def ranOf (r : SyncState × SyncOutcome) : Ran := ⟨r.1.rows, r.1.gone, r.1.syncCursor.map toString, r.2⟩

section Refinement

variable {κ : Type} {adapter : MailProviderAdapter κ} {connection : ProviderConnection}
  {provider : MailProvider} {pageSize : ℕ} {available : String → Bool} {token : ℕ → String}
  {s : SyncState}

theorem truthy_toString (n : Option ℕ) : truthy (n.map toString) = n.map toString := by
  apply truthy_of_ne_empty
  intro h
  obtain ⟨k, -, hk⟩ := Option.map_eq_some_iff.mp h
  exact toString_ne_empty k hk

theorem truthy_token (h : Serves adapter connection provider pageSize s.box available token)
    (n : Option ℕ) :
    truthy (n.map token) = n.map token := by
  apply truthy_of_ne_empty
  intro heq
  obtain ⟨k, -, hk⟩ := Option.map_eq_some_iff.mp heq
  exact h.token_ne k hk

/-! Every id that is listed is one of the mailbox. -/

theorem listMessageIds_subset (box : Mailbox) (n : ℕ) :
    listMessageIds box n ⊆ box.log.map (·.id) := by
  apply List.map_subset
  intro m hm
  exact (mem_present.mp (List.mem_reverse.mp ((List.take_subset n _) hm))).1

theorem listChanged_subset (provider : MailProvider) (pageSize : ℕ) (box : Mailbox) (c : ℕ)
    (pageToken : Option ℕ) :
    (listChangedMessageIds provider pageSize box c pageToken).messageIds ⊆ box.log.map (·.id) := by
  cases provider with
  | ZOHO =>
    apply List.map_subset
    intro m hm
    have hview := (List.take_subset _ _) (List.filter_subset_self _ hm)
    exact (mem_present.mp (List.mem_reverse.mp ((List.drop_subset _ _) hview))).1
  | GMAIL =>
    simp only [listChangedMessageIds, gmailListChanged]
    by_cases hfloor : c < box.floor
    · rw [if_pos hfloor]
      exact List.nil_subset _
    · rw [if_neg hfloor]
      apply List.map_subset
      intro m hm
      exact List.filter_subset_self _ ((List.drop_subset _ _) ((List.take_subset _ _) hm))

theorem foldl_addId_subset {ids collected known : List String} (hids : ids ⊆ known)
    (hcollected : collected ⊆ known) :
    ids.foldl addId collected ⊆ known := by
  induction ids generalizing collected with
  | nil => exact hcollected
  | cons id ids ih =>
    obtain ⟨hid, hids⟩ := List.cons_subset.mp hids
    apply ih hids
    unfold addId
    split_ifs
    · exact hcollected
    · exact List.append_subset.mpr ⟨hcollected, List.cons_subset.mpr ⟨hid, List.nil_subset _⟩⟩

theorem collect_subset {list : Option ℕ → MessageChangePage} {known : List String}
    (hlist : ∀ t, (list t).messageIds ⊆ known) {fuel : ℕ} :
    ∀ {collected nextCursor pageToken ids cursor}, collected ⊆ known →
      EmailIngestion.collect list fuel collected nextCursor pageToken = some (.done ids cursor) →
        ids ⊆ known := by
  induction fuel with
  | zero => intro _ _ _ _ _ _ h; cases h
  | succ fuel ih =>
    intro collected nextCursor pageToken ids cursor hcollected h
    have hnew := foldl_addId_subset (hlist pageToken) hcollected
    rw [EmailIngestion.collect] at h
    by_cases hinvalid : (list pageToken).cursorInvalid = true
    · rw [if_pos hinvalid] at h
      cases h
    · rw [if_neg hinvalid] at h
      simp only at h
      cases hnext : (list pageToken).nextPageToken with
      | none =>
        rw [hnext] at h
        cases h
        exact hnew
      | some next =>
        rw [hnext] at h
        simp only at h
        by_cases hroom : ((list pageToken).messageIds.foldl addId collected).length < maxIdsPerRun
        · rw [if_pos hroom] at h
          exact ih hnew h
        · rw [if_neg hroom] at h
          cases h
          exact hnew

/-! Statement by statement. -/

theorem ingestEach_run (h : Serves adapter connection provider pageSize s.box available token)
    (ids : List String) (hids : ids ⊆ s.box.log.map (·.id)) :
    ∀ t made, ∃ made', ingestEach adapter connection ids t made =
      (.ok (ids.foldl (ingestOne available) t), made') := by
  induction ids with
  | nil => exact fun t made => ⟨made, rfl⟩
  | cons id ids ih =>
    intro t made
    obtain ⟨hmem, hrest⟩ := List.cons_subset.mp hids
    obtain ⟨m, hm, rfl⟩ := List.mem_map.mp hmem
    obtain ⟨message, made', hrun, hsome, hid⟩ := h.raw m hm made
    specialize ih hrest
    rw [List.foldl_cons, ingestEach, bind_ok hrun]
    cases message with
    | none =>
      have hgone : ¬ available m.id = true := by simp [← hsome]
      rw [ingestOne, if_neg hgone]
      exact ih _ made'
    | some raw =>
      have hthere : available m.id = true := hsome.symm
      rw [ingestOne, if_pos hthere, ← hid raw rfl]
      simp only
      by_cases hrow : raw.providerMessageId ∈ t.rows
      · rw [if_pos hrow, if_pos hrow]
        exact ih _ made'
      · rw [if_neg hrow, if_neg hrow]
        exact ih _ made'

theorem ingestThenStore_run
    (h : Serves adapter connection provider pageSize s.box available token) (mode : SyncMode)
    {ids : List String} (hids : ids ⊆ s.box.log.map (·.id)) (cursor : ℕ) (made : List κ) : ∃ made',
    ingestThenStore adapter connection s.rows s.gone mode ids (toString cursor) made =
      (.ok (ranOf (EmailIngestion.ingestThenStore available s mode ids cursor)), made') := by
  have hfetch : toFetch s ids ⊆ s.box.log.map (·.id) :=
    fun id hid => hids (List.filter_subset_self _ hid)
  obtain ⟨made', hrun⟩ :=
    ingestEach_run h (toFetch s ids) hfetch ⟨s.rows, s.gone, 0, (known s ids).length, 0⟩ made
  refine ⟨made', ?_⟩
  unfold ingestThenStore
  exact bind_ok hrun

theorem initialSync_run (h : Serves adapter connection provider pageSize s.box available token)
    (made : List κ) : ∃ made',
    initialSync adapter connection s.rows s.gone made =
      (.ok (ranOf (EmailIngestion.initialSync provider available s)), made') := by
  obtain ⟨address, made₁, hprofile⟩ := h.profile made
  obtain ⟨next, made₂, hlist⟩ := h.list made₁
  unfold initialSync
  rw [bind_ok hprofile, bind_ok hlist]
  exact ingestThenStore_run h .initial (listMessageIds_subset s.box initialBatch) _ made₂

/-- The outcome of the loop, with its cursor as a text. -/
def collectedOf : EmailIngestion.Collected → Collected
  | .cursorInvalid => .cursorInvalid
  | .done ids nextCursor => .done ids (toString nextCursor)

theorem collect_run (h : Serves adapter connection provider pageSize s.box available token)
    (c : ℕ) (fuel : ℕ) :
    ∀ collected nextCursor pageToken made, ∃ made',
      collect adapter connection (toString c) fuel collected (toString nextCursor)
        (Option.map token pageToken) made =
        (.ok
          ((EmailIngestion.collect (listChangedMessageIds provider pageSize s.box c) fuel collected
          nextCursor pageToken).map
          collectedOf), made') := by
  induction fuel with
  | zero => exact fun _ _ _ made => ⟨made, rfl⟩
  | succ fuel ih =>
    intro collected nextCursor pageToken made
    obtain ⟨made', hpage⟩ := h.changed c pageToken made
    rw [collect, bind_ok hpage, EmailIngestion.collect]
    generalize listChangedMessageIds provider pageSize s.box c pageToken = page
    by_cases hinvalid : page.cursorInvalid = true
    · have hwire : (pageOf token page).cursorInvalid = true := hinvalid
      rw [if_pos hwire, if_pos hinvalid]
      exact ⟨made', rfl⟩
    · have hwire : ¬ (pageOf token page).cursorInvalid = true := hinvalid
      rw [if_neg hwire, if_neg hinvalid]
      simp only [pageOf, truthy_toString, truthy_token h]
      have hcursor : (page.cursor.map toString).getD (toString nextCursor) =
          toString (page.cursor.getD nextCursor) := by
        cases page.cursor <;> rfl
      rw [hcursor]
      cases hnext : page.nextPageToken with
      | none => exact ⟨made', rfl⟩
      | some next =>
        simp only [Option.map_some]
        by_cases hroom : (page.messageIds.foldl addId collected).length < maxIdsPerRun
        · rw [if_pos hroom, if_pos hroom]
          exact ih _ _ (some next) made'
        · rw [if_neg hroom, if_neg hroom]
          exact ⟨made', rfl⟩

theorem collect_more {list : Option ℕ → MessageChangePage} {r : EmailIngestion.Collected}
    {fuel more : ℕ} (hle : fuel ≤ more) :
    ∀ {collected nextCursor pageToken},
      EmailIngestion.collect list fuel collected nextCursor pageToken = some r →
      EmailIngestion.collect list more collected nextCursor pageToken = some r := by
  induction fuel generalizing more with
  | zero => intro _ _ _ h; cases h
  | succ fuel ih =>
    intro collected nextCursor pageToken h
    obtain ⟨more, rfl⟩ : ∃ k, more = k + 1 := ⟨more - 1, by omega⟩
    rw [EmailIngestion.collect] at h ⊢
    by_cases hinvalid : (list pageToken).cursorInvalid = true
    · rw [if_pos hinvalid] at h ⊢
      exact h
    · rw [if_neg hinvalid] at h ⊢
      simp only at h ⊢
      cases hnext : (list pageToken).nextPageToken with
      | none =>
        rw [hnext] at h
        exact h
      | some next =>
        rw [hnext] at h
        simp only at h ⊢
        by_cases hroom : ((list pageToken).messageIds.foldl addId collected).length < maxIdsPerRun
        · rw [if_pos hroom] at h ⊢
          exact ih (by omega) h
        · rw [if_neg hroom] at h ⊢
          exact h

/-- A run over the adapter's requests does what the run on the mailbox does. -/
theorem syncAccount_run (hpos : 0 < pageSize)
    (h : Serves adapter connection provider pageSize s.box available token) {fuel : ℕ}
    (hfuel : s.box.log.length + 1 ≤ fuel) (made : List κ) : ∃ r made',
    EmailIngestion.syncAccount provider pageSize available s = some r ∧
      syncAccount adapter connection fuel s.rows s.gone (s.syncCursor.map toString) made =
        (.ok (some (ranOf r)), made') := by
  unfold syncAccount EmailIngestion.syncAccount
  rw [truthy_toString]
  cases hcursor : s.syncCursor with
  | none =>
    obtain ⟨made', hrun⟩ := initialSync_run h made
    refine ⟨_, made', rfl, ?_⟩
    rw [Option.map_none]
    exact bind_ok hrun
  | some c =>
    obtain ⟨r, hr⟩ := Option.isSome_iff_exists.mp (@collect_isSome provider pageSize c s.box hpos)
    obtain ⟨made₁, hcollect⟩ := collect_run h c fuel [] c none made
    rw [collect_more hfuel hr, Option.map_some, Option.map_none] at hcollect
    simp only [Option.map_some]
    unfold incrementalSync EmailIngestion.incrementalSync
    rw [hr, bind_ok hcollect]
    cases r with
    | cursorInvalid =>
      have h₀ : Serves adapter connection provider pageSize
          { s with syncCursor := none }.box available token := h
      obtain ⟨made₂, hrun⟩ := initialSync_run h₀ made₁
      exact ⟨_, made₂, rfl, bind_ok hrun⟩
    | done ids nextCursor =>
      have hids := collect_subset (listChanged_subset provider pageSize s.box c) (List.nil_subset _) hr
      obtain ⟨made₂, hrun⟩ := ingestThenStore_run h .incremental hids nextCursor made₁
      exact ⟨_, made₂, rfl, bind_ok hrun⟩

end Refinement

end Finlytic.EmailIngestion.Wire
