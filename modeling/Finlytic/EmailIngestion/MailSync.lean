import Finlytic.EmailIngestion.Accounts
import Mathlib.Data.List.Nodup

/-! `MailSyncService.syncAccount` on one mailbox, through the Zoho and the Gmail
adapter. The mailbox is an append-only log that the provider serves in pages:
Zoho newest first by received time, Gmail oldest first by history id. A message
that is deleted stays in the log, but the listings of the mailbox leave it out.
Mail arrives between runs. Cursors and page tokens are decimal numbers, so they
are natural numbers here. -/

namespace Finlytic.EmailIngestion

open Lib

def initialBatch : ℕ := 50

def maxIdsPerRun : ℕ := 200

/-! ### Mailboxes -/

/-- A message; `stamp` is its received time at Zoho, its history id at Gmail. -/
structure Mail where
  id : String
  stamp : ℕ
  deriving DecidableEq

/-- The log, oldest first, and the ids of its messages that are no longer there. The
clock is the last received time or the current history id; history before `floor` is
no longer served by Gmail. -/
structure Mailbox where
  log : List Mail
  deleted : List String
  clock : ℕ
  floor : ℕ
  nodup : (log.map (·.id)).Nodup
  sorted : log.Pairwise fun m n => m.stamp ≤ n.stamp
  le_clock : ∀ m ∈ log, m.stamp ≤ clock
  deleted_mem : ∀ id ∈ deleted, id ∈ log.map (·.id)

/-- The messages that exist; all of them when nothing was deleted. -/
def Mailbox.present (box : Mailbox) : List Mail := box.log.filter fun m => decide (m.id ∉ box.deleted)

/-- New mail is not older than the clock; a history id is always a new one. -/
def admits : MailProvider → ℕ → ℕ → Bool
  | .ZOHO, clock, stamp => decide (clock ≤ stamp)
  | .GMAIL, clock, stamp => decide (clock < stamp)

theorem le_of_admits {provider : MailProvider} {clock stamp : ℕ}
    (h : admits provider clock stamp = true) : clock ≤ stamp := by
  cases provider <;> simp only [admits, decide_eq_true_eq] at h <;> omega

def Mailbox.deliver (box : Mailbox) (m : Mail) (hid : m.id ∉ box.log.map (·.id))
    (hle : box.clock ≤ m.stamp) : Mailbox where
  log := box.log ++ [m]
  deleted := box.deleted
  clock := m.stamp
  floor := box.floor
  nodup := by
    rw [List.map_append, List.map_singleton]
    exact List.nodup_append.mpr ⟨box.nodup, List.nodup_singleton _, fun a ha b hb hab => hid (by
      rw [List.mem_singleton.mp hb] at hab
      exact hab ▸ ha)⟩
  sorted := by
    refine List.pairwise_append.mpr ⟨box.sorted, List.pairwise_singleton _ _, fun a ha b hb => ?_⟩
    rw [List.mem_singleton.mp hb]
    exact Nat.le_trans (box.le_clock a ha) hle
  le_clock a ha := by
    rcases List.mem_append.mp ha with ha | ha
    · exact Nat.le_trans (box.le_clock a ha) hle
    · exact Nat.le_of_eq (by rw [List.mem_singleton.mp ha])
  deleted_mem id hid := by
    rw [List.map_append]
    exact List.mem_append_left _ (box.deleted_mem id hid)

def Mailbox.delete (box : Mailbox) (id : String) (hid : id ∈ box.log.map (·.id)) : Mailbox :=
  { box with deleted := id :: box.deleted, deleted_mem :=
    List.forall_mem_cons.mpr ⟨hid, box.deleted_mem⟩ }

/-! ### Adapters -/

structure MessageChangePage where
  messageIds : List String
  nextPageToken : Option ℕ
  cursor : Option ℕ
  cursorInvalid : Bool

/-- Zoho's `view`: `limit` messages from the 1-based position `start`, newest first. -/
def view (box : Mailbox) (start limit : ℕ) : List Mail :=
  (box.present.reverse.drop (start - 1)).take limit

def zohoListChanged (box : Mailbox) (cursor : ℕ) (pageToken : Option ℕ) : MessageChangePage :=
  let start := pageToken.getD 1
  let limit := 200
  let data := view box start limit
  let fresh := data.filter fun m => decide (cursor ≤ m.stamp)
  { messageIds := fresh.map (·.id)
    nextPageToken := if fresh.length = data.length ∧ data.length = limit then some (start + limit)
      else none
    cursor := if start = 1 then data.head?.map (·.stamp) else none
    cursorInvalid := false }

/-- The history records after `startHistoryId`, oldest first, also of messages that
were deleted since; a page token is an offset into them. The history id of a page is
the mailbox's current one. -/
def gmailListChanged (pageSize : ℕ) (box : Mailbox) (cursor : ℕ) (pageToken : Option ℕ) :
    MessageChangePage :=
  if cursor < box.floor then ⟨[], none, none, true⟩
  else
    let history := box.log.filter fun m => decide (cursor < m.stamp)
    let offset := pageToken.getD 0
    { messageIds := ((history.drop offset).take pageSize).map (·.id)
      nextPageToken := if offset + pageSize < history.length then some (offset + pageSize) else none
      cursor := some box.clock
      cursorInvalid := false }

def listChangedMessageIds (provider : MailProvider) (pageSize : ℕ) :
    Mailbox → ℕ → Option ℕ → MessageChangePage :=
  match provider with
  | .ZOHO => zohoListChanged
  | .GMAIL => gmailListChanged pageSize

/-- The cursor of `getProfile`. -/
def getProfile (provider : MailProvider) (box : Mailbox) : ℕ :=
  match provider with
  | .ZOHO => ((view box 1 1).head?.map (·.stamp)).getD 0
  | .GMAIL => box.clock

/-- The first page of `listMessageIds`, newest first. -/
def listMessageIds (box : Mailbox) (maxResults : ℕ) : List String :=
  (box.present.reverse.take maxResults).map (·.id)

/-! ### One run of the sync -/

structure SyncState where
  box : Mailbox
  syncCursor : Option ℕ
  /-- `providerMessageId` of the account's message rows. -/
  rows : List String
  /-- History: the ids that `fetchRawMessage` has reported gone. -/
  gone : List String

structure Tally where
  rows : List String
  gone : List String
  created : ℕ
  skipped : ℕ
  missing : ℕ

/-- One turn of the loop of `ingestAll`. -/
def ingestOne (available : String → Bool) (t : Tally) (id : String) : Tally :=
  if available id then
    if id ∈ t.rows then { t with skipped := t.skipped + 1 }
    else { t with rows := t.rows ++ [id], created := t.created + 1 }
  else { t with gone := t.gone ++ [id], missing := t.missing + 1 }

def known (s : SyncState) (messageIds : List String) : List String := s.rows.filter (· ∈ messageIds)

def toFetch (s : SyncState) (messageIds : List String) : List String :=
  messageIds.filter (· ∉ known s messageIds)

def ingestAll (available : String → Bool) (s : SyncState) (messageIds : List String) : Tally :=
  (toFetch s messageIds).foldl (ingestOne available)
    ⟨s.rows, s.gone, 0, (known s messageIds).length, 0⟩

/-- `collected.add`: a set keeps the order of insertion. -/
def addId (collected : List String) (id : String) : List String :=
  if id ∈ collected then collected else collected ++ [id]

inductive Collected where
  | cursorInvalid
  | done (ids : List String) (nextCursor : ℕ)

/-- The do-while loop of `incrementalSync`. -/
def collect (list : Option ℕ → MessageChangePage) : ℕ → List String → ℕ → Option ℕ → Option Collected
  | 0, _, _, _ => none
  | fuel + 1, collected, nextCursor, pageToken =>
    let page := list pageToken
    if page.cursorInvalid then some .cursorInvalid
    else
      let collected := page.messageIds.foldl addId collected
      let nextCursor := page.cursor.getD nextCursor
      match page.nextPageToken with
      | some token =>
        if collected.length < maxIdsPerRun then collect list fuel collected nextCursor (some token)
        else some (.done collected nextCursor)
      | none => some (.done collected nextCursor)

inductive SyncMode where
  | initial | incremental
  deriving DecidableEq

structure SyncOutcome where
  mode : SyncMode
  fetched : ℕ
  created : ℕ
  skipped : ℕ
  gone : ℕ
  deriving DecidableEq

/-- The ids are ingested, then the cursor is stored. -/
def ingestThenStore (available : String → Bool) (s : SyncState) (mode : SyncMode)
    (ids : List String) (cursor : ℕ) :
    SyncState × SyncOutcome :=
  let t := ingestAll available s ids
  ({ s with rows := t.rows, gone := t.gone, syncCursor := some cursor },
    ⟨mode, (toFetch s ids).length, t.created, t.skipped, t.missing⟩)

def initialSync (provider : MailProvider) (available : String → Bool) (s : SyncState) :
    SyncState × SyncOutcome :=
  ingestThenStore available s .initial (listMessageIds s.box initialBatch) (getProfile provider s.box)

def incrementalSync (provider : MailProvider) (pageSize : ℕ) (available : String → Bool)
    (s : SyncState) (cursor : ℕ) :
    Option (SyncState × SyncOutcome) :=
  (collect (listChangedMessageIds provider pageSize s.box cursor) (s.box.log.length + 1)
    [] cursor none).map fun
    | .cursorInvalid => initialSync provider available { s with syncCursor := none }
    | .done ids nextCursor => ingestThenStore available s .incremental ids nextCursor

/-- A run of `syncAccount` that succeeds. -/
def syncAccount (provider : MailProvider) (pageSize : ℕ) (available : String → Bool)
    (s : SyncState) :
    Option (SyncState × SyncOutcome) :=
  match s.syncCursor with
  | some cursor => incrementalSync provider pageSize available s cursor
  | none => some (initialSync provider available s)

/-! ### Runs -/

inductive SyncAct where
  | arrive (m : Mail)
  | delete (id : String)
  /-- The clock moves on without new mail. -/
  | tick (clock : ℕ)
  /-- Gmail forgets history before `floor`. -/
  | forget (floor : ℕ)
  /-- A successful run, with the messages that are still there when it comes to fetch them. -/
  | sync (available : String → Bool)

def syncStep (provider : MailProvider) (pageSize : ℕ) (s : SyncState) : SyncAct → Option SyncState
  | .arrive m =>
    if h : m.id ∉ s.box.log.map (·.id) ∧ admits provider s.box.clock m.stamp = true then
      some { s with box := s.box.deliver m h.1 (le_of_admits h.2) }
    else none
  | .delete id =>
    if h : id ∈ s.box.log.map (·.id) then some { s with box := s.box.delete id h } else none
  | .tick clock =>
    if h : s.box.clock ≤ clock then
      some { s with box :=
        { s.box with clock, le_clock := fun m hm => Nat.le_trans (s.box.le_clock m hm) h } }
    else none
  | .forget floor => some { s with box := { s.box with floor } }
  | .sync available => (syncAccount provider pageSize available s).map (·.1)

end Finlytic.EmailIngestion
