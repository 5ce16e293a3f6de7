import Finlytic.EmailIngestion.NoGap

/-! One attempt of `syncAccount`, a request or a statement at a time. The attempt may
throw at any of them, and the mailbox goes on living in between: mail comes, history
is forgotten, messages are deleted. -/

namespace Finlytic.EmailIngestion

open Lib

/-- What the attempt does next. -/
inductive SyncCall where
  | find
  | connect (syncCursor : Option ℕ)
  | listChanged (cursor : ℕ) (collected : List String) (nextCursor : ℕ) (pageToken : Option ℕ)
  | clearCursor
  | profile
  | listBatch (cursor : ℕ)
  | dedupe (mode : SyncMode) (cursor : ℕ) (messageIds : List String)
  | fetch (cursor : ℕ) (counts : SyncOutcome) (id : String) (rest : List String)
  | ingest (cursor : ℕ) (counts : SyncOutcome) (id : String) (rest : List String)
  | store (cursor : ℕ) (counts : SyncOutcome)
  | done (outcome : SyncOutcome)
  | threw

/-- An attempt on an account. Two histories go along: the ids it asked the provider
for, and whether the provider has answered `cursorInvalid`. -/
structure Attempt where
  state : SyncState
  call : SyncCall
  fetched : List String
  invalid : Bool

def startAttempt (s : SyncState) : Attempt := ⟨s, .find, [], false⟩

/-- The head of the loop of `ingestAll`. -/
def fetchNext (cursor : ℕ) (counts : SyncOutcome) : List String → SyncCall
  | [] => .store cursor counts
  | id :: rest => .fetch cursor counts id rest

/-- The unique row that `ingest` leaves behind. -/
def addRow (s : SyncState) (id : String) : SyncState :=
  if id ∈ s.rows then s else { s with rows := s.rows ++ [id] }

def countIngest (s : SyncState) (id : String) (counts : SyncOutcome) : SyncOutcome :=
  if id ∈ s.rows then { counts with skipped := counts.skipped + 1 }
  else { counts with created := counts.created + 1 }

variable (provider : MailProvider) (pageSize : ℕ)

/-- The next page of the loop of `incrementalSync`. -/
def takePage (page : MessageChangePage) (cursor : ℕ) (collected : List String) (nextCursor : ℕ) :
    SyncCall :=
  let collected := page.messageIds.foldl addId collected
  let nextCursor := page.cursor.getD nextCursor
  match page.nextPageToken with
  | some token =>
    if collected.length < maxIdsPerRun then .listChanged cursor collected nextCursor (some token)
    else .dedupe .incremental nextCursor collected
  | none => .dedupe .incremental nextCursor collected

/-- The request or statement succeeds. -/
def proceed (a : Attempt) : Option Attempt :=
  match a.call with
  | .find => some { a with call := .connect a.state.syncCursor }
  | .connect (some cursor) => some { a with call := .listChanged cursor [] cursor none }
  | .connect none => some { a with call := .profile }
  | .listChanged cursor collected nextCursor pageToken =>
    let page := listChangedMessageIds provider pageSize a.state.box cursor pageToken
    if page.cursorInvalid then some { a with call := .clearCursor, invalid := true }
    else some { a with call := takePage page cursor collected nextCursor }
  | .clearCursor => some { a with state := { a.state with syncCursor := none }, call := .profile }
  | .profile => some { a with call := .listBatch (getProfile provider a.state.box) }
  | .listBatch cursor =>
    some { a with call := .dedupe .initial cursor (listMessageIds a.state.box initialBatch) }
  | .dedupe mode cursor messageIds =>
    let ids := toFetch a.state messageIds
    some { a with
      call := fetchNext cursor ⟨mode, ids.length, 0, (known a.state messageIds).length, 0⟩ ids }
  | .fetch cursor counts id rest =>
    if id ∈ a.state.box.deleted then
      some { a with
        state := { a.state with gone := a.state.gone ++ [id] }
        call := fetchNext cursor { counts with gone := counts.gone + 1 } rest
        fetched := a.fetched ++ [id] }
    else some { a with call := .ingest cursor counts id rest, fetched := a.fetched ++ [id] }
  | .ingest cursor counts id rest =>
    some { a with state := addRow a.state id, call := fetchNext cursor (countIngest a.state id counts) rest }
  | .store cursor counts => some { a with state := { a.state with syncCursor := some cursor }, call := .done counts }
  | .done _ => none
  | .threw => none

/-- The request or statement fails. The answer of a write that was made may be lost,
but a failed write of the new cursor is one that was not made. -/
def throwAt (written : Bool) (a : Attempt) : Option Attempt :=
  match a.call with
  | .clearCursor =>
    some { a with state := if written then { a.state with syncCursor := none } else a.state, call :=
      .threw }
  | .fetch _ _ id _ => some { a with call := .threw, fetched := a.fetched ++ [id] }
  | .ingest _ _ id _ =>
    some { a with state := if written then addRow a.state id else a.state, call := .threw }
  | .done _ => none
  | .threw => none
  | _ => some { a with call := .threw }

inductive AttemptAct where
  | proceed
  | throw (written : Bool)
  | mailbox (act : SyncAct)

def attemptStep (a : Attempt) : AttemptAct → Option Attempt
  | .proceed => proceed provider pageSize a
  | .throw written => throwAt written a
  | .mailbox (.sync _) => none
  | .mailbox act => (syncStep provider pageSize a.state act).map fun s => { a with state := s }

/-- The mailbox stays as it is. -/
def AttemptAct.Still : AttemptAct → Prop
  | .proceed => True
  | .throw _ => True
  | _ => False

/-! ### The loop of `incrementalSync` -/

/-- A page takes the attempt where it takes the loop of `incrementalSync`. -/
theorem collect_page {list : Option ℕ → MessageChangePage} {pageToken : Option ℕ} (fuel c : ℕ)
    (collected : List String) (nextCursor : ℕ) (hvalid : (list pageToken).cursorInvalid = false) :
    (∃ token ids next, takePage (list pageToken) c collected nextCursor =
      .listChanged c ids next token ∧
      collect list (fuel + 1) collected nextCursor pageToken = collect list fuel ids next token) ∨
    ∃ ids next, takePage (list pageToken) c collected nextCursor = .dedupe .incremental next ids ∧
      collect list (fuel + 1) collected nextCursor pageToken = some (.done ids next) := by
  simp only [takePage, collect, hvalid, Bool.false_eq_true, if_false]
  cases (list pageToken).nextPageToken with
  | none => exact .inr ⟨_, _, rfl, rfl⟩
  | some token =>
    simp only
    split_ifs
    · exact .inl ⟨_, _, _, rfl, rfl⟩
    · exact .inr ⟨_, _, rfl, rfl⟩

/-! ### The loop of `ingestAll` -/

section Loop

variable {s : SyncState} {a b : Attempt} {id x : String} {rest : List String}

/-- What an attempt ingests, and the cursor it stores then. -/
structure Plan where
  mode : SyncMode
  messageIds : List String
  cursor : ℕ

def initialPlan (provider : MailProvider) (box : Mailbox) : Plan :=
  ⟨.initial, listMessageIds box initialBatch, getProfile provider box⟩

/-- The ids of the plan that are still to be dealt with; none of them had a row. -/
def Left (s : SyncState) (plan : Plan) (a : Attempt) (todo : List String) : Prop :=
  (∀ x ∈ plan.messageIds, x ∈ a.state.rows ∨ x ∈ a.state.box.deleted ∨ x ∈ todo) ∧ ∀ x ∈ todo,
    x ∈ plan.messageIds ∧ x ∉ s.rows

variable {plan : Plan}

theorem mem_addRow : x ∈ (addRow s id).rows ↔ x ∈ s.rows ∨ x = id := by
  unfold addRow
  split_ifs with hin
  · constructor
    · exact .inl
    · rintro (hx | rfl)
      · exact hx
      · exact hin
  · rw [List.mem_append, List.mem_singleton]

@[simp] theorem addRow_box : (addRow s id).box = s.box := by
  unfold addRow
  split_ifs <;> rfl

@[simp] theorem addRow_syncCursor : (addRow s id).syncCursor = s.syncCursor := by
  unfold addRow
  split_ifs <;> rfl

/-- An id is dealt with: it has got its row, or it is gone. -/
theorem Left.settle (h : Left s plan a (id :: rest))
    (hrows : ∀ x ∈ a.state.rows, x ∈ b.state.rows) (hbox : b.state.box = a.state.box)
    (hid : id ∈ b.state.rows ∨ id ∈ a.state.box.deleted) : Left s plan b rest := by
  obtain ⟨hall, htodo⟩ := h
  refine ⟨fun x hx => ?_, fun x hx => htodo x (List.mem_cons_of_mem _ hx)⟩
  rw [hbox]
  rcases hall x hx with hrow | hgone | htodo
  · exact .inl (hrows x hrow)
  · exact .inr (.inl hgone)
  · rcases List.mem_cons.mp htodo with rfl | hrest
    · exact hid.imp_right .inl
    · exact .inr (.inr hrest)

/-- After the listing, the plan's ids without a row are the ones to be fetched. -/
theorem left_toFetch (hkept : ∀ x ∈ s.rows, x ∈ a.state.rows) :
    Left s plan a (toFetch a.state plan.messageIds) := by
  refine ⟨fun x hx => ?_, fun x hx => ?_⟩
  · by_cases hrow : x ∈ a.state.rows
    · exact .inl hrow
    · exact .inr (.inr (List.mem_filter.mpr ⟨hx, by simp [known, hrow]⟩))
  · obtain ⟨hid, hnot⟩ := List.mem_filter.mp hx
    refine ⟨hid, fun hrow => ?_⟩
    simp [known, hkept x hrow, hid] at hnot

end Loop

end Finlytic.EmailIngestion
