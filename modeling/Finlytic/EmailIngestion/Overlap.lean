import Finlytic.EmailIngestion.SyncAttempt

/-! Attempts of `syncAccount` that overlap. Two workers may take jobs of one account
at the same time: each works on the cursor that it read, lists its own pages while
mail comes in, and stores its own cursor in the end, whichever is newer. Every
request and statement is one step; it may fail, and its answer may be lost. -/

namespace Finlytic.EmailIngestion

open Lib

/-! ### The attempts -/

inductive Fate where
  | ok
  | failed
  /-- It took effect, and the answer was lost. -/
  | lost

section Program

variable (provider : MailProvider) (pageSize : ℕ)

/-- One request or statement of an attempt, as in an attempt that is alone. -/
def advance (s : SyncState) (c : SyncCall) : Option (SyncState × SyncCall) :=
  (proceed provider pageSize ⟨s, c, [], false⟩).map fun a => (a.state, a.call)

def overlapStatement (s : SyncState) (c : SyncCall) : Fate → Option (SyncState × SyncCall)
  | .ok => advance provider pageSize s c
  | .failed => (advance provider pageSize s c).map fun _ => (s, .threw)
  | .lost => (advance provider pageSize s c).map fun next => (next.1, .threw)

/-- What the mailbox does on its own. -/
def outside (s : SyncState) : SyncAct → Option SyncState
  | .sync _ => none
  | act => syncStep provider pageSize s act

/-- Attempts on one account, which share its state. -/
def overlapping : Program SyncState Unit SyncCall Fate SyncAct where
  start _ := .find
  statement := overlapStatement provider pageSize
  environment := outside provider pageSize

end Program

/-! ### What a listing leaves out -/

/-- Gmail's history after a cursor. -/
def history (box : Mailbox) (cursor : ℕ) : List Mail :=
  box.log.filter fun m => decide (cursor < m.stamp)

/-- The messages on the pages from this token on. -/
def upcoming (provider : MailProvider) (box : Mailbox) (cursor : ℕ) (pageToken : Option ℕ) :
    List Mail :=
  match provider with
  | .ZOHO => box.present.reverse.drop (pageToken.getD 1 - 1)
  | .GMAIL => (history box cursor).drop (pageToken.getD 0)

/-- The messages behind a page that is the last one to be read although there are more,
and those behind the first batch. -/
def leftOut (provider : MailProvider) (pageSize : ℕ) (box : Mailbox) : SyncCall → List Mail
  | .listChanged cursor collected _ pageToken =>
    let page := listChangedMessageIds provider pageSize box cursor pageToken
    match page.nextPageToken with
    | some token =>
      if (page.messageIds.foldl addId collected).length < maxIdsPerRun then []
      else upcoming provider box cursor (some token)
    | none => []
  | .listBatch _ => box.present.reverse.drop initialBatch
  | _ => []

/-- What the step leaves out has been dealt with, as far as it exists and came after the first
cursor. -/
def LeavesNothing (provider : MailProvider) (pageSize first : ℕ) (s : SyncState) (c : SyncCall) :
    Prop :=
  ∀ m ∈ leftOut provider pageSize s.box c, m.id ∈ s.box.deleted ∨ covered provider first m ∨
    Handled s m

instance (provider : MailProvider) (c : ℕ) (m : Mail) : Decidable (covered provider c m) :=
  match provider with
  | .ZOHO => inferInstanceAs (Decidable (m.stamp < c))
  | .GMAIL => inferInstanceAs (Decidable (m.stamp ≤ c))

instance (provider : MailProvider) (pageSize first : ℕ) (s : SyncState) (c : SyncCall) :
    Decidable (LeavesNothing provider pageSize first s c) :=
  inferInstanceAs (Decidable (∀ m ∈ leftOut provider pageSize s.box c,
    m.id ∈ s.box.deleted ∨ covered provider first m ∨ Handled s m))

/-! ### Pages -/

variable {provider : MailProvider} {pageSize first cursor nextCursor : ℕ} {box : Mailbox}
  {s s' u v : SyncState} {c c' : SyncCall} {m n : Mail} {pageToken : Option ℕ}
  {collected ids : List String}

theorem mem_foldl_addId {x : String} : x ∈ ids.foldl addId collected ↔ x ∈ collected ∨ x ∈ ids := by
  induction ids generalizing collected with
  | nil => simp
  | cons id ids ih =>
    have hstep : x ∈ addId collected id ↔ x ∈ collected ∨ x = id := by
      unfold addId
      split_ifs with hin
      · constructor
        · exact .inl
        · rintro (hx | rfl)
          · exact hx
          · exact hin
      · rw [List.mem_append, List.mem_singleton]
    rw [List.foldl_cons, ih, hstep, List.mem_cons, or_assoc]

theorem mem_of_mem_drop_le {α : Type} {l : List α} {x : α} {j k : ℕ} (hjk : j ≤ k)
    (hx : x ∈ l.drop k) : x ∈ l.drop j := by
  obtain ⟨d, rfl⟩ := Nat.exists_eq_add_of_le hjk
  rw [← List.drop_drop] at hx
  exact List.mem_of_mem_drop hx

/-- Behind a message that is older than the cursor there are only older ones. -/
theorem old_of_behind {l : List Mail} (hsorted : l.Pairwise fun m n => n.stamp ≤ m.stamp) {k : ℕ}
    (hm : m ∈ l.take k) (hold : m.stamp < cursor) (hn : n ∈ l.drop k) : n.stamp < cursor := by
  rw [← List.take_append_drop k l] at hsorted
  exact Nat.lt_of_le_of_lt ((List.pairwise_append.mp hsorted).2.2 m hm n hn) hold

theorem exists_not_of_filter_length_ne {α : Type} {p : α → Bool} {l : List α}
    (h : (l.filter p).length ≠ l.length) :
    ∃ x ∈ l, ¬ p x = true := by
  by_contra hall
  apply h
  rw [List.filter_eq_self.mpr]
  intro x hx
  by_contra hp
  exact hall ⟨x, hx, hp⟩

/-- A page of Zoho that is not full of new messages has only old ones behind it. -/
theorem zoho_last_page {l : List Mail} (hsorted : l.Pairwise fun m n => n.stamp ≤ m.stamp)
    (hlast : ¬ (((l.take 200).filter fun m => decide (cursor ≤ m.stamp)).length =
      (l.take 200).length ∧ (l.take 200).length = 200))
    (hm : m ∈ l.drop 200) : m.stamp < cursor := by
  by_cases hfresh : ((l.take 200).filter fun m => decide (cursor ≤ m.stamp)).length =
    (l.take 200).length
  · have hlen : (l.take 200).length ≠ 200 := fun h => hlast ⟨hfresh, h⟩
    rw [List.length_take] at hlen
    rw [List.drop_eq_nil_of_le (by omega)] at hm
    cases hm
  · obtain ⟨n, hn, hold⟩ := exists_not_of_filter_length_ne hfresh
    rw [decide_eq_true_eq, Nat.not_le] at hold
    exact old_of_behind hsorted hn hold hm

/-- What is still to come is on the page or comes after it, unless it has been listed before. -/
theorem page_splits
    (hvalid : (listChangedMessageIds provider pageSize box cursor pageToken).cursorInvalid = false)
    (hm : m ∈ upcoming provider box cursor pageToken) : covered provider cursor m ∨
      m.id ∈ (listChangedMessageIds provider pageSize box cursor pageToken).messageIds ∨
      ∃ token, (listChangedMessageIds provider pageSize box cursor pageToken).nextPageToken =
        some token ∧
        m ∈ upcoming provider box cursor (some token) := by
  cases provider with
  | ZOHO =>
    simp only [upcoming] at hm
    have hsorted : (box.present.reverse.drop (pageToken.getD 1 - 1)).Pairwise fun m n =>
        n.stamp ≤ m.stamp :=
      (List.pairwise_reverse.mpr (box.sorted.filter _)).sublist (List.drop_sublist _ _)
    by_cases hold : m.stamp < cursor
    · exact .inl hold
    · right
      rcases mem_take_or_mem_drop 200 hm with hin | hout
      · exact .inl
          (List.mem_map.mpr
          ⟨m, List.mem_filter.mpr ⟨hin, decide_eq_true (Nat.le_of_not_lt hold)⟩, rfl⟩)
      · have hfull : ¬ ¬ _ := fun hlast => hold (zoho_last_page hsorted hlast hout)
        rw [List.drop_drop] at hout
        exact .inr ⟨_, if_pos (not_not.mp hfull),
          mem_of_mem_drop_le (by simp only [Option.getD_some]; omega) hout⟩
  | GMAIL =>
    have hfloor : ¬ cursor < box.floor := by
      intro hlt
      simp only [listChangedMessageIds, gmailListChanged, if_pos hlt] at hvalid
      cases hvalid
    simp only [upcoming] at hm
    simp only [listChangedMessageIds, gmailListChanged, if_neg hfloor]
    rcases mem_take_or_mem_drop pageSize hm with hin | hout
    · exact .inr (.inl (List.mem_map.mpr ⟨m, hin, rfl⟩))
    · rw [List.drop_drop] at hout
      have hlt : pageToken.getD 0 + pageSize < (history box cursor).length := by
        by_contra hge
        rw [List.drop_eq_nil_of_le (Nat.le_of_not_lt hge)] at hout
        cases hout
      exact .inr (.inr ⟨_, if_pos hlt, hout⟩)

/-- Before the first page every message that exists is still to come, or older than the cursor. -/
theorem covered_or_upcoming (hm : m ∈ box.present) :
    covered provider cursor m ∨ m ∈ upcoming provider box cursor none := by
  cases provider with
  | ZOHO => exact .inr (List.mem_reverse.mpr hm)
  | GMAIL =>
    by_cases hcov : m.stamp ≤ cursor
    · exact .inl hcov
    · exact .inr (List.mem_filter.mpr ⟨(mem_present.mp hm).1, decide_eq_true (Nat.lt_of_not_le hcov)⟩)

theorem newest_le {start limit : ℕ} :
    ∀ newest ∈ (view box start limit).head?, newest.stamp ≤ box.clock := by
  intro newest hhead
  have hmem : newest ∈ box.present.reverse :=
    List.mem_of_mem_drop (List.mem_of_mem_take (List.mem_of_mem_head? hhead))
  exact box.le_clock newest (mem_present.mp (List.mem_reverse.mp hmem)).1

/-- A cursor that a page gives is not ahead of the mailbox. -/
theorem page_cursor_le (hnext : nextCursor ≤ box.clock) :
    (listChangedMessageIds provider pageSize box cursor pageToken).cursor.getD nextCursor ≤
      box.clock := by
  cases provider with
  | ZOHO =>
    simp only [listChangedMessageIds, zohoListChanged]
    split_ifs with hstart
    · cases hhead : (view box (pageToken.getD 1) 200).head? with
      | none => exact hnext
      | some newest => exact newest_le newest hhead
    · exact hnext
  | GMAIL =>
    by_cases hfloor : cursor < box.floor
    · simp only [listChangedMessageIds, gmailListChanged, if_pos hfloor]
      exact hnext
    · simp only [listChangedMessageIds, gmailListChanged, if_neg hfloor]
      exact Nat.le_refl _

theorem getProfile_le (provider : MailProvider) (box : Mailbox) :
    getProfile provider box ≤ box.clock := by
  cases provider with
  | ZOHO =>
    simp only [getProfile]
    cases hhead : (view box 1 1).head? with
    | none => exact Nat.zero_le _
    | some newest => exact newest_le newest hhead
  | GMAIL => exact Nat.le_refl _

/-- Zoho's first page is the last one that is read: when there are more, it has met the cap. -/
theorem zoho_one_page
    (htoken : (listChangedMessageIds .ZOHO pageSize box cursor none).nextPageToken ≠ none) :
    ¬ ((listChangedMessageIds .ZOHO pageSize box cursor none).messageIds.foldl addId []).length <
      maxIdsPerRun := by
  have hview : view box 1 200 = box.present.reverse.take 200 := by simp [view]
  have hnodup : ((freshPage box cursor).map (·.id)).Nodup :=
    nodup_map_sublist (List.filter_sublist.trans (List.take_sublist _ _))
  have hids : ((freshPage box cursor).map (·.id)).foldl addId [] = (freshPage box cursor).map (·.id) :=
    foldl_addId_of_nodup hnodup
  simp only [listChangedMessageIds, zohoListChanged, Option.getD_none, hview] at htoken ⊢
  rw [ne_eq, ite_eq_right_iff, not_forall] at htoken
  obtain ⟨⟨hfresh, hfull⟩, -⟩ := htoken
  unfold freshPage at hids
  rw [hids, List.length_map, hfresh, hfull]
  decide

/-! ### What an attempt knows -/

/-- No message that exists between the first cursor and this one is missing, apart from these
ids. -/
structure Planned (provider : MailProvider) (first : ℕ) (s : SyncState) (cursor : ℕ)
    (ids : List String) : Prop where
  le_clock : cursor ≤ s.box.clock
  all : ∀ m ∈ s.box.present, ¬ covered provider first m → covered provider cursor m → Handled s m ∨
    m.id ∈ ids

/-- Within the loop: a message that exists is before the cursor, collected, or still to come on a
page. -/
structure Paged (provider : MailProvider) (s : SyncState) (cursor : ℕ) (collected : List String)
    (nextCursor : ℕ) (pageToken : Option ℕ) : Prop where
  le_clock : nextCursor ≤ s.box.clock
  inside : provider = .GMAIL → pageToken.getD 0 ≤ (history s.box cursor).length
  /-- Zoho's positions move when mail comes or goes, but only the first page is read. -/
  fresh : provider = .ZOHO → pageToken = none ∧ collected = []
  all : ∀ m ∈ s.box.present, covered provider cursor m ∨ m.id ∈ collected ∨
    m ∈ upcoming provider s.box cursor pageToken

/-- The stored cursor leaves nothing out. -/
def CursorSound (provider : MailProvider) (first : ℕ) (s : SyncState) : Prop :=
  ∀ c, s.syncCursor = some c → Planned provider first s c []

def SyncKnows (provider : MailProvider) (first : ℕ) (s : SyncState) : SyncCall → Prop
  | .connect (some cursor) => Planned provider first s cursor []
  | .listChanged cursor collected nextCursor pageToken =>
    Planned provider first s cursor [] ∧ Paged provider s cursor collected nextCursor pageToken
  | .listBatch cursor => cursor ≤ s.box.clock
  | .dedupe _ cursor ids => Planned provider first s cursor ids
  | .fetch cursor _ id rest => Planned provider first s cursor (id :: rest)
  | .ingest cursor _ id rest => Planned provider first s cursor (id :: rest)
  | .store cursor _ => Planned provider first s cursor []
  | _ => True

/-! ### What the others do in the meantime -/

/-- What is dealt with stays so, new mail is new, and what was deleted stays so. -/
structure Later (provider : MailProvider) (s t : SyncState) : Prop where
  handled : ∀ m, Handled s m → Handled t m
  clock : s.box.clock ≤ t.box.clock
  log : t.box.log = s.box.log ∨ ∃ n, t.box.log = s.box.log ++ [n] ∧
    admits provider s.box.clock n.stamp = true
  deleted : s.box.deleted ⊆ t.box.deleted

theorem later_of_box (hbox : v.box = u.box) (hh : ∀ m, Handled u m → Handled v m) :
    Later provider u v :=
  ⟨hh, Nat.le_of_eq (by rw [hbox]), .inl (by rw [hbox]), by rw [hbox]; exact List.Subset.refl _⟩

theorem Later.refl (u : SyncState) : Later provider u u := later_of_box rfl fun _ h => h

/-- A message that exists later did before, or no cursor of before covers it. -/
theorem Later.mem_present (h : Later provider u v) (hm : m ∈ v.box.present) :
    m ∈ u.box.present ∨ v.box.log = u.box.log ++ [m] ∧ admits provider u.box.clock m.stamp =
      true := by
  obtain ⟨hlog, hexists⟩ := EmailIngestion.mem_present.mp hm
  have hbefore : m.id ∉ u.box.deleted := fun hin => hexists (h.deleted hin)
  rcases h.log with heq | ⟨n, heq, hn⟩
  · exact .inl (EmailIngestion.mem_present.mpr ⟨heq ▸ hlog, hbefore⟩)
  · rw [heq] at hlog
    rcases List.mem_append.mp hlog with hold | hnew
    · exact .inl (EmailIngestion.mem_present.mpr ⟨hold, hbefore⟩)
    · obtain rfl := List.mem_singleton.mp hnew
      exact .inr ⟨heq, hn⟩

theorem Planned.later (h : Planned provider first u cursor ids) (hl : Later provider u v) :
    Planned provider first v cursor ids := by
  refine ⟨Nat.le_trans h.le_clock hl.clock, fun m hm hfirst hcov => ?_⟩
  rcases hl.mem_present hm with hm | ⟨-, hn⟩
  · exact (h.all m hm hfirst hcov).imp_left (hl.handled m)
  · exact absurd hcov (not_covered_of_admits h.le_clock hn)

/-- Mail that comes is at the end of Gmail's history. -/
theorem history_append (hlog : v.box.log = u.box.log ++ [n]) (hlt : cursor < n.stamp) :
    history v.box cursor = history u.box cursor ++ [n] := by
  unfold history
  rw [hlog, List.filter_append]
  simp [hlt]

/-- Gmail's history keeps its order. -/
theorem history_later (hc : cursor ≤ u.box.clock) (hl : Later .GMAIL u v) :
    history v.box cursor = history u.box cursor ∨ ∃ n, v.box.log = u.box.log ++ [n] ∧
      history v.box cursor = history u.box cursor ++ [n] := by
  rcases hl.log with hlog | ⟨n, hlog, hn⟩
  · left
    rw [history, hlog]
    rfl
  · exact .inr ⟨n, hlog, history_append hlog (Nat.lt_of_le_of_lt hc (of_decide_eq_true hn))⟩

/-- What is still to come stays so, as long as it exists. -/
theorem upcoming_later (hc : cursor ≤ u.box.clock) (hl : Later provider u v)
    (hfresh : provider = .ZOHO → pageToken = none) (hexists : m ∈ v.box.present)
    (hm : m ∈ upcoming provider u.box cursor pageToken) :
    m ∈ upcoming provider v.box cursor pageToken := by
  cases provider with
  | ZOHO =>
    rw [hfresh rfl]
    exact List.mem_reverse.mpr hexists
  | GMAIL =>
    simp only [upcoming] at hm ⊢
    rcases history_later hc hl with heq | ⟨n, -, heq⟩
    · rwa [heq]
    · rw [heq, List.drop_append]
      exact List.mem_append_left _ hm

/-- New mail is on the pages that are still to come. -/
theorem Paged.later (h : Paged provider u cursor collected nextCursor pageToken)
    (hc : cursor ≤ u.box.clock) (hl : Later provider u v) :
    Paged provider v cursor collected nextCursor pageToken := by
  refine ⟨Nat.le_trans h.le_clock hl.clock, ?_, h.fresh, fun m hm => ?_⟩
  · rintro rfl
    rcases history_later hc hl with heq | ⟨n, -, heq⟩
    · rw [heq]
      exact h.inside rfl
    · rw [heq, List.length_append]
      exact Nat.le_trans (h.inside rfl) (Nat.le_add_right _ _)
  · rcases hl.mem_present hm with hold | ⟨hlog, hn⟩
    · exact (h.all m hold).imp_right
        (Or.imp_right (upcoming_later hc hl (fun hp => (h.fresh hp).1) hm))
    · refine .inr (.inr ?_)
      cases provider with
      | ZOHO =>
        rw [(h.fresh rfl).1]
        exact List.mem_reverse.mpr hm
      | GMAIL =>
        simp only [upcoming, history_append hlog (Nat.lt_of_le_of_lt hc (of_decide_eq_true hn))]
        rw [List.drop_append_of_le_length (h.inside rfl)]
        exact List.mem_append_right _ (List.mem_singleton_self m)

theorem SyncKnows.later (h : SyncKnows provider first u c) (hl : Later provider u v) :
    SyncKnows provider first v c := by
  cases c with
  | connect syncCursor =>
    cases syncCursor with
    | none => trivial
    | some cursor => exact Planned.later h hl
  | listChanged cursor collected nextCursor pageToken =>
    exact ⟨h.1.later hl, h.2.later h.1.le_clock hl⟩
  | listBatch cursor => exact Nat.le_trans h hl.clock
  | dedupe mode cursor ids => exact Planned.later h hl
  | fetch cursor counts id rest => exact Planned.later h hl
  | ingest cursor counts id rest => exact Planned.later h hl
  | store cursor counts => exact Planned.later h hl
  | _ => trivial

theorem CursorSound.later (h : CursorSound provider first u) (hl : Later provider u v)
    (hc : v.syncCursor = u.syncCursor) : CursorSound provider first v := by
  intro c hcur
  rw [hc] at hcur
  exact (h c hcur).later hl

/-! ### One step -/

/-- An id is dealt with. -/
theorem Planned.settle {id : String} {rest : List String}
    (h : Planned provider first u cursor (id :: rest)) (hl : Later provider u v)
    (hbox : v.box = u.box) (hid : ∀ m, m.id = id → Handled v m) :
    Planned provider first v cursor rest := by
  refine ⟨Nat.le_trans h.le_clock hl.clock, fun m hm hfirst hcov => ?_⟩
  rw [hbox] at hm
  rcases h.all m hm hfirst hcov with hdone | hin
  · exact .inl (hl.handled m hdone)
  · rcases List.mem_cons.mp hin with heq | hrest
    · exact .inl (hid m heq)
    · exact .inr hrest

theorem syncKnows_fetchNext {counts : SyncOutcome} (h : Planned provider first u cursor ids) :
    SyncKnows provider first u (fetchNext cursor counts ids) := by
  cases ids with
  | nil => exact h
  | cons id rest => exact h

/-- Ids that have a row already need no fetch. -/
theorem Planned.toFetch (h : Planned provider first u cursor ids) :
    Planned provider first u cursor (toFetch u ids) := by
  refine ⟨h.le_clock, fun m hm hfirst hcov => ?_⟩
  rcases h.all m hm hfirst hcov with hdone | hin
  · exact .inl hdone
  · by_cases hrow : m.id ∈ u.rows
    · exact .inl (.inl hrow)
    · exact .inr (List.mem_filter.mpr ⟨hin, by simp [known, hrow]⟩)

/-- The batch of a fresh start, whatever cursor was taken before it. -/
theorem planned_batch (hc : cursor ≤ u.box.clock)
    (hleft : ∀ m ∈ u.box.present.reverse.drop initialBatch, m.id ∈ u.box.deleted ∨
      covered provider first m ∨ Handled u m) :
    Planned provider first u cursor (listMessageIds u.box initialBatch) := by
  refine ⟨hc, fun m hm hfirst _ => ?_⟩
  rcases listed_or_older initialBatch hm with hin | hout
  · exact .inr hin
  · exact .inl (((hleft m hout).resolve_left (mem_present.mp hm).2).resolve_left hfirst)

/-! ### One page -/

/-- After the page, by where the message was before it. -/
theorem Paged.page (h : Paged provider u cursor collected nextCursor pageToken)
    (hvalid : (listChangedMessageIds provider pageSize u.box cursor pageToken).cursorInvalid =
      false)
    (hm : m ∈ u.box.present) :
    covered provider cursor m ∨
      m.id ∈ (listChangedMessageIds provider pageSize u.box cursor pageToken).messageIds.foldl addId
        collected ∨
      ∃ token, (listChangedMessageIds provider pageSize u.box cursor pageToken).nextPageToken =
        some token ∧
        m ∈ upcoming provider u.box cursor (some token) := by
  rw [mem_foldl_addId]
  rcases h.all m hm with hcov | hin | hpend
  · exact .inl hcov
  · exact .inr (.inl (.inl hin))
  · exact (page_splits hvalid hpend).imp_right (Or.imp_left .inr)

theorem token_inside (hp : provider = .GMAIL) {token : ℕ}
    (ht : (listChangedMessageIds provider pageSize box cursor pageToken).nextPageToken =
      some token) :
    token ≤ (history box cursor).length := by
  subst hp
  by_cases hfloor : cursor < box.floor
  · simp only [listChangedMessageIds, gmailListChanged, if_pos hfloor] at ht
    cases ht
  · simp only [listChangedMessageIds, gmailListChanged, if_neg hfloor] at ht
    split_ifs at ht with hlt
    rw [← Option.some.inj ht]
    exact Nat.le_of_lt hlt

/-- Between the cursor that a page gives and the mailbox there is nothing that the page left to
later ones. -/
theorem takePage_cases (hl : Paged provider u cursor collected nextCursor pageToken)
    (hleft : LeavesNothing provider pageSize first u
      (.listChanged cursor collected nextCursor pageToken)) :
    (∃ token, (listChangedMessageIds provider pageSize u.box cursor pageToken).nextPageToken =
      some token ∧
      provider = .GMAIL ∧ takePage (listChangedMessageIds provider pageSize u.box cursor pageToken)
        cursor collected nextCursor =
        .listChanged cursor
          ((listChangedMessageIds provider pageSize u.box cursor pageToken).messageIds.foldl addId
            collected)
          ((listChangedMessageIds provider pageSize u.box cursor pageToken).cursor.getD nextCursor)
            (some token)) ∨
    (takePage (listChangedMessageIds provider pageSize u.box cursor pageToken) cursor collected
      nextCursor =
        .dedupe .incremental
          ((listChangedMessageIds provider pageSize u.box cursor pageToken).cursor.getD nextCursor)
          ((listChangedMessageIds provider pageSize u.box cursor pageToken).messageIds.foldl addId
            collected) ∧
      ∀ token, (listChangedMessageIds provider pageSize u.box cursor pageToken).nextPageToken =
        some token →
        ∀ m ∈ upcoming provider u.box cursor (some token), m.id ∈ u.box.deleted ∨
          covered provider first m ∨ Handled u m) := by
  unfold LeavesNothing leftOut at hleft
  unfold takePage
  cases htoken : (listChangedMessageIds provider pageSize u.box cursor pageToken).nextPageToken with
  | none =>
    refine .inr ⟨rfl, fun token ht => ?_⟩
    cases ht
  | some token =>
    simp only [htoken] at hleft ⊢
    by_cases hcap :
      ((listChangedMessageIds provider pageSize u.box cursor pageToken).messageIds.foldl addId
      collected).length <
        maxIdsPerRun
    · rw [if_pos hcap]
      refine .inl ⟨token, rfl, ?_, rfl⟩
      cases provider with
      | GMAIL => rfl
      | ZOHO =>
        obtain ⟨rfl, rfl⟩ := hl.fresh rfl
        exact absurd hcap (zoho_one_page (by rw [htoken]; exact Option.some_ne_none token))
    · rw [if_neg hcap] at hleft ⊢
      refine .inr ⟨rfl, fun token' ht => ?_⟩
      obtain rfl := Option.some.inj ht
      exact hleft

/-- A page takes the attempt to the next page or to the ids that it has collected; what the
cap leaves on later pages has been dealt with. -/
theorem syncKnows_takePage (hp : Planned provider first u cursor [])
    (hl : Paged provider u cursor collected nextCursor pageToken)
    (hvalid : (listChangedMessageIds provider pageSize u.box cursor pageToken).cursorInvalid =
      false)
    (hleft : LeavesNothing provider pageSize first u
      (.listChanged cursor collected nextCursor pageToken)) :
    SyncKnows provider first u
      (takePage (listChangedMessageIds provider pageSize u.box cursor pageToken) cursor collected
        nextCursor) := by
  have hle := @page_cursor_le provider pageSize cursor nextCursor u.box pageToken hl.le_clock
  have hpage := fun m hm =>
    @Paged.page provider pageSize cursor nextCursor u m pageToken collected hl hvalid hm
  rcases takePage_cases hl hleft with ⟨token, htoken, hgmail, htake⟩ | ⟨htake, hrest⟩
  · rw [htake]
    refine ⟨hp, hle, fun hg => token_inside hg htoken, fun hz => ?_, fun m hm => ?_⟩
    · rw [hgmail] at hz
      cases hz
    · refine (hpage m hm).imp_right (Or.imp_right ?_)
      rintro ⟨token', ht, hpend⟩
      exact Option.some.inj (htoken.symm.trans ht) ▸ hpend
  · rw [htake]
    refine ⟨hle, fun m hm hfirst _ => ?_⟩
    rcases hpage m hm with hold | hin | ⟨token, ht, hpend⟩
    · exact .inl ((hp.all m hm hfirst hold).resolve_right List.not_mem_nil)
    · exact .inr hin
    · exact .inl (((hrest token ht m hpend).resolve_left (mem_present.mp hm).2).resolve_left hfirst)

/-! ### One statement -/

theorem handled_addRow {id : String} (hm : Handled u m) : Handled (addRow u id) m := by
  rcases hm with hrow | hgone
  · exact .inl (mem_addRow.mpr (.inl hrow))
  · right
    unfold addRow
    split_ifs <;> exact hgone

theorem advance_spec (hI : CursorSound provider first s) (hJ : SyncKnows provider first s c)
    (hok : LeavesNothing provider pageSize first s c)
    (h : advance provider pageSize s c = some (s', c')) :
    CursorSound provider first s' ∧ SyncKnows provider first s' c' ∧ Later provider s s' := by
  cases c with
  | find =>
    cases h
    refine ⟨hI, ?_, Later.refl _⟩
    cases hcur : s.syncCursor with
    | none => trivial
    | some cursor => exact hI cursor hcur
  | connect syncCursor =>
    cases syncCursor with
    | none =>
      cases h
      exact ⟨hI, trivial, Later.refl _⟩
    | some cursor =>
      cases h
      refine ⟨hI, ⟨hJ, hJ.le_clock, fun _ => Nat.zero_le _, fun _ => ⟨rfl, rfl⟩, fun m hm => ?_⟩,
        Later.refl _⟩
      exact (covered_or_upcoming hm).imp_right .inr
  | listChanged cursor collected nextCursor pageToken =>
    simp only [advance, proceed] at h
    cases hvalid : (listChangedMessageIds provider pageSize s.box cursor pageToken).cursorInvalid with
    | true =>
      rw [hvalid] at h
      cases h
      exact ⟨hI, trivial, Later.refl _⟩
    | false =>
      rw [hvalid] at h
      cases h
      exact ⟨hI, syncKnows_takePage hJ.1 hJ.2 hvalid hok, Later.refl _⟩
  | clearCursor =>
    cases h
    refine ⟨fun c hc => ?_, trivial, later_of_box rfl fun _ hm => hm⟩
    cases hc
  | profile =>
    cases h
    exact ⟨hI, getProfile_le provider s.box, Later.refl _⟩
  | listBatch cursor =>
    cases h
    exact ⟨hI, planned_batch hJ hok, Later.refl _⟩
  | dedupe mode cursor ids =>
    cases h
    exact ⟨hI, syncKnows_fetchNext hJ.toFetch, Later.refl _⟩
  | fetch cursor counts id rest =>
    simp only [advance, proceed] at h
    split_ifs at h with hgone
    · cases h
      have hl : Later provider s { s with gone := s.gone ++ [id] } :=
        later_of_box rfl fun m hm => hm.imp_right (List.mem_append_left _)
      refine ⟨hI.later hl rfl, syncKnows_fetchNext (hJ.settle hl rfl fun m hid => ?_), hl⟩
      rw [← hid]
      exact .inr (List.mem_append_right _ (List.mem_singleton_self _))
    · cases h
      exact ⟨hI, hJ, Later.refl _⟩
  | ingest cursor counts id rest =>
    cases h
    have hl : Later provider s (addRow s id) := later_of_box addRow_box fun m hm => handled_addRow hm
    refine ⟨hI.later hl addRow_syncCursor,
      syncKnows_fetchNext (hJ.settle hl addRow_box fun m hid => ?_), hl⟩
    exact .inl (mem_addRow.mpr (.inr hid))
  | store cursor counts =>
    cases h
    have hl : Later provider s { s with syncCursor := some cursor } := later_of_box rfl fun _ hm => hm
    refine ⟨fun c hc => ?_, trivial, hl⟩
    obtain rfl := Option.some.inj hc
    exact Planned.later hJ hl
  | done outcome => cases h
  | threw => cases h

theorem overlapStatement_spec {d : Fate} (hI : CursorSound provider first s)
    (hJ : SyncKnows provider first s c) (hok : LeavesNothing provider pageSize first s c)
    (h : overlapStatement provider pageSize s c d = some (s', c')) :
    CursorSound provider first s' ∧ SyncKnows provider first s' c' ∧ Later provider s s' := by
  cases d with
  | ok => exact advance_spec hI hJ hok h
  | failed =>
    obtain ⟨next, -, he⟩ := Option.map_eq_some_iff.mp h
    cases he
    exact ⟨hI, trivial, Later.refl _⟩
  | lost =>
    obtain ⟨⟨t, next⟩, hadv, he⟩ := Option.map_eq_some_iff.mp h
    cases he
    obtain ⟨hI', -, hl⟩ := advance_spec hI hJ hok hadv
    exact ⟨hI', trivial, hl⟩

theorem outside_later {act : SyncAct} (h : outside provider pageSize s act = some s') :
    Later provider s s' ∧ s'.syncCursor = s.syncCursor ∧ s.box.log ⊆ s'.box.log := by
  cases act with
  | sync available => cases h
  | arrive n =>
    simp only [outside, syncStep] at h
    split_ifs at h with hok
    cases h
    refine ⟨⟨fun _ hm => hm, le_of_admits hok.2, .inr ⟨n, rfl, hok.2⟩, List.Subset.refl _⟩, rfl, ?_⟩
    exact List.subset_append_left _ _
  | delete id =>
    simp only [outside, syncStep] at h
    split_ifs at h with hid
    cases h
    exact ⟨⟨fun _ hm => hm, Nat.le_refl _, .inl rfl, List.subset_cons_self _ _⟩,
      rfl, List.Subset.refl _⟩
  | tick clock =>
    simp only [outside, syncStep] at h
    split_ifs at h with hle
    cases h
    exact ⟨⟨fun _ hm => hm, hle, .inl rfl, List.Subset.refl _⟩, rfl, List.Subset.refl _⟩
  | forget floor =>
    cases h
    exact ⟨⟨fun _ hm => hm, Nat.le_refl _, .inl rfl, List.Subset.refl _⟩, rfl, List.Subset.refl _⟩

/-! ### Whole runs -/

/-- Every listing that is cut short leaves only mail that has been dealt with. -/
def ListsEnough (provider : MailProvider) (pageSize first : ℕ) (p : Pool SyncState SyncCall) :
    Action Unit Fate SyncAct → Prop :=
  Program.Allows (LeavesNothing provider pageSize first) p

theorem overlapping_step {p q : Pool SyncState SyncCall} {a : Action Unit Fate SyncAct}
    (hp : p.Holds (CursorSound provider first) (SyncKnows provider first))
    (hok : ListsEnough provider pageSize first p a)
    (h : (overlapping provider pageSize).step p a = some q) :
    q.Holds (CursorSound provider first) (SyncKnows provider first) := by
  refine Program.step_stable_of (P := overlapping provider pageSize)
    (fun _ _ _ => trivial) ?_ ?_ hp hok h
  · intro s c d s' c' hI hJ hok hs
    obtain ⟨hI', hJ', hl⟩ := overlapStatement_spec hI hJ hok hs
    exact ⟨hI', hJ', fun c₂ h₂ => h₂.later hl⟩
  · intro s e s' hI he
    obtain ⟨hl, hcur, -⟩ := outside_later he
    exact ⟨hI.later hl hcur, fun c₂ h₂ => h₂.later hl⟩

theorem holds_init {s : SyncState} (hs : s.syncCursor = some first) (hclock : first ≤ s.box.clock) :
    (⟨s, []⟩ : Pool SyncState SyncCall).Holds (CursorSound provider first)
      (SyncKnows provider first) := by
  refine ⟨fun c hc => ?_, List.forall_mem_nil _⟩
  rw [hs] at hc
  obtain rfl := Option.some.inj hc
  exact ⟨hclock, fun m _ hfirst hcov => absurd hcov hfirst⟩

/-- However many attempts overlap, wherever they fail and whatever mail comes or goes in
between: as long as no listing is cut short before mail that nobody has dealt with, every
message that exists between the first cursor and the one that is stored has a row or was
reported gone. -/
theorem no_gap_overlapping (provider : MailProvider) (pageSize : ℕ) {first : ℕ} {s : SyncState}
    {as : List (Action Unit Fate SyncAct)} {p : Pool SyncState SyncCall}
    (hs : s.syncCursor = some first) (hclock : first ≤ s.box.clock)
    (hm : Meets (overlapping provider pageSize).step (ListsEnough provider pageSize first)
      ⟨s, []⟩ as)
    (hr : exec (overlapping provider pageSize).step ⟨s, []⟩ as = some p) :
    ∀ c, p.store.syncCursor = some c → ∀ m ∈ p.store.box.present, ¬ covered provider first m →
      covered provider c m → Handled p.store m := by
  have hend := exec_invariant_of_meets (fun _ _ _ h ha hst => overlapping_step h ha hst)
    (holds_init hs hclock) hm hr
  intro c hc m hmem hfirst hcov
  exact ((hend.1 c hc).all m hmem hfirst hcov).resolve_right List.not_mem_nil

/-- A message, and two attempts that are about to begin. -/
def twoCalls : List (Action Unit Fate SyncAct) := [.env (.arrive ⟨"b", 7⟩), .call (), .call ()]

/-- Both attempts read the cursor 5; the second one lists more and stores 9, and then the first
one stores 7. The first message is deleted in between. -/
def twoSyncs : List (Action Unit Fate SyncAct) :=
  [.run 0 .ok, .run 1 .ok, .run 0 .ok, .run 0 .ok, .env (.arrive ⟨"c", 9⟩), .env (.delete "a"),
    .run 1 .ok, .run 1 .ok, .run 0 .ok, .run 0 .ok, .run 1 .ok, .run 1 .ok, .run 0 .ok, .run 1 .ok,
      .run 1 .ok, .run 1 .ok,
    .run 1 .ok, .run 0 .ok]

instance (p : Pool SyncState SyncCall) (a : Action Unit Fate SyncAct) :
    Decidable (ListsEnough .GMAIL 100 5 p a) :=
  inferInstanceAs (Decidable (Program.Allows (LeavesNothing .GMAIL 100 5) p a))

theorem no_gap_overlapping_twoSyncs :
    ∃ p, exec (overlapping .GMAIL 100).step ⟨oneStored, []⟩ (twoCalls ++ twoSyncs) = some p ∧
    p.store.syncCursor = some 7 ∧ p.store.rows = ["a", "b", "c"] ∧
    ∀ m ∈ p.store.box.present, ¬ covered .GMAIL 5 m → covered .GMAIL 7 m → Handled p.store m := by
  have hm : Meets (overlapping .GMAIL 100).step (ListsEnough .GMAIL 100 5) ⟨oneStored, []⟩
      (twoCalls ++ twoSyncs) := by decide
  exact ⟨_, rfl, rfl, rfl, no_gap_overlapping .GMAIL 100 rfl (by decide) hm rfl 7 rfl⟩

/-! ### One message and one attempt -/

/-- Where an attempt is with a message that was there when it began and still is; up to the last
listing nothing has to be remembered. -/
def Takes (m : Mail) (s : SyncState) : SyncCall → Prop
  | .dedupe _ _ ids => Handled s m ∨ m.id ∈ ids
  | .fetch _ _ id rest => Handled s m ∨ m.id ∈ id :: rest
  | .ingest _ _ id rest => Handled s m ∨ m.id ∈ id :: rest
  | .store _ _ => Handled s m
  | .done _ => Handled s m
  | _ => True

theorem Takes.later (h : Takes m u c) (hl : Later provider u v) : Takes m v c := by
  cases c with
  | dedupe mode cursor ids => exact Or.imp_left (hl.handled m) h
  | fetch cursor counts id rest => exact Or.imp_left (hl.handled m) h
  | ingest cursor counts id rest => exact Or.imp_left (hl.handled m) h
  | store cursor counts => exact hl.handled m h
  | done outcome => exact hl.handled m h
  | _ => trivial

theorem takes_fetchNext {counts : SyncOutcome} (h : Handled u m ∨ m.id ∈ ids) :
    Takes m u (fetchNext cursor counts ids) := by
  cases ids with
  | nil => exact h.resolve_right List.not_mem_nil
  | cons id rest => exact h

theorem takes_takePage (hfirst : ¬ covered provider first m) (hm : m ∈ u.box.present)
    (hJ : SyncKnows provider first u (.listChanged cursor collected nextCursor pageToken))
    (hvalid : (listChangedMessageIds provider pageSize u.box cursor pageToken).cursorInvalid =
      false)
    (hleft : LeavesNothing provider pageSize first u
      (.listChanged cursor collected nextCursor pageToken)) :
    Takes m u
      (takePage (listChangedMessageIds provider pageSize u.box cursor pageToken) cursor collected
        nextCursor) := by
  obtain ⟨hp, hl⟩ := hJ
  have hold : covered provider cursor m → Handled u m := fun hcov =>
    (hp.all m hm hfirst hcov).resolve_right List.not_mem_nil
  have hpage := @Paged.page provider pageSize cursor nextCursor u m pageToken collected hl hvalid hm
  rcases takePage_cases hl hleft with ⟨token, htoken, -, htake⟩ | ⟨htake, hrest⟩
  · rw [htake]
    trivial
  · rw [htake]
    rcases hpage with hcov | hin | ⟨token, ht, hpend⟩
    · exact .inl (hold hcov)
    · exact .inr hin
    · exact .inl (((hrest token ht m hpend).resolve_left (mem_present.mp hm).2).resolve_left hfirst)

/-- The attempt's own step. -/
theorem Takes.advance (hfirst : ¬ covered provider first m) (hm : m ∈ s.box.present)
    (hJ : SyncKnows provider first s c) (hok : LeavesNothing provider pageSize first s c)
    (hK : Takes m s c) (h : EmailIngestion.advance provider pageSize s c = some (s', c')) :
    Takes m s' c' := by
  cases c with
  | find =>
    cases h
    trivial
  | connect syncCursor =>
    cases syncCursor with
    | none =>
      cases h
      trivial
    | some cursor =>
      cases h
      trivial
  | listChanged cursor collected nextCursor pageToken =>
    simp only [EmailIngestion.advance, proceed] at h
    cases hvalid : (listChangedMessageIds provider pageSize s.box cursor pageToken).cursorInvalid with
    | true =>
      rw [hvalid] at h
      cases h
      trivial
    | false =>
      rw [hvalid] at h
      cases h
      exact takes_takePage hfirst hm hJ hvalid hok
  | clearCursor =>
    cases h
    trivial
  | profile =>
    cases h
    trivial
  | listBatch cursor =>
    cases h
    rcases listed_or_older initialBatch hm with hin | hout
    · exact .inr hin
    · exact .inl (((hok m hout).resolve_left (mem_present.mp hm).2).resolve_left hfirst)
  | dedupe mode cursor ids =>
    cases h
    apply takes_fetchNext
    rcases hK with hdone | hin
    · exact .inl hdone
    · by_cases hrow : m.id ∈ s.rows
      · exact .inl (.inl hrow)
      · exact .inr (List.mem_filter.mpr ⟨hin, by simp [known, hrow]⟩)
  | fetch cursor counts id rest =>
    simp only [EmailIngestion.advance, proceed] at h
    split_ifs at h with hgone
    · cases h
      apply takes_fetchNext
      rcases hK with hdone | hin
      · exact .inl (hdone.imp_right (List.mem_append_left _))
      · rcases List.mem_cons.mp hin with rfl | hrest
        · exact .inl (.inr (List.mem_append_right _ (List.mem_singleton_self _)))
        · exact .inr hrest
    · cases h
      exact hK
  | ingest cursor counts id rest =>
    cases h
    apply takes_fetchNext
    rcases hK with hdone | hin
    · exact .inl (handled_addRow hdone)
    · rcases List.mem_cons.mp hin with hid | hrest
      · exact .inl (.inl (mem_addRow.mpr (.inr hid)))
      · exact .inr hrest
  | store cursor counts =>
    cases h
    exact hK
  | done outcome => cases h
  | threw => cases h

/-- No request of an attempt changes the mailbox. -/
theorem advance_box (h : advance provider pageSize s c = some (s', c')) : s'.box = s.box := by
  cases c with
  | connect syncCursor => cases syncCursor <;> (cases h; rfl)
  | listChanged cursor collected nextCursor pageToken =>
    simp only [advance, proceed] at h
    split_ifs at h <;> (cases h; rfl)
  | fetch cursor counts id rest =>
    simp only [advance, proceed] at h
    split_ifs at h <;> (cases h; rfl)
  | ingest cursor counts id rest =>
    cases h
    exact addRow_box
  | done outcome => cases h
  | threw => cases h
  | _ => cases h; rfl

/-- The message is in the mailbox, and unless it is deleted the attempt takes it along. -/
structure Follows (m : Mail) (s : SyncState) (c : SyncCall) : Prop where
  log : m ∈ s.box.log
  takes : m.id ∈ s.box.deleted ∨ Takes m s c

/-- Another step, on the part of someone else. -/
theorem Follows.later (h : Follows m u c) (hl : Later provider u v) (hlog : u.box.log ⊆ v.box.log) :
    Follows m v c := by
  refine ⟨hlog h.log, ?_⟩
  rcases h.takes with hgone | htakes
  · exact .inl (hl.deleted hgone)
  · exact .inr (htakes.later hl)

theorem overlapStatement_box {d : Fate}
    (h : overlapStatement provider pageSize s c d = some (s', c')) : s'.box = s.box := by
  cases d with
  | ok => exact advance_box h
  | failed =>
    obtain ⟨next, -, he⟩ := Option.map_eq_some_iff.mp h
    cases he
    rfl
  | lost =>
    obtain ⟨⟨t, next⟩, hadv, he⟩ := Option.map_eq_some_iff.mp h
    cases he
    exact advance_box hadv

theorem Follows.statement {d : Fate} (hfirst : ¬ covered provider first m)
    (hJ : SyncKnows provider first s c) (hok : LeavesNothing provider pageSize first s c)
    (hK : Follows m s c) (h : overlapStatement provider pageSize s c d = some (s', c')) :
    Follows m s' c' := by
  have hbox := overlapStatement_box h
  refine ⟨by rw [hbox]; exact hK.log, ?_⟩
  by_cases hgone : m.id ∈ s.box.deleted
  · left
    rw [hbox]
    exact hgone
  · right
    have htakes := hK.takes.resolve_left hgone
    cases d with
    | ok => exact htakes.advance hfirst (mem_present.mpr ⟨hK.log, hgone⟩) hJ hok h
    | failed =>
      obtain ⟨next, -, he⟩ := Option.map_eq_some_iff.mp h
      cases he
      trivial
    | lost =>
      obtain ⟨next, -, he⟩ := Option.map_eq_some_iff.mp h
      cases he
      trivial

theorem follows_step {p q : Pool SyncState SyncCall} {a : Action Unit Fate SyncAct} {i : ℕ}
    (hfirst : ¬ covered provider first m)
    (hp : p.Holds (CursorSound provider first) (SyncKnows provider first))
    (hok : ListsEnough provider pageSize first p a) (hi : p.calls[i]? = some c)
    (hK : Follows m p.store c) (h : (overlapping provider pageSize).step p a = some q) :
    ∃ c', q.calls[i]? = some c' ∧ Follows m q.store c' := by
  refine Program.step_follow (P := overlapping provider pageSize) ?_ ?_ ?_ hp hi hK hok h
  · intro s c d s' c' _ hJ hok hK hs
    exact hK.statement hfirst hJ hok hs
  · intro s c₂ d s' c' hI hJ₂ hok hs c _ hK
    refine hK.later (overlapStatement_spec hI hJ₂ hok hs).2.2 ?_
    rw [overlapStatement_box hs]
    exact List.Subset.refl _
  · intro s e s' _ he c _ hK
    obtain ⟨hl, -, hlog⟩ := outside_later he
    exact hK.later hl hlog

/-- An attempt that completes has dealt with all the mail that was there when it began and still
is, whatever other attempts do in the meantime. -/
theorem done_leaves_nothing (provider : MailProvider) (pageSize : ℕ) {first : ℕ} {s : SyncState}
    {as bs : List (Action Unit Fate SyncAct)} {p q : Pool SyncState SyncCall} {i : ℕ}
    {outcome : SyncOutcome} (hs : s.syncCursor = some first) (hclock : first ≤ s.box.clock)
    (hmas : Meets (overlapping provider pageSize).step (ListsEnough provider pageSize first)
      ⟨s, []⟩ as)
    (has : exec (overlapping provider pageSize).step ⟨s, []⟩ as = some p)
    (hmbs : Meets (overlapping provider pageSize).step (ListsEnough provider pageSize first) p bs)
    (hbs : exec (overlapping provider pageSize).step p bs = some q)
    (hfind : p.calls[i]? = some .find) (hdone : q.calls[i]? = some (.done outcome)) :
    ∀ m ∈ p.store.box.present, m.id ∉ q.store.box.deleted → ¬ covered provider first m →
      Handled q.store m := by
  intro m hm hexists hfirst
  have hp := exec_invariant_of_meets (fun _ _ _ h ha hst => overlapping_step h ha hst)
    (holds_init hs hclock) hmas has
  have hstart : Follows m p.store .find := ⟨(mem_present.mp hm).1, .inr trivial⟩
  have hend := exec_invariant_of_meets
    (I := fun r => r.Holds (CursorSound provider first) (SyncKnows provider first) ∧
      ∃ c, r.calls[i]? = some c ∧ Follows m r.store c)
    (fun r a r' hr ha hst => by
      obtain ⟨hholds, c, hi, hK⟩ := hr
      exact ⟨overlapping_step hholds ha hst, follows_step hfirst hholds ha hi hK hst⟩)
    ⟨hp, .find, hfind, hstart⟩ hmbs hbs
  obtain ⟨-, c, hi, hK⟩ := hend
  obtain rfl := Option.some.inj (hdone.symm.trans hi)
  exact hK.takes.resolve_left hexists

theorem done_leaves_nothing_twoSyncs :
    ∃ p q, exec (overlapping .GMAIL 100).step ⟨oneStored, []⟩ twoCalls = some p ∧
    exec (overlapping .GMAIL 100).step p twoSyncs = some q ∧ ⟨"b", 7⟩ ∈ p.store.box.present ∧
    ∀ m ∈ p.store.box.present, m.id ∉ q.store.box.deleted → ¬ covered .GMAIL 5 m →
      Handled q.store m := by
  have hmas : Meets (overlapping .GMAIL 100).step (ListsEnough .GMAIL 100 5)
      ⟨oneStored, []⟩ twoCalls := by decide
  obtain ⟨p, hp⟩ : ∃ p, exec (overlapping .GMAIL 100).step ⟨oneStored, []⟩ twoCalls = some p :=
    ⟨_, rfl⟩
  have hmbs : Meets (overlapping .GMAIL 100).step (ListsEnough .GMAIL 100 5) p twoSyncs := by
    cases hp
    decide
  obtain ⟨q, hq⟩ : ∃ q, exec (overlapping .GMAIL 100).step p twoSyncs = some q := by
    cases hp
    exact ⟨_, rfl⟩
  have hends : p.calls[1]? = some .find ∧ q.calls[1]? = some (.done ⟨.incremental, 2, 1, 1, 0⟩) ∧
      ⟨"b", 7⟩ ∈ p.store.box.present := by
    cases hp
    cases hq
    exact ⟨rfl, rfl, by decide⟩
  exact ⟨p, q, hp, hq, hends.2.2, done_leaves_nothing .GMAIL 100 rfl
    (by decide) hmas hp hmbs hq hends.1 hends.2.1⟩

end Finlytic.EmailIngestion
