import Finlytic.EmailIngestion.MailSync

/-! What a sync run reads and what it leaves out. The loop stops at
`MAX_IDS_PER_RUN` although a page is pending, and the cursor moves to the end of
the mailbox all the same. If the messages it does not reach were dealt with
before, no message is lost between the first cursor and the stored one; a burst
that is longer than the reach leaves a gap. -/

namespace Finlytic.EmailIngestion

open Lib

variable {provider : MailProvider} {pageSize c : ℕ} {box : Mailbox} {s s' : SyncState} {m : Mail}

/-- The message is no longer listed from cursor `c`. -/
def covered (provider : MailProvider) (c : ℕ) (m : Mail) : Prop :=
  match provider with
  | .ZOHO => m.stamp < c
  | .GMAIL => m.stamp ≤ c

/-- The message has a row or was reported gone. -/
def Handled (s : SyncState) (m : Mail) : Prop := m.id ∈ s.rows ∨ m.id ∈ s.gone

/-- The messages on the Gmail pages that are read before the cap stops the loop. -/
def reach (pageSize : ℕ) : ℕ := pageSize * ((maxIdsPerRun + pageSize - 1) / pageSize)

/-- The messages listed from `c` that one run does not read: at Zoho all but the
newest 200, at Gmail what follows the page that meets the cap, and after a
fresh start at Gmail all but the newest 50. -/
def unread (provider : MailProvider) (pageSize : ℕ) (box : Mailbox) (c : ℕ) : List Mail :=
  match provider with
  | .ZOHO => (box.present.reverse.drop 200).filter fun m => decide (c ≤ m.stamp)
  | .GMAIL =>
    if c < box.floor then (box.present.reverse.drop initialBatch).filter fun m => decide (c < m.stamp)
    else ((box.log.filter fun m => decide (c < m.stamp)).drop (reach pageSize)).filter fun m =>
      decide (m.id ∉ box.deleted)

/-- A run starts only when the messages it will not read have been dealt with. -/
def WithinReach (provider : MailProvider) (pageSize : ℕ) (s : SyncState) : SyncAct → Prop
  | .sync _ => ∀ c ∈ s.syncCursor, ∀ m ∈ unread provider pageSize s.box c, Handled s m
  | _ => True

instance (s : SyncState) (m : Mail) : Decidable (Handled s m) := inferInstanceAs (Decidable (_ ∨ _))

instance (provider : MailProvider) (pageSize : ℕ) (s : SyncState) (a : SyncAct) :
    Decidable (WithinReach provider pageSize s a) :=
  match a with
  | .arrive _ => .isTrue trivial
  | .delete _ => .isTrue trivial
  | .tick _ => .isTrue trivial
  | .forget _ => .isTrue trivial
  | .sync _ =>
    inferInstanceAs
    (Decidable (∀ c ∈ s.syncCursor, ∀ m ∈ unread provider pageSize s.box c, Handled s m))

/-! ### The set of collected ids -/

theorem mem_take_or_mem_drop {α : Type} {l : List α} {x : α} (n : ℕ) (h : x ∈ l) :
    x ∈ l.take n ∨ x ∈ l.drop n := by
  rw [← List.mem_append, List.take_append_drop]
  exact h

theorem mem_present : m ∈ box.present ↔ m ∈ box.log ∧ m.id ∉ box.deleted := by
  rw [Mailbox.present, List.mem_filter, decide_eq_true_eq]

/-- In a mailbox from which nothing was deleted every message exists. -/
@[simp] theorem present_of_deleted_nil (h : box.deleted = []) : box.present = box.log := by
  rw [Mailbox.present, List.filter_eq_self]
  intro m _
  rw [h]
  exact decide_eq_true List.not_mem_nil

/-- The newest messages are listed; the others come after them. -/
theorem listed_or_older (n : ℕ) (hm : m ∈ box.present) :
    m.id ∈ listMessageIds box n ∨ m ∈ box.present.reverse.drop n := by
  rcases mem_take_or_mem_drop n (List.mem_reverse.mpr hm) with hin | hout
  · exact .inl (List.mem_map.mpr ⟨m, hin, rfl⟩)
  · exact .inr hout

theorem foldl_addId_of_nodup {ids acc : List String} (h : (acc ++ ids).Nodup) :
    ids.foldl addId acc = acc ++ ids := by
  induction ids generalizing acc with
  | nil => simp
  | cons id ids ih =>
    have hid : id ∉ acc := fun hin => (List.nodup_append.mp h).2.2 id hin id List.mem_cons_self rfl
    rw [List.foldl_cons, addId, if_neg hid, ih (by simpa using h)]
    simp

/-! ### Zoho: one page -/

theorem nodup_map_sublist {l : List Mail} (h : l.Sublist box.present.reverse) :
    (l.map (·.id)).Nodup := by
  have hrev : (box.present.reverse.map (·.id)).Nodup := by
    rw [List.map_reverse, List.nodup_reverse]
    exact box.nodup.sublist (List.filter_sublist.map _)
  exact hrev.sublist (h.map _)

/-- The fresh messages among the newest 200. -/
def freshPage (box : Mailbox) (c : ℕ) : List Mail := (box.present.reverse.take 200).filter fun m =>
    decide (c ≤ m.stamp)

/-- The loop ends after the first page. -/
theorem zoho_collect_eq (box : Mailbox) (c fuel : ℕ) :
    collect (zohoListChanged box c) (fuel + 1) [] c none =
    some (.done ((freshPage box c).map (·.id))
      (((box.present.reverse.take 200).head?.map (·.stamp)).getD c)) := by
  have hview : view box 1 200 = box.present.reverse.take 200 := by simp [view]
  have hnodup : ((freshPage box c).map (·.id)).Nodup :=
    nodup_map_sublist (List.filter_sublist.trans (List.take_sublist _ _))
  have hids : ((freshPage box c).map (·.id)).foldl addId [] = (freshPage box c).map (·.id) :=
    foldl_addId_of_nodup hnodup
  unfold freshPage at hids ⊢
  simp only [collect, zohoListChanged, Option.getD_none, hview, hids, if_true, Bool.false_eq_true,
    if_false]
  by_cases hfull : ((box.present.reverse.take 200).filter fun m => decide (c ≤ m.stamp)).length =
      (box.present.reverse.take 200).length ∧ (box.present.reverse.take 200).length = 200
  · have hcap :
        ¬ (((box.present.reverse.take 200).filter fun m => decide (c ≤ m.stamp)).map
        (·.id)).length < maxIdsPerRun := by
      rw [List.length_map, hfull.1, hfull.2]
      decide
    simp only [if_pos hfull, if_neg hcap]
  · simp only [if_neg hfull]

/-- Its page holds every fresh message that is not left unread. -/
theorem zoho_collect (box : Mailbox) (c fuel : ℕ) (hc : c ≤ box.clock) : ∃ ids next,
    collect (zohoListChanged box c) (fuel + 1) [] c none = some (.done ids next) ∧
      next ≤ box.clock ∧
    ∀ m ∈ box.present, covered .ZOHO c m ∨ m.id ∈ ids ∨ m ∈ unread .ZOHO pageSize box c := by
  refine ⟨_, _, zoho_collect_eq box c fuel, ?_, fun m hm => ?_⟩
  · cases hhead : (box.present.reverse.take 200).head? with
    | none => exact hc
    | some newest =>
      have hmem : newest ∈ box.present.reverse.take 200 := List.mem_of_mem_head? hhead
      exact box.le_clock newest (mem_present.mp (List.mem_reverse.mp (List.mem_of_mem_take hmem))).1
  · by_cases hst : c ≤ m.stamp
    · right
      rcases mem_take_or_mem_drop 200 (List.mem_reverse.mpr hm) with hin | hin
      · exact .inl (List.mem_map.mpr ⟨m, List.mem_filter.mpr ⟨hin, by simpa using hst⟩, rfl⟩)
      · exact .inr (List.mem_filter.mpr ⟨hin, by simpa using hst⟩)
    · exact .inl (Nat.lt_of_not_le hst)

/-! ### Gmail: pages up to the cap -/

/-- A page that starts below the cap ends within reach. -/
theorem page_le_reach {j : ℕ} (hpos : 0 < pageSize) (hlt : j * pageSize < maxIdsPerRun) :
    j * pageSize + pageSize ≤ reach pageSize := by
  have hdiv : j + 1 ≤ (maxIdsPerRun + pageSize - 1) / pageSize := by
    refine (Nat.le_div_iff_mul_le hpos).mpr ?_
    rw [Nat.add_mul, Nat.one_mul]
    omega
  calc j * pageSize + pageSize = pageSize * (j + 1) := by rw [Nat.mul_add, Nat.mul_one, Nat.mul_comm]
    _ ≤ reach pageSize := Nat.mul_le_mul_left pageSize hdiv

/-- The first page end at or past the cap. -/
theorem reach_eq {j : ℕ} (hpos : 0 < pageSize) (hlt : j * pageSize < maxIdsPerRun)
    (hle : maxIdsPerRun ≤ j * pageSize + pageSize) : reach pageSize = j * pageSize + pageSize := by
  have hdiv : (maxIdsPerRun + pageSize - 1) / pageSize = j + 1 := by
    refine Nat.div_eq_of_lt_le ?_ ?_
    · rw [Nat.add_mul, Nat.one_mul]
      omega
    · rw [Nat.add_mul, Nat.add_mul, Nat.one_mul]
      omega
  rw [reach, hdiv, Nat.mul_add, Nat.mul_one, Nat.mul_comm]

/-- The loop from page `j` on: it ends, with all of the history or with what is within reach. -/
theorem gmail_collect_from (hpos : 0 < pageSize) (hfloor : box.floor ≤ c) (history : List Mail)
    (hhistory : history = box.log.filter fun m => decide (c < m.stamp)) (fuel j : ℕ)
    (token : Option ℕ) (cursor : ℕ) (htoken : token.getD 0 = j * pageSize)
    (hj : j * pageSize < maxIdsPerRun) (hfuel : history.length < j * pageSize + fuel)
    (hin : j * pageSize ≤ history.length) :
    ∃ r, collect (gmailListChanged pageSize box c) fuel ((history.take (j * pageSize)).map (·.id))
      cursor token =
      some (.done ((history.take r).map (·.id)) box.clock) ∧ r ≤ reach pageSize ∧
      (history.length ≤ r ∨ r = reach pageSize) := by
  induction fuel generalizing j token cursor with
  | zero => omega
  | succ fuel ih =>
    have hnodup : (history.map (·.id)).Nodup := by
      rw [hhistory]
      exact box.nodup.sublist (List.filter_sublist.map _)
    have htake : ((history.drop (j * pageSize)).take pageSize |>.map (·.id)).foldl addId
        ((history.take (j * pageSize)).map (·.id)) = (history.take (j * pageSize + pageSize)).map
          (·.id) := by
      have hsplit : history.take (j * pageSize) ++ (history.drop (j * pageSize)).take pageSize =
          history.take (j * pageSize + pageSize) := List.take_add.symm
      rw [foldl_addId_of_nodup, ← List.map_append, hsplit]
      rw [← List.map_append, hsplit]
      exact hnodup.sublist ((List.take_sublist _ _).map _)
    have hinvalid : ¬ c < box.floor := Nat.not_lt.mpr hfloor
    simp only [collect, gmailListChanged, if_neg hinvalid, ← hhistory, htoken, htake, Option.getD_some]
    by_cases hmore : j * pageSize + pageSize < history.length
    · have hlen : (history.take (j * pageSize + pageSize)).length = j * pageSize + pageSize := by
        rw [List.length_take]
        omega
      simp only [if_pos hmore, List.length_map, hlen, Bool.false_eq_true, if_false]
      split_ifs with hcap
      · have hnext : (j + 1) * pageSize = j * pageSize + pageSize := by rw [Nat.add_mul, Nat.one_mul]
        have := ih (j + 1) (some (j * pageSize + pageSize)) box.clock (by rw [hnext]; rfl)
          (by omega) (by omega) (by omega)
        rwa [hnext] at this
      · exact ⟨j * pageSize + pageSize, rfl, page_le_reach hpos hj,
          .inr (reach_eq hpos hj (by omega)).symm⟩
    · simp only [if_neg hmore, Bool.false_eq_true, if_false]
      exact ⟨j * pageSize + pageSize, rfl, page_le_reach hpos hj, .inl (by omega)⟩

theorem gmail_collect (hpos : 0 < pageSize) (hfloor : box.floor ≤ c) : ∃ r,
    collect (gmailListChanged pageSize box c) (box.log.length + 1) [] c none =
      some (.done (((box.log.filter fun m => decide (c < m.stamp)).take r).map (·.id)) box.clock) ∧
        r ≤ reach pageSize ∧
    ((box.log.filter fun m => decide (c < m.stamp)).length ≤ r ∨ r = reach pageSize) := by
  have hlen : (box.log.filter fun m => decide (c < m.stamp)).length ≤ box.log.length :=
    List.length_filter_le _ _
  have := gmail_collect_from hpos hfloor _ rfl (box.log.length + 1) 0 none c (by simp)
    (by rw [Nat.zero_mul]; decide)
    (by omega) (by omega)
  simpa using this

/-- The loop ends at every cursor. -/
theorem collect_isSome (hpos : 0 < pageSize) :
    (collect (listChangedMessageIds provider pageSize box c) (box.log.length + 1)
      [] c none).isSome = true := by
  cases provider with
  | ZOHO =>
    rw [listChangedMessageIds, zoho_collect_eq]
    rfl
  | GMAIL =>
    by_cases hfloor : c < box.floor
    · simp only [collect, listChangedMessageIds, gmailListChanged, if_pos hfloor, if_true,
        Option.isSome_some]
    · obtain ⟨r, hcollect, -⟩ := @gmail_collect pageSize c box hpos (Nat.le_of_not_lt hfloor)
      rw [listChangedMessageIds, hcollect]
      rfl

/-! ### One run -/

/-- Every id that is ingested ends as a row or as gone, and nothing is forgotten. -/
theorem foldl_ingestOne (available : String → Bool) (ids : List String) (t : Tally) :
    (∀ x ∈ t.rows, x ∈ (ids.foldl (ingestOne available) t).rows) ∧
    (∀ x ∈ t.gone, x ∈ (ids.foldl (ingestOne available) t).gone) ∧
    ∀ x ∈ ids, x ∈ (ids.foldl (ingestOne available) t).rows ∨
      x ∈ (ids.foldl (ingestOne available) t).gone := by
  induction ids generalizing t with
  | nil => exact ⟨fun _ hx => hx, fun _ hx => hx, fun x hx => (List.not_mem_nil hx).elim⟩
  | cons id ids ih =>
    obtain ⟨hrows, hgone, hids⟩ := ih (ingestOne available t id)
    have hstep : (∀ x ∈ t.rows, x ∈ (ingestOne available t id).rows) ∧
      (∀ x ∈ t.gone, x ∈ (ingestOne available t id).gone) ∧
        (id ∈ (ingestOne available t id).rows ∨ id ∈ (ingestOne available t id).gone) := by
      unfold ingestOne
      split_ifs with hav hin
      · exact ⟨fun _ hx => hx, fun _ hx => hx, .inl hin⟩
      · exact ⟨fun _ hx => List.mem_append_left _ hx, fun _ hx => hx, .inl (by simp)⟩
      · exact ⟨fun _ hx => hx, fun _ hx => List.mem_append_left _ hx, .inr (by simp)⟩
    obtain ⟨hr, hg, hid⟩ := hstep
    refine ⟨fun x hx => hrows x (hr x hx), fun x hx => hgone x (hg x hx), fun x hx => ?_⟩
    rcases List.mem_cons.mp hx with rfl | hx
    · exact hid.imp (hrows x) (hgone x)
    · exact hids x hx

/-- The rows afterwards: those before, and the ids that could be fetched. -/
theorem mem_rows_foldl_ingestOne {available : String → Bool} {ids : List String} {t : Tally}
    {x : String} :
    x ∈ (ids.foldl (ingestOne available) t).rows ↔ x ∈ t.rows ∨ x ∈ ids ∧ available x = true := by
  induction ids generalizing t with
  | nil => simp
  | cons id ids ih =>
    have hstep : x ∈ (ingestOne available t id).rows ↔ x ∈ t.rows ∨ x = id ∧ available x = true := by
      unfold ingestOne
      split_ifs with hav hin
      · constructor
        · exact .inl
        · rintro (hx | ⟨rfl, -⟩)
          · exact hx
          · exact hin
      · rw [List.mem_append, List.mem_singleton]
        constructor
        · rintro (hx | rfl)
          · exact .inl hx
          · exact .inr ⟨rfl, hav⟩
        · exact Or.imp_right And.left
      · constructor
        · exact .inl
        · rintro (hx | ⟨rfl, hav'⟩)
          · exact hx
          · exact absurd hav' hav
    rw [List.foldl_cons, ih, hstep, List.mem_cons, or_assoc, or_and_right]

theorem mem_rows_ingestAll {available : String → Bool} {ids : List String} {x : String} :
    x ∈ (ingestAll available s ids).rows ↔ x ∈ s.rows ∨ x ∈ ids ∧ available x = true := by
  rw [ingestAll, mem_rows_foldl_ingestOne]
  by_cases hrow : x ∈ s.rows
  · simp [hrow]
  · simp [hrow, toFetch, known]

/-- After a run the ids it collected are handled, and so is whatever was handled before. -/
theorem handled_ingestThenStore (available : String → Bool) (s : SyncState) (mode : SyncMode)
    (ids : List String) (cursor : ℕ) (m : Mail) (h : m.id ∈ ids ∨ Handled s m) :
    Handled (ingestThenStore available s mode ids cursor).1 m := by
  obtain ⟨hrows, hgone, hids⟩ :=
    foldl_ingestOne available (toFetch s ids) ⟨s.rows, s.gone, 0, (known s ids).length, 0⟩
  by_cases hrow : m.id ∈ s.rows
  · exact .inl (hrows _ hrow)
  · rcases h with hin | hrow' | hg
    · refine hids _ (List.mem_filter.mpr ⟨hin, ?_⟩)
      simp [known, hrow]
    · exact absurd hrow' hrow
    · exact .inr (hgone _ hg)

/-- A run that ingests what it has collected leaves only the unread messages of the others. -/
theorem ingestThenStore_spec (available : String → Bool) {mode : SyncMode} {ids : List String}
    {next : ℕ}
    (hall : ∀ m ∈ s.box.present, covered provider c m ∨ m.id ∈ ids ∨
      m ∈ unread provider pageSize s.box c) :
    (∀ m, Handled s m → Handled (ingestThenStore available s mode ids next).1 m) ∧
    ∀ m ∈ s.box.present, covered provider c m ∨
      Handled (ingestThenStore available s mode ids next).1 m ∨
      m ∈ unread provider pageSize s.box c := by
  constructor
  · intro m hm
    exact handled_ingestThenStore available s mode ids next m (.inr hm)
  · intro m hm
    rcases hall m hm with hcov | hin | hun
    · exact .inl hcov
    · exact .inr (.inl (handled_ingestThenStore available s mode ids next m (.inl hin)))
    · exact .inr (.inr hun)

/-- After a fresh start at Gmail, what the batch leaves out is unread. -/
theorem batch_cases (hfloor : c < box.floor) (hm : m ∈ box.present) :
    covered .GMAIL c m ∨ m.id ∈ listMessageIds box initialBatch ∨
      m ∈ unread .GMAIL pageSize box c := by
  by_cases hst : c < m.stamp
  · right
    rcases listed_or_older initialBatch hm with hin | hout
    · exact .inl hin
    · right
      simp only [unread, if_pos hfloor]
      exact List.mem_filter.mpr ⟨hout, decide_eq_true hst⟩
  · exact .inl (Nat.le_of_not_lt hst)

/-- Of the history, what the pages up to the cap leave out is unread. -/
theorem pages_cases {r : ℕ} (hfloor : ¬ c < box.floor)
    (hr : (box.log.filter fun m => decide (c < m.stamp)).length ≤ r ∨ r = reach pageSize)
    (hm : m ∈ box.present) :
    covered .GMAIL c m ∨ m.id ∈ ((box.log.filter fun m => decide (c < m.stamp)).take r).map (·.id) ∨
      m ∈ unread .GMAIL pageSize box c := by
  by_cases hst : c < m.stamp
  · right
    obtain ⟨hlog, hexists⟩ := mem_present.mp hm
    have hmem : m ∈ box.log.filter fun m => decide (c < m.stamp) :=
      List.mem_filter.mpr ⟨hlog, decide_eq_true hst⟩
    rcases mem_take_or_mem_drop r hmem with hin | hout
    · exact .inl (List.mem_map.mpr ⟨m, hin, rfl⟩)
    · right
      rcases hr with hr | rfl
      · rw [List.drop_eq_nil_of_le hr] at hout
        cases hout
      · simp only [unread, if_neg hfloor]
        exact List.mem_filter.mpr ⟨hout, decide_eq_true hexists⟩
  · exact .inl (Nat.le_of_not_lt hst)

/-- A run from cursor `c` succeeds; it stores a cursor of this mailbox, and
afterwards every message listed from `c` is handled, unless it was left unread. -/
theorem incrementalSync_spec (hpos : 0 < pageSize) (available : String → Bool)
    (hc : c ≤ s.box.clock) :
    ∃ t outcome next, incrementalSync provider pageSize available s c = some (t, outcome) ∧
      t.box = s.box ∧
      t.syncCursor = some next ∧ next ≤ s.box.clock ∧ (∀ m, Handled s m → Handled t m) ∧
      ∀ m ∈ s.box.present, covered provider c m ∨ Handled t m ∨
        m ∈ unread provider pageSize s.box c := by
  cases provider with
  | ZOHO =>
    obtain ⟨ids, next, hcollect, hnext, hall⟩ := @zoho_collect pageSize s.box c s.box.log.length hc
    have hrun : incrementalSync .ZOHO pageSize available s c =
        some (ingestThenStore available s .incremental ids next) := by
      simp only [incrementalSync, listChangedMessageIds, hcollect, Option.map_some]
    exact ⟨(ingestThenStore available s .incremental ids next).1, _, next, hrun, rfl, rfl, hnext,
      ingestThenStore_spec available hall⟩
  | GMAIL =>
    by_cases hfloor : c < s.box.floor
    · -- the history is gone: start afresh from the newest messages
      have hcollect : collect (gmailListChanged pageSize s.box c) (s.box.log.length + 1) [] c none =
          some .cursorInvalid := by
        simp only [collect, gmailListChanged, if_pos hfloor, if_true]
      have hrun : incrementalSync .GMAIL pageSize available s c =
          some (initialSync .GMAIL available { s with syncCursor := none }) := by
        simp only [incrementalSync, listChangedMessageIds, hcollect, Option.map_some]
      exact ⟨(initialSync .GMAIL available { s with syncCursor := none }).1, _, s.box.clock, hrun,
        rfl, rfl, Nat.le_refl _,
        @ingestThenStore_spec .GMAIL pageSize c
          { s with syncCursor := none } available _ _ _ fun _ hm => batch_cases hfloor hm⟩
    · obtain ⟨r, hcollect, -, hr⟩ := @gmail_collect pageSize c s.box hpos (Nat.le_of_not_lt hfloor)
      set ids := ((s.box.log.filter fun m => decide (c < m.stamp)).take r).map (·.id) with hids
      have hrun : incrementalSync .GMAIL pageSize available s c =
          some (ingestThenStore available s .incremental ids s.box.clock) := by
        simp only [incrementalSync, listChangedMessageIds, hcollect, Option.map_some]
      exact ⟨(ingestThenStore available s .incremental ids s.box.clock).1, _, s.box.clock, hrun,
        rfl, rfl, Nat.le_refl _,
        ingestThenStore_spec available fun _ hm => pages_cases hfloor hr hm⟩

/-! ### Whole runs -/

/-- There is a cursor, and no message that exists between the first cursor and it is missing. -/
def NoGap (provider : MailProvider) (first : ℕ) (s : SyncState) : Prop :=
  ∃ c, s.syncCursor = some c ∧ ∀ m ∈ s.box.present, ¬ covered provider first m →
    covered provider c m → Handled s m

/-- New mail is not covered by a cursor that the mailbox has given out. -/
theorem not_covered_of_admits {clock : ℕ} (hc : c ≤ clock)
    (ha : admits provider clock m.stamp = true) :
    ¬ covered provider c m := by
  cases provider <;> simp only [admits, decide_eq_true_eq] at ha <;> simp only [covered] <;> omega

/-- The stored cursor was given out by the mailbox, and nothing below it is missing. -/
def Tracks (provider : MailProvider) (first : ℕ) (s : SyncState) : Prop :=
  ∃ c, s.syncCursor = some c ∧ c ≤ s.box.clock ∧
    ∀ m ∈ s.box.present, ¬ covered provider first m → covered provider c m → Handled s m

theorem tracks_step {first : ℕ} {a : SyncAct} (hpos : 0 < pageSize) (h : Tracks provider first s)
    (ha : WithinReach provider pageSize s a) (hs : syncStep provider pageSize s a = some s') :
    Tracks provider first s' := by
  obtain ⟨c, hcur, hc, hno⟩ := h
  cases a with
  | arrive m =>
    simp only [syncStep] at hs
    split_ifs at hs with hok
    cases hs
    refine ⟨c, hcur, Nat.le_trans hc (le_of_admits hok.2), fun n hn hfirst hcov => ?_⟩
    obtain ⟨hlog, hexists⟩ := mem_present.mp hn
    rcases List.mem_append.mp hlog with hold | hnew
    · exact hno n (mem_present.mpr ⟨hold, hexists⟩) hfirst hcov
    · rw [List.mem_singleton.mp hnew] at hcov
      exact absurd hcov (not_covered_of_admits hc hok.2)
  | delete id =>
    simp only [syncStep] at hs
    split_ifs at hs with hid
    cases hs
    refine ⟨c, hcur, hc, fun n hn hfirst hcov => ?_⟩
    obtain ⟨hlog, hexists⟩ := mem_present.mp hn
    exact hno n (mem_present.mpr ⟨hlog, fun hin => hexists (List.mem_cons_of_mem _ hin)⟩) hfirst hcov
  | tick clock =>
    simp only [syncStep] at hs
    split_ifs at hs with hle
    cases hs
    exact ⟨c, hcur, Nat.le_trans hc hle, hno⟩
  | forget floor =>
    cases hs
    exact ⟨c, hcur, hc, hno⟩
  | sync available =>
    obtain ⟨t, outcome, next, hrun, hbox, hnext, hle, hkeep, hall⟩ :=
      @incrementalSync_spec provider pageSize c s hpos available hc
    simp only [syncStep, syncAccount, hcur, hrun, Option.map_some, Option.some.injEq] at hs
    subst hs
    refine ⟨next, hnext, by rw [hbox]; exact hle, fun m hm hfirst hcov => ?_⟩
    rw [hbox] at hm
    rcases hall m hm with hold | hnow | hun
    · exact hkeep m (hno m hm hfirst hold)
    · exact hnow
    · exact hkeep m (ha c hcur m hun)

/-- In every run of arrivals, deletions and successful syncs from an account with a
cursor, in which no sync leaves a message unread that was not dealt with before, every
message that exists between the first cursor and the stored one has a row or was
reported gone; where nothing is deleted, that is every message of the log. -/
theorem no_gap_within_reach (provider : MailProvider) {pageSize first : ℕ} (hpos : 0 < pageSize)
    {s t : SyncState} {as : List SyncAct} (hs : s.syncCursor = some first)
    (hclock : first ≤ s.box.clock)
    (hm : Meets (syncStep provider pageSize) (WithinReach provider pageSize) s as)
    (hr : exec (syncStep provider pageSize) s as = some t) : NoGap provider first t := by
  have hinit : Tracks provider first s :=
    ⟨first, hs, hclock, fun m _ hfirst hcov => absurd hcov hfirst⟩
  obtain ⟨c, hcur, -, hno⟩ :=
    exec_invariant_of_meets (fun _ _ _ h ha hst => tracks_step hpos h ha hst) hinit hm hr
  exact ⟨c, hcur, hno⟩

/-- A mailbox whose one message is stored gets another one and is synced. -/
def oneArrival : List SyncAct := [.arrive ⟨"b", 7⟩, .sync fun _ => true]

def oneStored : SyncState :=
  ⟨⟨[⟨"a", 5⟩], [], 5, 0, by decide, by decide, by decide, by decide⟩, some 5, ["a"], []⟩

theorem no_gap_within_reach_oneArrival :
    ∃ t, exec (syncStep .ZOHO 100) oneStored oneArrival = some t ∧
    t.syncCursor = some 7 ∧ NoGap .ZOHO 5 t := by
  have hm : Meets (syncStep .ZOHO 100) (WithinReach .ZOHO 100) oneStored oneArrival := by decide
  exact ⟨_, rfl, rfl, no_gap_within_reach .ZOHO (by decide) rfl (by decide) hm rfl⟩

/-! ### A burst -/

/-- Ids that are told apart by their length. -/
def burstId (i : ℕ) : String := String.ofList (List.replicate i 'x')

theorem burstId_injective : Function.Injective burstId := by
  intro i j h
  have := congrArg (fun s => s.toList.length) h
  simpa [burstId] using this

/-- A mailbox to which `n` messages came, with history ids from 1 on. -/
def burst (n : ℕ) : Mailbox where
  log := (List.range n).map fun i => ⟨burstId i, i + 1⟩
  deleted := []
  clock := n
  floor := 0
  nodup := by
    rw [List.map_map]
    exact List.nodup_range.map burstId_injective
  sorted := by
    rw [List.pairwise_map]
    exact List.pairwise_lt_range.imp fun h => Nat.succ_le_succ (Nat.le_of_lt h)
  le_clock m hm := by
    obtain ⟨i, hi, rfl⟩ := List.mem_map.mp hm
    exact List.mem_range.mp hi
  deleted_mem := List.forall_mem_nil _

theorem burstId_mem (n : ℕ) : burstId n ∈ (burst (n + 1)).log.map (·.id) :=
  List.mem_map.mpr ⟨⟨burstId n, n + 1⟩, List.mem_map.mpr ⟨n, List.self_mem_range_succ, rfl⟩, rfl⟩

theorem not_mem_foldl_ingestOne (available : String → Bool) {ids : List String} {t : Tally}
    {x : String} (hx : x ∉ ids) (hr : x ∉ t.rows) (hg : x ∉ t.gone) :
    x ∉ (ids.foldl (ingestOne available) t).rows ∧
      x ∉ (ids.foldl (ingestOne available) t).gone := by
  induction ids generalizing t with
  | nil => exact ⟨hr, hg⟩
  | cons id ids ih =>
    rw [List.mem_cons, not_or] at hx
    obtain ⟨hid, hids⟩ := hx
    refine ih hids ?_ ?_
    · unfold ingestOne
      split_ifs <;> simp [hr, hid]
    · unfold ingestOne
      split_ifs <;> simp [hg, hid]

/-- 201 messages come to a Gmail mailbox with cursor 0: two pages of a hundred
are read, the cursor moves to 201, and the last message is never listed again. -/
theorem gap_after_burst :
    ¬ ∀ provider pageSize first s t as, 0 < pageSize → s.syncCursor = some first →
    first ≤ s.box.clock → exec (syncStep provider pageSize) s as = some t →
      NoGap provider first t := by
  intro h
  obtain ⟨r, hcollect, hr, -⟩ := @gmail_collect 100 0 (burst 201) (by decide) (Nat.le_refl 0)
  have hlog : (burst 201).log.filter (fun m => decide (0 < m.stamp)) = (burst 201).log := by
    rw [List.filter_eq_self]
    intro m hm
    obtain ⟨i, -, rfl⟩ := List.mem_map.mp hm
    simp
  rw [hlog] at hcollect
  set ids := ((burst 201).log.take r).map (·.id) with hids
  have hrun : exec (syncStep .GMAIL 100) ⟨burst 201, some 0, [], []⟩ [.sync fun _ => true] =
      some (ingestThenStore (fun _ => true) ⟨burst 201, some 0, [], []⟩ .incremental ids 201).1 := by
    simp only [exec, syncStep, syncAccount, incrementalSync, listChangedMessageIds, hcollect,
      Option.map_some, Option.bind_some]
    rfl
  obtain ⟨c, hc, hno⟩ := h .GMAIL 100 0 _ _ _ (by decide) rfl (Nat.zero_le _) hrun
  obtain rfl : c = 201 := (Option.some.inj hc).symm
  have hmem : (⟨burstId 200, 201⟩ : Mail) ∈ (burst 201).present := by
    rw [present_of_deleted_nil rfl]
    exact List.mem_map.mpr ⟨200, by decide, rfl⟩
  have hreach : reach 100 = 200 := by decide
  have hnot : burstId 200 ∉ ids := by
    intro hin
    obtain ⟨m, hm, hid⟩ := List.mem_map.mp hin
    rw [burst, ← List.map_take, List.take_range] at hm
    obtain ⟨i, hi, rfl⟩ := List.mem_map.mp hm
    have hi' : i = 200 := burstId_injective hid
    have := List.mem_range.mp hi
    omega
  have hfetch : burstId 200 ∉ toFetch ⟨burst 201, some 0, [], []⟩ ids :=
    fun hin => hnot (List.mem_filter.mp hin).1
  obtain ⟨hrow, hgone⟩ :=
    not_mem_foldl_ingestOne (fun _ => true) hfetch (t := ⟨[], [], 0, _, 0⟩) (by simp) (by simp)
  rcases hno _ hmem (by simp [covered]) (by simp [covered]) with hin | hin
  · exact hrow hin
  · exact hgone hin

end Finlytic.EmailIngestion
