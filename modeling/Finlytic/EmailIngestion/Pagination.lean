import Finlytic.EmailIngestion.MessagePrivacy

/-! Reading a mailbox page by page. Every page goes on strictly after the last row of
the one before, so that whatever is inserted in between neither repeats a message nor
hides one that was there from the start. -/

namespace Finlytic.EmailIngestion

open Lib

/-! ### Requests -/

/-- `Math.min(Math.max(Number(limit) || 25, 1), 100)`, where `none` is not a number. -/
def clampLimit (limit : Option ℤ) : ℕ :=
  let given := limit.getD 0
  (min (max (if given = 0 then 25 else given) 1) 100).toNat

/-- `MessagesController.list`; the pipes refuse every text that is no UUID. -/
def list (s : MessageDb) (userId accountId : String) (cursor : Option String) (limit : Option ℤ) :
    Except String MessagePage :=
  match parseUuid accountId, cursor.map parseUuid with
  | none, _ | _, some none => .error "Validation failed (uuid is expected)"
  | some account, none => listForAccount s userId account none (clampLimit limit)
  | some account, some (some id) => listForAccount s userId account (some id) (clampLimit limit)

/-- The messages a client gets that follows `nextCursor`, one request for each of these tables,
and whether `nextCursor` became null. -/
def follow (userId accountId : String) (limit : Option ℤ) : Option String → List MessageDb →
    Except String (List MessageSummary × Bool)
  | _, [] => .ok ([], false)
  | cursor, s :: dbs =>
    match list s userId accountId cursor limit with
    | .error message => .error message
    | .ok page =>
      match page.nextCursor with
      | none => .ok (page.messages, true)
      | some next => (follow userId accountId limit (some next) dbs).map fun rest =>
        (page.messages ++ rest.1, rest.2)

/-- The tables that the requests find: the account is the user's own, and messages are only
added. -/
structure Growing (userId accountId : String) (dbs : List MessageDb) : Prop where
  owned : ∀ s ∈ dbs, ownsAccount s userId accountId = true
  grows : dbs.Pairwise fun s t => ∀ m ∈ s.messages, m ∈ t.messages

/-- Descending by `(sentAt, id)`. -/
def Newer (m n : Message) : Prop := n.sentAt < m.sentAt ∨ n.sentAt = m.sentAt ∧ n.id < m.id

/-! ### The rows behind a cursor -/

variable {s t : MessageDb} {userId accountId : String} {m n : Message} {limit : ℕ}
  {dbs : List MessageDb}

theorem newer_iff : Newer m n ↔ Query.later newestFirst m n = true := by
  rw [Query.later_iff, ← Bool.not_eq_true, newestFirst_iff, newestFirst_iff, Newer]
  constructor
  · rintro (hlt | ⟨heq, hid⟩)
    · exact ⟨.inl hlt, by rintro (h | ⟨h, -⟩) <;> omega⟩
    · refine ⟨.inr ⟨heq, hid.le⟩, ?_⟩
      rintro (h | ⟨-, h⟩)
      · omega
      · exact absurd hid (not_lt.mpr h)
  · rintro ⟨hlt | ⟨heq, hid⟩, hnot⟩
    · exact .inl hlt
    · exact .inr ⟨heq, not_le.mp fun h => hnot (.inr ⟨heq.symm, h⟩)⟩

theorem Newer.trans {k : Message} (h : Newer k m) (hmn : Newer m n) : Newer k n :=
  newer_iff.mpr (Query.later_trans newestFirst_trans (newer_iff.mp h) (newer_iff.mp hmn))

/-- The messages of the account in order. -/
def inOrder (s : MessageDb) (accountId : String) : List Message :=
  (s.messages.filter fun m => m.accountId.val = accountId).mergeSort newestFirst

/-- Those strictly after a row, or all of them. -/
def rowsAfter (s : MessageDb) (accountId : String) : Option Message → List Message
  | none => inOrder s accountId
  | some c => (inOrder s accountId).filter (Query.later newestFirst c)

theorem mem_inOrder : m ∈ inOrder s accountId ↔ m ∈ s.messages ∧ m.accountId.val = accountId := by
  rw [inOrder, List.mem_mergeSort, List.mem_filter, decide_eq_true_eq]

theorem mem_rowsAfter {c : Option Message} : m ∈ rowsAfter s accountId c ↔
    m ∈ s.messages ∧ m.accountId.val = accountId ∧ ∀ k ∈ c, Newer k m := by
  cases c with
  | none => simp [rowsAfter, mem_inOrder]
  | some k => simp [rowsAfter, mem_inOrder, newer_iff, and_assoc]

theorem pairwise_inOrder (s : MessageDb) (accountId : String) :
    (inOrder s accountId).Pairwise fun a b => Query.later newestFirst a b = true := by
  refine Query.pairwise_later (List.pairwise_mergeSort newestFirst_trans newestFirst_total _) ?_
    fun a ha b hb => ?_
  · exact (List.mergeSort_perm _ _).nodup_iff.mpr ((nodup_messages s).filter _)
  · exact newestFirst_antisymm (mem_inOrder.mp ha).1 (mem_inOrder.mp hb).1

theorem pairwise_rowsAfter (s : MessageDb) (accountId : String) (c : Option Message) :
    (rowsAfter s accountId c).Pairwise fun a b => Query.later newestFirst a b = true := by
  cases c with
  | none => exact pairwise_inOrder s accountId
  | some k => exact (pairwise_inOrder s accountId).filter _

/-- The rows after the last one of a page are the rest. -/
theorem rowsAfter_split {c : Option Message} {front back : List Message} {k : Message}
    (h : rowsAfter s accountId c = front ++ k :: back) : rowsAfter s accountId (some k) = back := by
  have hsorted := pairwise_rowsAfter s accountId c
  have hk : k ∈ rowsAfter s accountId c := by
    rw [h]
    exact List.mem_append_right _ List.mem_cons_self
  have hfilter : (rowsAfter s accountId c).filter (Query.later newestFirst k) = back := by
    rw [h] at hsorted ⊢
    exact Query.filter_later hsorted
  cases c with
  | none => exact hfilter
  | some j =>
    rw [← hfilter]
    exact (Query.filter_later_filter newestFirst_trans (List.mem_filter.mp hk).2).symm

/-- What a request reads: the rows after its cursor, and one more than the page holds. -/
theorem findMany_listQuery {account : Uuid} {id : Option Uuid} {c : Option Message}
    (hid : id.map (·.val) = c.map (·.id))
    (hc : ∀ k ∈ c, k ∈ s.messages ∧ k.accountId.val = account.val) :
    Query.findMany (listQuery account id limit) s.messages = (rowsAfter s account.val c).take
      (limit + 1) := by
  cases c with
  | none =>
    obtain rfl := Option.map_eq_none_iff.mp hid
    rfl
  | some k =>
    obtain ⟨hk, haccount⟩ := hc k rfl
    obtain ⟨id, rfl, hval⟩ := Option.map_eq_some_iff.mp hid
    have hcursor : (listQuery account (some id) limit).cursor = some fun m =>
        decide (m.id = k.id) := by
      rw [listQuery, Option.map_some, hval]
    have hrefl : newestFirst k k = true := newestFirst_iff.mpr (.inr ⟨rfl, le_refl _⟩)
    have hfrom := Query.drop_fromCursor hcursor (find_id hk) (mem_inOrder.mpr ⟨hk, haccount⟩) hrefl
      (pairwise_inOrder s account.val)
    unfold Query.findMany
    rw [show (listQuery account (some id) limit).skip = 1 from rfl, hfrom]
    rfl

/-- An integer from 1 to 100 is taken as it is. -/
theorem clampLimit_eq (h1 : 1 ≤ limit) (h100 : limit ≤ 100) : clampLimit (some limit) = limit := by
  have hne : ¬ (limit : ℤ) = 0 := by omega
  simp only [clampLimit, Option.getD_some, if_neg hne]
  omega

theorem list_eq (h1 : 1 ≤ limit) (h100 : limit ≤ 100)
    (hown : ownsAccount s userId accountId = true) {c : Option Message}
    (hc : ∀ k ∈ c, k ∈ s.messages ∧ k.accountId.val = accountId) :
    list s userId accountId (c.map (·.id)) (some limit) =
      .ok (pageOf limit ((rowsAfter s accountId c).take (limit + 1))) := by
  obtain ⟨a, ha, -, rfl⟩ := ownsAccount_iff.mp hown
  have haccount : parseUuid a.id = some ⟨a.id, s.account_uuids a ha⟩ :=
    parseUuid_val ⟨a.id, s.account_uuids a ha⟩
  have hread : ∀ id : Option Uuid, id.map (·.val) = c.map (·.id) →
      listForAccount s userId ⟨a.id, s.account_uuids a ha⟩ id (clampLimit (some limit)) =
        .ok (pageOf limit ((rowsAfter s a.id c).take (limit + 1))) := by
    intro id hid
    have hrows := @findMany_listQuery s limit ⟨a.id, s.account_uuids a ha⟩ id c hid hc
    unfold listForAccount
    rw [clampLimit_eq h1 h100, if_pos hown, hrows]
  cases c with
  | none =>
    simp only [list, haccount, Option.map_none]
    exact hread none rfl
  | some k =>
    have hk : parseUuid k.id = some ⟨k.id, s.message_uuids k (hc k rfl).1⟩ :=
      parseUuid_val ⟨k.id, s.message_uuids k (hc k rfl).1⟩
    simp only [list, haccount, Option.map_some, hk]
    exact hread (some ⟨k.id, s.message_uuids k (hc k rfl).1⟩) rfl

/-! ### One page -/

/-- The last page: there is no extra row. -/
theorem pageOf_last {rows : List Message} (h : rows.length ≤ limit) :
    pageOf limit (rows.take (limit + 1)) = ⟨rows.map summarize, none⟩ := by
  have hnot : ¬ rows.length > limit := by omega
  rw [List.take_of_length_le (by omega), pageOf, List.take_of_length_le h, if_neg hnot]

/-- A full page with more to come: the cursor is its last row. -/
theorem pageOf_more {rows : List Message} (h1 : 1 ≤ limit) (h : limit < rows.length) :
    ∃ front k back,
    rows = front ++ k :: back ∧ pageOf limit (rows.take (limit + 1)) =
      ⟨(front ++ [k]).map summarize, some k.id⟩ := by
  have hlen : (rows.take limit).length = limit := by rw [List.length_take]; omega
  have hne : rows.take limit ≠ [] := by
    intro hnil
    rw [hnil] at hlen
    have hzero : 0 = limit := hlen
    omega
  obtain ⟨front, k, hfront⟩ := (List.eq_nil_or_concat (rows.take limit)).resolve_left hne
  rw [List.concat_eq_append] at hfront
  refine ⟨front, k, rows.drop limit, ?_, ?_⟩
  · have hsplit := List.take_append_drop limit rows
    rw [hfront, List.append_assoc, List.singleton_append] at hsplit
    exact hsplit.symm
  · have hextra : (rows.take (limit + 1)).length > limit := by rw [List.length_take]; omega
    rw [pageOf, if_pos hextra, List.take_take, Nat.min_eq_left (Nat.le_succ limit), hfront,
      List.getLast?_append]
    rfl

/-- One request: either the rest of the rows, or a page of them whose last row is the next
cursor. -/
theorem follow_cons (h1 : 1 ≤ limit) (h100 : limit ≤ 100)
    (hown : ownsAccount s userId accountId = true) {c : Option Message}
    (hc : ∀ k ∈ c, k ∈ s.messages ∧ k.accountId.val = accountId) :
    (∀ dbs, follow userId accountId (some limit) (c.map (·.id)) (s :: dbs) =
      .ok ((rowsAfter s accountId c).map summarize, true)) ∨
    ∃ front k back, rowsAfter s accountId c = front ++ k :: back ∧
      ∀ dbs, follow userId accountId (some limit) (c.map (·.id)) (s :: dbs) =
        (follow userId accountId (some limit) (some k.id) dbs).map fun rest =>
          ((front ++ [k]).map summarize ++ rest.1, rest.2) := by
  have hlist := list_eq h1 h100 hown hc
  by_cases hlen : (rowsAfter s accountId c).length ≤ limit
  · left
    intro dbs
    rw [pageOf_last hlen] at hlist
    simp only [follow, hlist]
  · right
    obtain ⟨front, k, back, hsplit, hpage⟩ := pageOf_more h1 (not_le.mp hlen)
    rw [hpage] at hlist
    refine ⟨front, k, back, hsplit, fun dbs => ?_⟩
    simp only [follow, hlist]

/-! ### A whole reading -/

/-- What a reading from a cursor on returns: strictly descending rows behind it, and at its end
every row behind it that was in all the tables. -/
structure Reads (accountId : String) (dbs : List MessageDb) (c : Option Message)
    (rows : List Message) (finished : Bool) :
    Prop where
  descending : rows.Pairwise Newer
  behind : ∀ m ∈ rows, m.accountId.val = accountId ∧ (∀ k ∈ c, Newer k m) ∧ ∃ s ∈ dbs, m ∈ s.messages
  complete : finished = true → ∀ m, m.accountId.val = accountId → (∀ s ∈ dbs, m ∈ s.messages) →
    (∀ k ∈ c, Newer k m) → m ∈ rows

theorem Growing.tail (h : Growing userId accountId (s :: dbs)) : Growing userId accountId dbs :=
  ⟨fun t ht => h.owned t (List.mem_cons_of_mem _ ht), (List.pairwise_cons.mp h.grows).2⟩

/-- A page in front of a reading that goes on from its last row. -/
theorem Reads.cons {c : Option Message} {front back rows : List Message} {k : Message}
    {finished : Bool} (hsplit : rowsAfter s accountId c = front ++ k :: back)
    (h : Reads accountId dbs (some k) rows finished) :
    Reads accountId (s :: dbs) c (front ++ [k] ++ rows) finished := by
  have hsorted := pairwise_rowsAfter s accountId c
  rw [hsplit] at hsorted
  obtain ⟨hfront, -, hbefore⟩ := List.pairwise_append.mp hsorted
  have hnewer : ∀ m ∈ front, Newer m k := fun m hm => newer_iff.mpr (hbefore m hm k List.mem_cons_self)
  have hpage : ∀ m ∈ front ++ [k], m ∈ rowsAfter s accountId c := by
    intro m hm
    rw [hsplit]
    rcases List.mem_append.mp hm with hm | hm
    · exact List.mem_append_left _ hm
    · rw [List.mem_singleton.mp hm]
      exact List.mem_append_right _ List.mem_cons_self
  have hk := mem_rowsAfter.mp (hpage k (List.mem_append_right _ (List.mem_singleton.mpr rfl)))
  refine ⟨?_, ?_, ?_⟩
  · refine List.pairwise_append.mpr ⟨?_, h.descending, ?_⟩
    · refine List.pairwise_append.mpr
        ⟨hfront.imp fun hab => newer_iff.mpr hab, List.pairwise_singleton _ _, ?_⟩
      intro a ha b hb
      rw [List.mem_singleton.mp hb]
      exact hnewer a ha
    · intro a ha b hb
      have hkb : Newer k b := (h.behind b hb).2.1 k rfl
      rcases List.mem_append.mp ha with ha | ha
      · exact (hnewer a ha).trans hkb
      · rw [List.mem_singleton.mp ha]
        exact hkb
  · intro m hm
    rcases List.mem_append.mp hm with hm | hm
    · obtain ⟨hmem, haccount, hafter⟩ := mem_rowsAfter.mp (hpage m hm)
      exact ⟨haccount, hafter, s, List.mem_cons_self, hmem⟩
    · obtain ⟨haccount, hafter, t, ht, hmem⟩ := h.behind m hm
      exact ⟨haccount, fun j hj => (hk.2.2 j hj).trans (hafter k rfl), t,
        List.mem_cons_of_mem _ ht, hmem⟩
  · intro hfinished m haccount hall hafter
    have hm : m ∈ front ++ k :: back :=
      hsplit ▸ mem_rowsAfter.mpr ⟨hall s List.mem_cons_self, haccount, hafter⟩
    rcases List.mem_append.mp hm with hm | hm
    · exact List.mem_append_left _ (List.mem_append_left _ hm)
    · rcases List.mem_cons.mp hm with rfl | hm
      · exact List.mem_append_left _ (List.mem_append_right _ (List.mem_singleton.mpr rfl))
      · -- the row was behind this page, so the reading that went on has it
        refine List.mem_append_right
          _ (h.complete hfinished m haccount (fun t ht => hall t (List.mem_cons_of_mem _ ht)) ?_)
        intro j hj
        obtain rfl := Option.some.inj hj
        rw [← rowsAfter_split hsplit] at hm
        exact (mem_rowsAfter.mp hm).2.2 _ rfl

theorem follow_reads (h1 : 1 ≤ limit) (h100 : limit ≤ 100) (h : Growing userId accountId dbs)
    {c : Option Message} (hc : ∀ k ∈ c, k.accountId.val = accountId ∧ ∀ s ∈ dbs, k ∈ s.messages) :
    ∃ rows finished,
    follow userId accountId (some limit) (c.map (·.id)) dbs = .ok (rows.map summarize, finished) ∧
      Reads accountId dbs c rows finished := by
  induction dbs generalizing c with
  | nil => exact ⟨[], false, rfl, List.Pairwise.nil, fun m hm =>
    (List.not_mem_nil hm).elim, fun hfalse => nomatch hfalse⟩
  | cons s dbs ih =>
    have hcs : ∀ k ∈ c, k ∈ s.messages ∧ k.accountId.val = accountId :=
      fun k hk => ⟨(hc k hk).2 s List.mem_cons_self, (hc k hk).1⟩
    rcases follow_cons h1 h100 (h.owned s List.mem_cons_self) hcs with
      hlast | ⟨front, k, back, hsplit, hmore⟩
    · refine ⟨rowsAfter s accountId c, true, hlast dbs, ?_, ?_, ?_⟩
      · exact (pairwise_rowsAfter s accountId c).imp fun hab => newer_iff.mpr hab
      · intro m hm
        obtain ⟨hmem, haccount, hafter⟩ := mem_rowsAfter.mp hm
        exact ⟨haccount, hafter, s, List.mem_cons_self, hmem⟩
      · intro _ m haccount hall hafter
        exact mem_rowsAfter.mpr ⟨hall s List.mem_cons_self, haccount, hafter⟩
    · have hk : k ∈ rowsAfter s accountId c := by
        rw [hsplit]
        exact List.mem_append_right _ List.mem_cons_self
      obtain ⟨hmem, haccount, -⟩ := mem_rowsAfter.mp hk
      have hgrows := (List.pairwise_cons.mp h.grows).1
      obtain ⟨rows, finished, hrest, hreads⟩ := @ih h.tail (some k) fun j hj => by
        obtain rfl := Option.some.inj hj
        exact ⟨haccount, fun t ht => hgrows t ht _ hmem⟩
      refine ⟨front ++ [k] ++ rows, finished, ?_, hreads.cons hsplit⟩
      rw [Option.map_some] at hrest
      rw [hmore dbs, hrest]
      exact congrArg (fun entries => Except.ok (entries, finished)) List.map_append.symm

/-- On a table that stays as it is, every reading ends. -/
theorem follow_ends (h1 : 1 ≤ limit) (h100 : limit ≤ 100)
    (hown : ownsAccount s userId accountId = true) {c : Option Message}
    (hc : ∀ k ∈ c, k ∈ s.messages ∧ k.accountId.val = accountId) :
    ∃ n entries, follow userId accountId (some limit) (c.map (·.id)) (List.replicate n s) =
      .ok (entries, true) := by
  induction hlen : (rowsAfter s accountId c).length using Nat.strong_induction_on generalizing c with
  | _ len ih =>
    rcases follow_cons h1 h100 hown hc with hlast | ⟨front, k, back, hsplit, hmore⟩
    · exact ⟨1, _, hlast []⟩
    · have hk : k ∈ rowsAfter s accountId c := by
        rw [hsplit]
        exact List.mem_append_right _ List.mem_cons_self
      obtain ⟨hmem, haccount, -⟩ := mem_rowsAfter.mp hk
      have hshorter : (rowsAfter s accountId (some k)).length < len := by
        rw [rowsAfter_split hsplit, ← hlen, hsplit, List.length_append, List.length_cons]
        omega
      obtain ⟨n, entries, hrest⟩ := @ih _ hshorter (some k) (fun j hj => by
        obtain rfl := Option.some.inj hj
        exact ⟨hmem, haccount⟩) rfl
      refine ⟨n + 1, (front ++ [k]).map summarize ++ entries, ?_⟩
      rw [Option.map_some] at hrest
      rw [List.replicate_succ, hmore, hrest]
      rfl

/-- Any reading ends once nothing is inserted any more. -/
theorem follow_append_ends (h1 : 1 ≤ limit) (h100 : limit ≤ 100)
    (h : Growing userId accountId (dbs ++ [s])) {c : Option Message}
    (hc : ∀ k ∈ c, k.accountId.val = accountId ∧ ∀ t ∈ dbs ++ [s], k ∈ t.messages) : ∃ n entries,
    follow userId accountId (some limit) (c.map (·.id)) (dbs ++ List.replicate n s) =
      .ok (entries, true) := by
  induction dbs generalizing c with
  | nil =>
    refine follow_ends h1 h100 (h.owned s (List.mem_singleton.mpr rfl)) fun k hk => ?_
    exact ⟨(hc k hk).2 s (List.mem_singleton.mpr rfl), (hc k hk).1⟩
  | cons t dbs ih =>
    have hct : ∀ k ∈ c, k ∈ t.messages ∧ k.accountId.val = accountId :=
      fun k hk => ⟨(hc k hk).2 t List.mem_cons_self, (hc k hk).1⟩
    rcases follow_cons h1 h100 (h.owned t List.mem_cons_self) hct with
      hlast | ⟨front, k, back, hsplit, hmore⟩
    · exact ⟨0, _, hlast _⟩
    · have hk : k ∈ rowsAfter t accountId c := by
        rw [hsplit]
        exact List.mem_append_right _ List.mem_cons_self
      obtain ⟨hmem, haccount, -⟩ := mem_rowsAfter.mp hk
      have hgrows := (List.pairwise_cons.mp h.grows).1
      obtain ⟨n, entries, hrest⟩ := @ih h.tail (some k) fun j hj => by
        obtain rfl := Option.some.inj hj
        exact ⟨haccount, fun u hu => hgrows u hu _ hmem⟩
      refine ⟨n, (front ++ [k]).map summarize ++ entries, ?_⟩
      rw [Option.map_some] at hrest
      rw [List.cons_append, hmore, hrest]
      rfl

/-- Rows of tables that only grow have distinct ids, as they are all in the last one. -/
theorem Growing.ids_nodup (h : Growing userId accountId dbs) {rows : List Message}
    (hrows : rows.Pairwise Newer) (hmem : ∀ m ∈ rows, ∃ s ∈ dbs, m ∈ s.messages) :
    (rows.map (·.id)).Nodup := by
  have hlast : ∃ t : MessageDb, ∀ m ∈ rows, m ∈ t.messages := by
    rcases List.eq_nil_or_concat dbs with rfl | ⟨front, t, rfl⟩
    · refine ⟨⟨[], [], fun _ => none, nofun, nofun, List.nodup_nil, List.nodup_nil, nofun⟩,
        fun m hm => ?_⟩
      obtain ⟨s, hs, -⟩ := hmem m hm
      exact absurd hs List.not_mem_nil
    · refine ⟨t, fun m hm => ?_⟩
      obtain ⟨s, hs, hms⟩ := hmem m hm
      have hgrows := h.grows
      rw [List.concat_eq_append] at hs hgrows
      rcases List.mem_append.mp hs with hs | hs
      · exact (List.pairwise_append.mp hgrows).2.2 s hs t (List.mem_singleton.mpr rfl) m hms
      · rwa [← List.mem_singleton.mp hs]
  obtain ⟨t, ht⟩ := hlast
  rw [List.Nodup, List.pairwise_map]
  refine hrows.imp_of_mem fun {a b} ha hb hab hid => ?_
  obtain rfl := eq_of_message_id (ht a ha) (ht b hb) hid
  have hlater := newer_iff.mp hab
  rw [Query.later_irrefl] at hlater
  exact absurd hlater Bool.false_ne_true

/-! ### What the client gets -/

/-- The answer about a message has its columns, and the time as text. -/
structure SummaryOf (m : Message) (entry : MessageSummary) : Prop where
  id : entry.id = m.id
  subject : entry.subject = m.subject
  fromAddress : entry.fromAddress = m.fromAddress
  fromName : entry.fromName = m.fromName
  sentAt : entry.sentAt = toISOString m.sentAt
  snippet : entry.snippet = m.snippet
  hasAttachments : entry.hasAttachments = m.hasAttachments
  labels : entry.labels = m.labels
  sizeBytes : entry.sizeBytes = m.sizeBytes

theorem summaryOf_summarize (m : Message) : SummaryOf m (summarize m) :=
  ⟨rfl, rfl, rfl, rfl, rfl, rfl, rfl, rfl, rfl⟩

/-- Entries that are one by one those of rows in strictly descending order, none of them twice. -/
structure Listing (rows : List Message) (entries : List MessageSummary) : Prop where
  summaries : List.Forall₂ SummaryOf rows entries
  descending : rows.Pairwise Newer
  ids : (entries.map (·.id)).Nodup

theorem ids_of_summaries {rows : List Message} {entries : List MessageSummary}
    (h : List.Forall₂ SummaryOf rows entries) :
    entries.map (·.id) = rows.map (·.id) := by
  induction h with
  | nil => rfl
  | cons hentry _ ih => rw [List.map_cons, List.map_cons, ih, hentry.id]

theorem forall₂_summarize (rows : List Message) :
    List.Forall₂ SummaryOf rows (rows.map summarize) := by
  rw [List.forall₂_map_right_iff]
  exact List.forall₂_same.mpr fun m _ => summaryOf_summarize m

theorem Reads.listing {c : Option Message} {rows : List Message} {finished : Bool}
    (hgrowing : Growing userId accountId dbs) (h : Reads accountId dbs c rows finished) :
    Listing rows (rows.map summarize) where
  summaries := forall₂_summarize rows
  descending := h.descending
  ids := by
    rw [ids_of_summaries (forall₂_summarize rows)]
    exact hgrowing.ids_nodup h.descending fun m hm => (h.behind m hm).2.2

/-- Following `nextCursor` returns each message of the account exactly once, newest first, and
ends. With messages inserted in between none is repeated, and every one that was there at the
first request is returned. -/
theorem pagination_exactly_once (userId accountId : String) (limit : ℤ) (h1 : 1 ≤ limit)
    (h100 : limit ≤ 100) :
    (∀ s, ownsAccount s userId accountId = true →
      ∃ (n : ℕ) (rows : List Message) (entries : List MessageSummary),
      follow userId accountId (some limit) none (List.replicate n s) = .ok (entries, true) ∧
        Listing rows entries ∧ ∀ m, m ∈ rows ↔ m ∈ s.messages ∧ m.accountId.val = accountId) ∧
    ∀ dbs, Growing userId accountId dbs →
      (∃ (rows : List Message) (entries : List MessageSummary) (finished : Bool),
        follow userId accountId (some limit) none dbs = .ok (entries, finished) ∧
          Listing rows entries ∧
        (∀ m ∈ rows, m.accountId.val = accountId ∧ ∃ s ∈ dbs, m ∈ s.messages) ∧
        (finished = true → ∀ s ∈ dbs.head?, ∀ m ∈ s.messages, m.accountId.val = accountId →
          m ∈ rows)) ∧
      ∀ before s, dbs = before ++ [s] → ∃ n entries,
        follow userId accountId (some limit) none (before ++ List.replicate n s) =
          .ok (entries, true) := by
  obtain ⟨limit, rfl⟩ : ∃ k : ℕ, (k : ℤ) = limit := ⟨limit.toNat, Int.toNat_of_nonneg (by omega)⟩
  have h1 : 1 ≤ limit := by omega
  have h100 : limit ≤ 100 := by omega
  have noCursor : ∀ {p : Message → Prop}, ∀ k ∈ (none : Option Message), p k := fun k hk => nomatch hk
  constructor
  · intro s hown
    obtain ⟨n, entries, hends⟩ := follow_ends h1 h100 hown noCursor
    have hgrowing : Growing userId accountId (List.replicate n s) := by
      refine ⟨fun t ht => ?_, List.pairwise_replicate.mpr (.inr fun m hm => hm)⟩
      rwa [List.eq_of_mem_replicate ht]
    obtain ⟨rows, finished, hfollow, hreads⟩ := follow_reads h1 h100 hgrowing noCursor
    obtain ⟨rfl, rfl⟩ := Prod.mk.inj (Except.ok.inj (hfollow.symm.trans hends))
    refine ⟨n, rows, rows.map summarize, hends, hreads.listing hgrowing, ?_⟩
    intro m
    constructor
    · intro hm
      obtain ⟨haccount, -, t, ht, hmem⟩ := hreads.behind m hm
      exact ⟨List.eq_of_mem_replicate ht ▸ hmem, haccount⟩
    · rintro ⟨hmem, haccount⟩
      exact hreads.complete rfl m haccount (fun t ht => (List.eq_of_mem_replicate ht).symm ▸ hmem)
        noCursor
  · intro dbs hgrowing
    obtain ⟨rows, finished, hfollow, hreads⟩ := follow_reads h1 h100 hgrowing noCursor
    refine ⟨⟨rows, rows.map summarize, finished, hfollow, hreads.listing hgrowing,
      fun m hm => ⟨(hreads.behind m hm).1, (hreads.behind m hm).2.2⟩, ?_⟩, ?_⟩
    · intro hfinished s hs m hmem haccount
      obtain ⟨rest, rfl⟩ := List.head?_eq_some_iff.mp hs
      refine hreads.complete hfinished m haccount (fun t ht => ?_) noCursor
      rcases List.mem_cons.mp ht with rfl | ht
      · exact hmem
      · exact (List.pairwise_cons.mp hgrowing.grows).1 t ht m hmem
    · rintro before s rfl
      exact follow_append_ends h1 h100 hgrowing noCursor

/-- Three messages of one moment. -/
def tiedDb : MessageDb where
  accounts := [{ strangerMailbox "" aliceAccount with userId := alice }]
  messages := [strangerMessage aliceAccount aliceFirst 7, strangerMessage aliceAccount aliceSecond 7,
    strangerMessage aliceAccount bobMessage 7]
  objects _ := none
  account_uuids := aliceDb.account_uuids
  message_uuids := by decide
  account_ids := aliceDb.account_ids
  message_ids := by decide
  account_exists m hm := by
    refine ⟨_, List.mem_cons_self, ?_⟩
    simp only [List.mem_cons, List.not_mem_nil, or_false] at hm
    rcases hm with rfl | rfl | rfl <;> rfl

theorem pagination_exactly_once_tied :
    ∃ (n : ℕ) (rows : List Message) (entries : List MessageSummary),
      follow alice aliceAccount.val (some 2) none (List.replicate n tiedDb) = .ok (entries, true) ∧
        Listing rows entries ∧ ∀ m, m ∈ rows ↔ m ∈ tiedDb.messages ∧ m.accountId.val =
          aliceAccount.val :=
  (pagination_exactly_once alice aliceAccount.val 2 (by decide) (by decide)).1 tiedDb (by decide)

end Finlytic.EmailIngestion
