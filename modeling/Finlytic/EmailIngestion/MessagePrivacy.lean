import Finlytic.EmailIngestion.Messages
import Mathlib.Data.Set.Finite.Basic

/-! Whether another user's data can be seen through the message reads. Two states that
agree on a user's accounts, messages and objects answer every read of that user
alike, except through one door: the cursor is looked up among the messages of
everyone, and where it stands decides which of the user's own rows come back. -/

namespace Finlytic.EmailIngestion

open Lib

variable {s t : MessageDb} {userId id : String} {accountId messageId : Uuid} {m n : Message}
  {a : MailAccount} {limit : ℕ} {cursor : Option Uuid}

/-! ### What a user may see -/

def Owns (s : MessageDb) (userId : String) (m : Message) : Prop :=
  ∃ a ∈ s.accounts, a.userId = userId ∧ a.id = m.accountId.val

/-- The two states look the same to the user. -/
structure Agree (userId : String) (s t : MessageDb) : Prop where
  accounts : ∀ a, a.userId = userId → (a ∈ s.accounts ↔ a ∈ t.accounts)
  messages : ∀ m, Owns s userId m → (m ∈ s.messages ↔ m ∈ t.messages)
  rawObjects : ∀ m ∈ s.messages, Owns s userId m → s.objects m.rawObjectKey = t.objects m.rawObjectKey
  bodyObjects : ∀ m ∈ s.messages, Owns s userId m → ∀ key ∈ m.bodyTextKey, s.objects key =
    t.objects key

theorem ownsAccount_iff :
    ownsAccount s userId id = true ↔ ∃ a ∈ s.accounts, a.userId = userId ∧ a.id = id := by
  unfold ownsAccount
  rw [List.any_eq_true]
  constructor
  · rintro ⟨a, ha, hsel⟩
    rw [Bool.and_eq_true, decide_eq_true_eq, decide_eq_true_eq] at hsel
    exact ⟨a, ha, hsel.2, hsel.1⟩
  · rintro ⟨a, ha, huser, hid⟩
    refine ⟨a, ha, ?_⟩
    rw [Bool.and_eq_true, decide_eq_true_eq, decide_eq_true_eq]
    exact ⟨hid, huser⟩

theorem Agree.ownsAccount (h : Agree userId s t) (id : String) :
    ownsAccount s userId id = ownsAccount t userId id := by
  rw [Bool.eq_iff_iff, ownsAccount_iff, ownsAccount_iff]
  constructor
  · rintro ⟨a, ha, huser, hid⟩
    exact ⟨a, (h.accounts a huser).mp ha, huser, hid⟩
  · rintro ⟨a, ha, huser, hid⟩
    exact ⟨a, (h.accounts a huser).mpr ha, huser, hid⟩

theorem owns_iff : Owns s userId m ↔ ownsAccount s userId m.accountId.val = true :=
  ownsAccount_iff.symm

theorem Agree.owns_iff (h : Agree userId s t) : Owns s userId m ↔ Owns t userId m := by
  rw [EmailIngestion.owns_iff, EmailIngestion.owns_iff, h.ownsAccount]

/-! ### One message -/

theorem eq_of_message_id (hm : m ∈ s.messages) (hn : n ∈ s.messages) (hid : m.id = n.id) : m = n :=
  Table.eq_of_nodup_key s.message_ids hm hn hid

theorem find_message_iff {sel : Message → Bool} (hsel : ∀ m, sel m = true → m.id = id) :
    s.messages.find? sel = some m ↔ m ∈ s.messages ∧ sel m = true := by
  constructor
  · intro h
    exact ⟨List.mem_of_find?_eq_some h, List.find?_some h⟩
  · rintro ⟨hm, hs⟩
    cases hfind : s.messages.find? sel with
    | none => exact absurd hs (List.find?_eq_none.mp hfind m hm)
    | some n =>
      have hn := List.find?_some hfind
      rw [eq_of_message_id (List.mem_of_find?_eq_some hfind) hm ((hsel n hn).trans (hsel m hs).symm)]

theorem find_id (hm : m ∈ s.messages) :
    s.messages.find? (fun n => decide (n.id = m.id)) = some m := by
  apply (@find_message_iff s m.id m _ fun n hn => of_decide_eq_true hn).mpr
  exact ⟨hm, decide_eq_true rfl⟩

theorem findOwned_iff : findOwned s userId accountId messageId = some m ↔
    m ∈ s.messages ∧ m.id = messageId.val ∧ m.accountId.val = accountId.val ∧ Owns s userId m := by
  unfold findOwned
  rw [@find_message_iff s messageId.val m]
  · rw [Bool.and_eq_true, Bool.and_eq_true, decide_eq_true_eq, decide_eq_true_eq, owns_iff, and_assoc]
  · intro n hn
    rw [Bool.and_eq_true, Bool.and_eq_true, decide_eq_true_eq] at hn
    exact hn.1.1

/-- The user finds the same message in both states. -/
theorem Agree.findOwned (h : Agree userId s t) (accountId messageId : Uuid) :
    findOwned s userId accountId messageId = findOwned t userId accountId messageId := by
  apply Option.ext
  intro m
  rw [findOwned_iff, findOwned_iff, h.owns_iff]
  constructor
  · rintro ⟨hm, hrest⟩
    exact ⟨(h.messages m (h.owns_iff.mpr hrest.2.2)).mp hm, hrest⟩
  · rintro ⟨hm, hrest⟩
    exact ⟨(h.messages m (h.owns_iff.mpr hrest.2.2)).mpr hm, hrest⟩

theorem Agree.rawObjectKeyFor (h : Agree userId s t) (accountId messageId : Uuid) :
    rawObjectKeyFor s userId accountId messageId =
      rawObjectKeyFor t userId accountId messageId := by
  unfold EmailIngestion.rawObjectKeyFor
  rw [h.findOwned]

theorem Agree.getForAccount (h : Agree userId s t) (utf8 : Bytes → String)
    (fault : Option StorageFault) (accountId messageId : Uuid) :
    getForAccount utf8 s fault userId accountId messageId =
      getForAccount utf8 t fault userId accountId messageId := by
  unfold EmailIngestion.getForAccount
  rw [← h.findOwned]
  cases hfind : EmailIngestion.findOwned s userId accountId messageId with
  | none => rfl
  | some m =>
    obtain ⟨hm, -, -, howns⟩ := findOwned_iff.mp hfind
    have hbody : readBody utf8 s fault m.bodyTextKey = readBody utf8 t fault m.bodyTextKey := by
      unfold readBody
      cases hkey : truthy m.bodyTextKey with
      | none => rfl
      | some key =>
        have hobject := h.bodyObjects m hm howns key (truthy_eq_some_iff.mp hkey).1
        simp only [getObject, hobject]
    simp only [hbody]

/-! ### The list -/

theorem newestFirst_iff :
    newestFirst m n = true ↔ n.sentAt < m.sentAt ∨ n.sentAt = m.sentAt ∧ n.id ≤ m.id := by
  unfold newestFirst
  exact decide_eq_true_iff

theorem newestFirst_trans (a b c : Message) (hab : newestFirst a b = true)
    (hbc : newestFirst b c = true) :
    newestFirst a c = true := by
  rw [newestFirst_iff] at hab hbc ⊢
  rcases hab with hab | ⟨hab, hid⟩
  · rcases hbc with hbc | ⟨hbc, -⟩
    · exact .inl (by omega)
    · exact .inl (by omega)
  · rcases hbc with hbc | ⟨hbc, hid'⟩
    · exact .inl (by omega)
    · exact .inr ⟨by omega, le_trans hid' hid⟩

theorem newestFirst_total (a b : Message) : (newestFirst a b || newestFirst b a) = true := by
  rw [Bool.or_eq_true, newestFirst_iff, newestFirst_iff]
  rcases lt_trichotomy a.sentAt b.sentAt with hlt | heq | hlt
  · exact .inr (.inl hlt)
  · rcases le_total a.id b.id with hle | hle
    · exact .inr (.inr ⟨heq, hle⟩)
    · exact .inl (.inr ⟨heq.symm, hle⟩)
  · exact .inl (.inl hlt)

theorem newestFirst_antisymm (hm : m ∈ s.messages) (hn : n ∈ s.messages)
    (hmn : newestFirst m n = true) (hnm : newestFirst n m = true) : m = n := by
  rw [newestFirst_iff] at hmn hnm
  apply eq_of_message_id hm hn
  rcases hmn with hmn | ⟨hmn, hid⟩
  · rcases hnm with hnm | ⟨hnm, -⟩ <;> omega
  · rcases hnm with hnm | ⟨-, hid'⟩
    · omega
    · exact le_antisymm hid' hid

theorem nodup_messages (s : MessageDb) : s.messages.Nodup := List.Nodup.of_map _ s.message_ids

/-- The rows of an own account are read in the same order. -/
theorem Agree.ordered (h : Agree userId s t)
    (hown : EmailIngestion.ownsAccount s userId accountId.val = true) :
    Query.ordered (listQuery accountId cursor limit) s.messages =
      Query.ordered (listQuery accountId cursor limit) t.messages := by
  apply Query.ordered_congr newestFirst_trans newestFirst_total
  · exact fun m hm n hn => newestFirst_antisymm hm hn
  · exact nodup_messages s
  · exact nodup_messages t
  · intro m hsel
    have haccount : m.accountId.val = accountId.val := of_decide_eq_true hsel
    apply h.messages
    rw [EmailIngestion.owns_iff, haccount]
    exact hown

/-- Every account id there is belongs to the user, so that nobody else can have a mailbox. -/
def NobodyElse (s : MessageDb) (userId : String) : Prop :=
  ∀ id : Uuid, ∃ a ∈ s.accounts, a.userId = userId ∧ a.id = id.val

/-- What keeps the cursor inside the user's own data: there is none, it is one of the
user's messages, or there is nothing for it to decide. -/
def OwnCursor (s : MessageDb) (userId : String) (accountId : Uuid) (cursor : Option Uuid)
    (limit : ℕ) : Prop :=
  cursor = none ∨ (∃ m ∈ s.messages, Owns s userId m ∧ cursor.map (·.val) = some m.id) ∨
    ownsAccount s userId accountId.val = false ∨
    (s.messages.filter (·.accountId.val = accountId.val)).length ≤ 1 ∨ limit = 0 ∨ NobodyElse s userId

/-- Where nobody else can have a mailbox, everything is the user's own. -/
theorem Agree.messages_of_nobodyElse (h : Agree userId s t) (hall : NobodyElse s userId)
    (m : Message) :
    m ∈ s.messages ↔ m ∈ t.messages := by
  have owned : ∀ u : MessageDb, (∀ a, a.userId = userId → a ∈ s.accounts → a ∈ u.accounts) →
    m ∈ u.messages →
      Owns u userId m := by
    intro u haccounts hm
    obtain ⟨a, ha, hid⟩ := u.account_exists m hm
    obtain ⟨b, hb, huser, hbid⟩ := hall ⟨a.id, u.account_uuids a ha⟩
    exact ⟨b, haccounts b huser hb, huser, hbid.trans hid⟩
  constructor
  · intro hm
    exact (h.messages m (owned s (fun _ _ ha => ha) hm)).mp hm
  · intro hm
    have howns := owned t (fun a huser ha => (h.accounts a huser).mp ha) hm
    exact (h.messages m (h.owns_iff.mpr howns)).mpr hm

theorem pageOf_zero (rows : List Message) : pageOf 0 rows = ⟨[], none⟩ := by
  unfold pageOf
  simp

/-- With at most one row there is nothing behind a cursor. -/
theorem findMany_of_length_le_one (hcursor : cursor ≠ none)
    (hlen : (s.messages.filter (·.accountId.val = accountId.val)).length ≤ 1) :
    Query.findMany (listQuery accountId cursor limit) s.messages = [] := by
  have hskip : (listQuery accountId cursor limit).skip = 1 :=
    if_pos (Option.isSome_iff_ne_none.mpr hcursor)
  have hfrom := @Query.length_fromCursor_le _ (listQuery accountId cursor limit) s.messages
  have hdrop : ((Query.fromCursor (listQuery accountId cursor limit) s.messages).drop 1) = [] :=
    List.drop_eq_nil_of_le (Nat.le_trans hfrom hlen)
  unfold Query.findMany
  rw [hskip, hdrop, List.take_nil]

theorem Agree.listForAccount (h : Agree userId s t)
    (hcursor : OwnCursor s userId accountId cursor limit) :
    listForAccount s userId accountId cursor limit =
      listForAccount t userId accountId cursor limit := by
  unfold EmailIngestion.listForAccount
  rw [← h.ownsAccount]
  split_ifs with hown
  · congr 1
    have hordered := @Agree.ordered s t userId accountId limit cursor h hown
    by_cases hnone : cursor = none
    · rw [Query.findMany_congr hordered]
      intro isCursor hin
      simp [listQuery, hnone] at hin
    · rcases hcursor with hnone' | ⟨m, hm, howns, hid⟩ | hnot | hlen | rfl | hall
      · exact absurd hnone' hnone
      · rw [Query.findMany_congr hordered]
        intro isCursor hin
        obtain ⟨id, hcursor, rfl⟩ := Option.map_eq_some_iff.mp hin
        rw [hcursor, Option.map_some] at hid
        rw [Option.some.inj hid, find_id hm, find_id ((h.messages m howns).mp hm)]
      · rw [hown] at hnot
        cases hnot
      · have hlen' : (t.messages.filter (·.accountId.val = accountId.val)).length ≤ 1 := by
          have heq := congrArg List.length hordered
          rw [Query.length_ordered, Query.length_ordered] at heq
          exact heq ▸ hlen
        rw [findMany_of_length_le_one hnone hlen, findMany_of_length_le_one hnone hlen']
      · rw [pageOf_zero, pageOf_zero]
      · rw [Query.findMany_congr hordered]
        intro isCursor hin
        obtain ⟨id, -, rfl⟩ := Option.map_eq_some_iff.mp hin
        apply Option.ext
        intro m
        rw [@find_message_iff s id.val m _ fun n hn => of_decide_eq_true hn,
          @find_message_iff t id.val m _ fun n hn =>
            of_decide_eq_true hn, h.messages_of_nobodyElse hall]
  · rfl

/-! ### Two worlds -/

/-- The user's own data and nothing else. -/
def ownView (s : MessageDb) (userId : String) : MessageDb where
  accounts := s.accounts.filter (·.userId = userId)
  messages := s.messages.filter fun m => ownsAccount s userId m.accountId.val
  objects := s.objects
  account_uuids a ha := s.account_uuids a (List.mem_filter.mp ha).1
  message_uuids m hm := s.message_uuids m (List.mem_filter.mp hm).1
  account_ids := s.account_ids.sublist (List.filter_sublist.map _)
  message_ids := s.message_ids.sublist (List.filter_sublist.map _)
  account_exists m hm := by
    obtain ⟨a, ha, huser, hid⟩ := ownsAccount_iff.mp (List.mem_filter.mp hm).2
    exact ⟨a, List.mem_filter.mpr ⟨ha, decide_eq_true huser⟩, hid⟩

theorem agree_ownView (s : MessageDb) (userId : String) : Agree userId s (ownView s userId) where
  accounts a huser := by
    show _ ↔ a ∈ s.accounts.filter _
    rw [List.mem_filter, decide_eq_true_eq]
    exact (and_iff_left huser).symm
  messages m howns := by
    show _ ↔ m ∈ s.messages.filter _
    rw [List.mem_filter]
    exact (and_iff_left (owns_iff.mp howns)).symm
  rawObjects _ _ _ := rfl
  bodyObjects _ _ _ _ _ := rfl

/-- Someone else connects a mailbox and gets one message. -/
def withStranger (s : MessageDb) (a : MailAccount) (m : Message) (hauuid : isCanonical a.id = true)
    (hmuuid : isCanonical m.id = true) (ha : a.id ∉ s.accounts.map (·.id))
    (hm : m.id ∉ s.messages.map (·.id)) (ham : a.id = m.accountId.val) : MessageDb where
  accounts := a :: s.accounts
  messages := m :: s.messages
  objects := s.objects
  account_uuids b hb := by
    rcases List.mem_cons.mp hb with rfl | hb
    · exact hauuid
    · exact s.account_uuids b hb
  message_uuids n hn := by
    rcases List.mem_cons.mp hn with rfl | hn
    · exact hmuuid
    · exact s.message_uuids n hn
  account_ids := by
    rw [List.map_cons]
    exact List.nodup_cons.mpr ⟨ha, s.account_ids⟩
  message_ids := by
    rw [List.map_cons]
    exact List.nodup_cons.mpr ⟨hm, s.message_ids⟩
  account_exists n hn := by
    rcases List.mem_cons.mp hn with rfl | hn
    · exact ⟨a, List.mem_cons_self, ham⟩
    · obtain ⟨b, hb, hid⟩ := s.account_exists n hn
      exact ⟨b, List.mem_cons_of_mem _ hb, hid⟩

theorem agree_withStranger (s : MessageDb) (a : MailAccount) (m : Message)
    (hauuid : isCanonical a.id = true) (hmuuid : isCanonical m.id = true)
    (ha : a.id ∉ s.accounts.map (·.id)) (hm : m.id ∉ s.messages.map (·.id))
    (ham : a.id = m.accountId.val) (huser : a.userId ≠ userId) :
    Agree userId s (withStranger s a m hauuid hmuuid ha hm ham) where
  accounts b hb := by
    show _ ↔ b ∈ a :: s.accounts
    rw [List.mem_cons]
    constructor
    · exact .inr
    · rintro (rfl | hin)
      · exact absurd hb huser
      · exact hin
  messages n hn := by
    show _ ↔ n ∈ m :: s.messages
    rw [List.mem_cons]
    constructor
    · exact .inr
    · rintro (rfl | hin)
      · obtain ⟨b, hb, -, hid⟩ := hn
        exact absurd (List.mem_map.mpr ⟨b, hb, hid.trans ham.symm⟩) ha
      · exact hin
  rawObjects _ _ _ := rfl
  bodyObjects _ _ _ _ _ := rfl

theorem Agree.trans {u : MessageDb} (h : Agree userId s t) (h' : Agree userId t u) :
    Agree userId s u where
  accounts a huser := (h.accounts a huser).trans (h'.accounts a huser)
  messages m howns := (h.messages m howns).trans (h'.messages m (h.owns_iff.mp howns))
  rawObjects m hm howns :=
    (h.rawObjects m hm howns).trans
      (h'.rawObjects m ((h.messages m howns).mp hm) (h.owns_iff.mp howns))
  bodyObjects m hm howns key hkey :=
    (h.bodyObjects m hm howns key hkey).trans
      (h'.bodyObjects m ((h.messages m howns).mp hm) (h.owns_iff.mp howns) key hkey)

theorem filter_ownView (hown : ownsAccount s userId accountId.val = true) :
    (ownView s userId).messages.filter (·.accountId.val = accountId.val) =
      s.messages.filter (·.accountId.val = accountId.val) := by
  show (s.messages.filter _).filter _ = _
  rw [List.filter_filter]
  apply List.filter_congr
  intro m _
  by_cases hm : m.accountId.val = accountId.val
  · rw [hm, hown]
    simp
  · simp [hm]

/-- A cursor that nobody's message has gives an empty page. -/
theorem list_missing (hown : ownsAccount s userId accountId.val = true) {id : Uuid}
    (hnone : ∀ m ∈ s.messages, m.id ≠ id.val) :
    listForAccount s userId accountId (some id) limit = .ok ⟨[], none⟩ := by
  have hfind : s.messages.find? (fun m => decide (m.id = id.val)) = none := by
    rw [List.find?_eq_none]
    intro m hm
    simp [hnone m hm]
  have hq : (listQuery accountId (some id) limit).cursor = some fun m => decide (m.id = id.val) := rfl
  unfold listForAccount
  rw [if_pos hown, Query.findMany_missing hq hfind]
  simp [pageOf]

/-- A cursor that stands before all rows drops the newest one and returns the next. -/
theorem list_ahead (hown : ownsAccount s userId accountId.val = true) {id : Uuid}
    (hid : m.id = id.val) (hm : m ∈ s.messages)
    (hahead : ∀ n ∈ s.messages, n.accountId.val = accountId.val → n.sentAt < m.sentAt)
    (hlen : 1 < (s.messages.filter (·.accountId.val = accountId.val)).length) (hlimit : limit ≠ 0) :
    listForAccount s userId accountId (some id) limit ≠ .ok ⟨[], none⟩ := by
  have hall : (Query.ordered (listQuery accountId (some id) limit) s.messages).filter (newestFirst m) =
      Query.ordered (listQuery accountId (some id) limit) s.messages := by
    rw [List.filter_eq_self]
    intro n hn
    obtain ⟨hin, hsel⟩ := Query.mem_ordered.mp hn
    exact newestFirst_iff.mpr (.inl (hahead n hin (of_decide_eq_true hsel)))
  have hfrom : Query.fromCursor (listQuery accountId (some id) limit) s.messages =
      Query.ordered (listQuery accountId (some id) limit) s.messages := by
    unfold Query.fromCursor
    simp only [listQuery, Option.map_some, ← hid, find_id hm]
    exact hall
  have hskip : (listQuery accountId (some id) limit).skip = 1 := rfl
  have hrows : (Query.findMany (listQuery accountId (some id) limit) s.messages).length =
      min (limit + 1) ((s.messages.filter (·.accountId.val = accountId.val)).length - 1) := by
    unfold Query.findMany
    rw [hfrom, hskip, List.length_take, List.length_drop, Query.length_ordered]
    rfl
  intro h
  unfold listForAccount at h
  rw [if_pos hown, Except.ok.injEq] at h
  have hmessages := congrArg (fun page => page.messages.length) h
  simp only [pageOf, List.length_map, List.length_take, List.length_nil, hrows] at hmessages
  omega

/-! ### Strangers -/

theorem slash_not_mem (id : Uuid) : '/' ∉ id.val.toList := by
  intro hslash
  exact uuidClass_of_isUuid (Bool.and_eq_true_iff.mp id.2).1 hslash (by decide)

def accountOf (id : Uuid) : AccountId := ⟨id.val, slash_not_mem id⟩

theorem exists_later (messages : List Message) : ∃ date, ∀ m ∈ messages, m.sentAt < date := by
  induction messages with
  | nil => exact ⟨0, fun m hm => (List.not_mem_nil hm).elim⟩
  | cons m messages ih =>
    obtain ⟨date, hdate⟩ := ih
    refine ⟨max date (m.sentAt + 1), fun n hn => ?_⟩
    rcases List.mem_cons.mp hn with rfl | hn
    · exact lt_max_of_lt_right (Int.lt_succ _)
    · exact lt_max_of_lt_left (hdate n hn)

/-- Someone who is not the given user. -/
def strangerOf (userId : String) : String :=
  if userId = "9b2e4d17-5c08-4f6a-8d31-7e0c6a95f201" then "3f81c0aa-2d6e-4b97-a5c4-18e7d2b60f02"
  else "9b2e4d17-5c08-4f6a-8d31-7e0c6a95f201"

/-- A mailbox of another user. -/
def strangerMailbox (userId : String) (id : Uuid) : MailAccount where
  id := id.val
  userId := strangerOf userId
  provider := .GMAIL
  providerAccountId := ""
  emailAddress := ""
  status := .ACTIVE
  accessTokenEnc := ""
  accessTokenExpires := 0
  refreshTokenEnc := none
  scopes := []
  providerMetadata := none
  syncCursor := none
  lastSyncedAt := none
  lastSyncError := none

def strangerMessage (accountId id : Uuid) (sentAt : ℤ) : Message where
  id := id.val
  accountId := accountOf accountId
  providerMessageId := ""
  providerThreadId := none
  subject := none
  fromAddress := none
  fromName := none
  toAddresses := []
  sentAt := sentAt
  snippet := none
  labels := []
  sizeBytes := 0
  hasAttachments := false
  rawObjectKey := ""
  bodyTextKey := none

theorem strangerOf_ne (userId : String) : strangerOf userId ≠ userId := by
  unfold strangerOf
  split_ifs with h
  · rw [h]
    decide
  · exact fun heq => h heq.symm

/-- A cursor that is not the user's own: with a stranger's newer message under that id the list is
not empty, without it it is. -/
theorem two_worlds (hcursor : ¬ OwnCursor s userId accountId cursor limit) :
    ∃ t u, Agree userId s t ∧ Agree userId s u ∧
    listForAccount t userId accountId cursor limit ≠
      listForAccount u userId accountId cursor limit := by
  unfold OwnCursor NobodyElse at hcursor
  rw [not_or, not_or, not_or, not_or, not_or, Bool.not_eq_false, not_le] at hcursor
  obtain ⟨hsome, hforeign, hown, hlen, hlimit, hroom⟩ := hcursor
  obtain ⟨id, rfl⟩ := Option.ne_none_iff_exists'.mp hsome
  rw [not_forall] at hroom
  obtain ⟨account, hroom⟩ := hroom
  have hview : Agree userId s (ownView s userId) := agree_ownView s userId
  have hownView : ownsAccount (ownView s userId) userId accountId.val = true := by
    rw [← hview.ownsAccount]
    exact hown
  have hnone : ∀ m ∈ (ownView s userId).messages, m.id ≠ id.val := by
    intro m hm hid
    obtain ⟨hin, howns⟩ := List.mem_filter.mp hm
    exact hforeign ⟨m, hin, owns_iff.mpr howns, congrArg some hid.symm⟩
  have hfresh : account.val ∉ (ownView s userId).accounts.map (·.id) := by
    intro hin
    obtain ⟨a, ha, heq⟩ := List.mem_map.mp hin
    obtain ⟨hmem, huser⟩ := List.mem_filter.mp ha
    exact hroom ⟨a, hmem, of_decide_eq_true huser, heq⟩
  obtain ⟨date, hdate⟩ := exists_later (ownView s userId).messages
  have hnew : id.val ∉ (ownView s userId).messages.map (·.id) := by
    intro hin
    obtain ⟨m, hm, heq⟩ := List.mem_map.mp hin
    exact hnone m hm heq
  set world := withStranger (ownView s userId) (strangerMailbox userId account)
    (strangerMessage account id date) account.2 id.2
    hfresh hnew rfl with hworld
  have hagree : Agree userId (ownView s userId) world :=
    agree_withStranger _ _ _ _ _ _ _ _ (strangerOf_ne userId)
  have hother : account.val ≠ accountId.val := by
    intro heq
    obtain ⟨a, ha, -, hid⟩ := ownsAccount_iff.mp hownView
    exact hfresh (List.mem_map.mpr ⟨a, ha, hid.trans heq.symm⟩)
  refine ⟨world, ownView s userId, hview.trans hagree, hview, ?_⟩
  rw [list_missing hownView hnone]
  apply @list_ahead world userId accountId (strangerMessage account id date)
  · rw [← hagree.ownsAccount]
    exact hownView
  · rfl
  · exact List.mem_cons_self
  · intro n hn haccount
    rcases List.mem_cons.mp hn with rfl | hn
    · exact absurd haccount hother
    · exact hdate n hn
  · have hrest : world.messages.filter (·.accountId.val = accountId.val) =
        s.messages.filter (·.accountId.val = accountId.val) := by
      rw [← filter_ownView hown]
      apply List.filter_cons_of_neg
      rw [decide_eq_true_eq]
      exact hother
    rw [hrest]
    exact hlen
  · exact hlimit

/-- The reads of a user do not depend on anyone else's data if and only if the cursor is the
user's own. -/
theorem reads_noninterfering_iff (utf8 : Bytes → String) (s : MessageDb) (userId : String)
    (accountId messageId : Uuid) (cursor : Option Uuid) (limit : ℕ) :
    (∀ t, Agree userId s t →
      listForAccount s userId accountId cursor limit =
        listForAccount t userId accountId cursor limit ∧
      (∀ fault, getForAccount utf8 s fault userId accountId messageId =
        getForAccount utf8 t fault userId accountId messageId) ∧
      rawObjectKeyFor s userId accountId messageId = rawObjectKeyFor t userId accountId messageId) ↔
    OwnCursor s userId accountId cursor limit := by
  constructor
  · intro h
    by_contra hcursor
    obtain ⟨t, u, ht, hu, hne⟩ := two_worlds hcursor
    exact hne ((h t ht).1.symm.trans (h u hu).1)
  · intro hcursor t h
    exact ⟨h.listForAccount hcursor, fun fault => h.getForAccount utf8 fault accountId messageId,
      h.rawObjectKeyFor accountId messageId⟩

def aliceAccount : Uuid := ⟨"0b7f6c9e-3a52-4d1e-9c40-5f2a8e7d1b30", by decide⟩

def bobAccount : Uuid := ⟨"d14e2a70-86bf-4c0d-b2f9-63a8c5e71d44", by decide⟩

def bobMessage : Uuid := ⟨"16f0a2d8-6b4e-4c93-b7c1-2d8a5e9f4c03", by decide⟩

def alice : String := "9b2e4d17-5c08-4f6a-8d31-7e0c6a95f201"

def aliceFirst : Uuid := ⟨"5a1e0c66-8d0f-4f55-a0f3-0c6d1f3b7e01", by decide⟩

def aliceSecond : Uuid := ⟨"c3d94b1a-17e2-4b8c-8a5d-9e4f20b6d702", by decide⟩

/-- Alice's mailbox with two messages. -/
def aliceDb : MessageDb where
  accounts := [{ strangerMailbox "" aliceAccount with userId := alice }]
  messages := [strangerMessage aliceAccount aliceFirst 1, strangerMessage aliceAccount aliceSecond 2]
  objects _ := none
  account_uuids := by decide
  message_uuids := by decide
  account_ids := by decide
  message_ids := by decide
  account_exists m hm := by
    refine ⟨_, List.mem_cons_self, ?_⟩
    rcases List.mem_pair.mp hm with rfl | rfl <;> rfl

/-- Whether Alice's list under the id of Bob's message is empty tells her whether Bob has that
message. -/
theorem cursor_reveals :
    ¬ ∀ (utf8 : Bytes → String) (userId : String) (s t : MessageDb), Agree userId s t →
    ∀ accountId messageId cursor limit,
      listForAccount s userId accountId cursor limit =
        listForAccount t userId accountId cursor limit ∧
      (∀ fault, getForAccount utf8 s fault userId accountId messageId =
        getForAccount utf8 t fault userId accountId messageId) ∧
      rawObjectKeyFor s userId accountId messageId =
        rawObjectKeyFor t userId accountId messageId := by
  intro h
  have hagree := agree_withStranger aliceDb (strangerMailbox alice bobAccount)
    (strangerMessage bobAccount bobMessage 5)
    bobAccount.2 bobMessage.2 (by decide) (by decide) rfl (strangerOf_ne alice)
  have heq := (h (fun _ => "") alice aliceDb _ hagree aliceAccount bobMessage (some bobMessage) 25).1
  rw [list_missing (by decide) (by decide)] at heq
  refine @list_ahead _ alice aliceAccount (strangerMessage bobAccount bobMessage 5) 25 ?_
    bobMessage rfl
    List.mem_cons_self ?_ ?_ ?_ heq.symm
  · decide
  · decide
  · decide
  · decide

end Finlytic.EmailIngestion
