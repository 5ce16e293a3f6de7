import Finlytic.EmailIngestion.Accounts
import Finlytic.EmailIngestion.Ingestion
import Finlytic.Lib.Query
import Mathlib.Data.String.Basic

/-! `MessagesService`: the message list of an account, one message with its body,
and the storage key of the original. Ids are UUIDs: the endpoints take any other
text for an error, and the columns compare them by value, not as they are written. -/

namespace Finlytic.EmailIngestion

open Lib

/-! ### Ids -/

/-- A hexadecimal digit, or the hyphen between two groups. -/
def uuidClass (c : Char) : Option Bool :=
  if c.isDigit || ('a' ≤ c && c ≤ 'f') || ('A' ≤ c && c ≤ 'F') then some true
  else if c = '-' then some false
  else none

/-- The pattern of `ParseUUIDPipe`: groups of 8, 4, 4, 4 and 12 digits. -/
def isUuid (s : String) : Bool :=
  s.toList.map uuidClass =
    [some false].intercalate ([8, 4, 4, 4, 12].map fun n => List.replicate n (some true))

def lowered (s : String) : String := String.ofList (s.toList.map Char.toLower)

/-- The form in which a UUID column gives its values back. -/
def isCanonical (s : String) : Bool := isUuid s && lowered s = s

/-- A value of a UUID column. -/
def Uuid := { s : String // isCanonical s = true }

instance : DecidableEq Uuid := inferInstanceAs (DecidableEq (Subtype _))

theorem toNat_lt_of_uuidClass {c : Char} (h : uuidClass c ≠ none) : c.toNat < 128 := by
  unfold uuidClass at h
  split_ifs at h with hhex hdash
  · rw [Bool.or_eq_true, Bool.or_eq_true, Bool.and_eq_true, Bool.and_eq_true, decide_eq_true_eq,
      decide_eq_true_eq,
      decide_eq_true_eq, decide_eq_true_eq] at hhex
    rcases hhex with (hdigit | ⟨-, hle⟩) | ⟨-, hle⟩
    · have hrange := Bool.and_eq_true_iff.mp hdigit
      have hle : c.toNat ≤ 57 := of_decide_eq_true hrange.2
      omega
    · have hle : c.toNat ≤ 102 := hle
      omega
    · have hle : c.toNat ≤ 70 := hle
      omega
  · rw [hdash]
    decide
  · exact absurd rfl h

theorem ascii_lowered : ∀ n : Fin 128, uuidClass (Char.ofNat n).toLower = uuidClass (Char.ofNat n) ∧
    (Char.ofNat n).toLower.toLower = (Char.ofNat n).toLower := by decide

/-- A character of a UUID and its lower case. -/
theorem uuidClass_toLower {c : Char} (h : uuidClass c ≠ none) :
    uuidClass c.toLower = uuidClass c ∧ c.toLower.toLower = c.toLower := by
  have hascii := ascii_lowered ⟨c.toNat, toNat_lt_of_uuidClass h⟩
  rwa [Char.ofNat_toNat] at hascii

theorem uuidClass_of_isUuid {s : String} (h : isUuid s = true) {c : Char} (hc : c ∈ s.toList) :
    uuidClass c ≠ none := by
  have hclasses : s.toList.map uuidClass = _ := of_decide_eq_true h
  intro hnone
  have hmem := @List.mem_map_of_mem _ _ _ _ uuidClass hc
  rw [hclasses, hnone] at hmem
  exact absurd hmem (by decide)

theorem isCanonical_lowered {s : String} (h : isUuid s = true) :
    isCanonical (lowered s) = true := by
  have hclass : (s.toList.map Char.toLower).map uuidClass = s.toList.map uuidClass := by
    rw [List.map_map]
    exact List.map_congr_left fun c hc => (uuidClass_toLower (uuidClass_of_isUuid h hc)).1
  have hlower : (s.toList.map Char.toLower).map Char.toLower = s.toList.map Char.toLower := by
    rw [List.map_map]
    exact List.map_congr_left fun c hc => (uuidClass_toLower (uuidClass_of_isUuid h hc)).2
  rw [isCanonical, Bool.and_eq_true, decide_eq_true_eq]
  constructor
  · rw [isUuid, lowered, String.toList_ofList, hclass]
    exact h
  · rw [lowered, lowered, String.toList_ofList, hlower]

/-- `ParseUUIDPipe`, and the value that the column makes of the text. -/
def parseUuid (s : String) : Option Uuid :=
  if h : isUuid s = true then some ⟨lowered s, isCanonical_lowered h⟩ else none

theorem parseUuid_val (id : Uuid) : parseUuid id.val = some id := by
  obtain ⟨huuid, hlowered⟩ := Bool.and_eq_true_iff.mp id.2
  rw [parseUuid, dif_pos huuid]
  exact congrArg some (Subtype.ext (of_decide_eq_true hlowered))

/-- The two tables and the bucket. Ids are primary keys, and a message belongs to an account. -/
structure MessageDb where
  accounts : List MailAccount
  messages : List Message
  objects : String → Option StoredObject
  account_uuids : ∀ a ∈ accounts, isCanonical a.id = true
  message_uuids : ∀ m ∈ messages, isCanonical m.id = true
  account_ids : (accounts.map (·.id)).Nodup
  message_ids : (messages.map (·.id)).Nodup
  account_exists : ∀ m ∈ messages, ∃ a ∈ accounts, a.id = m.accountId.val

def maxBodyBytes : ℕ := 256 * 1024

/-! ### Dates -/

/-- The day of the month in the civil calendar, from 1. -/
def civilDay (days : ℤ) : ℤ :=
  let z := days + 719468
  let doe := z - z / 146097 * 146097
  let yoe := (doe - doe / 1460 + doe / 36524 - doe / 146096) / 365
  let doy := doe - (365 * yoe + yoe / 4 - yoe / 100)
  doy - (153 * ((5 * doy + 2) / 153) + 2) / 5 + 1

/-- The year of `Date.prototype.toISOString`: four digits, or a sign and six. -/
def isoYear (year : ℤ) : String :=
  if 0 ≤ year ∧ year ≤ 9999 then padStart 4 '0' (toString year)
  else (if year < 0 then "-" else "+") ++ padStart 6 '0' (toString year.natAbs)

def toISOString (date : ℤ) : String :=
  let ms := (date % 86400000).toNat
  isoYear (getUTCFullYear date) ++ "-" ++ month date ++ "-" ++ padStart 2 '0'
    (toString (civilDay (date / 86400000))) ++ "T" ++
    padStart 2 '0' (toString (ms / 3600000)) ++ ":" ++ padStart 2 '0'
      (toString (ms / 60000 % 60)) ++ ":" ++
    padStart 2 '0' (toString (ms / 1000 % 60)) ++ "." ++ padStart 3 '0' (toString (ms % 1000)) ++ "Z"

example : toISOString 1709208001002 = "2024-02-29T12:00:01.002Z" := by decide

/-! ### Answers -/

structure MessageSummary where
  id : String
  subject : Option String
  fromAddress : Option String
  fromName : Option String
  sentAt : String
  snippet : Option String
  hasAttachments : Bool
  labels : List String
  sizeBytes : ℕ
  deriving DecidableEq

structure MessageDetail extends MessageSummary where
  providerThreadId : Option String
  toAddresses : List String
  bodyText : Option String
  bodyTruncated : Bool
  deriving DecidableEq

structure MessagePage where
  messages : List MessageSummary
  nextCursor : Option String
  deriving DecidableEq

def summarize (m : Message) : MessageSummary :=
  { id := m.id, subject := m.subject, fromAddress := m.fromAddress, fromName :=
    m.fromName, sentAt := toISOString m.sentAt,
    snippet := m.snippet, hasAttachments := m.hasAttachments, labels := m.labels, sizeBytes :=
      m.sizeBytes }

/-! ### Queries -/

/-- `orderBy: [{ sentAt: 'desc' }, { id: 'desc' }]`. -/
def newestFirst (m n : Message) : Bool :=
  decide (n.sentAt < m.sentAt ∨ n.sentAt = m.sentAt ∧ n.id ≤ m.id)

/-- The query of `listForAccount`; a UUID is never the empty text. -/
def listQuery (accountId : Uuid) (cursor : Option Uuid) (limit : ℕ) : Query.FindMany Message where
  sel m := m.accountId.val = accountId.val
  le := newestFirst
  cursor := cursor.map fun id m => decide (m.id = id.val)
  skip := if cursor.isSome then 1 else 0
  take := limit + 1

def ownsAccount (s : MessageDb) (userId accountId : String) : Bool :=
  s.accounts.any fun a => a.id = accountId && a.userId = userId

def pageOf (limit : ℕ) (rows : List Message) : MessagePage :=
  let page := rows.take limit
  { messages := page.map summarize
    nextCursor := if rows.length > limit then page.getLast?.map (·.id) else none }

def listForAccount (s : MessageDb) (userId : String) (accountId : Uuid) (cursor : Option Uuid)
    (limit : ℕ) : Except String MessagePage :=
  if ownsAccount s userId accountId.val then
    .ok (pageOf limit (Query.findMany (listQuery accountId cursor limit) s.messages))
  else .error "Account not found"

/-- `findFirst` with ownership through the relation. -/
def findOwned (s : MessageDb) (userId : String) (accountId messageId : Uuid) : Option Message :=
  s.messages.find? fun m =>
    m.id = messageId.val && m.accountId.val = accountId.val && ownsAccount s userId m.accountId.val

/-- What goes wrong with the storage: the request fails under some name, or the body
breaks after some octets. -/
inductive StorageFault where
  | unavailable (name : String)
  | broken (sent : ℕ)

/-- `ObjectStorageService.get`, which collects the whole body. -/
def getObject (objects : String → Option StoredObject) (fault : Option StorageFault)
    (key : String) : Except String Bytes :=
  match fault, objects key with
  | some (.unavailable name), _ => .error name
  | _, none => .error "NoSuchKey"
  | some (.broken _), some _ => .error "aborted"
  | none, some object => .ok object.body

/-- The text of a message body, cut at the size cap; whatever the storage throws is caught. -/
def readBody (utf8 : Bytes → String) (s : MessageDb) (fault : Option StorageFault)
    (bodyTextKey : Option String) :
    Option String × Bool :=
  match truthy bodyTextKey with
  | none => (none, false)
  | some key =>
    match getObject s.objects fault key with
    | .ok buffer => (some (utf8 (buffer.take maxBodyBytes)), decide (buffer.length > maxBodyBytes))
    | .error _ => (none, false)

def getForAccount (utf8 : Bytes → String) (s : MessageDb) (fault : Option StorageFault)
    (userId : String) (accountId messageId : Uuid) : Except String MessageDetail :=
  match findOwned s userId accountId messageId with
  | some m =>
    let body := readBody utf8 s fault m.bodyTextKey
    .ok { toMessageSummary := summarize m, providerThreadId := m.providerThreadId, toAddresses :=
      m.toAddresses,
          bodyText := body.1, bodyTruncated := body.2 }
  | none => .error "Message not found"

def rawObjectKeyFor (s : MessageDb) (userId : String) (accountId messageId : Uuid) :
    Except String String :=
  match findOwned s userId accountId messageId with
  | some m => .ok m.rawObjectKey
  | none => .error "Message not found"

end Finlytic.EmailIngestion
