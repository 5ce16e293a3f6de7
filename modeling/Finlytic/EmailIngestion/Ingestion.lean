import Finlytic.Lib.Pool
import Finlytic.Lib.Text
import Mathlib.Logic.Function.Basic

/-! `MessageIngestionService.ingest` over `ObjectStorageService` and the message
table. Any number of workers ingest the same or different messages; each
statement and each put is one atomic step, and a call may fail or stop between
any two of them, also after a step that did take effect. -/

namespace Finlytic.EmailIngestion

open Lib

/-! ### Object storage -/

abbrev Bytes := List UInt8

structure StoredObject where
  body : Bytes
  contentType : String
  deriving DecidableEq

/-- An account id; it never holds a path separator. -/
def AccountId := { id : String // '/' ∉ id.toList }

instance : DecidableEq AccountId := inferInstanceAs (DecidableEq (Subtype _))

/-- Days since 1970-01-01 to the civil year and the month, January being 1. -/
def civil (days : ℤ) : ℤ × ℤ :=
  let z := days + 719468
  let era := z / 146097
  let doe := z - era * 146097
  let yoe := (doe - doe / 1460 + doe / 36524 - doe / 146096) / 365
  let doy := doe - (365 * yoe + yoe / 4 - yoe / 100)
  let mp := (5 * doy + 2) / 153
  let m := if mp < 10 then mp + 3 else mp - 9
  (yoe + era * 400 + (if m ≤ 2 then 1 else 0), m)

/-- `Date.prototype.getUTCFullYear` on milliseconds since the epoch. -/
def getUTCFullYear (date : ℤ) : ℤ := (civil (date / 86400000)).1

/-- `Date.prototype.getUTCMonth`, January being 0. -/
def getUTCMonth (date : ℤ) : ℕ := ((civil (date / 86400000)).2 - 1).toNat

example : (getUTCFullYear 1709164800000, getUTCMonth 1709164800000) = (2024, 1) := by decide

def month (sentAt : ℤ) : String := padStart 2 '0' (toString (getUTCMonth sentAt + 1))

/-- The common form of the two keys. -/
def buildKey (kind extension : String) (accountId : AccountId) (sentAt : ℤ)
    (providerMessageId : String) : String :=
  kind ++ "/" ++ accountId.val ++ "/" ++ toString (getUTCFullYear sentAt) ++ "/" ++
    month sentAt ++ "/" ++
    providerMessageId ++ extension

def buildRawKey := buildKey "raw" ".eml"

def buildBodyKey := buildKey "text" ".txt"

/-! ### Messages -/

structure Address where
  address : Option String
  name : String

/-- What `simpleParser` returns, as far as `ingest` reads it. -/
structure ParsedMail where
  date : Option ℤ
  text : Option String
  subject : Option String
  sender : List Address
  recipients : List (List Address)
  attachments : ℕ

structure RawMessage where
  providerMessageId : String
  providerThreadId : Option String
  labels : List String
  snippet : Option String
  sizeBytes : Option ℕ
  internalDate : Option ℤ
  raw : Bytes

/-- The parser, `toLowerCase`, and the mailbox contents: a provider returns the
same bytes for the same message. -/
structure IngestConfig where
  simpleParser : Bytes → ParsedMail
  toLowerCase : String → String
  contents : AccountId → String → Bytes

/-- A message as the provider handed it over. -/
structure Delivery (cfg : IngestConfig) where
  account : AccountId
  message : RawMessage
  same : message.raw = cfg.contents account message.providerMessageId

structure Message where
  id : String
  accountId : AccountId
  providerMessageId : String
  providerThreadId : Option String
  subject : Option String
  fromAddress : Option String
  fromName : Option String
  toAddresses : List String
  sentAt : ℤ
  snippet : Option String
  labels : List String
  sizeBytes : ℕ
  hasAttachments : Bool
  rawObjectKey : String
  bodyTextKey : Option String

structure MailStore where
  now : ℤ
  messages : List Message
  objects : String → Option StoredObject

variable (cfg : IngestConfig)

/-- `bodyText`, when it is truthy. -/
def bodyText (parsed : ParsedMail) : Option String :=
  (parsed.text.map trim).filter (· ≠ "")

def addressList (groups : List (List Address)) : List String :=
  groups.flatMap fun group => (group.filterMap fun a => a.address.map cfg.toLowerCase).filter (· ≠ "")

def put (s : MailStore) (key : String) (body : Bytes) (contentType : String) : MailStore :=
  { s with objects := Function.update s.objects key (some ⟨body, contentType⟩) }

def stored (s : MailStore) (account : AccountId) (providerMessageId : String) : Bool :=
  s.messages.any fun m => m.accountId = account && m.providerMessageId = providerMessageId

/-! ### Calls -/

structure IngestResult where
  providerMessageId : String
  created : Bool

variable {cfg}

inductive IngestCall (cfg : IngestConfig) where
  | find (d : Delivery cfg)
  | parse (d : Delivery cfg)
  | putRaw (d : Delivery cfg) (sentAt : ℤ)
  | putBody (d : Delivery cfg) (sentAt : ℤ) (text : String)
  | create (d : Delivery cfg) (sentAt : ℤ) (bodyTextKey : Option String)
  | done (result : Option IngestResult)

/-- How the next step turns out. A step whose answer is lost has taken effect. -/
inductive IngestChoice where
  | ok (id : String)
  | failed
  | lost (id : String)

def parsedMail (d : Delivery cfg) : ParsedMail := cfg.simpleParser d.message.raw

def rawKey (d : Delivery cfg) (sentAt : ℤ) : String :=
  buildRawKey d.account sentAt d.message.providerMessageId

def bodyKey (d : Delivery cfg) (sentAt : ℤ) : String :=
  buildBodyKey d.account sentAt d.message.providerMessageId

/-- The row `create` inserts. -/
def row (d : Delivery cfg) (sentAt : ℤ) (bodyTextKey : Option String) (id : String) : Message :=
  let parsed := parsedMail d
  let sender := parsed.sender.head?
  { id, accountId := d.account, providerMessageId := d.message.providerMessageId,
    providerThreadId := d.message.providerThreadId, subject := parsed.subject,
    fromAddress := sender.bind fun a => a.address.map cfg.toLowerCase,
    fromName := (sender.map (·.name)).filter (· ≠ ""),
    toAddresses := addressList cfg parsed.recipients, sentAt, snippet := d.message.snippet,
    labels := d.message.labels, sizeBytes := d.message.sizeBytes.getD d.message.raw.length,
    hasAttachments := decide (0 < parsed.attachments), rawObjectKey := rawKey d sentAt, bodyTextKey }

/-- One step that succeeds. -/
def ingestOk (s : MailStore) (id : String) : IngestCall cfg → Option (MailStore × IngestCall cfg)
  | .find d =>
    if stored s d.account d.message.providerMessageId then
      some (s, .done (some ⟨d.message.providerMessageId, false⟩))
    else some (s, .parse d)
  | .parse d => some (s, .putRaw d (((parsedMail d).date.or d.message.internalDate).getD s.now))
  | .putRaw d sentAt =>
    let s := put s (rawKey d sentAt) d.message.raw "message/rfc822"
    match bodyText (parsedMail d) with
    | some text => some (s, .putBody d sentAt text)
    | none => some (s, .create d sentAt none)
  | .putBody d sentAt text =>
    some (put s (bodyKey d sentAt) text.toUTF8.toList "text/plain; charset=utf-8",
      .create d sentAt (some (bodyKey d sentAt)))
  | .create d sentAt bodyTextKey =>
    -- the unique constraint; `P2002` is caught
    if stored s d.account d.message.providerMessageId then
      some (s, .done (some ⟨d.message.providerMessageId, false⟩))
    else
      some ({ s with messages := s.messages ++ [row d sentAt bodyTextKey id] },
        .done (some ⟨d.message.providerMessageId, true⟩))
  | .done _ => none

def ingestStatement (s : MailStore) (c : IngestCall cfg) :
    IngestChoice → Option (MailStore × IngestCall cfg)
  | .ok id => ingestOk s id c
  | .failed => (ingestOk s "" c).map fun _ => (s, .done none)
  | .lost id => (ingestOk s id c).map fun next => (next.1, .done none)

/-- Workers ingesting, interleaved; the environment moves the clock. -/
def ingestion (cfg : IngestConfig) :
    Program MailStore (Delivery cfg) (IngestCall cfg) IngestChoice ℤ where
  start := .find
  statement := ingestStatement
  environment := fun s now => some { s with now }

def EmptyStore (p : Pool MailStore (IngestCall cfg)) : Prop :=
  p.calls = [] ∧ p.store.messages = [] ∧ ∀ key, p.store.objects key = none

end Finlytic.EmailIngestion
