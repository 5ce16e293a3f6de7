import Finlytic.EmailIngestion.BlobBeforePointer
import Finlytic.EmailIngestion.MessagePrivacy
import Finlytic.Lib.Utf8

/-! What a user gets to read of a stored message: the text in the message view, cut
at the size cap, and the octets of the original in `MessagesController.raw`. Both
come from objects that some ingest call has put, at whatever point the others are. -/

namespace Finlytic.EmailIngestion

open Lib Jws

structure ObjectStream where
  octets : Bytes
  complete : Bool
  contentLength : ℕ

/-- `ObjectStorageService.getStream`: the body breaks only while it is read. -/
def getStream (objects : String → Option StoredObject) (fault : Option StorageFault)
    (key : String) :
    Except String ObjectStream :=
  match fault, objects key with
  | some (.unavailable name), _ => .error name
  | _, none => .error "NoSuchKey"
  | some (.broken sent), some object => .ok ⟨object.body.take sent, false, object.body.length⟩
  | none, some object => .ok ⟨object.body, true, object.body.length⟩

inductive RawAnswer where
  | error (status : ℕ) (message : String)
  | file (headers : List (String × String)) (octets : Bytes) (complete : Bool)
  deriving DecidableEq

/-- A length of zero is falsy. -/
def rawHeaders (messageId : String) (contentLength : ℕ) : List (String × String) :=
  [("content-type", "message/rfc822"),
    ("content-disposition", "attachment; filename=\"message-" ++ messageId ++ ".eml\"")] ++
    if contentLength ≠ 0 then [("content-length", toString contentLength)] else []

def raw (s : MessageDb) (fault : Option StorageFault) (userId accountId messageId : String) :
    RawAnswer :=
  match parseUuid accountId, parseUuid messageId with
  | some account, some message =>
    match rawObjectKeyFor s userId account message with
    | .error message => .error 404 message
    | .ok key =>
      match getStream s.objects fault key with
      | .error name =>
        if name = "NoSuchKey" then .error 404 "Original message is no longer stored"
        else .error 503 "Message storage is unavailable"
      -- the file is named after the id as it stands in the path
      | .ok object => .file (rawHeaders messageId object.contentLength) object.octets object.complete
  | _, _ => .error 400 "Validation failed (uuid is expected)"

/-! ### Reading -/

variable {cfg : IngestConfig} {p : Pool MailStore (IngestCall cfg)} {db : MessageDb} {m : Message}
  {userId : String} {accountId messageId : Uuid}

end Finlytic.EmailIngestion
