import Finlytic.Lib.Separator
import Finlytic.EmailIngestion.SyncEvents

/-! The event stream client of the web app: `splitFrames` and `parseFrame` of
`api/sse.ts`, and the loop of `useSyncEvents`, which reads the response chunk by
chunk. -/

namespace Finlytic.Web

open Lib Separator EmailIngestion

/-! ### Frames -/

structure SseFrame where
  event : Option (List Char)
  data : Option (List Char)
  deriving DecidableEq

def frameSeparator : { l : List Char // l ≠ [] } := ⟨['\n', '\n'], by decide⟩

def splitFrames (buffer : List Char) : List (List Char) × List Char := cut frameSeparator buffer

/-- A carriage return at the end of a line goes. -/
def chomp (rawLine : List Char) : List Char := if rawLine.getLast? = some '\r' then rawLine.dropLast
    else rawLine

def fieldOf (line : List Char) : List Char := line.takeWhile (· ≠ ':')

/-- What follows the first colon, less one space. -/
def valueOf (line : List Char) : List Char :=
  let value := (line.dropWhile (· ≠ ':')).drop 1
  if value.head? = some ' ' then value.drop 1 else value

def isComment (line : List Char) : Bool := line = [] || line.head? = some ':'

/-- One line of a frame; the last `event` line counts, and every `data` line. -/
def readLine (read : Option (List Char) × List (List Char)) (rawLine : List Char) :
    Option (List Char) × List (List Char) :=
  let line := chomp rawLine
  if isComment line then read
  else if fieldOf line = "event".toList then (some (valueOf line), read.2)
  else if fieldOf line = "data".toList then (read.1, read.2 ++ [valueOf line])
  else read

/-- A frame without data is none. -/
def parseFrame (frame : List Char) : Option SseFrame :=
  let read := (frame.splitOn '\n').foldl readLine (none, [])
  if 0 < read.2.length then some ⟨read.1, some (['\n'].intercalate read.2)⟩ else none

/-! ### `useSyncEvents` -/

/-- The event that a frame carries; an empty text is falsy, and what does not parse is skipped. -/
def handleFrame (json : EventJson) (frame : List Char) : Option SyncEvent :=
  (parseFrame frame).bind fun parsed => (parsed.data.filter (· ≠ [])).bind json.parse

structure Consumer where
  buffer : List Char
  handled : List SyncEvent

/-- One chunk of the response. -/
def read (json : EventJson) (c : Consumer) (value : List Char) : Consumer :=
  let split := splitFrames (c.buffer ++ value)
  ⟨split.2, c.handled ++ split.1.filterMap (handleFrame json)⟩

/-- The loop of `consume`, over the chunks of the response. -/
def consume (json : EventJson) (chunks : List (List Char)) : Consumer :=
  chunks.foldl (read json) ⟨[], []⟩

/-- The frames that the loop cuts out of the chunks. -/
def framesOf (chunks : List (List Char)) : List (List Char) :=
  (chunks.foldl (feed frameSeparator) ([], [])).1

/-- The frames with data, in the order in which they arrive. -/
def decode (chunks : List (List Char)) : List SseFrame := (framesOf chunks).filterMap parseFrame

end Finlytic.Web
