import RemoteTable.Log.Event

/-!
# Records and their lines

A record is written as one line: a JSON object that starts with `event` and `severity` and goes on with the
record's fields, sorted by key, equal keys in their given order. Quotes, backslashes and every control
character are escaped, so no text can end its line or its string early.

A logger is its minimum level. It keeps the records at that level and above; the two highest levels go to the
error stream and the others to the output stream.
-/

namespace RemoteTable

structure Record where
  severity : Severity
  event : String
  fields : List (String × String)
  deriving DecidableEq, Repr

/-- The record of an event, at the event's own level. -/
def Event.record (e : Event) (fields : List (String × String)) : Record := ⟨e.severity, e.name, fields⟩

namespace Record

def hex4 (n : Nat) : List Char := [12, 8, 4, 0].map fun shift => Nat.digitChar ((n >>> shift) % 16)

/-- Whether a character belongs to one of the two ranges of control characters. -/
def isControl (c : Char) : Bool := c.toNat < 0x20 || (0x7F ≤ c.toNat && c.toNat < 0xA0)

/-- How a character is written inside a log line's string. -/
def escape (c : Char) : List Char :=
  match c with
  | '"' => ['\\', '"']
  | '\\' => ['\\', '\\']
  | '\n' => ['\\', 'n']
  | '\r' => ['\\', 'r']
  | '\t' => ['\\', 't']
  | c => if isControl c then '\\' :: 'u' :: hex4 c.toNat else [c]

def quoted (s : String) : List Char := '"' :: s.toList.flatMap escape ++ ['"']

/-- The fields by key; equal keys keep their order. -/
def sortedFields (r : Record) : List (String × String) := r.fields.mergeSort fun a b => a.1 ≤ b.1

def members (r : Record) : List (String × String) :=
  ("event", r.event) :: ("severity", r.severity.name) :: r.sortedFields

def line (r : Record) : String :=
  let texts := r.members.map fun (key, value) => quoted key ++ ':' :: quoted value
  String.ofList ('\x7b' :: List.intercalate [','] texts ++ ['\x7d'])

end Record

/-! ## Loggers -/

/-- What a logger has written to its two streams, one entry a line. -/
structure Written where
  out : List String
  err : List String
  deriving DecidableEq, Repr

/-- The text of some lines: each is ended by a line break. -/
def Written.text (lines : List String) : String := String.join (lines.map (· ++ "\n"))

/-- A logger that keeps records at `minimum` and above. -/
structure Logger where
  minimum : Severity
  deriving DecidableEq, Repr

namespace Logger

def default : Logger := ⟨.warn⟩

def enabled (l : Logger) (s : Severity) : Bool := l.minimum ≤ s

/-- The lines of the kept records, in order, on their streams. -/
def write (l : Logger) (records : List Record) : Written :=
  let kept := records.filter fun r => l.enabled r.severity
  ⟨(kept.filter fun r => !r.severity.isUrgent).map Record.line,
    (kept.filter fun r => r.severity.isUrgent).map Record.line⟩

end Logger

end RemoteTable
