/-!
# Transport errors

Every remote operation ends in a value or in one error of a closed set of kinds. Three kinds leave the remote
handle usable (`argument`, `storage`, `notAuthorized`); `unavailable` is fatal to the handle, which has to be
established again, and `internal` to the operation alone.
-/

namespace RemoteTable

/-- The kinds of error that may cross the line. -/
inductive ErrorKind where
  /-- The caller's input was invalid. -/
  | argument
  /-- The store refused the operation. -/
  | storage
  /-- The principal lacks the permission. -/
  | notAuthorized
  /-- The remote side cannot be reached. -/
  | unavailable
  /-- Anything unclassified or unexpected. -/
  | internal
  deriving DecidableEq, Repr

namespace ErrorKind

def all : List ErrorKind := [argument, storage, notAuthorized, unavailable, internal]

theorem mem_all (k : ErrorKind) : k ∈ all := by cases k <;> decide

def name : ErrorKind → String
  | argument => "ArgumentError"
  | storage => "StorageError"
  | notAuthorized => "NotAuthorized"
  | unavailable => "ServiceUnavailable"
  | internal => "Internal"

def ofName? (s : String) : Option ErrorKind := all.find? (·.name == s)

theorem ofName?_name (k : ErrorKind) : ofName? k.name = some k := by cases k <;> decide

theorem name_of_ofName? {s : String} {k : ErrorKind} (h : ofName? s = some k) : k.name = s := by
  simpa using List.find?_some h

theorem name_injective {k other : ErrorKind} (h : k.name = other.name) : k = other := by
  have hsame := congrArg ofName? h
  rw [ofName?_name, ofName?_name] at hsame
  exact Option.some.inj hsame

def code : ErrorKind → String
  | argument => "AERO_REMOTE_ARGUMENT_ERROR"
  | storage => "AERO_REMOTE_STORAGE_ERROR"
  | notAuthorized => "AERO_REMOTE_NOT_AUTHORIZED"
  | unavailable => "AERO_REMOTE_SERVICE_UNAVAILABLE"
  | internal => "AERO_REMOTE_INTERNAL"

/-- Whether an error of this kind makes the operation or the handle unusable. -/
def isFatal : ErrorKind → Bool
  | unavailable | internal => true
  | _ => false

def severity (k : ErrorKind) : String := if k.isFatal then "FATAL" else "ERROR"

end ErrorKind

structure TransportError where
  kind : ErrorKind
  message : String
  deriving DecidableEq, Repr

namespace TransportError

/-- Whether the caller has to establish the handle again. -/
def requiresReconnect (e : TransportError) : Bool := e.kind == .unavailable

/-- The form shown to people: severity, code, message. -/
def display (e : TransportError) : String := s!"[{e.kind.severity}] {e.kind.code}: {e.message}"

end TransportError

end RemoteTable
