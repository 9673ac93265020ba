/-!
# Failures of a channel

Only one failure crosses the line, and it is untyped: a text, or not even that. A failure of the line itself
(a dead peer, a dropped connection) is told apart from it.
-/

namespace RemoteTable

/-- What a channel raises instead of a reply. -/
inductive Failure where
  /-- The one failure that the remote side can signal. -/
  | generic (message : Option String)
  /-- A failure of the line itself. -/
  | platform (description : String)
  deriving DecidableEq, Repr

namespace Failure

def display : Failure → String
  | generic (some m) => s!"generic failure: {m}"
  | generic none => "generic failure (no message)"
  | platform d => s!"platform failure: {d}"

end Failure

end RemoteTable
