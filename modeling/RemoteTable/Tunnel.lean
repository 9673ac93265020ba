import RemoteTable.Channel.Failure
import RemoteTable.TransportError

/-!
# The error tunnel

A typed error crosses the line inside the text of the generic failure, as the marker, a bar, the name of the
kind, a colon, a space and the message on one line. The marker proves that the text was written here and not
by the platform.

Each call site reads such a text under a policy, the closed set of kinds it is willing to reconstruct. A text
with the marker that is malformed or names any other kind becomes an internal error; a failure without the
marker means that the remote side is unavailable.
-/

namespace RemoteTable

/-! ## Policies -/

/-- The closed set of kinds that a call site reconstructs. -/
inductive Policy where
  /-- Ordinary operations. -/
  | alwaysAllowed
  /-- Operations that change what a principal may change. -/
  | privileged
  deriving DecidableEq, Repr

namespace Policy

def name : Policy → String
  | alwaysAllowed => "always_allowed"
  | privileged => "privileged"

/-- The policy with this name; `always` is short for `always_allowed`. -/
def ofName? : String → Option Policy
  | "always_allowed" | "always" => some alwaysAllowed
  | "privileged" => some privileged
  | _ => none

/-- The kinds a policy reconstructs. -/
def allowed : Policy → List ErrorKind
  | alwaysAllowed => [.argument, .storage, .unavailable]
  | privileged => [.argument, .storage, .unavailable, .notAuthorized]

def allows (p : Policy) (k : ErrorKind) : Bool := p.allowed.contains k

end Policy

/-! ## Writing -/

namespace Tunnel

/-- What every tunneled text begins with. -/
def marker : String := "aeroremote.transport"

/-- The message on one line: a space for every line break. -/
def flatten (message : String) : String :=
  String.ofList (message.toList.map fun c => if c = '\n' ∨ c = '\r' then ' ' else c)

def wireText (e : TransportError) : String := s!"{marker}|{e.kind.name}: {flatten e.message}"

def encode (e : TransportError) : Failure := .generic (some (wireText e))

/-! ## Reading -/

/-- What follows the marker and its bar, if the text begins with them. -/
def body? (text : String) : Option (List Char) := (marker ++ "|").toList.isPrefixOf? text.toList

/-- Splits a body at its first colon and drops one space after it. -/
def split? (body : List Char) : Option (String × String) :=
  match body.dropWhile (· ≠ ':') with
  | [] => none
  | _ :: ' ' :: detail | _ :: detail => some (String.ofList (body.takeWhile (· ≠ ':')), String.ofList detail)

def decodeText (text : String) (policy : Policy) : TransportError :=
  match body? text with
  | none => ⟨.unavailable, s!"unrecognized remote failure: {text}"⟩
  | some body =>
    match split? body with
    | none => ⟨.internal, s!"malformed remote failure: {text}"⟩
    | some (name, detail) =>
      match (ErrorKind.ofName? name).filter policy.allows with
      | some kind => ⟨kind, detail⟩
      | none => ⟨.internal, s!"{name} not permitted under {policy.name} policy: {detail}"⟩

/-- Reads a failure under a policy. -/
def decode (failure : Failure) (policy : Policy) : TransportError :=
  match failure with
  | .generic (some text) => decodeText text policy
  | .generic none => ⟨.unavailable, "generic failure without a message"⟩
  | .platform description => ⟨.unavailable, s!"channel failure: {description}"⟩

end Tunnel

end RemoteTable
