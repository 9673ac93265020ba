import RemoteTable.Numeral

/-!
# Command line arguments

The settings of a command each have a value, which is the next argument or follows an equals sign. An argument
that begins with a hyphen is nobody's value, the hyphen alone excepted. No setting may be given twice, and
nothing may stand outside the settings.

The arguments are gone through from left to right. A setting is checked when the next one begins or the
arguments end. A request for help counts if it is reached before the first fault.
-/

namespace RemoteTable.Cli

/-- What the arguments lead to when they do not make a command. -/
inductive Usage where
  /-- Help or the version was asked for. -/
  | shown
  /-- The arguments are at fault. -/
  | refused
  deriving DecidableEq, Repr

def Usage.exitCode : Usage → UInt8
  | shown => 0
  | refused => 2

structure Setting where
  name : String
  accepts : String → Bool := fun _ => true

/-- Reads an unsigned 64-bit number, with a plus before it or not. -/
def word? (s : String) : Option Nat :=
  match s.toList with
  | '+' :: digits => Numeral.word? digits
  | digits => Numeral.word? digits

/-- The settings read so far, and the one that is not yet checked, with its value if that has been met. -/
structure Arguments where
  given : List (String × String) := []
  pending : Option (String × Option String) := none

namespace Arguments

def get? (a : Arguments) (name : String) : Option String := a.given.lookup name

def add (settings : List Setting) (a : Arguments) (name value : String) : Except Usage Arguments :=
  match settings.find? (·.name == name) with
  | some s =>
    if s.accepts value ∧ (a.get? name).isNone then .ok ⟨a.given ++ [(name, value)], none⟩ else .error .refused
  | none => .error .refused

def resolve (settings : List Setting) (a : Arguments) : Except Usage Arguments :=
  match a.pending with
  | none => .ok a
  | some (_, none) => .error .refused
  | some (name, some value) => add settings a name value

/-- Splits a setting at its first equals sign. -/
def split (cs : List Char) : String × Option String :=
  match cs.dropWhile (· ≠ '=') with
  | [] => (String.ofList cs, none)
  | _ :: value => (String.ofList (cs.takeWhile (· ≠ '=')), some (String.ofList value))

def read (settings : List Setting) (a : Arguments) (arg : String) : Except Usage Arguments :=
  match arg.toList with
  | '-' :: '-' :: cs => do
    let a ← resolve settings a
    match split cs with
    | ("help", none) => throw .shown
    | (name, some value) => add settings a name value
    | (name, none) =>
      if settings.any (·.name == name) then return { a with pending := some (name, none) } else throw .refused
  | '-' :: 'h' :: _ => do
    discard (resolve settings a)
    throw .shown
  | '-' :: _ :: _ => .error .refused
  | _ =>
    match a.pending with
    | some (name, none) => .ok { a with pending := some (name, some arg) }
    | _ => .error .refused

/-- Reads the arguments of a command. Nothing may follow a double hyphen. -/
def readAll (settings : List Setting) (a : Arguments) : List String → Except Usage Arguments
  | [] => resolve settings a
  | ["--"] => resolve settings a
  | arg :: rest => do readAll settings (← read settings a arg) rest

end Arguments

end RemoteTable.Cli
