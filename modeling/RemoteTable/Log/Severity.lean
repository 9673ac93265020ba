/-!
# Severities of log lines

Five levels in a fixed order. A logger writes the lines at its minimum level and above.
-/

namespace RemoteTable

inductive Severity where
  | trace | info | warn | error | fatal
  deriving DecidableEq, Repr

namespace Severity

/-- Every level, lowest first. -/
def all : List Severity := [trace, info, warn, error, fatal]

def rank : Severity → Nat
  | trace => 0
  | info => 1
  | warn => 2
  | error => 3
  | fatal => 4

instance : LE Severity := ⟨fun a b => a.rank ≤ b.rank⟩

instance (a b : Severity) : Decidable (a ≤ b) := inferInstanceAs (Decidable (a.rank ≤ b.rank))

def name : Severity → String
  | trace => "TRACE"
  | info => "INFO"
  | warn => "WARN"
  | error => "ERROR"
  | fatal => "FATAL"

/-- The level with this name, in any mix of ASCII cases. -/
def ofName? (s : String) : Option Severity := all.find? (·.name == s.toUpper)

def isUrgent (s : Severity) : Bool := error ≤ s

end Severity

end RemoteTable
