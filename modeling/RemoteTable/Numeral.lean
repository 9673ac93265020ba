/-!
# Numerals

An unsigned 64-bit number is read from its decimal digits. Zeros may stand before it; signs and blanks may not.
-/

namespace RemoteTable.Numeral

def spelled (digits : List Char) : Nat := digits.foldl (fun n c => 10 * n + (c.toNat - '0'.toNat)) 0

def word? (digits : List Char) : Option Nat :=
  if !digits.isEmpty ∧ digits.all Char.isDigit ∧ spelled digits < UInt64.size then some (spelled digits) else none

end RemoteTable.Numeral
