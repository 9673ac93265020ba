import RemoteTable.Numeral

/-!
# Complaints about JSON texts

A complaint says what is wrong with a text and, if that is known, at which line and column. Its wording ends with
the place, as in `invalid type at line 3 column 7`. Lines are counted from one, so that line zero is no place.

`Complaint.ofWording` takes the place off the end of a wording, and `Complaint.wording` puts it back without zeros
before its numbers. A wording that does not end with a place is kept as it is.
-/

namespace RemoteTable.Json

structure Place where
  line : Nat
  column : Nat
  deriving DecidableEq, Repr

structure Complaint where
  fault : String
  place : Option Place := none
  deriving DecidableEq, Repr

/-- What stands before and after the last occurrence of a word. -/
def splitLast? (word : List Char) : List Char → Option (List Char × List Char)
  | [] => none
  | c :: cs =>
    match splitLast? word cs with
    | some (before, after) => some (c :: before, after)
    | none => (word.isPrefixOf? (c :: cs)).map fun after => ([], after)

def Place.ofNumbers? (cs : List Char) : Option Place := do
  let rest ← " column ".toList.isPrefixOf? (cs.dropWhile Char.isDigit)
  return ⟨← Numeral.word? (cs.takeWhile Char.isDigit), ← Numeral.word? rest⟩

namespace Complaint

/-- Reads a complaint from its wording. The last mention of a line counts. -/
def ofWording (s : String) : Complaint :=
  let found := do
    let (before, after) ← splitLast? " at line ".toList s.toList
    let place ← Place.ofNumbers? after
    return (⟨String.ofList before, if place.line = 0 then none else some place⟩ : Complaint)
  found.getD ⟨s, none⟩

def wording (c : Complaint) : String :=
  match c.place with
  | some p => s!"{c.fault} at line {p.line} column {p.column}"
  | none => c.fault

end Complaint

end RemoteTable.Json
