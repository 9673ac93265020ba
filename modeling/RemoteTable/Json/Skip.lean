import RemoteTable.Json.Reader

/-!
# Skipping JSON

A value that nobody asks for is skipped by the grammar alone: it may be nested to any depth, its numbers may be
out of range, and the text of its strings is not looked at.

The containers that are open are kept in a list, the innermost first. `skipValue` begins the value and then goes
on until the list is empty. Each round of `skipRest` takes a byte off at least, so the text itself bounds their number.
-/

namespace RemoteTable.Json

/-! ## Scalars -/

/-- What follows the closing quote of a string that is skipped. -/
def skipText : Bytes → Option Bytes
  | [] => none
  | 0x22 :: rest => some rest
  | 0x5C :: 0x75 :: a :: b :: c :: d :: rest => if (codeUnit? a b c d).isSome then skipText rest else none
  | 0x5C :: e :: rest => if (unescape? e).isSome then skipText rest else none
  | b :: rest => if b < 0x20 then none else skipText rest

def skipScalar : Reader Unit := fun bs =>
  match bs with
  | 0x6E :: _ => keyword "null" () bs
  | 0x74 :: _ => keyword "true" () bs
  | 0x66 :: _ => keyword "false" () bs
  | 0x22 :: rest =>
    match skipText rest with
    | none => .error (.expected "the end of a string")
    | some rest => .ok ((), rest)
  | _ =>
    match Literal.scan? bs with
    | none => .error (.expected "a value")
    | some (_, rest) => .ok ((), rest)

/-! ## Containers -/

/-- A container that has been opened and not yet closed. -/
inductive Enclosure where
  | array
  | object
  deriving DecidableEq, Repr

def Enclosure.close : Enclosure → UInt8
  | array => 0x5D
  | object => 0x7D

/-- Drops what stands before the value of an item: in an object a key and a colon. -/
def Enclosure.skipKey : Enclosure → Bytes → Except ReadError Bytes
  | array, bs => .ok bs
  | object, bs => do
    match skipText (← punctuation 0x22 "a string" bs) with
    | none => throw (.expected "the end of a string")
    | some rest => punctuation 0x3A "a colon" rest

/-- Skips a scalar, or opens a container; tells whether one was opened, and which are open now. -/
def skipStart (around : List Enclosure) : Reader (Bool × List Enclosure) := fun bs =>
  match skipBlank bs with
  | 0x5B :: rest => .ok ((true, .array :: around), rest)
  | 0x7B :: rest => .ok ((true, .object :: around), rest)
  | bs => do
    let (_, rest) ← skipScalar bs
    return ((false, around), rest)

/-- Skips until the open containers are closed; `first` tells that the innermost has no item yet. -/
def skipRest : (bound : Bytes) → (first : Bool) → (around : List Enclosure) → Reader Unit
  | _, _, [], bs => .ok ((), bs)
  | [], _, _ :: _, _ => .error (.expected "the end of a container")
  | _ :: bound, first, enclosure :: around, bs =>
    match skipBlank bs with
    | [] => .error (.expected "the end of a container")
    | b :: rest =>
      if b = enclosure.close then skipRest bound false around rest
      else if first || b = 0x2C then do
        let rest ← enclosure.skipKey (if first then b :: rest else rest)
        let ((first, around), rest) ← skipStart (enclosure :: around) rest
        skipRest bound first around rest
      else .error (.expected "a comma")

def skipValue : Reader Unit := fun bs => do
  let ((first, around), rest) ← skipStart [] bs
  skipRest rest first around rest

end RemoteTable.Json
