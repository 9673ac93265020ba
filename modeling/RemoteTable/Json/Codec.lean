import RemoteTable.Json.Printer
import RemoteTable.Json.Skip
import RemoteTable.Token

/-!
# Codecs

A codec says how values of a type are written as JSON and read again, from text and from a JSON value. Text is
read in one pass by the type that is expected, so of several faults the first in the text is the one reported.

A record is a list of fields. It is written with its fields in order. It is read from an object, in any order
and with unknown members skipped, or from the array of its fields. A field given twice is refused where it is
met again; a field not given at all is noticed at the end of the object, and then its `Absence` decides.
-/

namespace RemoteTable.Json

structure Codec (α : Type) where
  /-- The value as JSON, the fields of records in their order. -/
  toJson : α → Json
  /-- Reads text, with at most the given number of containers around each other. -/
  read : (depth : Nat) → Reader α
  /-- Reads a JSON value. -/
  ofJson : Json → Except ReadError α

namespace Codec

def encode (c : Codec α) (a : α) : Bytes := (c.toJson a).encode

def decode (c : Codec α) (bs : Bytes) : Except ReadError α := complete (c.read maxDepth) bs

/-- The value as a JSON value with ascending members, as it is passed along in arguments. -/
def pack (c : Codec α) (a : α) : Json := (c.toJson a).sorted

def imap (c : Codec α) (make : α → β) (unmake : β → α) : Codec β where
  toJson b := c.toJson (unmake b)
  read depth bs := do
    let (a, rest) ← c.read depth bs
    return (make a, rest)
  ofJson v := return make (← c.ofJson v)

/-! ## Plain values -/

def value : Codec Json where
  toJson := id
  read := readValue
  ofJson v := return v

def text : Codec String where
  toJson := .text
  read _ := readText
  ofJson
    | .text s => .ok s
    | _ => .error (.expected "a string")

/-- Unsigned 64-bit words, as integer literals. -/
def word : Codec UInt64 where
  toJson n := .word n
  read _ bs := do
    let (n, rest) ← readNumber (skipBlank bs)
    return (← ofNumber n, rest)
  ofJson
    | .number n => ofNumber n
    | _ => .error (.expected "an integer")
where
  /-- The word that a number is. -/
  ofNumber : Number → Except ReadError UInt64
    | .int i => if 0 ≤ i ∧ i < UInt64.size then .ok (UInt64.ofNat i.toNat) else .error (.expected "a 64-bit word")
    | .double _ => .error (.expected "an integer")

def flag : Codec Bool where
  toJson := .bool
  read _ bs :=
    match skipBlank bs with
    | 0x74 :: rest => keyword "true" true (0x74 :: rest)
    | bs => keyword "false" false bs
  ofJson
    | .bool b => .ok b
    | _ => .error (.expected "true or false")

def token : Codec Token where
  toJson t := .text t.render
  read depth bs := do
    let (s, rest) ← text.read depth bs
    return (← ofText s, rest)
  ofJson v := do ofText (← text.ofJson v)
where
  /-- The token that a string spells. -/
  ofText (s : String) : Except ReadError Token :=
    match Token.parse? s with
    | some t => .ok t
    | none => .error (.expected "a token")

def nullable (c : Codec α) : Codec (Option α) where
  toJson
    | none => .null
    | some a => c.toJson a
  read depth bs :=
    match skipBlank bs with
    | 0x6E :: rest => keyword "null" none (0x6E :: rest)
    | bs => do
      let (a, rest) ← c.read depth bs
      return (some a, rest)
  ofJson
    | .null => .ok none
    | v => return some (← c.ofJson v)

/-! ## Containers -/

def list (c : Codec α) : Codec (List α) where
  toJson as := .array (as.map c.toJson)
  read depth bs := do
    let rest ← punctuation 0x5B "an array" bs
    match depth with
    | 0 => throw .tooDeep
    | depth + 1 => readItems (c.read depth) rest
  ofJson
    | .array items => items.mapM c.ofJson
    | _ => .error (.expected "an array")

/-- Objects of any members with ascending keys. -/
def members : Codec (List (String × Json)) where
  toJson := .object
  read depth bs := do
    let rest ← punctuation 0x7B "an object" bs
    match depth with
    | 0 => throw .tooDeep
    | depth + 1 => do
      let (ms, rest) ← readMembers (readValue depth) rest
      return (ascending ms, rest)
  ofJson
    | .object ms => .ok ms
    | _ => .error (.expected "an object")

end Codec

/-! ## Records -/

/-- What a field stands for when it is not given. -/
inductive Absence (α : Type) where
  /-- It must be given. -/
  | refused
  /-- An object may leave it out, the array of the fields may not. -/
  | inObjects (a : α)
  /-- It may be left out. -/
  | allowed (a : α)

structure Field (α : Type) where
  name : String
  codec : Codec α
  absence : Absence α := .refused

/-- The fields of a record, whose values form a nested pair. -/
inductive Fields : Type → Type 1 where
  | nil : Fields Unit
  | cons {α β : Type} (field : Field α) (rest : Fields β) : Fields (α × β)

namespace Fields

def names : {τ : Type} → Fields τ → List String
  | _, nil => []
  | _, cons field rest => field.name :: rest.names

def members : {τ : Type} → Fields τ → τ → List (String × Json)
  | _, nil, _ => []
  | _, cons field rest, (a, b) => (field.name, field.codec.toJson a) :: rest.members b

/-- The fields read so far. -/
def Slots : {τ : Type} → Fields τ → Type
  | _, nil => Unit
  | _, cons (α := α) _ rest => Option α × rest.Slots

def empty : {τ : Type} → (fields : Fields τ) → fields.Slots
  | _, nil => ()
  | _, cons _ rest => (none, rest.empty)

/-- Reads the value of the field with this name into its slot; nothing if no field has it. -/
def fill? (key : String) (depth : Nat) : {τ : Type} → (fields : Fields τ) → Option (fields.Slots → Reader fields.Slots)
  | _, nil => none
  | _, cons field rest =>
    if field.name = key then
      some fun (slot, slots) bs => do
        if slot.isSome then throw (.repeatedField key)
        let (a, bs) ← field.codec.read depth bs
        return ((some a, slots), bs)
    else
      (rest.fill? key depth).map fun fill (slot, slots) bs => do
        let (slots, bs) ← fill slots bs
        return ((slot, slots), bs)

/-- Sets the slot of the field with this name from a JSON value; an unknown name changes nothing. -/
def set (key : String) (v : Json) : {τ : Type} → (fields : Fields τ) → fields.Slots → Except ReadError fields.Slots
  | _, nil => fun slots => .ok slots
  | _, cons field rest => fun (slot, slots) =>
    if field.name = key then do
      if slot.isSome then throw (.repeatedField key)
      return (some (← field.codec.ofJson v), slots)
    else do
      return (slot, ← rest.set key v slots)

def missing (field : Field α) : Except ReadError α :=
  match field.absence with
  | .refused => .error (.missingField field.name)
  | .inObjects a | .allowed a => .ok a

def finish : {τ : Type} → (fields : Fields τ) → fields.Slots → Except ReadError τ
  | _, nil => fun _ => .ok ()
  | _, cons (α := α) field rest => fun (slots : Option α × rest.Slots) => do
    let a ← match slots.1 with
      | some a => pure a
      | none => missing field
    return (a, ← rest.finish slots.2)

/-- The value of a field that the array of the fields is too short for. -/
def beyond (field : Field α) : Except ReadError α :=
  match field.absence with
  | .allowed a => .ok a
  | _ => .error .wrongLength

/-- Reads the fields in order up to the closing bracket, after the opening one. -/
def readOrdered (depth : Nat) : {τ : Type} → Fields τ → (first : Bool) → Reader τ
  | _, nil, _, bs => return ((), ← punctuation 0x5D "the end of an array" bs)
  | _, cons field rest, first, bs =>
    match skipBlank bs with
    | [] => .error (.expected "the end of an array")
    | b :: tail =>
      if b = 0x5D then do
        let a ← beyond field
        let (b, rest) ← rest.readOrdered depth first (b :: tail)
        return ((a, b), rest)
      else if first || b = 0x2C then do
        let (a, tail) ← field.codec.read depth (if first then b :: tail else tail)
        let (b, tail) ← rest.readOrdered depth false tail
        return ((a, b), tail)
      else .error (.expected "a comma")

/-- Reads the fields in order from the items of an array. -/
def ofItems : {τ : Type} → Fields τ → List Json → Except ReadError τ
  | _, nil, [] => .ok ()
  | _, nil, _ :: _ => .error .wrongLength
  | _, cons field rest, [] => do return (← beyond field, ← rest.ofItems [])
  | _, cons field rest, v :: vs => do return (← field.codec.ofJson v, ← rest.ofItems vs)

def readMembers (fields : Fields τ) (depth : Nat) : Reader τ := fun bs => do
  let (slots, rest) ← enclosed 0x7D (readMember fun key slots bs =>
    match fields.fill? key depth with
    | some fill => fill slots bs
    | none => do
      let (_, rest) ← skipValue bs
      return (slots, rest)) fields.empty bs
  return (← fields.finish slots, rest)

def codec (fields : Fields τ) : Codec τ where
  toJson a := .object (fields.members a)
  read depth bs :=
    match depth, skipBlank bs with
    | depth + 1, 0x7B :: rest => fields.readMembers depth rest
    | depth + 1, 0x5B :: rest => fields.readOrdered depth true rest
    | 0, 0x7B :: _ | 0, 0x5B :: _ => .error .tooDeep
    | _, _ => .error (.expected "a record")
  ofJson
    | .object members => do
      fields.finish (← members.foldlM (fun slots m => fields.set m.1 m.2 slots) fields.empty)
    | .array items => fields.ofItems items
    | _ => .error (.expected "a record")

end Fields

end RemoteTable.Json
