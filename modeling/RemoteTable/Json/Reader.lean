import RemoteTable.Json.Literal

/-!
# Reading JSON

A reader takes a value off the front of a byte string and fails at the first byte that cannot go on. Strict
JSON is read: no commas at the end, no control characters in strings, no lone surrogates, valid UTF-8.
`nested` values may have at most a given number of containers around each other.
-/

namespace RemoteTable.Json

inductive ReadError where
  | missingField (name : String)
  | repeatedField (name : String)
  | wrongLength
  | expected (what : String)
  | outOfRange
  | tooDeep
  | trailing
  deriving DecidableEq, Repr

def ReadError.message : ReadError → String
  | missingField name => s!"missing field `{name}`"
  | repeatedField name => s!"field {name} is given twice"
  | wrongLength => "wrong number of elements"
  | expected what => s!"expected {what}"
  | outOfRange => "number out of range"
  | tooDeep => "nested too deep"
  | trailing => "unexpected text at the end"

/-- Takes a value off the front of a byte string. -/
abbrev Reader (α : Type) := Bytes → Except ReadError (α × Bytes)

/-- Whether a byte may stand between the parts of a text. -/
def isBlank (b : UInt8) : Bool := b == 0x20 || b == 0x09 || b == 0x0A || b == 0x0D

def skipBlank (bs : Bytes) : Bytes := bs.dropWhile isBlank

/-- Takes off one given byte, after blanks. -/
def punctuation (b : UInt8) (name : String) (bs : Bytes) : Except ReadError Bytes :=
  match skipBlank bs with
  | c :: rest => if c = b then .ok rest else .error (.expected name)
  | [] => .error (.expected name)

def keyword (word : String) (value : α) (bs : Bytes) : Except ReadError (α × Bytes) :=
  match (Bytes.ofString word).isPrefixOf? bs with
  | some rest => .ok (value, rest)
  | none => .error (.expected word)

/-! ## Strings -/

def unescape? : UInt8 → Option UInt8
  | 0x22 => some 0x22
  | 0x5C => some 0x5C
  | 0x2F => some 0x2F
  | 0x62 => some 0x08
  | 0x66 => some 0x0C
  | 0x6E => some 0x0A
  | 0x72 => some 0x0D
  | 0x74 => some 0x09
  | _ => none

def codeUnit? (a b c d : UInt8) : Option Nat := do
  let a ← Bytes.hexValue? (Char.ofNat a.toNat)
  let b ← Bytes.hexValue? (Char.ofNat b.toNat)
  let c ← Bytes.hexValue? (Char.ofNat c.toNat)
  let d ← Bytes.hexValue? (Char.ofNat d.toNat)
  return ((a * 16 + b) * 16 + c) * 16 + d

def isHighSurrogate (u : Nat) : Bool := 0xD800 ≤ u && u < 0xDC00

def isLowSurrogate (u : Nat) : Bool := 0xDC00 ≤ u && u < 0xE000

def pairChar (high low : Nat) : Char := Char.ofNat (0x10000 + (high - 0xD800) * 0x400 + (low - 0xDC00))

/-- The bytes of a string up to its closing quote, escapes resolved; `done` are those already read, last first. -/
def scanText (done : Bytes) : Bytes → Option (Bytes × Bytes)
  | [] => none
  | 0x22 :: rest => some (done.reverse, rest)
  | 0x5C :: 0x75 :: a :: b :: c :: d :: rest =>
    match codeUnit? a b c d with
    | none => none
    | some u =>
      if isHighSurrogate u then
        match rest with
        | 0x5C :: 0x75 :: e :: f :: g :: h :: rest =>
          match (codeUnit? e f g h).filter isLowSurrogate with
          | none => none
          | some l => scanText ((String.utf8EncodeChar (pairChar u l)).reverse ++ done) rest
        | _ => none
      else if isLowSurrogate u then none
      else scanText ((String.utf8EncodeChar (Char.ofNat u)).reverse ++ done) rest
  | 0x5C :: e :: rest =>
    match unescape? e with
    | none => none
    | some b => scanText (b :: done) rest
  | b :: rest => if b < 0x20 then none else scanText (b :: done) rest

def readText : Reader String := fun bs => do
  let rest ← punctuation 0x22 "a string" bs
  match scanText [] rest with
  | none => throw (.expected "the end of a string")
  | some (bytes, rest) =>
    match Bytes.toString? bytes with
    | none => throw (.expected "UTF-8")
    | some s => return (s, rest)

/-! ## Containers -/

/--
Reads items up to `close`, with commas between them; each item updates the state. There are fewer items than
`bound` has bytes, which is the case if it is the text itself.
-/
def separated (close : UInt8) (item : σ → Reader σ) : (bound : Bytes) → (first : Bool) → σ → Reader σ
  | [], _, _, _ => .error (.expected "the end of a container")
  | _ :: bound, first, state, bs =>
    match skipBlank bs with
    | [] => .error (.expected "the end of a container")
    | b :: rest =>
      if b = close then .ok (state, rest)
      else if first then do
        let (state, rest) ← item state (b :: rest)
        separated close item bound false state rest
      else if b = 0x2C then do
        let (state, rest) ← item state rest
        separated close item bound false state rest
      else .error (.expected "a comma")

/-- Reads items up to `close`, after the opening bracket. -/
def enclosed (close : UInt8) (item : σ → Reader σ) (start : σ) : Reader σ := fun bs =>
  separated close item bs true start bs

def readMember (value : String → σ → Reader σ) (state : σ) : Reader σ := fun bs => do
  let (key, rest) ← readText bs
  value key state (← punctuation 0x3A "a colon" rest)

/-- Reads items of one kind between brackets, after the opening one. -/
def readItems (item : Reader α) : Reader (List α) := fun bs => do
  let (items, rest) ← enclosed 0x5D (fun done bs => do
    let (v, rest) ← item bs
    return (v :: done, rest)) [] bs
  return (items.reverse, rest)

/-- Reads members whose values are of one kind, after the opening brace, in their order in the text. -/
def readMembers (value : Reader α) : Reader (List (String × α)) := fun bs => do
  let (members, rest) ← enclosed 0x7D (readMember fun key done bs => do
    let (v, rest) ← value bs
    return ((key, v) :: done, rest)) [] bs
  return (members.reverse, rest)

/-! ## Values -/

def readNumber : Reader Number := fun bs =>
  match Literal.scan? bs with
  | none => .error (.expected "a number")
  | some (literal, rest) =>
    match literal.number? with
    | none => .error .outOfRange
    | some n => .ok (n, rest)

def readScalar : Reader Json := fun bs =>
  match bs with
  | 0x6E :: _ => keyword "null" .null bs
  | 0x74 :: _ => keyword "true" (.bool true) bs
  | 0x66 :: _ => keyword "false" (.bool false) bs
  | 0x22 :: _ => do
    let (s, rest) ← readText bs
    return (.text s, rest)
  | _ => do
    let (n, rest) ← readNumber bs
    return (.number n, rest)

/-- Reads a value with at most `depth` containers around each other; of equal keys the last counts. -/
def readValue : (depth : Nat) → Reader Json
  | 0 => fun bs =>
    match skipBlank bs with
    | 0x5B :: _ | 0x7B :: _ => .error .tooDeep
    | bs => readScalar bs
  | depth + 1 => fun bs =>
    match skipBlank bs with
    | 0x5B :: rest => do
      let (items, rest) ← readItems (readValue depth) rest
      return (.array items, rest)
    | 0x7B :: rest => do
      let (members, rest) ← readMembers (readValue depth) rest
      return (.ofMembers members, rest)
    | bs => readScalar bs

/-- How many containers may enclose each other in a text. -/
def maxDepth : Nat := 127

/-- Reads a whole text, blanks around the value included. -/
def complete (reader : Reader α) (bs : Bytes) : Except ReadError α := do
  let (value, rest) ← reader bs
  if (skipBlank rest).isEmpty then return value else throw .trailing

def parse (bs : Bytes) : Except ReadError Json := complete (readValue maxDepth) bs

end RemoteTable.Json
