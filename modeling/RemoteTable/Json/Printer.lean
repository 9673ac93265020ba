import RemoteTable.Bytes
import RemoteTable.Double.Shortest
import RemoteTable.Json.Basic

/-!
# Writing JSON

Values are written without blanks, members in the order they stand in. In a string a quote, a backslash and
the characters below U+0020 are escaped, five of these by a letter. A double is written with the fewest digits
that read back, positionally when the exponent of its first digit is between -5 and 15, and with an exponent
otherwise.
-/

namespace RemoteTable.Json

/-! ## Strings -/

/-- How a character is written inside a string. -/
def escape (c : Char) : List Char :=
  match c with
  | '"' => ['\\', '"']
  | '\\' => ['\\', '\\']
  | '\x08' => ['\\', 'b']
  | '\x0c' => ['\\', 'f']
  | '\n' => ['\\', 'n']
  | '\r' => ['\\', 'r']
  | '\t' => ['\\', 't']
  | c =>
    if c.toNat < 0x20 then
      ['\\', 'u', '0', '0', Nat.digitChar (c.toNat / 16), Nat.digitChar (c.toNat % 16)]
    else [c]

def quoted (s : String) : List Char := '"' :: s.toList.flatMap escape ++ ['"']

/-! ## Numbers -/

/-- The exponents of the first digit that are written positionally. -/
def positional (lead : Int) : Bool := -5 ≤ lead && lead ≤ 15

/-- A positive decimal, whose digits have no trailing zero, as text. -/
def decimalText (d : Double.Decimal) : List Char :=
  let digits := Nat.toDigits 10 d.digits
  let lead : Int := d.exponent + (digits.length - 1 : Nat)
  if positional lead then
    if 0 ≤ d.exponent then digits ++ List.replicate d.exponent.toNat '0' ++ ['.', '0']
    else if 0 ≤ lead then digits.take (lead.toNat + 1) ++ '.' :: digits.drop (lead.toNat + 1)
    else '0' :: '.' :: List.replicate ((-lead).toNat - 1) '0' ++ digits
  else
    let fraction := digits.drop 1
    let sign := if 0 ≤ lead then '+' else '-'
    digits.take 1 ++ (if fraction.isEmpty then [] else '.' :: fraction) ++ 'e' :: sign :: Nat.toDigits 10 lead.natAbs

def doubleText (d : Double) : List Char :=
  let magnitude := if d.units = 0 then ['0', '.', '0'] else decimalText (Double.shortest d.units)
  if d.negative then '-' :: magnitude else magnitude

def intText (i : Int) : List Char :=
  if i < 0 then '-' :: Nat.toDigits 10 i.natAbs else Nat.toDigits 10 i.natAbs

def numberText : Number → List Char
  | .int i => intText i
  | .double d => doubleText d

/-! ## Values -/

mutual

def chars : Json → List Char
  | .null => "null".toList
  | .bool true => "true".toList
  | .bool false => "false".toList
  | .number n => numberText n
  | .text s => quoted s
  | .array items => '[' :: itemChars items ++ [']']
  | .object members => '\x7b' :: memberChars members ++ ['\x7d']

def itemChars : List Json → List Char
  | [] => []
  | [v] => chars v
  | v :: rest => chars v ++ ',' :: itemChars rest

def memberChars : List (String × Json) → List Char
  | [] => []
  | [(k, v)] => quoted k ++ ':' :: chars v
  | (k, v) :: rest => quoted k ++ ':' :: chars v ++ ',' :: memberChars rest

end

def render (v : Json) : String := String.ofList (chars v)

def encode (v : Json) : Bytes := (chars v).flatMap String.utf8EncodeChar

end RemoteTable.Json
