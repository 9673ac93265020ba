import RemoteTable.Bytes
import RemoteTable.Json.Basic

/-!
# Number literals

`Literal.scan?` takes a number off the front of a byte string by the grammar alone: an optional minus, digits
without a leading zero, an optional fraction, an optional exponent. `Literal.number?` is its value.

A literal without fraction and exponent that fits a 64-bit word, signed or unsigned, is an integer, except
`-0`. Any other literal is a double, and is computed from as many leading digits as fit an unsigned 64-bit
word: a digit of the whole part past them counts by its place only, a digit of the fraction past them not at
all. What they spell is converted to a double and scaled by a power of ten. A literal beyond the largest
double has no value.
-/

namespace RemoteTable.Json

def isDigit (b : UInt8) : Bool := 0x30 ≤ b && b ≤ 0x39

def digitValue (b : UInt8) : Nat := b.toNat - 0x30

/-- The parts of a number literal; an absent fraction has no digits. -/
structure Literal where
  negative : Bool
  whole : List Nat
  fraction : List Nat
  exponent : Option Int
  deriving DecidableEq, Repr

namespace Literal

/-- The digits at the front, and what follows them. -/
def digits (bs : Bytes) : List Nat × Bytes := ((bs.takeWhile isDigit).map digitValue, bs.dropWhile isDigit)

/-- Takes off the whole part: a zero alone, or digits that begin with another. -/
def scanWhole? (bs : Bytes) : Option (List Nat × Bytes) :=
  match digits bs with
  | ([], _) => none
  | (0 :: _ :: _, _) => none
  | found => some found

def scanFraction? : Bytes → Option (List Nat × Bytes)
  | 0x2E :: rest =>
    match digits rest with
    | ([], _) => none
    | found => some found
  | bs => some ([], bs)

/-- The exponent that digits spell. From 2^32 on it counts as that: no text has digits enough to make up for more. -/
def spelledPower (ds : List Nat) : Nat := ds.foldl (fun n d => min (10 * n + d) UInt32.size) 0

/-- Takes off the digits of an exponent, which may not be missing. -/
def scanPower? (negative : Bool) (bs : Bytes) : Option (Option Int × Bytes) :=
  match digits bs with
  | ([], _) => none
  | (ds, rest) => some (some (if negative then -(spelledPower ds : Int) else spelledPower ds), rest)

/-- Takes off an exponent, if there is the letter for one. -/
def scanExponent? : Bytes → Option (Option Int × Bytes)
  | 0x65 :: rest | 0x45 :: rest =>
    match rest with
    | 0x2B :: rest => scanPower? false rest
    | 0x2D :: rest => scanPower? true rest
    | rest => scanPower? false rest
  | bs => some (none, bs)

def scan? (bs : Bytes) : Option (Literal × Bytes) := do
  let (negative, bs) := match bs with
    | 0x2D :: rest => (true, rest)
    | bs => (false, bs)
  let (whole, bs) ← scanWhole? bs
  let (fraction, bs) ← scanFraction? bs
  let (exponent, bs) ← scanExponent? bs
  return (⟨negative, whole, fraction, exponent⟩, bs)

/-! ## Values -/

/-- The leading digits of a literal as a word, the power of ten they are short of, and whether a digit did not fit. -/
structure Significand where
  word : Nat
  power : Int
  full : Bool
  deriving DecidableEq, Repr

def Significand.fits (s : Significand) (d : Nat) : Bool := !s.full && 10 * s.word + d < UInt64.size

def Significand.pushWhole (s : Significand) (d : Nat) : Significand :=
  if s.fits d then { s with word := 10 * s.word + d } else { s with power := s.power + 1, full := true }

def Significand.pushFraction (s : Significand) (d : Nat) : Significand :=
  if s.fits d then { s with word := 10 * s.word + d, power := s.power - 1 } else { s with full := true }

def wholePart (l : Literal) : Significand := l.whole.foldl Significand.pushWhole ⟨0, 0, false⟩

/-- The digits of both parts; the fraction starts anew to see which of its digits fit. -/
def significand (l : Literal) : Significand :=
  l.fraction.foldl Significand.pushFraction { l.wholePart with full := false }

def signed (l : Literal) (d : Double) : Double := if l.negative then d.neg else d

def double? (l : Literal) : Option Double :=
  let s := l.significand
  ((Double.ofNat s.word).scale? (s.power + l.exponent.getD 0)).map l.signed

def number? (l : Literal) : Option Number :=
  let w := l.wholePart
  if l.fraction.isEmpty ∧ l.exponent = none ∧ !w.full then
    if !l.negative then some (.int w.word)
    else if 0 < w.word ∧ Number.InRange (-w.word) then some (.int (-w.word))
    else some (.double (l.signed (Double.ofNat w.word)))
  else l.double?.map .double

end Literal

end RemoteTable.Json
