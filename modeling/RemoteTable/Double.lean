/-!
# Finite doubles

A finite binary64 number is a sign and a multiple of the smallest positive double, 2⁻¹⁰⁷⁴. A magnitude is
representable when it is a multiple of the spacing of doubles at its size. Products and quotients are computed
exactly and rounded once, a half to the even neighbour, so every operation here is arithmetic on natural
numbers.
-/

namespace RemoteTable

/-- A finite double: the sign, and the magnitude in units of 2⁻¹⁰⁷⁴. -/
structure Double where
  negative : Bool
  units : Nat
  deriving DecidableEq, Repr, Inhabited

namespace Double

/-- How many units make one. -/
def one : Nat := Nat.pow 2 1074

/-- The first magnitude, in units, past the largest double. -/
def limit : Nat := Nat.pow 2 2098

/-- The spacing of doubles at a magnitude: 53 significant bits, but never below one unit. -/
def spacing (units : Nat) : Nat := Nat.pow 2 (units.log2 - 52)

/-- The natural number nearest to `num / den`, a half to the even one. -/
def halfEven (num den : Nat) : Nat :=
  let q := num / den
  let r := 2 * (num % den)
  if r < den ∨ (r = den ∧ q % 2 = 0) then q else q + 1

/-- The representable magnitude nearest to `num / den` units. -/
def round (num den : Nat) : Nat :=
  let step := spacing (num / den)
  halfEven num (den * step) * step

def ofNat (n : Nat) : Double := ⟨false, round (n * one) 1⟩

def tenPow (n : Nat) : Double := ofNat (Nat.pow 10 n)

/-- The rounded product of two magnitudes; nothing if it is too large. -/
def mul? (a b : Double) : Option Double :=
  let units := round (a.units * b.units) one
  if units < limit then some ⟨a.negative != b.negative, units⟩ else none

def div (a b : Double) : Double := ⟨a.negative != b.negative, round (a.units * one) b.units⟩

def neg (a : Double) : Double := { a with negative := !a.negative }

/-- Equality of numbers: the two zeros are equal. -/
def same (a b : Double) : Bool := a == b || (a.units == 0 && b.units == 0)

/-! ## Scaling by powers of ten -/

/-- The largest power of ten that a double can hold. -/
def maxTen : Nat := 308

/-- Multiplies by `10^exponent` in one or more rounded steps; nothing if the result is too large. Far below, the number
is first divided by the largest power of ten. -/
def scale? (a : Double) (exponent : Int) : Option Double :=
  if exponent.natAbs ≤ maxTen then
    if 0 ≤ exponent then a.mul? (tenPow exponent.natAbs) else some (a.div (tenPow exponent.natAbs))
  else if a.units = 0 then some a
  else if 0 ≤ exponent then none
  else scale? (a.div (tenPow maxTen)) (exponent + maxTen)
termination_by exponent.natAbs
decreasing_by simp only [maxTen] at *; omega

end Double

end RemoteTable
