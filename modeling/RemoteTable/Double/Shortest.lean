import RemoteTable.Double

/-!
# The shortest decimal of a double

A decimal reads back as a double when it lies in the interval of numbers that round to it: half a spacing to
each side, less below a power of two, ends included when the significand is even. `shortest` takes the
coarsest decimal grid that has a point in the interval. If a grid has one, one of the double's two neighbours
on the grid is in the interval too, so only those are tested; of two hits the nearer counts, and of two
equally near the even one.
-/

namespace RemoteTable.Double

/-- A decimal: `digits * 10^exponent`. -/
structure Decimal where
  digits : Nat
  exponent : Int
  deriving DecidableEq, Repr

/-- The exponent of the first digit of `num / den`: the `e` with 10ᵉ ≤ num / den < 10ᵉ⁺¹. -/
def leadingExponent (num den : Nat) : Int :=
  if den ≤ num then ((Nat.toDigits 10 (num / den)).length : Int) - 1 else -(below num 1100 : Int)
where
  /-- How often `n` has to be multiplied by ten to reach `den`. -/
  below (n : Nat) : Nat → Nat
    | 0 => 0
    | fuel + 1 => if den ≤ n then 0 else below (10 * n) fuel + 1

/-- The interval of numbers that round to a magnitude, in quarters of a unit, and whether its ends belong to it. -/
structure Interval where
  low : Nat
  high : Nat
  closed : Bool
  deriving DecidableEq, Repr

def interval (units : Nat) : Interval :=
  let step := spacing units
  let narrow := 1 < step ∧ units = Nat.pow 2 units.log2
  ⟨4 * units - (if narrow then step else 2 * step), 4 * units + 2 * step, units / step % 2 == 0⟩

/-- Whether `num / den` quarters of a unit lie in an interval. -/
def Interval.holds (i : Interval) (num den : Nat) : Bool :=
  if i.closed then i.low * den ≤ num && num ≤ i.high * den else i.low * den < num && num < i.high * den

/-- The point of the grid of `10^exponent` that stands for a magnitude, if one of its two neighbours does. -/
def onGrid? (units : Nat) (exponent : Int) : Option Nat :=
  let den := Nat.pow 10 (-exponent).toNat
  let point := 4 * one * Nat.pow 10 exponent.toNat
  let down := 4 * units * den / point
  let hit (d : Nat) := (interval units).holds (d * point) den
  let below := 4 * units * den - down * point
  let above := (down + 1) * point - 4 * units * den
  match hit down, hit (down + 1) with
  | true, true => some (if below < above ∨ (below = above ∧ down % 2 = 0) then down else down + 1)
  | true, false => some down
  | false, true => some (down + 1)
  | false, false => none

/-- Drops trailing zeros of the digits. -/
def Decimal.trim : (fuel : Nat) → Decimal → Decimal
  | 0, d => d
  | fuel + 1, d => if d.digits % 10 = 0 ∧ 0 < d.digits then trim fuel ⟨d.digits / 10, d.exponent + 1⟩ else d

/-- The decimal with the fewest digits that reads back as the given magnitude. -/
def shortest (units : Nat) : Decimal :=
  let lead := leadingExponent units one
  let grids := (List.range 17).map fun (n : Nat) => lead - (n : Int)
  match grids.findSome? fun e => (onGrid? units e).map (Decimal.mk · e) with
  | some d => d.trim 20
  | none => ⟨0, 0⟩

end RemoteTable.Double
