import DualStore.Decimal.Binary64

/-! The shortest decimal that reads back as a given binary64 value and, of the shortest ones, the
nearest. -/

namespace DualStore

/-- The decimal `± digits · 10 ^ exponent`. -/
structure Decimal where
  negative : Bool
  digits : Nat
  exponent : Int
  deriving DecidableEq, Repr

namespace Decimal

/-- Number of decimal digits. -/
def width (n : Nat) : Nat := (Nat.toDigits 10 n).length

/-- A positive value and the ends of the interval that rounds to it, as fractions over one
denominator. -/
structure Interval where
  low : Nat
  value : Nat
  high : Nat
  denominator : Nat
  /-- The ends themselves round to the value. -/
  closed : Bool

/-- The interval of a positive value: half way to each neighbour. Below a power of two the lower
neighbour is nearer. -/
def interval (x : Binary64) : Interval :=
  let m := x.significand
  let gap := if m = Nat.pow 2 52 ∧ Binary64.minExponent < x.exponent then 1 else 2
  let (num, den) := if 2 ≤ x.exponent then (Nat.pow 2 (x.exponent - 2).toNat, 1)
    else (1, Nat.pow 2 (2 - x.exponent).toNat)
  ⟨(4 * m - gap) * num, 4 * m * num, (4 * m + 2) * num, den, m % 2 = 0⟩

namespace Interval

/-- The greatest `e` with `10 ^ e ≤ value`. -/
def magnitude (i : Interval) : Int :=
  if i.denominator ≤ i.value then (width (i.value / i.denominator) : Int) - 1
  else -(width ((i.denominator + i.value - 1) / i.value - 1) : Int)

/-- `c · 10 ^ e` over the interval's denominator, as a pair `(a, b)` for `a / b`. -/
def point (i : Interval) (c : Nat) (e : Int) : Nat × Nat :=
  if 0 ≤ e then (c * Nat.pow 10 e.toNat * i.denominator, 1) else (c * i.denominator, Nat.pow 10 (-e).toNat)

def holds (i : Interval) (c : Nat) (e : Int) : Bool :=
  let (a, b) := i.point c e
  if i.closed then i.low * b ≤ a && a ≤ i.high * b else i.low * b < a && a < i.high * b

/-- Of the two points of the grid `10 ^ e` around the value, the one in the interval, or the nearer
one if both are. -/
def onGrid? (i : Interval) (e : Int) : Option Nat :=
  let (v, d) := if 0 ≤ e then (i.value, i.denominator * Nat.pow 10 e.toNat)
    else (i.value * Nat.pow 10 (-e).toNat, i.denominator)
  let c := v / d
  let nearer := if 2 * (v % d) < d ∨ (2 * (v % d) = d ∧ c % 2 = 0) then c else c + 1
  let other := if nearer = c then c + 1 else c
  if i.holds nearer e then some nearer
  else if i.holds other e then some other
  else none

end Interval

/-- Moves factors of ten from the digits to the exponent. -/
def trim (negative : Bool) (digits : Nat) (exponent : Int) : Decimal :=
  if h : digits = 0 then ⟨negative, 0, 0⟩
  else if digits % 10 = 0 then trim negative (digits / 10) (exponent + 1)
  else ⟨negative, digits, exponent⟩
termination_by digits

/-- The shortest decimal that reads back as `x`. Seventeen digits always do. -/
def shortest (x : Binary64) : Decimal :=
  if x.significand = 0 then ⟨x.negative, 0, 0⟩
  else
    let i := interval x
    let top := i.magnitude
    match (List.range 17).findSome? fun (n : Nat) =>
        (i.onGrid? (top - n)).map fun c => trim x.negative c (top - n) with
    | some d => d
    | none => ⟨x.negative, 0, 0⟩

end Decimal
end DualStore
