import DualStore.Text.Integer

/-! Finite binary64 values: the reading of a decimal as the nearest of them, and rounded products
and quotients. All arithmetic is on natural numbers, so closed instances evaluate in the kernel. -/

namespace DualStore

/-- The value `± significand · 2 ^ exponent`. Values made by `Binary64.nearest?` are normal: the
significand has 53 bits unless the exponent is the least one. -/
structure Binary64 where
  negative : Bool
  significand : Nat
  exponent : Int
  deriving DecidableEq, Repr, Inhabited

namespace Binary64

/-- Equal as numbers: both zeros are one number. -/
instance : BEq Binary64 := ⟨fun x y =>
  x.significand == y.significand && x.exponent == y.exponent &&
    (x.negative == y.negative || x.significand == 0)⟩

/-- The exponent of the least values, zero included. -/
def minExponent : Int := -1074

/-- The exponent of the greatest values. -/
def maxExponent : Int := 971

def zero (negative : Bool) : Binary64 := ⟨negative, 0, minExponent⟩

/-- `num / den` rounded to the nearest natural number, a half going to the even neighbour. -/
def roundDiv (num den : Nat) : Nat :=
  let q := num / den
  let twice := 2 * (num % den)
  if twice < den then q
  else if den < twice then q + 1
  else if q % 2 = 0 then q else q + 1

/-- The quotient `num / den · 2 ^ (-e)` as a fraction. -/
def scaled (num den : Nat) (e : Int) : Nat × Nat :=
  if 0 ≤ e then (num, den * Nat.pow 2 e.toNat) else (num * Nat.pow 2 (-e).toNat, den)

/-- The value nearest to the positive fraction `num / den`, a half going to the even neighbour;
`none` if that is beyond the greatest finite value. -/
def nearestFraction? (negative : Bool) (num den : Nat) : Option Binary64 :=
  let low := max ((num.log2 : Int) - (den.log2 : Int) - 53) minExponent
  let (n, d) := scaled num den low
  let e := if n / d < Nat.pow 2 53 then low else low + 1
  let (n, d) := scaled num den e
  let m := roundDiv n d
  let (m, e) := if m = Nat.pow 2 53 then (Nat.pow 2 52, e + 1) else (m, e)
  if m = 0 then some (zero negative)
  else if maxExponent < e then none
  else some ⟨negative, m, e⟩

/-- The value nearest to `± m · 10 ^ e`; `none` beyond the greatest finite value. A decimal far
outside the range is settled by its magnitude alone. -/
def nearest? (negative : Bool) (m : Nat) (e : Int) : Option Binary64 :=
  if m = 0 then some (zero negative)
  else
    let magnitude := (Nat.toDigits 10 m).length + e
    if 400 < magnitude then none
    else if magnitude < -400 then some (zero negative)
    else if 0 ≤ e then nearestFraction? negative (m * Nat.pow 10 e.toNat) 1
    else nearestFraction? negative m (Nat.pow 10 (-e).toNat)

/-! ## Multiplication and division -/

/-- The size of a value as a fraction. -/
def fraction (x : Binary64) : Nat × Nat :=
  if 0 ≤ x.exponent then (x.significand * Nat.pow 2 x.exponent.toNat, 1)
  else (x.significand, Nat.pow 2 (-x.exponent).toNat)

/-- The value nearest to a product; `none` beyond the greatest finite value. -/
def mul? (x y : Binary64) : Option Binary64 :=
  nearestFraction? (x.negative != y.negative) (x.fraction.1 * y.fraction.1)
    (x.fraction.2 * y.fraction.2)

/-- The value nearest to a quotient; `none` beyond the greatest finite value. -/
def div? (x y : Binary64) : Option Binary64 :=
  if y.significand = 0 then none
  else nearestFraction? (x.negative != y.negative) (x.fraction.1 * y.fraction.2)
    (x.fraction.2 * y.fraction.1)

/-- The greatest power of ten that is a finite value when rounded. -/
def maxPower : Nat := 308

/-- A value times `10 ^ n`, the power and the product being rounded in turn. -/
def timesPower? (x : Binary64) (n : Nat) : Option Binary64 :=
  if x.significand = 0 then some x
  else if maxPower < n then none
  else (nearest? false 1 n).bind x.mul?

/-- A value divided by `10 ^ n`, the power and the quotient being rounded in turn. A greater power
than the greatest one is divided by in steps; two whole steps leave nothing of a value below
`10 ^ 292`. -/
def overPower? (x : Binary64) (n : Nat) : Option Binary64 :=
  if n ≤ maxPower then (nearest? false 1 n).bind x.div?
  else if 2 * maxPower < n then some (zero x.negative)
  else do
    let y ← x.div? (← nearest? false 1 maxPower)
    y.div? (← nearest? false 1 (n - maxPower : Nat))

/-- A value times a power of ten. -/
def scaleTen? (x : Binary64) (e : Int) : Option Binary64 :=
  if 0 ≤ e then x.timesPower? e.toNat else x.overPower? (-e).toNat

/-! ## Reading decimal text -/

/-- An exponent after its letter: an optional sign and at least one digit. -/
def readExponent? (cs : List Char) : Option Int :=
  match cs with
  | '-' :: ds => (Text.digits? ds).map fun n => -(n : Int)
  | '+' :: ds => (Text.digits? ds).map fun n => (n : Int)
  | ds => (Text.digits? ds).map fun n => (n : Int)

/-- Splits off a leading sign; `true` for a minus. -/
def splitSign : List Char → Bool × List Char
  | '-' :: cs => (true, cs)
  | '+' :: cs => (false, cs)
  | cs => (false, cs)

/-- Splits off a point and the digits after it. -/
def splitFraction : List Char → List Char × List Char
  | '.' :: cs => cs.span Char.isDigit
  | cs => ([], cs)

/-- Reads digits with an optional point, an optional exponent and an optional sign. Digits may be
missing on one side of the point. Values that are not finite are not read. -/
def ofText? (s : String) : Option Binary64 :=
  let (negative, cs) := splitSign s.toList
  let (whole, cs) := cs.span Char.isDigit
  let (part, cs) := splitFraction cs
  if whole.isEmpty && part.isEmpty then none
  else
    let exponent? := match cs with
      | [] => some 0
      | c :: cs => if c = 'e' ∨ c = 'E' then readExponent? cs else none
    exponent?.bind fun e => nearest? negative (Text.digitsValue (whole ++ part)) (e - part.length)

end Binary64
end DualStore
