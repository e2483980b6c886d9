import DualStore.Decimal.Shortest

/-! How a decimal is written: with a point in its place, or with an exponent. -/

namespace DualStore

/-- The choices of a number format. -/
structure NumberFormat where
  /-- The least and the greatest exponent of the leading digit that is written with a point. -/
  least : Int
  greatest : Int
  /-- Positive exponents carry a sign. -/
  plus : Bool
  deriving Repr

namespace NumberFormat

private def zeros (n : Nat) : List Char := List.replicate n '0'

/-- With a point and at least one digit on each side of it. -/
def positional (ds : List Char) (exponent : Int) : List Char :=
  if 0 ≤ exponent then ds ++ zeros exponent.toNat ++ ['.', '0']
  else
    let places := (-exponent).toNat
    if places < ds.length then ds.take (ds.length - places) ++ '.' :: ds.drop (ds.length - places)
    else '0' :: '.' :: zeros (places - ds.length) ++ ds

/-- With one digit before the point, which is left out when no digit follows it. -/
def scientific (f : NumberFormat) (ds : List Char) (magnitude : Int) : List Char :=
  let head := match ds with
    | [d] => [d]
    | d :: ds => d :: '.' :: ds
    | [] => []
  let sign := if magnitude < 0 then ['-'] else if f.plus then ['+'] else []
  head ++ 'e' :: sign ++ Nat.toDigits 10 magnitude.natAbs

def write (f : NumberFormat) (d : Decimal) : String :=
  let ds := Nat.toDigits 10 d.digits
  let magnitude := d.exponent + ds.length - 1
  let body := if f.least ≤ magnitude ∧ magnitude ≤ f.greatest then positional ds d.exponent
    else f.scientific ds magnitude
  String.ofList (if d.negative then '-' :: body else body)

end NumberFormat
end DualStore
