/-! Integers in text: ASCII digits with an optional sign, within given bounds. -/

namespace DualStore.Text

/-- The number that ASCII digits stand for. -/
def digitsValue (ds : List Char) : Nat := ds.foldl (fun n c => 10 * n + (c.toNat - 48)) 0

/-- At least one digit and nothing else. -/
def digits? (ds : List Char) : Option Nat :=
  if ds.isEmpty || !ds.all Char.isDigit then none else some (digitsValue ds)

def maxUnsigned : Nat := 18446744073709551615
def minSigned : Int := -9223372036854775808
def maxSigned : Int := 9223372036854775807

/-- A natural number below `2 ^ 64`, which may carry a plus. -/
def unsigned? (s : String) : Option Nat :=
  let n? := match s.toList with
    | '+' :: ds => digits? ds
    | ds => digits? ds
  n?.filter (· ≤ maxUnsigned)

/-- An integer from `-2 ^ 63` to `2 ^ 63 - 1`, which may carry a plus. -/
def signed? (s : String) : Option Int :=
  let n? : Option Int := match s.toList with
    | '-' :: ds => (digits? ds).map fun n => -(n : Int)
    | '+' :: ds => (digits? ds).map fun n => (n : Int)
    | ds => (digits? ds).map fun n => (n : Int)
  n?.filter fun n => minSigned ≤ n && n ≤ maxSigned

end DualStore.Text
