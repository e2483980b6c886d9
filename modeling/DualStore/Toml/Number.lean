import DualStore.Decimal.Binary64
import DualStore.Text.Hex
import DualStore.Text.Split
import DualStore.Toml.Basic

/-! Numbers, dates and times of configuration files. -/

namespace DualStore.Toml

/-! ## Numbers -/

/-- Digits, with single underscores between them. -/
def groupedDigits? (isDigit : Char → Bool) (cs : List Char) : Option (List Char) :=
  let groups := Text.pieces '_' cs
  if groups.all fun g => !g.isEmpty && g.all isDigit then some groups.flatten else none

/-- Decimal digits without a leading zero. -/
def wholeDigits? (cs : List Char) : Option (List Char) :=
  (groupedDigits? Char.isDigit cs).filter fun ds => ds.length = 1 || ds.head? != some '0'

def splitSign : List Char → Bool × List Char
  | '-' :: cs => (true, cs)
  | '+' :: cs => (false, cs)
  | cs => (false, cs)

def digitOf? (base : Nat) (c : Char) : Option Nat := (Text.hexDigit? c).filter (· < base)

/-- The number of digits in a base. -/
def numberOf (base : Nat) (ds : List Char) : Nat :=
  ds.foldl (fun n c => base * n + (digitOf? base c).getD 0) 0

def inBase? (base : Nat) (cs : List Char) : Option Int :=
  (groupedDigits? (fun c => (digitOf? base c).isSome) cs).map fun ds => numberOf base ds

/-- A 64-bit integer: decimal with an optional sign, or after `0x`, `0o` or `0b`. -/
def integer? (cs : List Char) : Option Int :=
  let n? : Option Int := match cs with
    | '0' :: 'x' :: ds => inBase? 16 ds
    | '0' :: 'o' :: ds => inBase? 8 ds
    | '0' :: 'b' :: ds => inBase? 2 ds
    | cs =>
      let (negative, ds) := splitSign cs
      (wholeDigits? ds).map fun ds => if negative then -(numberOf 10 ds : Int) else numberOf 10 ds
  n?.filter fun n => Text.minSigned ≤ n && n ≤ Text.maxSigned

def isExponent (cs : List Char) : Bool :=
  (groupedDigits? Char.isDigit (splitSign cs).2).isSome

/-- The digits after the point, without an exponent. -/
def isFraction (cs : List Char) : Bool := (groupedDigits? Char.isDigit cs).isSome

/-- A number with a point or an exponent that is not above the finite ones, or a special value. -/
def isFloat (cs : List Char) : Bool :=
  let (negative, unsigned) := splitSign cs
  if ["inf", "nan"].contains (String.ofList unsigned) then true
  else
    let (mantissa, exponent) := match Text.splitAt? (fun c => c = 'e' || c = 'E') unsigned with
      | some (m, e) => (m, some e)
      | none => (unsigned, none)
    let (whole, fraction) := match Text.splitAt? (· = '.') mantissa with
      | some (w, f) => (w, some f)
      | none => (mantissa, none)
    (exponent.isSome || fraction.isSome) && (wholeDigits? whole).isSome &&
      fraction.all isFraction && exponent.all isExponent &&
      (negative || (Binary64.ofText? (String.ofList (unsigned.filter (· != '_')))).isSome)

/-! ## Dates and times -/

/-- A number of exactly `width` digits, within bounds. -/
def field? (width low high : Nat) (cs : List Char) : Option Nat :=
  if cs.length = width then (Text.digits? cs).filter fun n => low ≤ n && n ≤ high else none

def daysIn (year month : Nat) : Nat :=
  if month = 2 then
    if year % 4 = 0 ∧ (year % 100 ≠ 0 ∨ year % 400 = 0) then 29 else 28
  else if [4, 6, 9, 11].contains month then 30
  else 31

def isDate (cs : List Char) : Bool :=
  match Text.pieces '-' cs with
  | [year, month, day] => match field? 4 0 9999 year, field? 2 1 12 month with
    | some y, some m => (field? 2 1 (daysIn y m) day).isSome
    | _, _ => false
  | _ => false

/-- Hours, minutes and seconds, with an optional fraction. -/
def isClock (cs : List Char) : Bool :=
  match Text.pieces ':' cs with
  | [hour, minute, second] =>
    let (whole, fraction) := match Text.splitAt? (· = '.') second with
      | some (w, f) => (w, some f)
      | none => (second, none)
    (field? 2 0 23 hour).isSome && (field? 2 0 59 minute).isSome &&
      (field? 2 0 60 whole).isSome && fraction.all fun f => !f.isEmpty && f.all Char.isDigit
  | _ => false

/-- The difference to universal time. -/
def isOffset (cs : List Char) : Bool :=
  match Text.pieces ':' cs with
  | [hour, minute] => (field? 2 0 23 hour).isSome && (field? 2 0 59 minute).isSome
  | _ => false

/-- A time of day, which after a date may carry an offset. -/
def isClockWithOffset (cs : List Char) : Bool :=
  if cs.getLast? = some 'Z' || cs.getLast? = some 'z' then isClock cs.dropLast
  else match Text.splitAt? (fun c => c = '+' || c = '-') cs with
    | some (clock, offset) => isClock clock && isOffset offset
    | none => isClock cs

/-- A date, a time of day, or both with a `T` between them. -/
def isTime (cs : List Char) : Bool :=
  match Text.splitAt? (fun c => c = 'T' || c = 't') cs with
  | some (date, clock) => isDate date && isClockWithOffset clock
  | none => isDate cs || isClock cs

/-! ## Words -/

def isWordChar (c : Char) : Bool :=
  c.isAlphanum || c = '+' || c = '-' || c = '.' || c = '_' || c = ':'

/-- The value of a word that is no string. -/
def ofWord? (cs : List Char) : Option Toml :=
  if cs = "true".toList then some (.bool true)
  else if cs = "false".toList then some (.bool false)
  else match integer? cs with
    | some n => some (.integer n)
    | none => if isFloat cs then some .float else if isTime cs then some .time else none

/-- A word. A date may be followed by a blank and a time. -/
def readWord (cs : List Char) : Option (Toml × List Char) :=
  let (word, rest) := cs.span isWordChar
  let more := match rest with
    | ' ' :: rest => some (rest.span isWordChar)
    | _ => none
  match isDate word, more with
  | true, some (clock, after) =>
    if isClockWithOffset clock then some (.time, after) else some (.time, rest)
  | _, _ => (ofWord? word).map fun v => (v, rest)

end DualStore.Toml
