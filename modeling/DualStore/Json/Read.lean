import DualStore.Json.Value
import DualStore.Text.Hex
import DualStore.Text.Read

/-! Reading JSON text. Numbers without point and exponent that fit 64 bits are integers, all others
are doubles. Arrays and objects may be nested 127 deep. -/

namespace DualStore.Json

private def isSpace (c : Char) : Bool := c = ' ' || c = '\n' || c = '\r' || c = '\t'

def skipSpace (cs : List Char) : List Char := cs.dropWhile isSpace

theorem length_skipSpace_le (cs : List Char) : (skipSpace cs).length ≤ cs.length :=
  length_dropWhile_le ..

/-! ## Strings -/

/-- Four hexadecimal digits. -/
def readUnit : (cs : List Char) → Option (Read Nat cs)
  | a :: b :: c :: d :: cs =>
    (Text.hexValue? [a, b, c, d]).map fun n => ⟨n, cs, by simp only [List.length_cons]; omega⟩
  | _ => none

/-- The second half of a character that is written as two units. -/
def readLowUnit : (cs : List Char) → Option (Read Nat cs)
  | '\x5c' :: 'u' :: cs => match readUnit cs with
    | some r => if 0xDC00 ≤ r.value ∧ r.value < 0xE000 then
        some (r.widen (by simp only [List.length_cons]; omega)) else none
    | none => none
  | _ => none

/-- A character after `\u`: one unit, or two that make up a character beyond U+FFFF. -/
def readCodePoint (cs : List Char) : Option (Read Char cs) :=
  match readUnit cs with
  | none => none
  | some r =>
    if 0xD800 ≤ r.value ∧ r.value < 0xDC00 then
      (readLowUnit r.rest).map fun s =>
        (r.andThen s).map fun low =>
          Char.ofNat (0x10000 + (r.value - 0xD800) * 0x400 + (low - 0xDC00))
    else if 0xDC00 ≤ r.value ∧ r.value < 0xE000 then none
    else some (r.map Char.ofNat)

/-- A character after a backslash. -/
def readEscape : (cs : List Char) → Option (Read Char cs)
  | [] => none
  | c :: cs =>
    let one := fun x : Char => some ((Read.head c cs).map fun _ => x)
    if c = '\x22' then one '\x22'
    else if c = '\x5c' then one '\x5c'
    else if c = '/' then one '/'
    else if c = 'b' then one '\x08'
    else if c = 'f' then one '\x0c'
    else if c = 'n' then one '\n'
    else if c = 'r' then one '\r'
    else if c = 't' then one '\t'
    else if c = 'u' then (readCodePoint cs).map (·.behind c)
    else none

/-- The characters of a string up to its closing quote. -/
def readString (cs : List Char) : Option (Read (List Char) cs) :=
  match cs with
  | [] => none
  | c :: cs =>
    if c = '\x22' then some ((Read.head c cs).map fun _ => [])
    else if c = '\x5c' then
      match readEscape cs with
      | none => none
      | some r => (readString r.rest).map fun s =>
          (((r.andThen s).map (r.value :: ·)).widen (Nat.le_succ _))
    else if c.toNat < 0x20 then none
    else (readString cs).map fun s => (s.map (c :: ·)).widen (Nat.le_succ _)
termination_by cs.length
decreasing_by
  · have := r.shorter
    simp only [List.length_cons]
    omega
  · simp only [List.length_cons]
    omega

/-! ## Numbers -/

/-- An integer in the range of 64 bits, signed or unsigned. -/
def isWord (n : Int) : Bool := Text.minSigned ≤ n && n ≤ Text.maxUnsigned

/-- Appends digits to a number as long as it fits 64 bits. The digits that do not fit are
returned. -/
def appendDigits (n : Nat) : List Char → Nat × List Char
  | [] => (n, [])
  | d :: ds =>
    let more := 10 * n + Text.digitsValue [d]
    if more ≤ Text.maxUnsigned then appendDigits more ds else (n, d :: ds)

/-- The double with the given sign, digits before and after the point, and exponent, if it is
finite. The digits that fit 64 bits are rounded, and then their product or quotient with the power
of ten: the last place may differ from the nearest double. -/
def double? (negative : Bool) (whole part : List Char) (exponent : Int) : Option Json :=
  let (n, surplus) := appendDigits 0 whole
  let (n, rest) := appendDigits n part
  let e := exponent + surplus.length - (part.length - rest.length : Nat)
  ((Binary64.nearestFraction? false n 1).bind (·.scaleTen? e)).map fun x =>
    double { x with negative := negative }

/-- The number with the given sign, digits before and after the point, and exponent, if it is
finite. A zero with a minus is a double. -/
def number? (negative : Bool) (whole : List Char) (part : Option (List Char))
    (exponent : Option Int) : Option Json :=
  let n : Int := if negative then -(Text.digitsValue whole) else Text.digitsValue whole
  if part.isNone && exponent.isNone && isWord n && !(negative && n == 0) then some (integer n)
  else double? negative whole (part.getD []) (exponent.getD 0)

/-- The digits after a point, if there is one. -/
def readPart : (cs : List Char) → Option (Option (List Char) × List Char)
  | '.' :: cs =>
    let (ds, rest) := cs.span Char.isDigit
    if ds.isEmpty then none else some (some ds, rest)
  | cs => some (none, cs)

/-- The exponent, if there is one. -/
def readPower : (cs : List Char) → Option (Option Int × List Char)
  | [] => some (none, [])
  | c :: cs =>
    if c = 'e' ∨ c = 'E' then
      let (negative, cs) := Binary64.splitSign cs
      let (ds, rest) := cs.span Char.isDigit
      let n : Int := Text.digitsValue ds
      if ds.isEmpty then none else some (some (if negative then -n else n), rest)
    else some (none, c :: cs)

/-- A number, which starts with a digit or a minus. -/
def readNumber (cs : List Char) : Option (Json × List Char) :=
  let (negative, cs) := match cs with
    | '-' :: cs => (true, cs)
    | cs => (false, cs)
  let (whole, cs) := cs.span Char.isDigit
  let wellFormed := match whole with
    | [] => false
    | ['0'] => true
    | d :: _ => d != '0'
  if wellFormed then
    (readPart cs).bind fun (part, cs) =>
      (readPower cs).bind fun (power, cs) =>
        (number? negative whole part power).map fun j => (j, cs)
  else none

/-! ## Values -/

/-- A literal name. -/
def readName (name : List Char) (cs : List Char) : Option (List Char) :=
  if name.isPrefixOf cs then some (cs.drop name.length) else none

/-- What follows an element: a comma and more elements, or the closing bracket. -/
def readMore {α : Type} (close : Char) (element : (cs : List Char) → Option (Read α cs))
    (cs : List Char) : Option (Read (List α) cs) :=
  match h : skipSpace cs with
  | [] => none
  | c :: rest =>
    have hlt : rest.length < cs.length := by
      have := length_skipSpace_le cs
      rw [h] at this
      exact this
    if c = close then some ⟨[], rest, hlt⟩
    else if c = ',' then
      match element rest with
      | none => none
      | some r =>
        have := r.shorter
        (readMore close element r.rest).map fun s =>
          ((r.andThen s).map (r.value :: ·)).widen (Nat.le_of_lt hlt)
    else none
termination_by cs.length

/-- The elements after an opening bracket. -/
def readElements {α : Type} (close : Char) (element : (cs : List Char) → Option (Read α cs))
    (cs : List Char) : Option (Read (List α) cs) :=
  match h : skipSpace cs with
  | [] => none
  | c :: rest =>
    have hlt : rest.length < cs.length := by
      have := length_skipSpace_le cs
      rw [h] at this
      exact this
    if c = close then some ⟨[], rest, hlt⟩
    else match element (c :: rest) with
      | none => none
      | some r => (readMore close element r.rest).map fun s =>
          ((r.andThen s).map (r.value :: ·)).widen (by simp only [List.length_cons]; omega)

/-- A member of an object: a string, a colon and a value. -/
def readMember (value : (cs : List Char) → Option (Read Json cs)) (cs : List Char) :
    Option (Read (String × Json) cs) :=
  match h : skipSpace cs with
  | '\x22' :: rest =>
    have hlt : rest.length < cs.length := by
      have := length_skipSpace_le cs
      rw [h] at this
      exact this
    match readString rest with
    | none => none
    | some k => match hk : skipSpace k.rest with
      | ':' :: more =>
        have : more.length < k.rest.length := by
          have := length_skipSpace_le k.rest
          rw [hk] at this
          exact this
        (value more).map fun v =>
          ⟨(String.ofList k.value, v.value), v.rest, by
            have := k.shorter
            have := v.shorter
            omega⟩
      | _ => none
  | _ => none

/-- A value with blanks before it; `depth` counts the levels that may still be opened. -/
def readValue : (depth : Nat) → (cs : List Char) → Option (Read Json cs)
  | depth, cs => match h : skipSpace cs with
    | [] => none
    | c :: rest =>
      have hle : (c :: rest).length ≤ cs.length := h ▸ length_skipSpace_le cs
      if c = '\x22' then
        (readString rest).map fun r =>
          (r.map fun s => string (String.ofList s)).widen (Nat.le_of_lt hle)
      else if c = '[' then match depth with
        | 0 => none
        | depth + 1 =>
          (readElements ']' (readValue depth) rest).map fun r =>
            (r.map array).widen (Nat.le_of_lt hle)
      else if c = '\x7b' then match depth with
        | 0 => none
        | depth + 1 =>
          (readElements '\x7d' (readMember (readValue depth)) rest).map fun r =>
            (r.map object).widen (Nat.le_of_lt hle)
      else
        let scalar := if c = 't' then (readName "true".toList (c :: rest)).map (bool true, ·)
          else if c = 'f' then (readName "false".toList (c :: rest)).map (bool false, ·)
          else if c = 'n' then (readName "null".toList (c :: rest)).map (null, ·)
          else readNumber (c :: rest)
        (scalar.bind fun (j, more) => Read.of? (c :: rest) j more).map (·.widen hle)

/-- The number of levels that a text may open. -/
def maxDepth : Nat := 127

/-- Reads a whole text; members are listed as they are written. -/
def readWritten? (text : String) : Option Json :=
  (readValue maxDepth text.toList).bind fun r =>
    if (skipSpace r.rest).isEmpty then some r.value else none

/-- Reads a whole text; members are listed by key, and of equal keys the last counts. -/
def read? (text : String) : Option Json := (readWritten? text).map sort

end DualStore.Json
