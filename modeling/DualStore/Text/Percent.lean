/-! Percent encoding: bytes of UTF-8 by their hexadecimal digits, in upper case. -/

namespace DualStore.Text

private def hexDigitUpper (n : Nat) : Char := (Nat.digitChar n).toUpper

def percentByte (b : UInt8) : List Char :=
  ['%', hexDigitUpper (b.toNat / 16), hexDigitUpper (b.toNat % 16)]

/-- The bytes of a character, each of them encoded. -/
def percentChar (c : Char) : List Char := (String.utf8EncodeChar c).flatMap percentByte

/-- Encodes the characters that are not kept. -/
def percentEncode (keep : Char → Bool) (cs : List Char) : List Char :=
  cs.flatMap fun c => if keep c then [c] else percentChar c

/-- Characters that a form keeps. -/
def isFormChar (c : Char) : Bool :=
  c.isAlphanum || c = '*' || c = '-' || c = '.' || c = '_'

/-- A value of a form, in which a plus stands for a blank. -/
def formValue (s : String) : String :=
  String.ofList (s.toList.flatMap fun c =>
    if c = ' ' then ['+'] else percentEncode isFormChar [c])

/-- Names and values of a form. -/
def formBody (fields : List (String × String)) : String :=
  String.intercalate "&" (fields.map fun f => formValue f.1 ++ "=" ++ formValue f.2)

end DualStore.Text
