import DualStore.Text.CharClass

/-! Quoted text for messages. Between quotes, a quote of the same kind and a backslash are escaped,
the common controls have short escapes, and other hidden characters are shown by number. -/

namespace DualStore.Text

/-- A number in lower-case hexadecimal digits. -/
def hex (n : Nat) : String := String.ofList (Nat.toDigits 16 n)

/-- One character between quotes of the kind `quote`. -/
def escapeChar (quote : Char) (c : Char) : String :=
  if c = quote then "\\" ++ c.toString
  else if c = '\x5c' then "\\\\"
  else if c = '\n' then "\\n"
  else if c = '\r' then "\\r"
  else if c = '\t' then "\\t"
  else if c.toNat = 0 then "\\0"
  else if isHidden c then "\\u\x7b" ++ hex c.toNat ++ "\x7d"
  else c.toString

/-- A text in double quotes. -/
def quoted (s : String) : String :=
  "\"" ++ String.join (s.toList.map (escapeChar '\x22')) ++ "\""

/-- A character in single quotes. -/
def quotedChar (c : Char) : String := "'" ++ escapeChar '\x27' c ++ "'"

end DualStore.Text
