import DualStore.Json.Value

/-! JSON text, on one line or indented by two blanks a level. -/

namespace DualStore.Json

private def escapeUnit (n : Nat) : String :=
  let ds := Nat.toDigits 16 n
  "\\u" ++ String.ofList (List.replicate (4 - ds.length) '0' ++ ds)

/-- A character of a string: quotes, backslashes and controls are escaped. -/
def escape (c : Char) : String :=
  if c = '\x22' then "\\\""
  else if c = '\x5c' then "\\\\"
  else if c = '\x08' then "\\b"
  else if c = '\x0c' then "\\f"
  else if c = '\n' then "\\n"
  else if c = '\r' then "\\r"
  else if c = '\t' then "\\t"
  else if c.toNat < 0x20 then escapeUnit c.toNat
  else c.toString

def writeString (s : String) : String := "\"" ++ String.join (s.toList.map escape) ++ "\""

mutual

/-- On one line, without blanks. -/
def write : Json → String
  | null => "null"
  | bool b => if b then "true" else "false"
  | integer n => toString n
  | double x => writeDouble x
  | string s => writeString s
  | array items => "[" ++ String.intercalate "," (writeItems items) ++ "]"
  | object members => "\x7b" ++ String.intercalate "," (writeMembers members) ++ "\x7d"

def writeItems : List Json → List String
  | [] => []
  | j :: items => j.write :: writeItems items

def writeMembers : List (String × Json) → List String
  | [] => []
  | (k, j) :: members => (writeString k ++ ":" ++ j.write) :: writeMembers members

end

private def indentation (level : Nat) : String :=
  "\n" ++ String.ofList (List.replicate (2 * level) ' ')

private def bracket (level : Nat) (opening closing : String) (parts : List String) : String :=
  if parts.isEmpty then opening ++ closing
  else opening ++ indentation (level + 1)
    ++ String.intercalate ("," ++ indentation (level + 1)) parts ++ indentation level ++ closing

mutual

/-- One item or member a line, from the given level of indentation on. -/
def pretty (level : Nat) : Json → String
  | array items => bracket level "[" "]" (prettyItems (level + 1) items)
  | object members => bracket level "\x7b" "\x7d" (prettyMembers (level + 1) members)
  | null => "null"
  | bool b => if b then "true" else "false"
  | integer n => toString n
  | double x => writeDouble x
  | string s => writeString s

def prettyItems (level : Nat) : List Json → List String
  | [] => []
  | j :: items => j.pretty level :: prettyItems level items

def prettyMembers (level : Nat) : List (String × Json) → List String
  | [] => []
  | (k, j) :: members => (writeString k ++ ": " ++ j.pretty level) :: prettyMembers level members

end

end DualStore.Json
