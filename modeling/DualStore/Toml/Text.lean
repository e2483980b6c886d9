import DualStore.Text.Hex
import DualStore.Text.Read

/-! Blanks, strings and keys of configuration files. -/

namespace DualStore.Toml

/-! ## Blanks -/

def isSpace (c : Char) : Bool := c = ' ' || c = '\t'

def skipSpace (cs : List Char) : List Char := cs.dropWhile isSpace

/-- Characters that may stand in comments and strings. -/
def isText (c : Char) : Bool := c = '\t' || (0x20 ≤ c.toNat && c.toNat != 0x7F)

/-- The rest after the end of a line. -/
def newline? : List Char → Option (List Char)
  | '\n' :: cs => some cs
  | '\r' :: '\n' :: cs => some cs
  | _ => none

/-- Skips blanks, ends of lines and comments. -/
def skipLines (inComment : Bool) : List Char → List Char
  | [] => []
  | '\n' :: cs => skipLines false cs
  | '\r' :: '\n' :: cs => skipLines false cs
  | c :: cs =>
    if inComment then if isText c then skipLines true cs else c :: cs
    else if isSpace c then skipLines false cs
    else if c = '#' then skipLines true cs
    else c :: cs

/-- Skips blanks and ends of lines. -/
def skipBlankLines : List Char → List Char
  | '\n' :: cs => skipBlankLines cs
  | '\r' :: '\n' :: cs => skipBlankLines cs
  | c :: cs => if isSpace c then skipBlankLines cs else c :: cs
  | [] => []

/-- The rest of a line that holds nothing but a comment. -/
def endOfLine? (cs : List Char) : Option (List Char) :=
  let rest := match skipSpace cs with
    | '#' :: cs => cs.dropWhile isText
    | cs => cs
  match rest with
  | [] => some []
  | cs => newline? cs

/-! ## Strings -/

/-- The character that a single letter after a backslash stands for. -/
def escape? (c : Char) : Option Char :=
  if c = 'b' then some '\x08'
  else if c = 't' then some '\t'
  else if c = 'n' then some '\n'
  else if c = 'f' then some '\x0c'
  else if c = 'r' then some '\r'
  else if c = '\x22' || c = '\x5c' then some c
  else none

def charOfDigits? (ds : List Char) : Option Char :=
  (Text.hexValue? ds).bind fun n => if n.isValidChar then some (Char.ofNat n) else none

/-- The character after a backslash. -/
def readEscape : List Char → Option (Char × List Char)
  | 'u' :: cs => if cs.length < 4 then none
    else (charOfDigits? (cs.take 4)).map fun c => (c, cs.drop 4)
  | 'U' :: cs => if cs.length < 8 then none
    else (charOfDigits? (cs.take 8)).map fun c => (c, cs.drop 8)
  | c :: cs => (escape? c).map fun c => (c, cs)
  | [] => none

/-- The content of a string in double quotes, on one line. -/
def readBasic (cs : List Char) : Option (List Char × List Char) :=
  match cs with
  | [] => none
  | '\x22' :: cs => some ([], cs)
  | '\x5c' :: cs => match readEscape cs with
    | some (c, rest) =>
      if rest.length ≤ cs.length then (readBasic rest).map fun (s, rest) => (c :: s, rest) else none
    | none => none
  | c :: cs => if isText c then (readBasic cs).map fun (s, rest) => (c :: s, rest) else none
termination_by cs.length
decreasing_by
  · simp only [List.length_cons]
    omega
  · simp only [List.length_cons]
    omega

/-- The content of a string in single quotes, on one line. -/
def readPlain (cs : List Char) : Option (List Char × List Char) :=
  match cs.span fun c => isText c && c != '\x27' with
  | (s, '\x27' :: rest) => some (s, rest)
  | _ => none

/-- The rest after a backslash at the end of a line, up to the next character that is no blank. -/
def joinLines? (cs : List Char) : Option (List Char) :=
  (newline? (skipSpace cs)).map skipBlankLines

/-- The content of a string in three quotes. Up to two more quotes may stand before the closing
ones. Only double quotes allow escapes. -/
def readLong (quote : Char) (cs : List Char) : Option (List Char × List Char) :=
  match cs with
  | [] => none
  | c :: rest =>
    if c = quote then
      let run := (cs.take 5).takeWhile (· = quote)
      if 3 ≤ run.length then some (run.drop 3, cs.drop run.length)
      else (readLong quote rest).map fun (s, rest) => (c :: s, rest)
    else if c = '\n' then (readLong quote rest).map fun (s, rest) => ('\n' :: s, rest)
    else if c = '\r' then match rest with
      | '\n' :: rest => (readLong quote rest).map fun (s, rest) => ('\n' :: s, rest)
      | _ => none
    else if c = '\x5c' ∧ quote = '\x22' then match joinLines? rest with
      | some joined => if joined.length ≤ rest.length then readLong quote joined else none
      | none => match readEscape rest with
        | some (e, more) =>
          if more.length ≤ rest.length then (readLong quote more).map fun (s, rest) => (e :: s, rest)
          else none
        | none => none
    else if isText c then (readLong quote rest).map fun (s, rest) => (c :: s, rest)
    else none
termination_by cs.length
decreasing_by
  all_goals simp only [List.length_cons]; omega

/-- A string of any kind. A line end right after three quotes does not count. -/
def readString (cs : List Char) : Option (String × List Char) :=
  let long (quote : Char) (cs : List Char) := readLong quote ((newline? cs).getD cs)
  let s? := match cs with
    | '\x22' :: '\x22' :: '\x22' :: cs => long '\x22' cs
    | '\x27' :: '\x27' :: '\x27' :: cs => long '\x27' cs
    | '\x22' :: cs => readBasic cs
    | '\x27' :: cs => readPlain cs
    | _ => none
  s?.map fun (s, rest) => (String.ofList s, rest)

/-! ## Keys -/

def isKeyChar (c : Char) : Bool := c.isAlphanum || c = '_' || c = '-'

/-- A bare or quoted key. -/
def readSimpleKey (cs : List Char) : Option (String × List Char) :=
  let found := match cs with
    | '\x22' :: cs => readBasic cs
    | '\x27' :: cs => readPlain cs
    | cs => some (cs.span isKeyChar)
  match found, cs.head? with
  | some ([], rest), some c => if c = '\x22' || c = '\x27' then some ("", rest) else none
  | some (s, rest), some _ => some (String.ofList s, rest)
  | _, _ => none

/-- The greatest number of parts of a key, and of values inside each other. -/
def maxDepth : Nat := 79

/-- A key: at most `limit` simple keys with points between them. -/
def readKeyParts : (limit : Nat) → List Char → Option (List String × List Char)
  | 0, _ => none
  | limit + 1, cs => do
    let (key, rest) ← readSimpleKey cs
    match skipSpace rest with
    | '.' :: more => do
      let (keys, rest) ← readKeyParts limit (skipSpace more)
      some (key :: keys, rest)
    | _ => some ([key], rest)

def readKey (cs : List Char) : Option (List String × List Char) := readKeyParts maxDepth cs

end DualStore.Toml
