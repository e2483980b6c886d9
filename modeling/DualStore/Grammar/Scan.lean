import DualStore.Grammar.Token
import DualStore.Text.Hex
import DualStore.Text.Read

/-! Cutting a text into tokens. Blanks and comments are skipped; of the kinds of token, the first
one that can be read at a place is taken. -/

namespace DualStore

/-- Why no token can be read. -/
inductive ScanProblem where
  | string
  | iri
  | character (c : Char)
  deriving DecidableEq, Repr

/-- A problem and the number of bytes before it. -/
structure ScanFault where
  problem : ScanProblem
  offset : Nat
  deriving DecidableEq, Repr

def ScanFault.message (f : ScanFault) : String :=
  let problem := match f.problem with
    | .string => "unterminated or malformed string"
    | .iri => "unterminated or malformed IRI"
    | .character c => s!"unexpected character {Text.quotedChar c}"
  s!"{problem} at offset {f.offset}"

namespace Token

/-! ## Characters -/

def isIriChar (c : Char) : Bool := !Text.isBlank c && c != '>' && c != '\x5c'

def isNameChar (c : Char) : Bool := Text.isLetterOrNumber c || c == '_' || c == '-' || c == '\xb7'

def isLocalChar (c : Char) : Bool := isNameChar c || c == ':' || c == '%'

/-- Characters that may follow a backslash in a local name. -/
def isLocalEscape (c : Char) : Bool := "_~.-!$&'()*+,;=/?#@%".toList.contains c

def isLanguageChar (c : Char) : Bool := c.isAlphanum || c == '-'

def isPunct (c : Char) : Bool := "\x7b\x7d()[].;,*=!|/^+?-".toList.contains c

/-! ## Escapes -/

/-- A character by its number, in as many digits as the letter before them says. -/
def readNumbered : (cs : List Char) → Option (Read Char cs)
  | [] => none
  | c :: cs =>
    let width := if c = 'u' then 4 else if c = 'U' then 8 else 0
    let digits := cs.take width
    if width = 0 ∨ digits.length ≠ width then none
    else (Text.hexValue? digits).bind fun n =>
      if n.isValidChar then
        some (.past (Char.ofNat n) c (.drop width cs))
      else none

/-- The character that a letter stands for after a backslash. -/
def escaped? (c : Char) : Option Char :=
  if c = 't' then some '\t'
  else if c = 'b' then some '\x08'
  else if c = 'n' then some '\n'
  else if c = 'r' then some '\r'
  else if c = 'f' then some '\x0c'
  else if c = '\x22' ∨ c = '\x27' ∨ c = '\x5c' then some c
  else none

/-- What follows a backslash in a string. -/
def readEscape : (cs : List Char) → Option (Read Char cs)
  | [] => none
  | c :: cs =>
    if c = 'u' ∨ c = 'U' then readNumbered (c :: cs)
    else (escaped? c).map fun x => (Read.head c cs).map fun _ => x

/-! ## IRIs and strings -/

/-- The characters of an IRI reference up to the closing bracket. -/
def readIriBody (cs : List Char) : Option (Read (List Char) cs) :=
  match cs with
  | [] => none
  | c :: cs =>
    if c = '>' then some ((Read.head c cs).map fun _ => [])
    else if c = '\x5c' then
      match readNumbered cs with
      | none => none
      | some r => (readIriBody r.rest).map fun s =>
          ((r.andThen s).map (r.value :: ·)).widen (Nat.le_succ _)
    else if isIriChar c then
      (readIriBody cs).map fun s => (s.map (c :: ·)).widen (Nat.le_succ _)
    else none
termination_by cs.length
decreasing_by
  · have := r.shorter
    simp only [List.length_cons]
    omega
  · simp only [List.length_cons]
    omega

/-- The content of a string on one line, up to the closing quote. -/
def readShortBody (quote : Char) (cs : List Char) : Option (Read (List Char) cs) :=
  match cs with
  | [] => none
  | c :: cs =>
    if c = quote then some ((Read.head c cs).map fun _ => [])
    else if c = '\x5c' then
      match readEscape cs with
      | none => none
      | some r => (readShortBody quote r.rest).map fun s =>
          ((r.andThen s).map (r.value :: ·)).widen (Nat.le_succ _)
    else if c = '\n' ∨ c = '\r' then none
    else (readShortBody quote cs).map fun s => (s.map (c :: ·)).widen (Nat.le_succ _)
termination_by cs.length
decreasing_by
  · have := r.shorter
    simp only [List.length_cons]
    omega
  · simp only [List.length_cons]
    omega

/-- The content of a long string, up to the closing quotes. Quotes that stand right before these
belong to the content. -/
def readLongBody (quote : Char) (cs : List Char) : Option (Read (List Char) cs) :=
  match cs with
  | [] => none
  | c :: cs =>
    if c = '\x5c' then
      match readEscape cs with
      | none => none
      | some r => (readLongBody quote r.rest).map fun s =>
          ((r.andThen s).map (r.value :: ·)).widen (Nat.le_succ _)
    else if c = quote ∧ [quote, quote].isPrefixOf cs ∧ cs[2]? ≠ some quote then
      some ⟨[], cs.drop 2, by rw [List.length_cons, List.length_drop]; omega⟩
    else (readLongBody quote cs).map fun s => (s.map (c :: ·)).widen (Nat.le_succ _)
termination_by cs.length
decreasing_by
  · have := r.shorter
    simp only [List.length_cons]
    omega
  · simp only [List.length_cons]
    omega

/-! ## Numbers -/

/-- Splits off a sign. -/
def splitSign : List Char → List Char × List Char
  | [] => ([], [])
  | c :: cs => if c = '+' ∨ c = '-' then ([c], cs) else ([], c :: cs)

def startsWithExponent : List Char → Bool
  | [] => false
  | c :: _ => c == 'e' || c == 'E'

/-- A letter, a sign and digits. -/
def splitExponent? : List Char → Option (List Char × List Char)
  | [] => none
  | c :: cs =>
    if c = 'e' ∨ c = 'E' then
      let (sign, cs) := splitSign cs
      let (digits, rest) := cs.span Char.isDigit
      if digits.isEmpty then none else some (c :: sign ++ digits, rest)
    else none

/-- Digits with a point, which may end them or start them, or digits alone. -/
def splitMantissa? (cs : List Char) : Option (List Char × List Char) :=
  let (whole, rest) := cs.span Char.isDigit
  match rest with
  | '.' :: cs =>
    let (part, rest) := cs.span Char.isDigit
    if whole.isEmpty && part.isEmpty then none else some (whole ++ '.' :: part, rest)
  | rest => if whole.isEmpty then none else some (whole, rest)

/-- Digits after a point, before which there may be more. -/
def splitDecimal? (cs : List Char) : Option (List Char × List Char) :=
  let (whole, rest) := cs.span Char.isDigit
  match rest with
  | '.' :: cs =>
    let (part, rest) := cs.span Char.isDigit
    if part.isEmpty then none else some (whole ++ '.' :: part, rest)
  | _ => none

def splitDouble? (cs : List Char) : Option (List Char × List Char) :=
  (splitMantissa? cs).bind fun (mantissa, rest) =>
    (splitExponent? rest).map fun (exponent, rest) => (mantissa ++ exponent, rest)

/-- A point and a digit after it. -/
def startsWithPart : List Char → Bool
  | '.' :: d :: _ => d.isDigit
  | _ => false

def splitInteger? (cs : List Char) : Option (List Char × List Char) :=
  let (digits, rest) := cs.span Char.isDigit
  if digits.isEmpty || startsWithPart rest then none else some (digits, rest)

/-- A number; a decimal or an integer is not followed by a dangling exponent. -/
def splitNumber? (cs : List Char) : Option (Token × List Char) :=
  let (sign, cs) := splitSign cs
  let lexeme := fun digits => String.ofList (sign ++ digits)
  match splitDouble? cs with
  | some (digits, rest) => some (double (lexeme digits), rest)
  | none => match splitDecimal? cs with
    | some (digits, rest) =>
      if startsWithExponent rest then none else some (decimal (lexeme digits), rest)
    | none => match splitInteger? cs with
      | some (digits, rest) =>
        if startsWithExponent rest then none else some (integer (lexeme digits), rest)
      | none => none

/-! ## Names -/

/-- Runs of name characters with points between them. -/
def readDotted (cs : List Char) : Option (Read (List Char) cs) :=
  match readRun isNameChar cs with
  | none => none
  | some r => match readRun (· == '.') r.rest with
    | none => some r
    | some dots => match readDotted dots.rest with
      | none => some r
      | some s => some ((r.andThen (dots.andThen s)).map fun _ => r.value ++ dots.value ++ s.value)
termination_by cs.length
decreasing_by
  have := r.shorter
  have := dots.shorter
  omega

/-- After points, a local name goes on with another character of its own. -/
def goesOn (cs : List Char) : Bool :=
  match cs.dropWhile (· == '.') with
  | [] => false
  | c :: _ => isLocalChar c || c == '\x5c'

/-- A local name, which may be empty, and the rest. -/
def splitLocal : List Char → List Char × List Char
  | [] => ([], [])
  | [c] => if isLocalChar c then ([c], []) else ([], [c])
  | c :: d :: cs =>
    if c = '\x5c' then
      if isLocalEscape d then
        let (more, rest) := splitLocal cs
        (d :: more, rest)
      else ([], c :: d :: cs)
    else if isLocalChar c || (c == '.' && goesOn (d :: cs)) then
      let (more, rest) := splitLocal (d :: cs)
      (c :: more, rest)
    else ([], c :: d :: cs)

/-! ## Tokens -/

def readMark : (cs : List Char) → Option (Read Token cs)
  | '^' :: '^' :: cs => some ⟨datatypeMark, cs, by simp only [List.length_cons]; omega⟩
  | _ => none

def readIri : (cs : List Char) → Option (Read Token cs)
  | '<' :: cs => (readIriBody cs).map fun r =>
      (r.map fun s => iri (String.ofList s)).widen (Nat.le_succ _)
  | _ => none

def readVar : (cs : List Char) → Option (Read Token cs)
  | [] => none
  | c :: cs =>
    if c = '?' ∨ c = '$' then
      (readRun isNameChar cs).map fun r =>
        (r.map fun s => var (String.ofList s)).widen (Nat.le_succ _)
    else none

def readBlank : (cs : List Char) → Option (Read Token cs)
  | '_' :: ':' :: cs => (readDotted cs).map fun r =>
      (r.map fun s => blank (String.ofList s)).widen (by simp only [List.length_cons]; omega)
  | _ => none

def readLanguage : (cs : List Char) → Option (Read Token cs)
  | '@' :: cs => (readRun isLanguageChar cs).map fun r =>
      (r.map fun s => language (String.ofList s)).widen (Nat.le_succ _)
  | _ => none

/-- A text that opens with three quotes is a long string. -/
def readString : (cs : List Char) → Option (Read Token cs)
  | [] => none
  | c :: cs =>
    let token := fun s => string (String.ofList s)
    if c = '\x22' ∨ c = '\x27' then
      if [c, c].isPrefixOf cs then
        (readLongBody c (cs.drop 2)).map fun r =>
          (r.map token).widen (by rw [List.length_cons, List.length_drop]; omega)
      else (readShortBody c cs).map fun r => (r.map token).widen (Nat.le_succ _)
    else none

def readNumber (cs : List Char) : Option (Read Token cs) :=
  (splitNumber? cs).bind fun (token, rest) => Read.of? cs token rest

/-- The local name after a colon makes a prefixed name. -/
def readLocal (ns : List Char) (cs : List Char) : Option (Read Token cs) :=
  match cs with
  | ':' :: cs =>
    let (localName, rest) := splitLocal cs
    Read.of? (':' :: cs) (name (String.ofList ns) (String.ofList localName)) rest
  | _ => none

/-- A word, or a name with a prefix. Both start with a letter; the prefix may be empty. -/
def readWord : (cs : List Char) → Option (Read Token cs)
  | [] => none
  | c :: cs =>
    if Text.isLetter c then
      (readDotted (c :: cs)).map fun r => match readLocal r.value r.rest with
        | some s => r.andThen s
        | none => r.map fun s => word (String.ofList s)
    else readLocal [] (c :: cs)

def readPunct : (cs : List Char) → Option (Read Token cs)
  | [] => none
  | c :: cs => if isPunct c then some ((Read.head c cs).map punct) else none

/-- The token at the start of a text. -/
def read (cs : List Char) : Option (Read Token cs) :=
  readMark cs <|> readIri cs <|> readVar cs <|> readBlank cs <|> readLanguage cs <|>
    readString cs <|> readNumber cs <|> readWord cs <|> readPunct cs

/-! ## Texts -/

/-- Skips blanks and comments, which go from `#` to the end of the line. -/
def skipTrivia (inComment : Bool) : List Char → List Char
  | [] => []
  | c :: cs =>
    if inComment then skipTrivia (c != '\n') cs
    else if c = '#' then skipTrivia true cs
    else if Text.isBlank c then skipTrivia false cs
    else c :: cs

theorem length_skipTrivia_le (inComment : Bool) (cs : List Char) :
    (skipTrivia inComment cs).length ≤ cs.length := by
  induction cs generalizing inComment with
  | nil => simp [skipTrivia]
  | cons c cs ih =>
    rw [skipTrivia]
    have h := fun b => Nat.le_succ_of_le (ih b)
    split
    · exact h _
    split
    · exact h _
    split
    · exact h _
    · exact Nat.le_refl _

/-- Number of bytes in UTF-8. -/
def byteCount : List Char → Nat
  | [] => 0
  | c :: cs => c.utf8Size + byteCount cs

def problemAt (c : Char) : ScanProblem :=
  if c = '\x22' ∨ c = '\x27' then .string else if c = '<' then .iri else .character c

/-- The next token of a text of `total` bytes that ends in `cs`; `none` if there is no more. -/
def next? (total : Nat) (cs : List Char) : Except ScanFault (Option (Read Token cs)) :=
  match h : skipTrivia false cs with
  | [] => .ok none
  | c :: rest => match read (c :: rest) with
    | some r => .ok (some (r.widen (h ▸ length_skipTrivia_le false cs)))
    | none => .error ⟨problemAt c, total - byteCount (c :: rest)⟩

def scan (total : Nat) (cs : List Char) : Except ScanFault (List Token) :=
  match next? total cs with
  | .error fault => .error fault
  | .ok none => .ok []
  | .ok (some r) => (scan total r.rest).map (r.value :: ·)
termination_by cs.length
decreasing_by exact r.shorter

/-- The tokens of a text. -/
def ofText (text : String) : Except ScanFault (List Token) := scan text.utf8ByteSize text.toList

end Token
end DualStore
