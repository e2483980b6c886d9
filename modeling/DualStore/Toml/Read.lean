import DualStore.Toml.Number
import DualStore.Toml.Text

/-! Reading configuration files. -/

namespace DualStore.Toml

/-! ## Values -/

/-- The elements of an array, with commas between them; a comma may also follow the last one. -/
def readItems (value : List Char → Option (Toml × List Char)) (cs : List Char) :
    Option (List Toml × List Char) :=
  match skipLines false cs with
  | ']' :: rest => some ([], rest)
  | start => match value start with
    | none => none
    | some (v, rest) => match skipLines false rest with
      | ']' :: rest => some ([v], rest)
      | ',' :: rest =>
        if rest.length < cs.length then
          (readItems value rest).map fun (vs, rest) => (v :: vs, rest)
        else none
      | _ => none
termination_by cs.length

/-- A key and its value, which stand on one line. -/
def readEntry (value : List Char → Option (Toml × List Char)) (cs : List Char) :
    Option ((List String × Toml) × List Char) := do
  let (key, rest) ← readKey cs
  match skipSpace rest with
  | '=' :: rest => do
    let (v, rest) ← value (skipSpace rest)
    some ((key, v), rest)
  | _ => none

/-- The members of a table in braces, with commas between them. -/
def readMembers (value : List Char → Option (Toml × List Char)) (cs : List Char) :
    Option (List (List String × Toml) × List Char) :=
  match readEntry value (skipSpace cs) with
  | none => none
  | some (m, rest) => match skipSpace rest with
    | '\x7d' :: rest => some ([m], rest)
    | ',' :: rest =>
      if rest.length < cs.length then
        (readMembers value rest).map fun (ms, rest) => (m :: ms, rest)
      else none
    | _ => none
termination_by cs.length

/-- A value in which at most `depth` others are nested. -/
def readValue : (depth : Nat) → List Char → Option (Toml × List Char)
  | 0, '[' :: _ => none
  | 0, '\x7b' :: _ => none
  | depth + 1, '[' :: cs => (readItems (readValue depth) cs).map fun (vs, rest) => (.array vs, rest)
  | depth + 1, '\x7b' :: cs => match skipSpace cs with
    | '\x7d' :: rest => some (.inline [], rest)
    | _ => do
      let (ms, rest) ← readMembers (readValue depth) cs
      some (.inline (← fill [] ms), rest)
  | _, cs => match cs.head? with
    | some '\x22' | some '\x27' => (readString cs).map fun (s, rest) => (.string s, rest)
    | _ => readWord cs

/-! ## Documents -/

/-- A header, without the rest of its line. -/
def readHeader (cs : List Char) : Option (Header × List Char) :=
  match cs with
  | '[' :: '[' :: cs => do
    let (path, rest) ← readKey (skipSpace cs)
    match skipSpace rest with
    | ']' :: ']' :: rest => some (⟨path, true⟩, rest)
    | _ => none
  | '[' :: cs => do
    let (path, rest) ← readKey (skipSpace cs)
    match skipSpace rest with
    | ']' :: rest => some (⟨path, false⟩, rest)
    | _ => none
  | _ => none

/-- Lines up to the end: `entries` are those of the table at hand, in reverse, whose header is
`header`. -/
def readLines (root : Table) (header : Option Header) (entries : List (List String × Toml))
    (cs : List Char) : Option Table :=
  let close : Option Table := match header with
    | none => fill root entries.reverse
    | some h => addSection root h entries.reverse
  match skipLines false cs with
  | [] => close
  | '[' :: rest => match close, readHeader ('[' :: rest) with
    | some root, some (h, rest) => match endOfLine? rest with
      | some rest => if rest.length < cs.length then readLines root (some h) [] rest else none
      | none => none
    | _, _ => none
  | start => match readEntry (readValue maxDepth) start with
    | some (entry, rest) => match endOfLine? rest with
      | some rest =>
        if rest.length < cs.length then readLines root header (entry :: entries) rest else none
      | none => none
    | none => none
termination_by cs.length

/-- The table of a file. A mark of byte order at its start does not count. -/
def read? (text : String) : Option Table :=
  readLines [] none [] (match text.toList with
    | '\ufeff' :: cs => cs
    | cs => cs)

end DualStore.Toml
