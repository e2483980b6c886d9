import DualStore.Bytes
import DualStore.Term.Basic

/-! The stored form of a term: a CBOR array of the number of its kind and an array of its parts.
Parts are text strings; a missing part is null, and missing parts at the end are left out. -/

namespace DualStore

namespace Record

/-! ## Items -/

/-- The head of an item: its major type, and its argument in as few bytes as will do. -/
def head (major n : Nat) : Bytes :=
  if n < 24 then [UInt8.ofNat (32 * major + n)]
  else if n < 256 then UInt8.ofNat (32 * major + 24) :: Bytes.ofNat 1 n
  else if n < 65536 then UInt8.ofNat (32 * major + 25) :: Bytes.ofNat 2 n
  else if n < 4294967296 then UInt8.ofNat (32 * major + 26) :: Bytes.ofNat 4 n
  else UInt8.ofNat (32 * major + 27) :: Bytes.ofNat 8 n

/-- The argument and the rest of an item of the given major type. -/
def readHead? (major : Nat) : Bytes → Option (Nat × Bytes)
  | [] => none
  | b :: bytes =>
    if b.toNat / 32 ≠ major then none
    else
      let info := b.toNat % 32
      let argument := fun width =>
        (Bytes.split? width bytes).map fun (ds, rest) => (Bytes.toNat ds, rest)
      if info < 24 then some (info, bytes)
      else if info = 24 then argument 1
      else if info = 25 then argument 2
      else if info = 26 then argument 4
      else if info = 27 then argument 8
      else none

def text (s : String) : Bytes := head 3 s.utf8ByteSize ++ s.toUTF8.data.toList

def readText? (bytes : Bytes) : Option (String × Bytes) :=
  (readHead? 3 bytes).bind fun (n, bytes) =>
    (Bytes.split? n bytes).bind fun (utf8, rest) =>
      (String.fromUTF8? ⟨utf8.toArray⟩).map fun s => (s, rest)

def null : UInt8 := 0xF6

/-! ## Terms -/

/-- The parts of a literal, up to the last one that is there. -/
def literal (l : Literal) : Bytes :=
  match l.datatype, l.language with
  | none, none => head 4 1 ++ text l.lexical
  | some datatype, none => head 4 2 ++ text l.lexical ++ text datatype
  | none, some language => head 4 3 ++ text l.lexical ++ null :: text language
  | some datatype, some language => head 4 3 ++ text l.lexical ++ text datatype ++ text language

def ofTerm : Term → Bytes
  | .iri value => head 4 2 ++ head 0 0 ++ head 4 1 ++ text value
  | .blank label => head 4 2 ++ head 0 1 ++ head 4 1 ++ text label
  | .literal l => head 4 2 ++ head 0 2 ++ head 4 1 ++ literal l

/-- A text string or null. -/
def readPart? : Bytes → Option (Option String × Bytes)
  | [] => none
  | b :: bytes =>
    if b = null then some (none, bytes)
    else (readText? (b :: bytes)).map fun (s, rest) => (some s, rest)

/-- The optional parts of a literal of which `n` are written. -/
def readParts? : Nat → Bytes → Option (List (Option String) × Bytes)
  | 0, bytes => some ([], bytes)
  | n + 1, bytes => (readPart? bytes).bind fun (part, rest) =>
    (readParts? n rest).map fun (parts, rest) => (part :: parts, rest)

def readLiteral? (bytes : Bytes) : Option (Literal × Bytes) :=
  (readHead? 4 bytes).bind fun (n, bytes) =>
    if n = 0 then none
    else (readText? bytes).bind fun (lexical, bytes) =>
      (readParts? (n - 1) bytes).map fun (parts, rest) =>
        (⟨lexical, (parts[0]?).join, (parts[1]?).join⟩, rest)

/-- The term of a record. -/
def toTerm? (bytes : Bytes) : Option Term :=
  (readHead? 4 bytes).bind fun (_, bytes) =>
    (readHead? 0 bytes).bind fun (kind, bytes) =>
      (readHead? 4 bytes).bind fun (_, bytes) =>
        match kind with
        | 0 => (readText? bytes).map fun (value, _) => .iri value
        | 1 => (readText? bytes).map fun (label, _) => .blank label
        | 2 => (readLiteral? bytes).map fun (l, _) => .literal l
        | _ => none

end Record
end DualStore
