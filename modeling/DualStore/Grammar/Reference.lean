import DualStore.Term.Check

/-! Resolving IRI references against a base. Segments `.` and `..` stay as they are. -/

namespace DualStore.Reference

/-- A reference that is an IRI of its own. -/
def hasScheme (reference : List Char) : Bool :=
  match Text.splitAt? (· = ':') reference with
  | some (scheme, _) => Term.isScheme scheme
  | none => false

/-- A path up to its last slash. -/
def directory (path : List Char) : List Char :=
  let d := (path.reverse.dropWhile (· != '/')).reverse
  if d.isEmpty then ['/'] else d

/-- The authority with the slashes before it, if there is one, and what follows it. -/
def splitAuthority (rest : List Char) : List Char × List Char :=
  match rest with
  | '/' :: '/' :: after =>
    let (authority, path) := after.span fun c => c != '/' && c != '?' && c != '#'
    ('/' :: '/' :: authority, path)
  | rest => ([], rest)

/-- The IRI that a reference stands for next to a base. -/
def resolve (base reference : List Char) : List Char :=
  if hasScheme reference then reference
  else
    let document := base.takeWhile (· != '#')
    match reference with
    | [] => document
    | '#' :: _ => document ++ reference
    | _ => match Text.splitAt? (· = ':') base with
      | none => reference
      | some (scheme, rest) =>
        let (authority, path) := splitAuthority rest
        match reference with
        | '/' :: '/' :: _ => scheme ++ ':' :: reference
        | '/' :: _ => scheme ++ ':' :: authority ++ reference
        | _ => scheme ++ ':' :: authority
          ++ directory (path.takeWhile fun c => c != '?' && c != '#') ++ reference

end DualStore.Reference
