/-! Values of configuration files, and how keys and headers build up tables. -/

namespace DualStore

/-- How a table came about, which decides what may still be added to it. -/
inductive TableOrigin where
  /-- By a header of its own. -/
  | header
  /-- On the way to the table of another header. -/
  | implied
  /-- By a key with points. -/
  | dotted
  deriving DecidableEq, Repr

inductive Toml where
  | string (s : String)
  | integer (n : Int)
  | float
  | bool (b : Bool)
  | time
  | array (items : List Toml)
  /-- A table in braces, to which nothing may be added. -/
  | inline (members : List (String × Toml))
  | table (origin : TableOrigin) (members : List (String × Toml))
  /-- The tables of all headers in double brackets with one name. -/
  | tables (items : List (List (String × Toml)))

namespace Toml

abbrev Table := List (String × Toml)

def replace (t : Table) (key : String) (value : Toml) : Table :=
  t.map fun m => if m.1 = key then (key, value) else m

/-- Changes the table at the end of a path. Tables that are missing on the way are made: `dotted`
ones if the path is a key with points, which then may not lead through a table with a header. -/
def alter (isKey : Bool) (f : TableOrigin → Table → Option Table) :
    TableOrigin → List String → Table → Option Table
  | origin, [], t => f origin t
  | _, key :: path, t => match t.lookup key with
    | none => do
      let origin := if isKey then .dotted else .implied
      some (t ++ [(key, .table origin (← alter isKey f origin path []))])
    | some (.table origin inner) =>
      if isKey && origin = .header then none
      else do some (replace t key (.table origin (← alter isKey f origin path inner)))
    | some (.tables items) => match items.getLast? with
      | some last => do
        some (replace t key (.tables (items.dropLast ++ [← alter isKey f .header path last])))
      | none => none
    | some _ => none

/-- Adds a value under a key that is new. A key without points is for a table with a header, one
with points for a table that such keys made. -/
def addKey (path : List String) (key : String) (value : Toml) (origin : TableOrigin) (t : Table) :
    Option Table :=
  if (origin = .dotted) = path.isEmpty then none
  else if (t.lookup key).isSome then none
  else some (t ++ [(key, value)])

/-- Enters values under their keys, which are paths that are not empty. -/
def fill (t : Table) : List (List String × Toml) → Option Table
  | [] => some t
  | (path, value) :: rest => match path.getLast? with
    | some key => do
      fill (← alter true (addKey path.dropLast key value) .header path.dropLast t) rest
    | none => none

/-- A header, in single or double brackets. -/
structure Header where
  path : List String
  isArray : Bool
  deriving DecidableEq, Repr

/-- Enters the table of a header. A header in single brackets is for a new table, or for one that was
only implied. -/
def addSection (root : Table) (h : Header) (entries : List (List String × Toml)) : Option Table :=
  match h.path.getLast? with
  | none => none
  | some key => alter false (fun _ t =>
      match t.lookup key, h.isArray with
      | none, false => do some (t ++ [(key, .table .header (← fill [] entries))])
      | some (.table .implied inner), false => do
        some (replace t key (.table .header (← fill inner entries)))
      | none, true => do some (t ++ [(key, .tables [← fill [] entries])])
      | some (.tables items), true => do
        some (replace t key (.tables (items ++ [← fill [] entries])))
      | _, _ => none) .header h.path.dropLast root

end Toml
end DualStore
