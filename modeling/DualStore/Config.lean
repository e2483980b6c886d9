import DualStore.Index.Server
import DualStore.Service.Settings
import DualStore.Toml.Read

/-! The configuration: what it holds, its defaults, and how it is read from a file. Keys that no
section knows do not count, and what is left out has its default. -/

namespace DualStore

/-- Where the index is. -/
inductive IndexKind where
  | http
  | memory
  deriving DecidableEq, Repr

structure Config where
  dataDir : String := "data"
  /-- The data goes with the process. -/
  temporary : Bool := false
  kind : IndexKind := .http
  server : Server := {}
  settings : Settings := {}
  /-- Seconds between two passes over the backlog, as they are set. -/
  intervalSeconds : Nat := 30
  deriving DecidableEq, Repr

namespace Config

/-- Seconds between two passes over the backlog; at least one. -/
def interval (c : Config) : Nat := max c.intervalSeconds 1

/-! ## Values -/

def text? : Toml → Option String
  | .string s => some s
  | _ => none

def flag? : Toml → Option Bool
  | .bool b => some b
  | _ => none

/-- A number that is not negative. -/
def number? : Toml → Option Nat
  | .integer n => if 0 ≤ n then some n.toNat else none
  | _ => none

/-- The members of a table. A date or time is taken for a table without members. -/
def members? : Toml → Option Toml.Table
  | .inline members => some members
  | .table _ members => some members
  | .time => some []
  | _ => none

def isEmpty : Toml → Bool
  | .array [] | .inline [] | .table _ [] => true
  | _ => false

def kindOfName? : String → Option IndexKind
  | "http" => some .http
  | "memory" => some .memory
  | _ => none

/-- The name of a kind, which may also be the only key of a table, above nothing. -/
def kind? (v : Toml) : Option IndexKind :=
  match v, members? v with
  | .string name, _ => kindOfName? name
  | _, some [(name, v)] => if isEmpty v then kindOfName? name else none
  | _, _ => none

/-! ## Sections -/

/-- The fields of a section by their names. A section may also be an array of the first of them. -/
def section? (names : List String) : Toml → Option Toml.Table
  | .array items => some (names.zip items)
  | v => members? v

/-- A field, or its default if it is left out. -/
def field? {α : Type} (t : Toml.Table) (name : String) (default : α) (read : Toml → Option α) :
    Option α :=
  match t.lookup name with
  | none => some default
  | some v => read v

def storage? (c : Config) (v : Toml) : Option Config := do
  let t ← section? ["data_dir", "temporary"] v
  some { c with
    dataDir := ← field? t "data_dir" c.dataDir text?
    temporary := ← field? t "temporary" c.temporary flag? }

/-- The section of the index is always a table. -/
def index? (c : Config) (v : Toml) : Option Config := do
  let t ← members? v
  some { c with
    kind := ← field? t "kind" c.kind kind?
    server := {
      baseUrl := ← field? t "base_url" c.server.baseUrl text?
      timeout := ← field? t "timeout_ms" c.server.timeout number?
      storage := ← field? t "db_type" c.server.storage text? } }

def coordinator? (c : Config) (v : Toml) : Option Config := do
  let t ← section?
    ["index_timeout_ms", "validate_writes", "rebuild_chunk_size", "diff_threshold"] v
  some { c with settings := {
    indexTimeout := ← field? t "index_timeout_ms" c.settings.indexTimeout number?
    validateWrites := ← field? t "validate_writes" c.settings.validateWrites flag?
    chunkSize := ← field? t "rebuild_chunk_size" c.settings.chunkSize number?
    diffThreshold := ← field? t "diff_threshold" c.settings.diffThreshold number? } }

def reconcile? (c : Config) (v : Toml) : Option Config := do
  let t ← section? ["interval_secs"] v
  some { c with intervalSeconds := ← field? t "interval_secs" c.intervalSeconds number? }

/-- The sections by name. -/
def sections : List (String × (Config → Toml → Option Config)) :=
  [("storage", storage?), ("index", index?), ("coordinator", coordinator?),
    ("reconcile", reconcile?)]

def ofTable? (t : Toml.Table) : Option Config :=
  sections.foldlM (fun c (name, read) => field? t name c (read c)) {}

/-- Reads the text of a configuration file. -/
def ofText? (text : String) : Option Config := (Toml.read? text).bind ofTable?

end Config
end DualStore
