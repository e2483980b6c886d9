import DualStore.Text.Quoted

/-! Command lines: which commands there are, what they take, and how arguments are read. -/

namespace DualStore

/-- What is wrong with a command line, or that it asks for help. -/
inductive FlagFault where
  | help
  | noCommand
  | unexpectedArgument (text : String)
  | unexpectedFlag (flag : String)
  | noValue (flag : String)
  | repeated (flag : String)
  | required (name : String)
  deriving DecidableEq, Repr

def FlagFault.message : FlagFault → String
  | help => ""
  | noCommand => "subcommand is required"
  | unexpectedArgument text => s!"unexpected argument: {Text.quoted text}"
  | unexpectedFlag flag => s!"unexpected flag: \x60{flag}\x60"
  | noValue flag => s!"expected a value for \x60{flag}\x60"
  | repeated flag => s!"flag specified more than once: \x60{flag}\x60"
  | required name => s!"flag is required: \x60{name}\x60"

/-- A flag of a command. -/
structure Flag where
  long : String
  short : Option String := none
  takesValue : Bool := true
  deriving DecidableEq, Repr

/-- A command with the arguments it needs and the flags it knows. -/
structure CommandForm where
  name : String
  arguments : List String := []
  flags : List Flag := []
  deriving DecidableEq, Repr

namespace CommandForm

private def graphFlag : Flag := { long := "--graph", short := some "-g" }

def all : List CommandForm := [
  { name := "serve" },
  { name := "create-space", arguments := ["name"] },
  { name := "drop-space", arguments := ["name"] },
  { name := "list-spaces" },
  { name := "graphs", arguments := ["space"] },
  { name := "apply", arguments := ["space", "file"],
    flags := [{ long := "--delete", takesValue := false }, graphFlag,
      { long := "--validate", takesValue := false }] },
  { name := "query", arguments := ["space"],
    flags := [{ long := "--subject", short := some "-s" },
      { long := "--predicate", short := some "-p" }, { long := "--object", short := some "-o" },
      graphFlag] },
  { name := "sparql", arguments := ["space", "file"] },
  { name := "check", arguments := ["space"], flags := [graphFlag] },
  { name := "rebuild", arguments := ["space"], flags := [graphFlag] },
  { name := "reconcile", flags := [{ long := "--space", short := some "-s" }] }]

/-- A flag that every command knows. -/
def configFlag : Flag := { long := "--config", short := some "-c" }

def flagUsage (f : Flag) : String :=
  let names := match f.short with
    | some short => s!"{short}, {f.long}"
    | none => f.long
  if f.takesValue then s!" [{names} <value>]" else s!" [{names}]"

/-- One line for each command. -/
def usage : String :=
  s!"usage:{flagUsage configFlag} <command>\n" ++ String.join (all.map fun form =>
    "  " ++ form.name ++ String.join (form.arguments.map fun name => s!" <{name}>") ++
      String.join (form.flags.map flagUsage) ++ "\n")

end CommandForm

/-- What has been read of a command line. -/
structure CommandLine where
  form : Option CommandForm := none
  arguments : List String := []
  /-- Flags by their long names, with their values; empty for flags without one. -/
  flags : List (String × String) := []
  deriving DecidableEq, Repr

namespace CommandLine

def isHelp (arg : String) : Bool := arg = "--help" || arg = "-h"

/-- Arguments that start with a hyphen are flags, a single hyphen included. -/
def isFlag (arg : String) : Bool := arg.toList.head? = some '-'

/-- The flag of a name, as far as the command is known. -/
def flag? (c : CommandLine) (arg : String) : Option Flag :=
  (CommandForm.configFlag :: (c.form.map (·.flags)).getD []).find? fun f =>
    f.long = arg || f.short = some arg

/-- Takes up an argument that is no flag: the command, or what the command needs. -/
def argument (c : CommandLine) (arg : String) : Except FlagFault CommandLine :=
  match c.form with
  | none => match CommandForm.all.find? (·.name = arg) with
    | some form => .ok { c with form := some form }
    | none => .error (.unexpectedArgument arg)
  | some form =>
    if c.arguments.length < form.arguments.length then
      .ok { c with arguments := c.arguments ++ [arg] }
    else .error (.unexpectedArgument arg)

/-- Reads arguments one after the other. After `--` no argument is a flag. -/
def readFrom (c : CommandLine) (plain : Bool) : List String → Except FlagFault CommandLine
  | [] => .ok c
  | arg :: args =>
    if plain || !isFlag arg then do readFrom (← c.argument arg) plain args
    else if arg = "--" then readFrom c true args
    else if isHelp arg then .error .help
    else match c.flag? arg with
      | none => .error (.unexpectedFlag arg)
      | some f =>
        if f.takesValue then match args with
          | [] => .error (.noValue arg)
          | value :: args => readFrom { c with flags := c.flags ++ [(f.long, value)] } plain args
        else readFrom { c with flags := c.flags ++ [(f.long, "")] } plain args

/-- The value of a flag that may be given once. -/
def value? (c : CommandLine) (flag : String) : Except FlagFault (Option String) :=
  match c.flags.filter (·.1 = flag) with
  | [] => .ok none
  | [(_, value)] => .ok (some value)
  | _ => .error (.repeated flag)

/-- A flag without a value is given. -/
def isSet (c : CommandLine) (flag : String) : Except FlagFault Bool :=
  (c.value? flag).map (·.isSome)

/-- No flag of the command is given twice; the first one in the order of its form is reported. -/
def checkFlags (c : CommandLine) : Except FlagFault Unit :=
  ((c.form.map (·.flags)).getD []).forM fun f => (c.value? f.long).map fun _ => ()

/-- The argument of a name. -/
def get (c : CommandLine) (name : String) : Except FlagFault String :=
  let place := ((c.form.map (·.arguments)).getD []).idxOf name
  match c.arguments[place]? with
  | some arg => .ok arg
  | none => .error (.required name)

end CommandLine

/-- The commands of the service. -/
inductive Command where
  | serve
  | createSpace (name : String)
  | dropSpace (name : String)
  | listSpaces
  | graphs (space : String)
  | apply (space file : String) (delete : Bool) (graph : Option String) (validate : Bool)
  | query (space : String) (subject predicate object graph : Option String)
  | sparql (space file : String)
  | check (space : String) (graph : Option String)
  | rebuild (space : String) (graph : Option String)
  | reconcile (space : Option String)
  deriving DecidableEq, Repr

namespace Command

def ofCommandLine (c : CommandLine) : Except FlagFault Command := do
  match (c.form.map (·.name)).getD "" with
  | "serve" => return .serve
  | "create-space" => return .createSpace (← c.get "name")
  | "drop-space" => return .dropSpace (← c.get "name")
  | "list-spaces" => return .listSpaces
  | "graphs" => return .graphs (← c.get "space")
  | "apply" =>
    return .apply (← c.get "space") (← c.get "file") (← c.isSet "--delete")
      (← c.value? "--graph") (← c.isSet "--validate")
  | "query" =>
    return .query (← c.get "space") (← c.value? "--subject") (← c.value? "--predicate")
      (← c.value? "--object") (← c.value? "--graph")
  | "sparql" => return .sparql (← c.get "space") (← c.get "file")
  | "check" => return .check (← c.get "space") (← c.value? "--graph")
  | "rebuild" => return .rebuild (← c.get "space") (← c.value? "--graph")
  | "reconcile" => return .reconcile (← c.value? "--space")
  | _ => throw .noCommand

/-- Reads a command line. Returns the name of the configuration file, if one is given, and the
command. A flag that is given twice is reported before an argument that is missing. -/
def ofArguments (args : List String) : Except FlagFault (Option String × Command) := do
  let c ← CommandLine.readFrom {} false args
  let config ← c.value? "--config"
  c.checkFlags
  return (config, ← ofCommandLine c)

/-- The file that a command reads. -/
def file? : Command → Option String
  | apply _ file .. => some file
  | sparql _ file => some file
  | _ => none

end Command
end DualStore
