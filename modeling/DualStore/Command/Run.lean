import DualStore.Command.Flags
import DualStore.Command.Input
import DualStore.Service.Apply
import DualStore.Service.Reconcile

/-! What the commands do. -/

namespace DualStore

/-- What a command prints. -/
inductive Printed where
  | json (content : Json)
  | line (text : String)

def Printed.text : Printed → String
  | json content => content.pretty 0 ++ "\n"
  | line text => text ++ "\n"

/-- Why a command fails. -/
inductive CommandFault where
  | service (error : Error)
  | unreadable (file reason : String)
  | graphWithoutDocument
  | notAQuery (file : String)
  deriving DecidableEq

def CommandFault.message : CommandFault → String
  | service error => error.message
  | unreadable file reason => s!"unable to read {file}: {reason}"
  | graphWithoutDocument => "--graph only applies to JSON-LD bodies"
  | notAQuery file => s!"{file} holds JSON, not a query"

namespace Command

def spaceJson (info : SpaceInfo) : Json :=
  .ofMembers [("name", .string info.name), ("created_at", .string info.createdAt)]

def optionJson (s : Option String) : Json :=
  match s with
  | some s => .string s
  | none => .null

def reportJson (r : Report) : Json := .ofMembers [
  ("graph", optionJson (r.graph.map Term.text)), ("primary_count", .integer r.primaryCount),
  ("index_count", .integer r.indexCount), ("consistent", .bool r.isConsistent)]

def outcomeJson (o : Outcome) : Json := .ofMembers [
  ("status", .string o.status.name), ("inserted", .integer o.counts.inserted),
  ("deleted", .integer o.counts.deleted),
  ("index_error", optionJson (o.indexFault.map IndexFault.message)),
  ("consistency", .array (o.reports.map reportJson))]

def summaryJson (s : Summary) : Json := .ofMembers [
  ("rebuilt", .integer s.rebuilt), ("retained", .integer s.retained), ("failed", .integer s.failed)]

variable {ι : Type}

/-- A running command: what it printed stays printed when it fails. -/
abbrev CommandM (ι : Type) := ExceptT CommandFault (StateT (Option Printed) (StateM (Service ι)))

def print (p : Printed) : CommandM ι Unit := fun _ s => ((.ok (), some p), s)

def ask {α : Type} (act : ServiceM ι α) : CommandM ι α := fun printed s =>
  let (r, s) := act s
  ((r.mapError .service, printed), s)

def fault {α : Type} (e : CommandFault) : CommandM ι α := throw e

def term (text : String) : CommandM ι Term :=
  match Term.ofArgument text with
  | .ok t => return t
  | .error cause => fault (.service (.validation cause))

def term? : Option String → CommandM ι (Option Term)
  | some text => return some (← term text)
  | none => return none

/-- The content of a file, which is looked up by name. -/
def input (read : String → Except String String) (file : String) : CommandM ι Input :=
  match read file with
  | .ok text => return .ofText text
  | .error reason => fault (.unreadable file reason)

variable [TripleIndex ι]

/-- Runs a command. `read` tells the content of a file or why it cannot be read, and `now` is the
time that new spaces carry. -/
def perform (read : String → Except String String) (now : String) : Command → CommandM ι Unit
  | serve => do
    let _ ← ask (Service.serve [])
  | createSpace name => do print (.json (spaceJson (← ask (Service.createSpace name now))))
  | dropSpace name => ask (Service.dropSpace name)
  | listSpaces => do print (.json (.array ((← ask Service.listSpaces).map spaceJson)))
  | graphs space => do
    print (.json (.array ((← ask (Service.listGraphs space)).map fun t => .string t.text)))
  | apply space file delete graph validate => do
    let input ← input read file
    match input.body? (← term? graph) with
    | none => fault .graphWithoutDocument
    | some body =>
      let outcome ← ask (Service.update space body (if delete then .delete else .insert) validate)
      print (.json (outcomeJson outcome))
      ask (Service.liftExcept outcome.ensureConsistent)
  | query space subject predicate object graph => do
    let pattern := ⟨← term? subject, ← term? predicate, ← term? object, ← term? graph⟩
    print (.json (← ask (Service.queryDocument space pattern)))
  | sparql space file => do
    match ← input read file with
    | .json _ => fault (.notAQuery file)
    | .text text => print (.json (← ask (Service.sparqlQuery space text)).json)
  | check space graph => do
    let report ← ask (Service.check space (← term? graph))
    print (.line report.text)
    unless report.isConsistent do fault (.service (.consistency report))
  | rebuild space graph => do
    let replayed ← ask (Service.rebuild space (← term? graph))
    print (.json (.ofMembers [("replayed", .integer replayed)]))
  | reconcile space => do
    let summary ← match space with
      | some space => ask (Service.reconcileSpace space)
      | none => ask Service.reconcilePending
    print (.json (summaryJson summary))

/-- What a command prints, and how it ends. -/
def run (read : String → Except String String) (now : String) (command : Command) :
    StateM (Service ι) (Option Printed × Except CommandFault Unit) := fun s =>
  let ((result, printed), s) := perform read now command none s
  ((printed, result), s)

end Command
end DualStore
