import DualStore.Solution.Answer
import DualStore.Text.Quoted

/-! Answers with all their parts spelled out, for messages about answers that were not expected. -/

namespace DualStore

private def option (s : Option String) : String :=
  match s with
  | some s => s!"Some({Text.quoted s})"
  | none => "None"

def Term.detail : Term → String
  | iri value => s!"Iri({Text.quoted value})"
  | blank label => s!"BlankNode({Text.quoted label})"
  | literal l => s!"Literal(Literal \x7b lexical: {Text.quoted l.lexical}, " ++
      s!"datatype: {option l.datatype}, language: {option l.language} \x7d)"

def Triple.detail (t : Triple) : String :=
  s!"Triple \x7b subject: {t.subject.detail}, predicate: {t.predicate.detail}, " ++
    s!"object: {t.object.detail} \x7d"

def Solution.detail (sol : Solution) : String :=
  "\x7b" ++ String.intercalate ", " (sol.toList.map fun e => s!"{Text.quoted e.1}: {e.2.detail}") ++
    "\x7d"

def Answer.detail : Answer → String
  | rows sols => "Bindings([" ++ String.intercalate ", " (sols.map Solution.detail) ++ "])"
  | triples ts => "Triples([" ++ String.intercalate ", " (ts.map Triple.detail) ++ "])"
  | boolean b => s!"Boolean({b})"

end DualStore
