import DualStore.Quad.Basic

/-! Reports on how far a space and its index agree. -/

namespace DualStore

structure Difference where
  missing : List Quad
  extra : List Quad
  deriving DecidableEq, Repr

/-- The numbers of quads on both sides, for a space or one of its graphs. -/
structure Report where
  space : String
  graph : Option Term
  primaryCount : Nat
  indexCount : Nat
  /-- The quads that only one side holds, if they were compared. -/
  difference : Option Difference
  deriving DecidableEq, Repr

def Difference.isEmpty (d : Difference) : Bool := d.missing.isEmpty && d.extra.isEmpty

namespace Report

def isConsistent (r : Report) : Bool :=
  r.primaryCount = r.indexCount && r.difference.all (·.isEmpty)

def text (r : Report) : String :=
  let graph := match r.graph with
    | some t => s!" graph {t}"
    | none => ""
  let difference := match r.difference with
    | some d => s!" ({d.missing.length} missing from index, {d.extra.length} extra)"
    | none => ""
  s!"space {r.space}{graph} holds {r.primaryCount} quads, index holds {r.indexCount}{difference}"

end Report
end DualStore
