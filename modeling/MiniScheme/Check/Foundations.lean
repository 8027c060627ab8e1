import MiniScheme.Check.Basic
import MiniScheme.Lineage

/-! Checks of what needs no source: texts of literals, classes, the console, environments, and
printing and comparing values. -/

namespace MiniScheme.Check

def one : Value := .number (.int 1)

def two : Value := .number (.int 2)

namespace Literals

def texts : Check Unit := do
  holds ((Double.ofInt 4).text == "4")
  holds ((Double.ofInt (-3)).text == "-3")
  holds ((Double.ofQuotient false unitsPerOne 2).text == "0.500")
  holds (Number.text (.int 3) matches .ok "3")
  holds ((Double.infinite false).text == "inf")
  holds (booleanText true == "#t")
  holds (booleanText false == "#f")

def classes : List ClassDef := [⟨"A", none⟩, ⟨"B", some "A"⟩, ⟨"C", none⟩]

def ancestors : Check Unit := do
  holds (nearestAncestor classes ["A"] (some "B") == some "A")
  holds (nearestAncestor classes ["A", "B"] (some "A") == some "A")
  holds (nearestAncestor classes ["A"] (some "C") == none)

def console : Check Unit := do
  panics (Run.panic (α := Unit) "boom") "boom"
  ofRun (Run.print "a")
  ofRun (Run.print "\n")
  holds ((← ofRun Run.flush) == "a\n")
  holds ((← ofRun Run.flush) == "")

def all : List (String × Check Unit) :=
  [("format", texts), ("find type", ancestors), ("panic and print", console)]

end Literals

namespace Environments

def empty : Run Address := Run.alloc fun _ => ⟨[], none⟩

def finds (env : Address) (name : String) (v : Value) : Check Unit := do
  compares (← ofRun (Run.lookup env name)) v true

def binds (env : Address) (name : String) : Check Bool := do
  return ((← get).local? env name).isSome

def lookups : Check Unit := do
  let outer ← ofRun empty
  ofRun (Run.define outer "x" one)
  let inner ← ofRun (Run.extend outer ["y"] [two])
  finds inner "x" one
  finds inner "y" two
  fails (Run.lookup outer "y") (· == .unbound "y")
  ofRun (Run.define inner "x" (.list []))
  finds inner "x" (.list [])
  finds outer "x" one

def assignments : Check Unit := do
  let outer ← ofRun empty
  ofRun (Run.define outer "x" one)
  let inner ← ofRun (Run.extend outer [] [])
  ofRun (Run.assign inner "x" two)
  holds !(← binds inner "x")
  finds outer "x" two
  fails (Run.assign inner "z" one) (· == .unbound "z")
  holds !(← binds inner "z")
  holds !(← binds outer "z")

def sharing : Check Unit := do
  let outer ← ofRun empty
  let inner ← ofRun (Run.extend outer [] [])
  ofRun (Run.define outer "late" one)
  finds inner "late" one

def all : List (String × Check Unit) :=
  [("lookup", lookups), ("set", assignments), ("sharing", sharing)]

end Environments

namespace Values

def texts : Check Unit := do
  prints (.list [one, .string "a", .symbol "b", .list [.boolean false], .list []])
    "(1 a b (#f) ())"
  prints .noValue "#<undef>"
  prints (.number (.double (.ofQuotient false (5 * unitsPerOne) 2))) "2.500"

def equality : Check Unit := do
  compares one one true
  compares one (.string "1") false
  compares (.list [one, .list []]) (.list [one, .list []]) true
  compares (.list [one]) (.list [one, two]) false

def truth : Check Unit := do
  holds (Value.isTruthy (.number (.int 0)))
  holds (Value.isTruthy (.list []))
  holds (Value.isTruthy (.string ""))
  holds (Value.isTruthy .noValue)
  holds (Value.isTruthy (.boolean true))
  holds !(Value.isTruthy (.boolean false))

def all : List (String × Check Unit) :=
  [("stringify", texts), ("equal", equality), ("truthy", truth)]

end Values

end MiniScheme.Check
