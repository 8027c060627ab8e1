import MiniScheme.Check.Suite

/-! The program: runs the checks of the parts named on the command line, or of all parts, and
prints their traces. -/

namespace MiniScheme.Check.Part

def trace (p : Part) : String × Bool :=
  match p.run {} with
  | .ok _ s => (s.console.stdout, true)
  | .error _ s => (s.console.stdout, false)

def chosen (names : List String) : List Part :=
  if names.isEmpty then all else names.filterMap ofName?

end MiniScheme.Check.Part

def main (args : List String) : IO UInt32 := do
  let mut status : UInt32 := 0
  for p in MiniScheme.Check.Part.chosen args do
    let (trace, passed) := p.trace
    IO.print trace
    unless passed do
      IO.eprintln (p.name ++ ": a check has failed")
      status := 1
  return status
