import MiniScheme.Check.Evaluation
import MiniScheme.Check.Expressions
import MiniScheme.Check.Foundations
import MiniScheme.Check.Primitives
import MiniScheme.Check.Programs
import MiniScheme.Check.Tokens

/-! All checks by part and name. -/

namespace MiniScheme.Check

/-- The checks of one part of the interpreter, in the order in which they run. -/
structure Part where
  name : String
  checks : List (String × Check Unit)

namespace Part

def all : List Part :=
  [⟨"literals", Literals.all⟩, ⟨"tokens", Tokens.all⟩, ⟨"expressions", Expressions.all⟩,
    ⟨"environments", Environments.all⟩, ⟨"values", Values.all⟩, ⟨"evaluation", Evaluation.all⟩,
    ⟨"primitives", Primitives.all⟩, ⟨"programs", Programs.all⟩]

def ofName? (name : String) : Option Part := all.find? (·.name == name)

def check? (p : Part) (name : String) : Option (Check Unit) := p.checks.lookup name

def run (p : Part) : Check Unit := p.checks.forM (·.2)

end Part

end MiniScheme.Check
