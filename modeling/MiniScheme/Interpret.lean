import MiniScheme.Expr.Read
import MiniScheme.Eval
import MiniScheme.Token.Scan

/-! Programs from source text to the value of their last expression. Every failure of reading or
evaluating becomes a panic with a message; what was done before it stays done. -/

namespace MiniScheme

def recursionLimit : Nat := 4000

namespace Run

def panicWith {α : Type} (text : Except ArithmeticError String) : Run α :=
  match text with
  | .ok message => panic message
  | .error e => throw (.arithmetic e)

def read {α : Type} (result : Except Failure α) : Run α :=
  match result with
  | .ok a => return a
  | .error (.read e) => panicWith e.text
  | .error failure => throw failure

end Run

def readTokens (limit : Nat) (ts : List Token) : Run (List Expr) :=
  Run.read (readProgram limit ts)

def readExpr (limit : Nat) (ts : List Token) : Run Expr :=
  Run.read ((readNext limit ts).map (·.1) |>.mapError (·.failure))

def evalTop (limit : Nat) (e : Expr) (env : Address) : Run Value :=
  tryCatch (eval limit e env) fun failure =>
    match failure with
    | .eval error => Run.panicWith error.text
    | .tooDeep => Run.panicWith (EvalError.text ⟨none, .tooDeep⟩)
    | failure => throw failure

def evalProgram (limit : Nat) (es : List Expr) (env : Address) : Run Value :=
  es.foldlM (fun _ e => evalTop limit e env) .noValue

/-- Runs a source in an environment, or in a fresh global one. All of it is read before any of
it is evaluated. -/
def interpret (limit : Nat) (source : String) (env : Option Address) : Run Value := do
  let es ← readTokens limit (scan source)
  let env ← match env with
    | some a => pure a
    | none => Run.newGlobal
  evalProgram limit es env

end MiniScheme
