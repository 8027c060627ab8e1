import MiniScheme.Store

/-! Computations on the store that may fail. A failure undoes nothing: what was written and
printed before it stays. -/

namespace MiniScheme

abbrev Run := EStateM Failure Store

namespace Run

def ofExcept {ε α : Type} (wrap : ε → Failure) : Except ε α → Run α
  | .ok a => return a
  | .error e => throw (wrap e)

def print (text : String) : Run Unit :=
  modify fun s => { s with console := s.console.print text }

/-- Ends with a message: raised to the caller, or written out before the program exits. -/
def panic {α : Type} (message : String) : Run α := do
  if (← get).console.raisesPanics then throw (.panic message)
  modify fun s => { s with console.stderr := s.console.stderr ++ message ++ "\n" }
  throw (.exit 1)

def flush : Run String := do
  let text := (← get).console.buffer
  modify fun s => { s with console.buffer := "" }
  return text

def alloc (f : Address → Frame) : Run Address := do
  let a := (← get).fresh
  modify (·.alloc (f a))
  return a

def newGlobal : Run Address := alloc Store.globalFrame

def extend (parent : Address) (params : List String) (args : List Value) : Run Address :=
  alloc fun _ => Frame.ofArguments params args parent

def newClosure (name : String) (params : List String) (body : Expr) (env : Address) :
    Run Value := do
  let id := (← get).nextClosure
  modify fun s => { s with nextClosure := id + 1 }
  return .closure ⟨id, name, params, body, env⟩

def lookup (a : Address) (name : String) : Run Value := do
  match (← get).lookup? a name with
  | some v => return v
  | none => throw (.unbound name)

def define (a : Address) (name : String) (v : Value) : Run Unit := modify (·.define a name v)

def tryAssign (a : Address) (name : String) (v : Value) : Run Bool := modifyGet (·.assign a name v)

def assign (a : Address) (name : String) (v : Value) : Run Unit := do
  unless ← tryAssign a name v do throw (.unbound name)

end Run

end MiniScheme
