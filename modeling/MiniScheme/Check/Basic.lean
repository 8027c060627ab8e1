import MiniScheme.Interpret

/-! Checks of the interpreter that print a trace of what they do. A check fails at the first
expectation that is not met; what it has printed by then stays. -/

namespace MiniScheme

inductive CheckFailure
  | run (failure : Failure)
  | unmet
  | noExpectation (key : String)
deriving DecidableEq

abbrev Check := EStateM CheckFailure Store

/-- What is expected of a source; the kinds of checks look at different ones of these. -/
structure Expectation where
  tokens : Option String := none
  expression : Option String := none
  output : Option String := none
  result : Option String := none
  panic : Option String := none

namespace Check

def ofRun {α : Type} (run : Run α) : Check α := fun s =>
  match run s with
  | .ok a s => .ok a s
  | .error failure s => .error (.run failure) s

def ofExcept {α : Type} (result : Except Failure α) : Check α := ofRun (Run.ofExcept id result)

def holds (b : Bool) : Check Unit := if b then return () else throw .unmet

def line (text : String) : Check Unit :=
  modify fun s => { s with console.stdout := s.console.stdout ++ text ++ "\n" }

def ruleOff : Check Unit := line "----------"

def mustEqual (key : String) (expected : Option String) (found : String) : Check Unit :=
  match expected with
  | some text => holds (found == text)
  | none => throw (.noExpectation key)

def mayEqual (expected : Option String) (found : String) : Check Unit :=
  match expected with
  | some text => holds (found == text)
  | none => return ()

def onPanic (check : Check Unit) (handle : String → Check Unit) : Check Unit :=
  tryCatch check fun failure =>
    match failure with
    | .run (.panic message) => handle message
    | failure => throw failure

def fails {α : Type} (run : Run α) (expected : Failure → Bool) : Check Unit := do
  let failed ← tryCatch (do let _ ← ofRun run; return false) fun failure =>
    match failure with
    | .run failure => return expected failure
    | failure => throw failure
  holds failed

def panics {α : Type} (run : Run α) (message : String) : Check Unit :=
  fails run (· == .panic message)

def printed (v : Value) : Check String := ofExcept (v.text recursionLimit)

def prints (v : Value) (text : String) : Check Unit := do
  holds ((← printed v) == text)

def compares (x y : Value) (same : Bool) : Check Unit := do
  holds ((← ofExcept (x.equal recursionLimit y)) == same)

def tokensText (ts : List Token) : Except Failure String := do
  let names ← ts.mapM fun t => t.shape.describe.mapError .arithmetic
  return ", ".intercalate names

end Check

end MiniScheme
