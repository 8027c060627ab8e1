import MiniScheme.Check.Basic
import MiniScheme.Text.Blank

/-! Checks of one source, from its text to the part of the interpreter they are about. Each writes
what it has found before comparing it, so the trace shows the finding that failed. -/

namespace MiniScheme

namespace Check

def showSource (source : String) : Check Unit := line ("* source: " ++ source)

def panicked (e : Expectation) (message : String) : Check Unit := do
  line ("* panic: " ++ message)
  mustEqual "panic" e.panic message

def readAll (ts : List Token) : Check (List Expr) := ofRun (readTokens recursionLimit ts)

def evaluated (es : List Expr) (env : Address) : Check String := do
  printed (← ofRun (evalProgram recursionLimit es env))

def evaluatedWithOutput (e : Expectation) (es : List Expr) : Check String := do
  let env ← ofRun Run.newGlobal
  let result ← evaluated es env
  let output ← ofRun Run.flush
  unless output.isEmpty do line ("* output: " ++ output)
  mayEqual e.output output
  line ("* result: " ++ result)
  return result

def scanning (source : String) (e : Expectation) : Check Unit := do
  showSource source
  let tokens ← ofExcept (tokensText (scan source))
  line ("* tokens: " ++ tokens)
  mustEqual "tokens" e.tokens tokens
  ruleOff

def reading (source : String) (e : Expectation) : Check Unit := do
  showSource source
  let found : Check Unit := do
    let es ← readAll (scan source)
    let text ← ofExcept (Expr.programText es)
    line ("* expression: " ++ text)
    mustEqual "expression" e.expression text
  onPanic found (panicked e)
  ruleOff

def additionOnly : Run Address :=
  Run.alloc fun home => ⟨[(Primitive.addTwo.name, .primitive .addTwo home)], none⟩

def evaluating (source : String) (e : Expectation) : Check Unit := do
  showSource source
  let found : Check Unit := do
    let es ← readAll (scan source)
    let result ← evaluated es (← ofRun additionOnly)
    line ("* result: " ++ result)
    mustEqual "result" e.result result
  onPanic found (panicked e)
  ruleOff

def applying (source : String) (e : Expectation) : Check Unit := do
  showSource source
  let found : Check Unit := do
    let es ← readAll (scan source)
    let result ← evaluatedWithOutput e es
    mustEqual "result" e.result result
  -- what the program has displayed before its panic stays in the buffer
  onPanic found (panicked e)
  ruleOff

/-- From the source without the white space around it to the value, with every intermediate form
that an expectation names. After a panic the output so far is dropped. -/
def interpreting (source : String) (e : Expectation) : Check Unit := do
  let source := Text.trim source
  showSource source
  let found : Check Unit := do
    let ts := scan source
    let tokens ← ofExcept (tokensText ts)
    line ("* tokens: " ++ tokens)
    mayEqual e.tokens tokens
    let es ← readAll ts
    let text ← ofExcept (Expr.programText es)
    line ("* expression: " ++ text)
    mayEqual e.expression text
    let result ← evaluatedWithOutput e es
    mayEqual e.result result
  onPanic found fun message => do
    let _ ← ofRun Run.flush
    panicked e message
  ruleOff

def each (check : String → Expectation → Check Unit) (cases : List (String × Expectation)) :
    Check Unit :=
  cases.forM fun c => check c.1 c.2

end Check

namespace Expectation

def scans (text : String) : Expectation := { tokens := text }

def reads (text : String) : Expectation := { expression := text }

def yields (text : String) : Expectation := { result := text }

def panics (message : String) : Expectation := { panic := message }

def joined (names : List String) : String := ", ".intercalate names

def indented (lines : List String) : String := "\n        ".intercalate lines

def parserError (token fault : String) : String :=
  "parser error at " ++ token ++ " in line 1: " ++ fault

def runtimeError (token fault : String) : String :=
  "runtime error at " ++ token ++ " in line 1: " ++ fault

end Expectation

end MiniScheme
