import MiniScheme.Check.Trace

/-! Checks of reading: which expressions a source has, and where reading stops. -/

namespace MiniScheme.Check.Expressions

open Expectation

def wellFormedCases : List (String × Expectation) :=
  [
    ("(x)", .reads "(x)"),
    ("(+ x (+ 2 5))", .reads "(+ x (+ 2 5))"),
    ("(set x #t \"s\" 1.5)", .reads "(set x #t \"s\" 1.500)"),
    ("  ( define   (f)\n  ())", .reads "(define (f) ())"),
    ("(define a 1) (set! a 2)", .reads "(define a 1) (set! a 2)")
  ]

def malformedCases : List (String × Expectation) :=
  [
    ("", .panics (parserError "EOF" "unexpected end-of-stream token")),
    ("(display\n\"abc\"",
      .panics (parserError "LEFT_PAREN" "unbalanced parenthesis, missing right parenthesis")),
    ("(+ 1.2.3 4)", .panics (parserError "NUMBER:1.2.3" "malformed number")),
    (")", .reads "#<error unexpected )>"),
    ("(+ 1 2))", .reads "(+ 1 2) #<error unexpected )>")
  ]

def cursor : Check Unit := do
  let ts := scan "(+ 1 (* 2 3))"
  holds (ts.length == 10)
  match readNext recursionLimit ts with
  | .ok (.list _ [.atom _ (.symbol name), .atom _ (.number _ n), .list ..], rest) => do
    holds (name == "+" && n == .double (.ofInt 1))
    holds (rest == [⟨0, .endOfInput⟩])
  | _ => throw .unmet
  match readNext recursionLimit [] with
  | .error stop => holds (stop.failure == .read ⟨⟨0, .endOfInput⟩, .noToken⟩)
  | .ok _ => throw .unmet

def all : List (String × Check Unit) :=
  [("read", each reading wellFormedCases), ("read error", each reading malformedCases),
    ("cursor", cursor)]

end MiniScheme.Check.Expressions
