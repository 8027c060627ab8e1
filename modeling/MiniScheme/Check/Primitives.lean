import MiniScheme.Check.Trace

/-! Checks of the primitives in a global environment. -/

namespace MiniScheme.Check.Primitives

open Expectation

def arithmeticCases : List (String × Expectation) :=
  [
    ("(+)", .yields "0"),
    ("(+ 2 2 3 5)", .yields "12"),
    ("(- 8 2 3 2)", .yields "1"),
    ("(- 5)", .yields "5"),
    ("(*)", .yields "1"),
    ("(* 8 2 2)", .yields "32"),
    ("(/ 8 2 2)", .yields "2"),
    ("(/ 1 4)", .yields "0.250"),
    ("(/ 1 0)", .panics (runtimeError "LEFT_PAREN" "division by zero")),
    ("(-)", .panics (runtimeError "LEFT_PAREN" "- expect at least 1 arguments, only get 0")),
    ("(+ 1 \"a\")", .panics (runtimeError "LEFT_PAREN" "+ requires numbers, now StringVal"))
  ]

def compareCases : List (String × Expectation) :=
  [
    ("(< 1 2)", .yields "#t"),
    ("(> 1 2)", .yields "#f"),
    ("(= 2 2)", .yields "#t"),
    ("(< 1 2 0)", .yields "#t"),
    ("(equal? (list 1 \"a\") (quote (1 \"a\")))", .yields "#t"),
    ("(< 1)", .panics (runtimeError "LEFT_PAREN" "< expect at least 2 arguments, only get 1")),
    ("(= \"a\" \"a\")", .panics (runtimeError "LEFT_PAREN" "= requires numbers, now StringVal")),
    ("(equal? \"a\" \"a\")", .yields "#t")
  ]

def sequenceCases : List (String × Expectation) :=
  [
    ("(list 1 2 3)", .yields "(1 2 3)"),
    ("(list)", .yields "()"),
    ("(car (list 1 2 3))", .yields "1"),
    ("(cdr (list 1 2 3))", .yields "(2 3)"),
    ("(cons 1 (list 2 3))", .yields "(1 2 3)"),
    ("(cons (list 1) (list))", .yields "((1))"),
    ("(len (list 1 2 3))", .yields "3"),
    ("(null? (list))", .yields "#t"),
    ("(null? (quote (1)))", .yields "#f"),
    ("(car (list))", .panics (runtimeError "LEFT_PAREN" "car of empty list")),
    ("(cons 1 2)",
      .panics (runtimeError "LEFT_PAREN" "cons requires a list as 2nd argument, now NumberVal")),
    ("(len 1)", .panics (runtimeError "LEFT_PAREN" "len requires a list, now NumberVal"))
  ]

def applyCases : List (String × Expectation) :=
  [
    ("(apply + 1 2 3)", .yields "6"),
    ("(apply (lambda (x y) (- x y)) 5 2)", .yields "3"),
    ("(apply 1 2)",
      .panics (runtimeError "LEFT_PAREN" "apply requires a procedure, now NumberVal")),
    ("(apply (lambda (x) x))",
      .panics "runtime error: lambda expect exactly 1 arguments, but get 0")
  ]

def stringAndBeginCases : List (String × Expectation) :=
  [
    ("(string-append \"a\" 1 \"b\" (list 2 3))", .yields "a1b(2 3)"),
    ("(string-append)", .yields ""),
    ("(begin)", .yields "#<undef>"),
    ("(begin 1 2 3)", .yields "3"),
    ("(begin (display \"x\") (newline) (display (list 1 2)))", {
      output := "x\n(1 2)"
      result := "#<undef>" })
  ]

def all : List (String × Check Unit) :=
  [("arithmetic", each applying arithmeticCases), ("compare", each applying compareCases),
    ("sequence", each applying sequenceCases), ("apply", each applying applyCases),
    ("string and begin", each applying stringAndBeginCases)]

end MiniScheme.Check.Primitives
