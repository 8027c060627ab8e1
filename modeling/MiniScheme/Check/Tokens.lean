import MiniScheme.Check.Trace

/-! Checks of scanning: which tokens a source has, and what they carry. -/

namespace MiniScheme.Check.Tokens

open Expectation

def wellFormedCases : List (String × Expectation) :=
  [
    ("", .scans (joined ["EOF"])),
    ("(if #t 1 2)",
      .scans (joined ["LEFT_PAREN", "SYMBOL:if", "BOOLEAN:#t", "NUMBER:1", "NUMBER:2",
        "RIGHT_PAREN", "EOF"])),
    ("(begin (define r 10) (* pi (* r r)))",
      .scans (joined ["LEFT_PAREN", "SYMBOL:begin", "LEFT_PAREN", "SYMBOL:define", "SYMBOL:r",
        "NUMBER:10", "RIGHT_PAREN", "LEFT_PAREN", "SYMBOL:*", "SYMBOL:pi", "LEFT_PAREN",
        "SYMBOL:*", "SYMBOL:r", "SYMBOL:r", "RIGHT_PAREN", "RIGHT_PAREN", "RIGHT_PAREN",
        "EOF"])),
    ("(\"dog\" 2.5 x)",
      .scans (joined ["LEFT_PAREN", "STRING:dog", "NUMBER:2.500", "SYMBOL:x", "RIGHT_PAREN",
        "EOF"])),
    ("\t(set! x\r\n#f)",
      .scans (joined ["LEFT_PAREN", "SYMBOL:set!", "SYMBOL:x", "BOOLEAN:#f", "RIGHT_PAREN",
        "EOF"])),
    ("#x", .scans (joined ["SYMBOL:#x", "EOF"])),
    ("12ab", .scans (joined ["NUMBER:12", "SYMBOL:ab", "EOF"])),
    ("(string-append \"a b\" null?)",
      .scans (joined ["LEFT_PAREN", "SYMBOL:string-append", "STRING:a b", "SYMBOL:null?",
        "RIGHT_PAREN", "EOF"]))
  ]

def malformedCases : List (String × Expectation) :=
  [
    ("(display \"abc)", .scans (joined ["LEFT_PAREN", "SYMBOL:display", "STRING:abc)", "EOF"])),
    ("1.2.3", .scans (joined ["NUMBER:1.2.3", "EOF"]))
  ]

def malformed : Check Unit := do
  each scanning malformedCases
  holds ((scan "1.2.3").head? == some ⟨0, .badNumber "1.2.3"⟩)

def fields : Check Unit := do
  holds (scan "(x\n\"dog\" 2)" == [⟨0, .leftParen⟩, ⟨0, .atom (.symbol "x")⟩,
    ⟨1, .atom (.string "dog" true)⟩, ⟨1, .atom (.number "2" (.double (.ofInt 2)))⟩,
    ⟨1, .rightParen⟩, ⟨1, .endOfInput⟩])
  holds ((scan "(#t)")[1]? == some ⟨0, .atom (.boolean true)⟩)

def all : List (String × Check Unit) :=
  [("scan", each scanning wellFormedCases), ("malformed", malformed), ("token fields", fields)]

end MiniScheme.Check.Tokens
