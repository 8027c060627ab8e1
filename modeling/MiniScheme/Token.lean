import MiniScheme.Number.Decimal

/-! Atoms and tokens. A token is one lexeme of a source with the line on which the lexeme ends,
counted from zero. Atoms are the tokens that are expressions by themselves. -/

namespace MiniScheme

/-- A string keeps whether a quote closed it, and a number the way it was written. -/
inductive Atom
  | symbol (name : String)
  | string (value : String) (closed : Bool)
  | number (written : String) (value : Number)
  | boolean (value : Bool)
deriving DecidableEq

inductive Shape
  | leftParen
  | rightParen
  | atom (a : Atom)
  | badNumber (written : String)
  | endOfInput
deriving DecidableEq

structure Token where
  line : Nat
  shape : Shape
deriving DecidableEq

def booleanText (b : Bool) : String := if b then "#t" else "#f"

namespace Atom

def lexeme : Atom → String
  | .symbol name => name
  | .string value closed => "\"" ++ value ++ (if closed then "\"" else "")
  | .number written _ => written
  | .boolean value => booleanText value

def text : Atom → Except ArithmeticError String
  | .symbol name => .ok name
  | .string value _ => .ok value
  | .number _ value => value.text
  | .boolean value => .ok (booleanText value)

def tag : Atom → String
  | .symbol _ => "SYMBOL"
  | .string .. => "STRING"
  | .number .. => "NUMBER"
  | .boolean _ => "BOOLEAN"

def newlines : Atom → Nat
  | .string value _ => value.toList.count '\n'
  | _ => 0

end Atom

namespace Shape

def lexeme : Shape → String
  | .leftParen => "("
  | .rightParen => ")"
  | .atom a => a.lexeme
  | .badNumber written => written
  | .endOfInput => ""

def text : Shape → Except ArithmeticError String
  | .atom a => a.text
  | shape => .ok shape.lexeme

def tag : Shape → String
  | .leftParen => "LEFT_PAREN"
  | .rightParen => "RIGHT_PAREN"
  | .atom a => a.tag
  | .badNumber _ => "NUMBER"
  | .endOfInput => "EOF"

def newlines : Shape → Nat
  | .atom a => a.newlines
  | _ => 0

def describe : Shape → Except ArithmeticError String
  | .atom a => do return a.tag ++ ":" ++ (← a.text)
  | .badNumber written => .ok ("NUMBER:" ++ written)
  | shape => .ok shape.tag

end Shape

namespace Token

def position (t : Token) : Except ArithmeticError String := do
  return (← t.shape.describe) ++ " in line " ++ (t.line + 1).repr

end Token

end MiniScheme
