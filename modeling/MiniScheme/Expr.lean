import MiniScheme.Failure

/-! Expressions: atoms and lists, each with the line of its first token. The reader knows no
special forms, so a definition or a procedure is a plain list here. -/

namespace MiniScheme

/-- `stray` is malformed text kept as data, and `unknown` an expression of no known class,
which nothing can print or evaluate. -/
inductive Expr
  | atom (line : Nat) (a : Atom)
  | stray (line : Nat) (message : String)
  | list (line : Nat) (items : List Expr)
  | unknown

namespace Expr

def kind : Expr → String
  | .atom _ (.symbol _) => "SymbolAtom"
  | .atom _ (.string ..) => "StringAtom"
  | .atom _ (.number ..) => "NumberAtom"
  | .atom _ (.boolean _) => "BooleanAtom"
  | .stray .. => "ErrorAtom"
  | .list .. => "ListExpr"
  | .unknown => "Expression"

mutual

def text : Expr → Except Failure String
  | .atom _ (.string value _) => .ok ("\"" ++ value ++ "\"")
  | .atom _ a => a.text.mapError .arithmetic
  | .stray _ message => .ok ("#<error " ++ message ++ ">")
  | .list _ items => do
    let texts ← textEach items
    return "(" ++ " ".intercalate texts ++ ")"
  | .unknown => .error .unknownClass

def textEach : List Expr → Except Failure (List String)
  | [] => .ok []
  | e :: es => do
    let t ← e.text
    let ts ← textEach es
    return t :: ts

end

def programText (es : List Expr) : Except Failure String := do
  return " ".intercalate (← textEach es)

end Expr

end MiniScheme
