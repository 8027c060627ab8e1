import MiniScheme.Value

/-! What a list means when it is evaluated: one of five special forms, told by the symbol at its
head, or a call. A special form of the wrong shape is refused before any of its parts is
evaluated. -/

namespace MiniScheme

inductive Keyword
  | define
  | cond
  | quote
  | assign
  | lambda
deriving DecidableEq

namespace Keyword

def name : Keyword → String
  | .define => "define"
  | .cond => "if"
  | .quote => "quote"
  | .assign => "set!"
  | .lambda => "lambda"

def all : List Keyword := [.define, .cond, .quote, .assign, .lambda]

def ofName? (name : String) : Option Keyword := all.find? (·.name == name)

def lengths : Keyword → List Nat
  | .define => [3]
  | .cond => [3, 4]
  | .quote => [2]
  | .assign => [3]
  | .lambda => [3]

end Keyword

/-- An assignment keeps the line of its name, at which an unbound name is reported. -/
inductive Form
  | empty
  | define (name : String) (value : Expr)
  | cond (test yes : Expr) (no : Option Expr)
  | quote (e : Expr)
  | assign (name : String) (line : Nat) (value : Expr)
  | lambda (params : List String) (body : Expr)
  | call (operator : Expr) (operands : List Expr)

namespace Form

def target (anchor : Token) (role : String) : Expr → Except EvalError (String × Nat)
  | .atom line (.symbol name) => .ok (name, line)
  | e => .error ⟨some anchor, .notSymbol role e.kind⟩

def distinctNames (anchor : Token) (seen : List String) :
    List Expr → Except EvalError (List String)
  | [] => .ok []
  | e :: es => do
    let (name, line) ← target anchor "parameter" e
    if name ∈ seen then
      throw ⟨some ⟨line, .atom (.symbol name)⟩, .repeatedParameter⟩
    let names ← distinctNames anchor (name :: seen) es
    return name :: names

def parameters (anchor : Token) : Expr → Except EvalError (List String)
  | .list _ items => distinctNames anchor [] items
  | _ => .error ⟨some anchor, .parametersNotList⟩

def ofKeyword (anchor : Token) (keyword : Keyword) (items : List Expr) : Except EvalError Form :=
  match keyword, items with
  | .define, [_, e, value] => do
    let (name, _) ← target anchor "define name" e
    return .define name value
  | .cond, [_, test, yes] => .ok (.cond test yes none)
  | .cond, [_, test, yes, no] => .ok (.cond test yes (some no))
  | .quote, [_, e] => .ok (.quote e)
  | .assign, [_, e, value] => do
    let (name, line) ← target anchor "set! name" e
    return .assign name line value
  | .lambda, [_, params, body] => do
    let names ← parameters anchor params
    return .lambda names body
  | _, _ => .error ⟨some anchor, .formLength keyword.name keyword.lengths items.length⟩

def keyword? : Expr → Option Keyword
  | .atom _ (.symbol name) => Keyword.ofName? name
  | _ => none

def ofItems (line : Nat) : List Expr → Except EvalError Form
  | [] => .ok .empty
  | head :: rest =>
    match keyword? head with
    | some keyword => ofKeyword ⟨line, .leftParen⟩ keyword (head :: rest)
    | none => .ok (.call head rest)

end Form

namespace Expr

mutual

def quoted : Expr → Except EvalError Value
  | .atom _ (.symbol name) => .ok (.symbol name)
  | .atom _ (.string value _) => .ok (.string value)
  | .atom _ (.number _ value) => .ok (.number value)
  | .atom _ (.boolean value) => .ok (.boolean value)
  | .stray line message => .error ⟨some ⟨line, .rightParen⟩, .stray message⟩
  | .list _ items => do
    let values ← quotedEach items
    return .list values
  | .unknown => .error ⟨none, .unknownExpression (Expr.kind .unknown)⟩

def quotedEach : List Expr → Except EvalError (List Value)
  | [] => .ok []
  | e :: es => do
    let v ← e.quoted
    let vs ← quotedEach es
    return v :: vs

end

end Expr

end MiniScheme
