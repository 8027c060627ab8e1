import MiniScheme.Expr
import MiniScheme.Primitive

/-! Values. A list is a sequence of values, a closure keeps the frame in which it was made, and
procedures of both kinds have an identity: a primitive the frame it was installed in, a
closure a number of its own. -/

namespace MiniScheme

abbrev Address := Nat

structure Closure where
  id : Nat
  name : String
  params : List String
  body : Expr
  env : Address

/-- `noValue` is the result of what has none, and `unknown` a value of no known class. -/
inductive Value
  | symbol (name : String)
  | string (value : String)
  | number (n : Number)
  | boolean (b : Bool)
  | list (items : List Value)
  | noValue
  | primitive (op : Primitive) (home : Address)
  | closure (c : Closure)
  | unknown

namespace Value

def kind : Value → String
  | .symbol _ => "SymbolVal"
  | .string _ => "StringVal"
  | .number _ => "NumberVal"
  | .boolean _ => "BooleanVal"
  | .list _ => "ListVal"
  | .noValue => "UndefVal"
  | .primitive .. => "PrimVal"
  | .closure _ => "ProcVal"
  | .unknown => "SchemeVal"

def isTruthy : Value → Bool
  | .boolean b => b
  | _ => true

def text : Nat → Value → Except Failure String
  | 0, _ => .error .tooDeep
  | limit + 1, v =>
    match v with
    | .symbol name => .ok name
    | .string value => .ok value
    | .number n => n.text.mapError .arithmetic
    | .boolean b => .ok (booleanText b)
    | .list items => do
      let texts ← items.mapM (text limit)
      return "(" ++ " ".intercalate texts ++ ")"
    | .noValue => .ok "#<undef>"
    | .primitive op _ => .ok ("[primitive " ++ op.name ++ "]")
    | .closure c => .ok ("[procedure " ++ c.name ++ "]")
    | .unknown => .error .unknownClass

def equal : Nat → Value → Value → Except Failure Bool
  | 0, _, _ => .error .tooDeep
  | limit + 1, x, y =>
    match x, y with
    | .symbol a, .symbol b => .ok (a == b)
    | .string a, .string b => .ok (a == b)
    | .number a, .number b => .ok (a.eqv b)
    | .boolean a, .boolean b => .ok (a == b)
    | .list xs, .list ys =>
      if xs.length = ys.length then do
        let same ← (xs.zip ys).mapM fun (a, b) => equal limit a b
        return same.all id
      else .ok false
    | .noValue, .noValue => .ok true
    | .primitive a h, .primitive b k => .ok (a == b && h == k)
    | .closure a, .closure b => .ok (a.id == b.id)
    | .unknown, .unknown => .error .unknownClass
    | _, _ => .ok false

end Value

end MiniScheme
