import MiniScheme.Run

/-! What each primitive does with its operands. Numbers are checked before any arithmetic, and
comparisons look at their first two operands only. -/

namespace MiniScheme

namespace Value

def asNumber (name : String) : Value → Except Failure Number
  | .number n => .ok n
  | v => .error (.primitive (.notNumber name v.kind))

def asNumbers (name : String) (vs : List Value) : Except Failure (List Number) :=
  vs.mapM (asNumber name)

def asItems (name : String) : Value → Except Failure (List Value)
  | .list vs => .ok vs
  | v => .error (.primitive (.notList name v.kind))

def isProcedure : Value → Bool
  | .primitive .. => true
  | .closure _ => true
  | _ => false

end Value

namespace Primitive

def fold (step : Number → Number → Except ArithmeticError Number) (seed : Number)
    (ns : List Number) : Except Failure Value :=
  (ns.foldlM step seed).mapError .arithmetic |>.map .number

def divide (a b : Number) : Except Failure Number :=
  if b.isZero then .error (.primitive .divisionByZero) else (a.div b).mapError .arithmetic

def compare (name : String) (test : Number → Number → Bool) (x y : Value) :
    Except Failure Value := do
  let a ← x.asNumber name
  let b ← y.asNumber name
  return .boolean (test a b)

/-- The value of a primitive that neither prints nor calls. -/
def result (limit : Nat) (op : Primitive) (args : List Value) : Except Failure Value :=
  match op, args with
  | .add, args => do fold Number.add (.int 0) (← Value.asNumbers op.name args)
  | .mul, args => do fold Number.mul (.int 1) (← Value.asNumbers op.name args)
  | .sub, args => do
    match ← Value.asNumbers op.name args with
    | n :: ns => fold Number.sub n ns
    | [] => throw .operandCount
  | .div, args => do
    match ← Value.asNumbers op.name args with
    | n :: ns => return .number (← ns.foldlM divide n)
    | [] => throw .operandCount
  | .eq, x :: y :: _ => compare op.name Number.eqv x y
  | .lt, x :: y :: _ => compare op.name Number.lt x y
  | .gt, x :: y :: _ => compare op.name Number.gt x y
  | .equal, [x, y] => return .boolean (← x.equal limit y)
  | .isNull, x :: _ => return .boolean (← x.asItems op.name).isEmpty
  | .len, x :: _ => return .number (.int (← x.asItems op.name).length)
  | .car, x :: _ => do
    match ← x.asItems op.name with
    | v :: _ => return v
    | [] => throw (.primitive (.emptyList op.name))
  | .cdr, x :: _ => do
    match ← x.asItems op.name with
    | _ :: vs => return .list vs
    | [] => throw (.primitive (.emptyList op.name))
  | .cons, x :: .list vs :: _ => .ok (.list (x :: vs))
  | .cons, _ :: v :: _ => .error (.primitive (.consNotList v.kind))
  | .list, args => .ok (.list args)
  | .stringAppend, args => return .string (String.join (← args.mapM (Value.text limit)))
  | .sequence, args => .ok (args.getLast?.getD .noValue)
  | .addTwo, [.number a, .number b] => (a.add b).mapError .arithmetic |>.map .number
  | .addTwo, [_, _] => .error (.primitive .addNotNumbers)
  | _, _ => .error .operandCount

def run (limit : Nat) (op : Primitive) (args : List Value) : Run Value :=
  match op, args with
  | .display, [v] => do
    let text ← Run.ofExcept id (v.text limit)
    Run.print text
    return .noValue
  | .newline, [] => do
    Run.print "\n"
    return .noValue
  | op, args => Run.ofExcept id (op.result limit args)

end Primitive

end MiniScheme
