import MiniScheme.Number.Double

/-! Numbers of the language: unbounded integers and doubles. Sums, differences and products of
integers are exact; as soon as a double takes part, integers are rounded to doubles first.
Comparison never rounds. -/

namespace MiniScheme

inductive Number
  | int (n : Int)
  | double (x : Double)
deriving DecidableEq

inductive ArithmeticError
  | intTooLarge
  | quotientTooLarge
  | zeroDivisor
deriving DecidableEq

namespace ArithmeticError

def message : ArithmeticError → String
  | .intTooLarge => "int too large to convert to float"
  | .quotientTooLarge => "integer division result too large for a float"
  | .zeroDivisor => "division by zero"

end ArithmeticError

namespace Number

def toDouble : Number → Except ArithmeticError Double
  | .int n => if (Double.ofInt n).isFinite then .ok (Double.ofInt n) else .error .intTooLarge
  | .double x => .ok x

def isZero : Number → Bool
  | .int n => n == 0
  | .double x => x.isZero

def combine (ints : Int → Int → Int) (doubles : Double → Double → Double) :
    Number → Number → Except ArithmeticError Number
  | .int m, .int n => .ok (.int (ints m n))
  | a, b => do
    let x ← a.toDouble
    let y ← b.toDouble
    return .double (doubles x y)

def add : Number → Number → Except ArithmeticError Number := combine (· + ·) Double.add

def sub : Number → Number → Except ArithmeticError Number := combine (· - ·) Double.sub

def mul : Number → Number → Except ArithmeticError Number := combine (· * ·) Double.mul

def intQuotient (m n : Int) : Except ArithmeticError Double :=
  let q := Double.ofQuotient ((m < 0) != (n < 0)) (m.natAbs * unitsPerOne) n.natAbs
  if q.isFinite then .ok q else .error .quotientTooLarge

def div (a b : Number) : Except ArithmeticError Number :=
  if b.isZero then .error .zeroDivisor
  else match a, b with
    | .int m, .int n => return .double (← intQuotient m n)
    | a, b => do
      let x ← a.toDouble
      let y ← b.toDouble
      return .double (x.div y)

/-- Where a number other than NaN stands: a whole number of units, or beyond all of them. -/
inductive Level
  | below
  | units (i : Int)
  | above
deriving DecidableEq

namespace Level

def lt : Level → Level → Bool
  | .below, .below => false
  | .below, _ => true
  | .units i, .units j => i < j
  | .units _, .above => true
  | _, _ => false

end Level

def level? : Number → Option Level
  | .int n => some (.units (n * unitsPerOne))
  | .double .nan => none
  | .double (.infinite s) => some (if s then .below else .above)
  | .double (.finite s u _) => some (.units (Double.signed s u))

def eqv (a b : Number) : Bool :=
  match a.level?, b.level? with
  | some x, some y => x == y
  | _, _ => false

def lt (a b : Number) : Bool :=
  match a.level?, b.level? with
  | some x, some y => x.lt y
  | _, _ => false

def gt (a b : Number) : Bool := lt b a

end Number

end MiniScheme
