/-! The primitive procedures: their names and how many operands each takes. -/

namespace MiniScheme

inductive Primitive
  | add
  | sub
  | mul
  | div
  | eq
  | lt
  | gt
  | equal
  | isNull
  | car
  | cdr
  | cons
  | list
  | apply
  | len
  | stringAppend
  | sequence
  | display
  | newline
  | addTwo
deriving DecidableEq

/-- `least` operands, and with `more` any number of further ones. -/
structure Arity where
  least : Nat
  more : Bool
deriving DecidableEq

namespace Arity

def exactly (n : Nat) : Arity := ⟨n, false⟩

def atLeast (n : Nat) : Arity := ⟨n, true⟩

def Admits (arity : Arity) (count : Nat) : Prop :=
  if arity.more then arity.least ≤ count else count = arity.least

instance (arity : Arity) (count : Nat) : Decidable (arity.Admits count) := by
  unfold Admits
  infer_instance

end Arity

namespace Primitive

def name : Primitive → String
  | .add => "+"
  | .sub => "-"
  | .mul => "*"
  | .div => "/"
  | .eq => "="
  | .lt => "<"
  | .gt => ">"
  | .equal => "equal?"
  | .isNull => "null?"
  | .car => "car"
  | .cdr => "cdr"
  | .cons => "cons"
  | .list => "list"
  | .apply => "apply"
  | .len => "len"
  | .stringAppend => "string-append"
  | .sequence => "begin"
  | .display => "display"
  | .newline => "newline"
  | .addTwo => "add"

def arity : Primitive → Arity
  | .add | .mul | .list | .stringAppend | .sequence => .atLeast 0
  | .sub | .div | .isNull | .car | .cdr | .apply | .len => .atLeast 1
  | .eq | .lt | .gt | .cons => .atLeast 2
  | .equal | .addTwo => .exactly 2
  | .display => .exactly 1
  | .newline => .exactly 0

def globals : List Primitive :=
  [.add, .sub, .mul, .div, .eq, .lt, .gt, .equal, .isNull, .car, .cdr, .cons, .list, .apply,
    .len, .stringAppend, .sequence, .display, .newline]

def ofName? (name : String) : Option Primitive := globals.find? (·.name == name)

end Primitive

end MiniScheme
