import MiniScheme.Number.Rounding

/-! Binary floating-point numbers of double precision as exact values. A finite double is a sign
and a count of the smallest positive double, 2^-1074; every operation computes its exact
result and rounds once. -/

namespace MiniScheme

def unitsPerOne : Nat := twoPow 1074

def unitsLimit : Nat := twoPow 2098

theorem unitsPerOne_pos : 0 < unitsPerOne := twoPow_pos _

theorem unitsLimit_pos : 0 < unitsLimit := twoPow_pos _

/-- Magnitudes, in units, that a finite double has. -/
structure Representable (u : Nat) : Prop where
  onGrid : Grid.OnGrid u
  lt_limit : u < unitsLimit

inductive Double
  | nan
  | infinite (negative : Bool)
  | finite (negative : Bool) (units : Nat) (representable : Representable units)
deriving DecidableEq

namespace Double

def zero (negative : Bool) : Double :=
  .finite negative 0 ⟨Nat.dvd_zero _, unitsLimit_pos⟩

def ofQuotient (negative : Bool) (n d : Nat) : Double :=
  if h : Grid.nearest n d < unitsLimit then
    .finite negative (Grid.nearest n d) ⟨Grid.onGrid_nearest n d, h⟩
  else .infinite negative

def signed (negative : Bool) (u : Nat) : Int := if negative then -u else u

def ofUnits (i : Int) : Double := ofQuotient (i < 0) i.natAbs 1

def ofInt (n : Int) : Double := ofQuotient (n < 0) (n.natAbs * unitsPerOne) 1

def isFinite : Double → Bool
  | .finite .. => true
  | _ => false

def isZero : Double → Bool
  | .finite _ u _ => u == 0
  | _ => false

def neg : Double → Double
  | .nan => .nan
  | .infinite s => .infinite !s
  | .finite s u h => .finite (!s) u h

def add : Double → Double → Double
  | .nan, _ => .nan
  | _, .nan => .nan
  | .infinite s, .infinite t => if s = t then .infinite s else .nan
  | .infinite s, .finite .. => .infinite s
  | .finite .., .infinite t => .infinite t
  | .finite s u _, .finite t v _ =>
    let sum := signed s u + signed t v
    if sum = 0 then zero (s && t) else ofUnits sum

def sub (x y : Double) : Double := add x (neg y)

def mul : Double → Double → Double
  | .nan, _ => .nan
  | _, .nan => .nan
  | .infinite s, .infinite t => .infinite (s != t)
  | .infinite s, .finite t v _ => if v = 0 then .nan else .infinite (s != t)
  | .finite s u _, .infinite t => if u = 0 then .nan else .infinite (s != t)
  | .finite s u _, .finite t v _ => ofQuotient (s != t) (u * v) unitsPerOne

def div : Double → Double → Double
  | .nan, _ => .nan
  | _, .nan => .nan
  | .infinite _, .infinite _ => .nan
  | .infinite s, .finite t _ _ => .infinite (s != t)
  | .finite s _ _, .infinite t => zero (s != t)
  | .finite s u _, .finite t v _ =>
    if v = 0 then (if u = 0 then .nan else .infinite (s != t))
    else ofQuotient (s != t) (u * unitsPerOne) v

/-- The sixty-four bits of the interchange format: sign, exponent, fraction. The fraction of
`u` units is `u` over its spacing, and each step of the exponent doubles the spacing. -/
def toBits : Double → Nat
  | .nan => 0x7ff8000000000000
  | .infinite s => signBit s + 0x7ff0000000000000
  | .finite s u _ => signBit s + ((u.log2 - 52) * twoPow 52 + u / Grid.spacing u)
where
  signBit (negative : Bool) : Nat := if negative then twoPow 63 else 0

def ofBits (bits : Nat) : Double :=
  let negative := twoPow 63 ≤ bits
  let exponent := bits / twoPow 52 % twoPow 11
  let fraction := bits % twoPow 52
  if exponent = 0 then ofQuotient negative fraction 1
  else if exponent < 2047 then
    ofQuotient negative ((twoPow 52 + fraction) * twoPow (exponent - 1)) 1
  else if fraction = 0 then .infinite negative
  else .nan

end Double

end MiniScheme
