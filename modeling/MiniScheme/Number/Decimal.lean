import MiniScheme.Number.Basic

/-! Decimal numerals. Reading rounds the written value to the nearest double. Writing gives
whole numbers in full and all other finite doubles to three decimal places, rounded from
the exact value with a half going to the even digit. -/

namespace MiniScheme

namespace Numeral

def isChar (c : Char) : Bool := c.isDigit || c == '.'

/-- The double nearest to the number with these digits before and after the point. -/
def nearest (whole fraction : List Char) : Double :=
  .ofQuotient false (Nat.ofDigitChars 10 (whole ++ fraction) 0 * unitsPerOne)
    (Nat.pow 10 fraction.length)

def value? (cs : List Char) : Option Double :=
  match cs.dropWhile (· != '.') with
  | [] => some (nearest cs [])
  | _ :: fraction =>
    if '.' ∈ fraction then none else some (nearest (cs.takeWhile (· != '.')) fraction)

def integer : Int → String
  | .ofNat n => n.repr
  | .negSucc n => "-" ++ (n + 1).repr

def threeDigits (n : Nat) : String :=
  .ofList [(n / 100 % 10).digitChar, (n / 10 % 10).digitChar, (n % 10).digitChar]

def fixed (negative : Bool) (thousandths : Nat) : String :=
  (if negative then "-" else "") ++ (thousandths / 1000).repr ++ "." ++
    threeDigits (thousandths % 1000)

end Numeral

namespace Double

def text : Double → String
  | .nan => "nan"
  | .infinite s => if s then "-inf" else "inf"
  | .finite s u _ =>
    if u % unitsPerOne = 0 then Numeral.integer (signed s (u / unitsPerOne))
    else Numeral.fixed s (roundDiv (u * 1000) unitsPerOne)

end Double

namespace Number

def text : Number → Except ArithmeticError String
  | .int n => do
    let _ ← (Number.int n).toDouble
    return Numeral.integer n
  | .double x => .ok x.text

end Number

end MiniScheme
