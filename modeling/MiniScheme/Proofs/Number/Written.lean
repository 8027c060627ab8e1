import Mathlib.Algebra.Order.Field.Rat
import Mathlib.Data.List.Basic
import Mathlib.Data.Rat.Cast.Order
import Mathlib.Tactic.NormNum
import MiniScheme.Proofs.Number.Numeral

/-! Decimal texts and the rationals that they stand for. The text of an integer says that integer,
and a count of thousandths is said with three digits behind the point. -/

namespace MiniScheme
namespace Numeral

open Lexical

def rational? : List Char → Option ℚ
  | [] => none
  | c :: cs => if c = '-' then (unsigned? cs).map Neg.neg else unsigned? (c :: cs)

/-- The digits of a whole number as they are written: no zero stands in front of other digits. -/
structure IsPlain (ds : List Char) : Prop where
  ne_nil : ds ≠ []
  digits : ∀ c ∈ ds, IsDigit c
  leading : ds.head? = some '0' → ds = ['0']

def signText (negative : Bool) : List Char := if negative then ['-'] else []

def EndsEven (cs : List Char) : Prop := ∃ c ∈ cs.getLast?, c ∈ ['0', '2', '4', '6', '8']

theorem rational?_sign {cs : List Char} {q : ℚ} (hfirst : BeginsIn IsDigit cs)
    (h : unsigned? cs = some q) (s : Bool) :
    rational? (signText s ++ cs) = some (if s then -q else q) := by
  cases s with
  | true =>
    change (unsigned? cs).map Neg.neg = _
    rw [h]
    rfl
  | false =>
    obtain ⟨c, rest, rfl, hc⟩ := hfirst.exists_cons
    have hsign : c ≠ '-' := by
      rintro rfl
      exact absurd hc (by decide)
    exact (if_neg hsign).trans h

/-! The digits of naturals. -/

theorem isPlain_toDigits (n : Nat) : IsPlain (Nat.toDigits 10 n) := by
  refine ⟨Nat.toDigits_ne_nil, fun c => isDigit_toDigits, ?_⟩
  induction n using Nat.strong_induction_on with
  | _ n ih =>
    intro h
    rcases Nat.lt_or_ge n 10 with hlt | hge
    · rw [Nat.toDigits_of_lt_base hlt] at h ⊢
      exact congrArg (fun c => [c]) (Option.some.inj h)
    · -- the digit in front is that of a tenth, which is not zero
      have hne : Nat.toDigits 10 (n / 10) ≠ [] := Nat.toDigits_ne_nil
      rw [Nat.toDigits_of_base_le (by decide) hge, List.head?_append_of_ne_nil _ hne] at h
      have hzero := ih (n / 10) (by omega) h
      have hvalue := @Nat.ofDigitChars_ten_toDigits (n / 10)
      rw [hzero] at hvalue
      have hten : (0 : Nat) = n / 10 := hvalue
      omega

theorem length_threeDigits (n : Nat) : (threeDigits n).toList.length = 3 := by
  rw [threeDigits, String.toList_ofList]
  rfl

theorem ofDigitChars_fixed (n : Nat) :
    Nat.ofDigitChars 10 (Nat.toDigits 10 (n / 1000) ++ (threeDigits (n % 1000)).toList) 0 = n := by
  have hmod : ∀ k, k % 10 < 10 := fun k => Nat.mod_lt k (by decide)
  rw [Nat.ofDigitChars_append, Nat.ofDigitChars_ten_toDigits, threeDigits, String.toList_ofList,
    Nat.ofDigitChars_cons_digitChar_of_lt_ten (hmod _),
    Nat.ofDigitChars_cons_digitChar_of_lt_ten (hmod _),
    Nat.ofDigitChars_cons_digitChar_of_lt_ten (hmod _), Nat.ofDigitChars_nil]
  omega

theorem endsEven_threeDigits {n : Nat} (h : Even n) (cs : List Char) :
    EndsEven (cs ++ (threeDigits (n % 1000)).toList) := by
  have heven : ∀ d < 10, d % 2 = 0 → d.digitChar ∈ ['0', '2', '4', '6', '8'] := by decide
  rw [Nat.even_iff] at h
  refine ⟨(n % 1000 % 10).digitChar, ?_, heven _ (Nat.mod_lt _ (by decide)) (by omega)⟩
  rw [threeDigits, String.toList_ofList, List.getLast?_append]
  rfl

/-! Texts of integers and of thousandths. -/

theorem toList_integer (n : Int) :
    (integer n).toList = signText (n < 0) ++ Nat.toDigits 10 n.natAbs := by
  cases n with
  | ofNat n =>
    have hsign : decide ((Int.ofNat n) < 0) = false :=
      decide_eq_false (Int.not_lt.mpr (Int.natCast_nonneg n))
    rw [hsign, integer, Nat.toList_repr]
    rfl
  | negSucc n =>
    have hsign : decide (Int.negSucc n < 0) = true := decide_eq_true (Int.negSucc_lt_zero n)
    rw [hsign, integer, String.toList_append, Nat.toList_repr]
    rfl

theorem toList_fixed (s : Bool) (n : Nat) :
    (fixed s n).toList =
      signText s ++ (Nat.toDigits 10 (n / 1000) ++ '.' :: (threeDigits (n % 1000)).toList) := by
  cases s <;> simp [fixed, signText]

theorem rational?_integer (n : Int) : rational? (integer n).toList = some (n : ℚ) := by
  have hdigits := isPlain_toDigits n.natAbs
  have hfirst : BeginsIn IsDigit (Nat.toDigits 10 n.natAbs) := by
    simpa using beginsIn_toDigits n.natAbs []
  have hvalue := unsigned?_whole hdigits.ne_nil (all_isDigit hdigits.digits)
  rw [toList_integer, rational?_sign hfirst hvalue,
    Nat.ofDigitChars_ten_toDigits, Nat.cast_natAbs]
  by_cases hn : n < 0
  · simp [hn, abs_of_neg hn]
  · simp [hn, abs_of_nonneg (not_lt.mp hn)]

theorem rational?_fixed (s : Bool) (n : Nat) :
    rational? (fixed s n).toList = some (Double.signed s n / 1000 : ℚ) := by
  have hdigits := isPlain_toDigits (n / 1000)
  have hpow : (10 : ℚ) ^ 3 = 1000 := by norm_num
  have hall := all_isDigit (List.forall_mem_append.mpr ⟨hdigits.digits,
    fun c (hc : c ∈ (threeDigits (n % 1000)).toList) => isDigit_threeDigits hc⟩)
  have hvalue := unsigned?_fraction hdigits.ne_nil hall
  rw [toList_fixed, rational?_sign (beginsIn_toDigits _ _) hvalue, ofDigitChars_fixed,
    length_threeDigits, hpow]
  cases s <;> simp [Double.signed, neg_div]

end Numeral

namespace Double

variable {s : Bool} {u : Nat} (h : Representable u)

theorem text_whole (hint : unitsPerOne ∣ u) :
    (finite s u h).text = Numeral.integer (signed s (u / unitsPerOne)) := by
  rw [text, if_pos (Nat.mod_eq_zero_of_dvd hint)]

theorem text_fraction (hint : ¬unitsPerOne ∣ u) :
    (finite s u h).text = Numeral.fixed s (roundDiv (u * 1000) unitsPerOne) := by
  rw [text, if_neg fun hmod => hint (Nat.dvd_of_mod_eq_zero hmod)]

end Double
end MiniScheme
