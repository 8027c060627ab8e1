import MiniScheme.Proofs.Expr.Reprint
import MiniScheme.Proofs.Number.Nearest
import MiniScheme.Proofs.Number.Written

/-! Printed numbers, scanned and printed again. Where doubles are closer together than thousandths
the digits come back, and where they are further apart the double does; so the second text is the
first one, or the first one without its zeros. -/

namespace MiniScheme

def thousandths (u : Nat) : Nat := roundDiv (u * 1000) unitsPerOne

def nearestUnits (n : Nat) : Nat := Grid.nearest (n * unitsPerOne) 1000

section Units

variable {n u : Nat}

theorem nearestUnits_mul {k : Nat} (h : k ≤ twoPow 53) :
    nearestUnits (1000 * k) = k * unitsPerOne := by
  have hgrid : Grid.OnGrid (unitsPerOne * k) := Grid.onGrid_mul h
  have hscaled : 1000 * k * unitsPerOne = 1000 * (unitsPerOne * k) := by
    rw [Nat.mul_assoc, Nat.mul_comm k]
  rw [nearestUnits, hscaled, Grid.nearest_mul_of_onGrid (by decide) hgrid, Nat.mul_comm]

def fineLimit : Nat := twoPow 1117

theorem thousandths_le_of_fine (h : u < fineLimit) : thousandths u ≤ 1000 * twoPow 43 := by
  have hlimit : fineLimit = unitsPerOne * twoPow 43 := by
    have hsum : 1117 = 1074 + 43 := rfl
    rw [fineLimit, unitsPerOne, hsum, twoPow_add]
  rw [hlimit] at h
  refine roundDiv_le_of_le_mul unitsPerOne_pos ?_
  rw [Nat.mul_left_comm, Nat.mul_comm]
  exact Nat.mul_le_mul_left 1000 h.le

theorem nearestUnits_near (h : n ≤ 1000 * twoPow 43) :
    2 * (n * unitsPerOne) < 2 * (nearestUnits n * 1000) + unitsPerOne ∧
      2 * (nearestUnits n * 1000) < 2 * (n * unitsPerOne) + unitsPerOne := by
  rcases Nat.lt_or_eq_of_le h with hlt | rfl
  · have hquot : n * unitsPerOne / 1000 < twoPow (1064 + 53) := by
      have hend : twoPow (1064 + 53) = twoPow 43 * unitsPerOne := by
        have hsum : 1064 + 53 = 43 + 1074 := rfl
        rw [unitsPerOne, hsum, twoPow_add]
      rw [hend]
      refine Nat.div_lt_of_lt_mul ?_
      rw [← Nat.mul_assoc]
      exact Nat.mul_lt_mul_of_pos_right hlt unitsPerOne_pos
    have hstep : 1000 * Grid.spacing (n * unitsPerOne / 1000) < unitsPerOne := by
      have hunits : unitsPerOne = twoPow 10 * twoPow 1064 := by
        have hsum : 1074 = 10 + 1064 := rfl
        rw [unitsPerOne, hsum, twoPow_add]
      calc 1000 * Grid.spacing (n * unitsPerOne / 1000) ≤ 1000 * twoPow 1064 :=
            Nat.mul_le_mul_left 1000 (Grid.spacing_le hquot)
        _ < twoPow 10 * twoPow 1064 := Nat.mul_lt_mul_of_pos_right (by decide) (twoPow_pos _)
        _ = unitsPerOne := hunits.symm
    have hbelow := Grid.le_nearest_add (n * unitsPerOne) (by decide : 0 < 1000)
    have habove := Grid.nearest_le_add (n * unitsPerOne) 1000
    unfold nearestUnits
    omega
  · have hpos := unitsPerOne_pos
    rw [nearestUnits_mul (twoPow_le (by decide)), Nat.mul_assoc, Nat.mul_comm]
    omega

theorem lt_of_not_dvd (h : Grid.OnGrid u) (hint : ¬unitsPerOne ∣ u) :
    u.log2 < 1126 ∧ u < unitsPerOne * twoPow 52 := by
  have hlog : u.log2 < 1126 := by
    by_contra hge
    have hspacing : unitsPerOne ∣ Grid.spacing u := twoPow_dvd (by omega)
    exact hint (Nat.dvd_trans hspacing h)
  have hend : twoPow 1126 = unitsPerOne * twoPow 52 := by
    have hsum : 1126 = 1074 + 52 := rfl
    rw [unitsPerOne, hsum, twoPow_add]
  refine ⟨hlog, ?_⟩
  rw [← hend]
  exact Nat.lt_of_lt_of_le (Grid.lt_twoPow_log2 u) (twoPow_le hlog)

theorem thousandths_le (h : Grid.OnGrid u) (hint : ¬unitsPerOne ∣ u) :
    thousandths u ≤ 1000 * twoPow 52 := by
  refine roundDiv_le_of_le_mul unitsPerOne_pos ?_
  rw [Nat.mul_left_comm, Nat.mul_comm]
  exact Nat.mul_le_mul_left 1000 (lt_of_not_dvd h hint).2.le

theorem nearestUnits_of_coarse (h : Grid.OnGrid u) (hint : ¬unitsPerOne ∣ u)
    (hcoarse : fineLimit ≤ u) : nearestUnits (thousandths u) = u := by
  have hne : u ≠ 0 := fun hzero => hint (hzero ▸ Nat.dvd_zero _)
  have hlog : 1117 ≤ u.log2 := by
    by_contra hlt
    have hnext : twoPow (u.log2 + 1) ≤ fineLimit := twoPow_le (by omega)
    exact Nat.not_lt.mpr hcoarse (Nat.lt_of_lt_of_le (Grid.lt_twoPow_log2 u) hnext)
  obtain ⟨e, he⟩ : ∃ e, u.log2 = e + 52 := ⟨u.log2 - 52, by omega⟩
  have hself : twoPow u.log2 ≤ u := Nat.log2_self_le hne
  have hnext : u < twoPow (u.log2 + 1) := Grid.lt_twoPow_log2 u
  have hpoint : twoPow (u.log2 - 52) ∣ u := h
  rw [he, Nat.add_sub_cancel] at hpoint
  rw [he] at hlog hself hnext
  have hpower : twoPow (e + 52) ≠ u := by
    intro heq
    have hdvd : unitsPerOne ∣ twoPow (e + 52) := twoPow_dvd (by omega)
    exact hint (heq ▸ hdvd)
  have hstep : unitsPerOne < 1000 * twoPow e := by
    have hsplit : twoPow (9 + e) = twoPow 9 * twoPow e := twoPow_add 9 e
    have hle : unitsPerOne ≤ twoPow (9 + e) := twoPow_le (by omega)
    rw [hsplit] at hle
    exact Nat.lt_of_le_of_lt hle (Nat.mul_lt_mul_of_pos_right (by decide) (twoPow_pos e))
  have hbelow := two_mul_le_roundDiv (n := u * 1000) unitsPerOne_pos
  have habove := roundDiv_le_two_mul (u * 1000) unitsPerOne
  rw [Nat.mul_comm unitsPerOne] at hbelow habove
  refine Grid.nearest_eq_of_near (by decide) hpoint (Nat.lt_of_le_of_ne hself hpower) hnext ?_ ?_
  · unfold thousandths
    omega
  · unfold thousandths
    omega

theorem thousandths_of_near (hbelow : 2 * (n * unitsPerOne) < 2 * (u * 1000) + unitsPerOne)
    (habove : 2 * (u * 1000) < 2 * (n * unitsPerOne) + unitsPerOne) : thousandths u = n := by
  rw [Nat.mul_comm n] at hbelow habove
  exact roundDiv_eq_of_near habove hbelow

theorem thousandths_nearestUnits (h : Grid.OnGrid u) (hint : ¬unitsPerOne ∣ u) :
    thousandths (nearestUnits (thousandths u)) = thousandths u := by
  rcases Nat.lt_or_ge u fineLimit with hfine | hcoarse
  · obtain ⟨hbelow, habove⟩ := nearestUnits_near (thousandths_le_of_fine hfine)
    exact thousandths_of_near hbelow habove
  · rw [nearestUnits_of_coarse h hint hcoarse]

theorem nearestUnits_lt_limit (h : n ≤ 1000 * twoPow 52) : nearestUnits n < unitsLimit := by
  have hlimit : unitsLimit = twoPow (2045 + 53) := rfl
  have hstep : unitsPerOne * twoPow 52 ≤ twoPow 2045 := by
    rw [unitsPerOne, ← twoPow_add]
    exact twoPow_le (by decide)
  have hpos := twoPow_pos 2045
  have hscaled : n * unitsPerOne ≤ 1000 * (unitsPerOne * twoPow 52) := by
    rw [Nat.mul_comm unitsPerOne, ← Nat.mul_assoc]
    exact Nat.mul_le_mul_right _ h
  have hpower : twoPow 53 = 2 ^ 53 := rfl
  have hend : twoPow (2045 + 53) = twoPow 2045 * 2 ^ 53 := by rw [twoPow_add, hpower]
  rw [hlimit, nearestUnits, Grid.nearest_lt_twoPow_iff (by decide)]
  omega

theorem unitsPerOne_dvd_nearestUnits (h : Grid.OnGrid u) (hint : ¬unitsPerOne ∣ u) :
    unitsPerOne ∣ nearestUnits (thousandths u) ↔ 1000 ∣ thousandths u := by
  constructor
  · rintro ⟨k, hk⟩
    have hdigits := thousandths_nearestUnits h hint
    have hexact : thousandths (unitsPerOne * k) = k * 1000 := by
      rw [thousandths, Nat.mul_assoc]
      exact roundDiv_mul_self unitsPerOne_pos (k * 1000)
    rw [hk, hexact] at hdigits
    exact ⟨k, hdigits ▸ Nat.mul_comm k 1000⟩
  · rintro ⟨k, hk⟩
    have hle := thousandths_le h hint
    rw [hk] at hle ⊢
    have hk : k ≤ twoPow 52 := Nat.le_of_mul_le_mul_left hle (by decide)
    rw [nearestUnits_mul (hk.trans (twoPow_le (by decide)))]
    exact Nat.dvd_mul_left _ _

end Units

namespace Numeral

open Lexical

theorem nearest_fixed (n : Nat) (h : nearestUnits n < unitsLimit) :
    nearest (Nat.toDigits 10 (n / 1000)) (threeDigits (n % 1000)).toList =
      .finite false (nearestUnits n) ⟨Grid.onGrid_nearest _ _, h⟩ := by
  have hpow : Nat.pow 10 3 = 1000 := rfl
  rw [nearest, ofDigitChars_fixed, length_threeDigits, hpow]
  exact dif_pos h

def noThousandths : List Char := ['.', '0', '0', '0']

theorem noThousandths_suffix_fixed {n : Nat} :
    noThousandths <:+ (fixed false n).toList ↔ 1000 ∣ n := by
  have hdigits : '.' :: (threeDigits (n % 1000)).toList <:+ (fixed false n).toList :=
    ⟨_, (toList_fixed false n).symm⟩
  have hlength := length_threeDigits (n % 1000)
  constructor
  · intro h
    have hshort := List.suffix_of_suffix_length_le h hdigits (by simp [noThousandths, hlength])
    have heq := hshort.eq_of_length (by simp [noThousandths, hlength])
    have hvalue := ofDigitChars_fixed n
    rw [← List.tail_eq_of_cons_eq heq, Nat.ofDigitChars_append, Nat.ofDigitChars_ten_toDigits]
      at hvalue
    simp [Nat.ofDigitChars_cons] at hvalue
    omega
  · intro h
    rw [Nat.mod_eq_zero_of_dvd h] at hdigits
    exact hdigits

end Numeral

namespace Double

open Lexical Numeral

def Rescans (x y : Double) : Prop :=
  scan x.text = [⟨0, .atom (.number x.text (.double y))⟩, ⟨0, .endOfInput⟩]

variable {x y z : Double} {u : Nat}

theorem text_of_not_dvd (h : Representable u) (hint : ¬unitsPerOne ∣ u) :
    (finite false u h).text = fixed false (thousandths u) := text_fraction h hint

theorem Rescans.right_unique (hy : x.Rescans y) (hz : x.Rescans z) : y = z := by
  have heq := hy.symm.trans hz
  simpa using heq

theorem rescans_of_isNumeral (h : IsNumeral x.text.toList y) : x.Rescans y := by
  have hlexeme := Lexeme.number h.first h.chars (not_isNumeric_of_delimited delimited_nil) h.value
  rw [String.ofList_toList] at hlexeme
  exact tokens_single hlexeme 0

theorem rescans_whole (h : Representable u) (hint : unitsPerOne ∣ u) :
    (finite false u h).Rescans (finite false u h) := by
  obtain ⟨y, hy, hwhole⟩ := isNumeral_text u h
  have hy := rescans_of_isNumeral hy
  rwa [hwhole hint] at hy

def ofThousandths (h : Grid.OnGrid u) (hint : ¬unitsPerOne ∣ u) : Double :=
  finite false (nearestUnits (thousandths u))
    ⟨Grid.onGrid_nearest _ _, nearestUnits_lt_limit (thousandths_le h hint)⟩

theorem rescans_fraction (h : Representable u) (hint : ¬unitsPerOne ∣ u) :
    (finite false u h).Rescans (ofThousandths h.onGrid hint) := by
  have hlimit := nearestUnits_lt_limit (thousandths_le h.onGrid hint)
  have hnumeral := isNumeral_fixed (thousandths u)
  rw [nearest_fixed _ hlimit, ← text_of_not_dvd h hint] at hnumeral
  exact rescans_of_isNumeral hnumeral

theorem rescans_ofThousandths (h : Grid.OnGrid u) (hint : ¬unitsPerOne ∣ u) :
    (ofThousandths h hint).Rescans (ofThousandths h hint) := by
  have hagain : Representable (nearestUnits (thousandths u)) :=
    ⟨Grid.onGrid_nearest _ _, nearestUnits_lt_limit (thousandths_le h hint)⟩
  by_cases hwhole : unitsPerOne ∣ nearestUnits (thousandths u)
  · exact rescans_whole hagain hwhole
  · have hrescans := rescans_fraction hagain hwhole
    have hsame : ofThousandths hagain.onGrid hwhole = ofThousandths h hint := by
      simp only [ofThousandths, thousandths_nearestUnits h hint]
    rwa [hsame] at hrescans

theorem text_ofThousandths (h : Grid.OnGrid u) (hint : ¬unitsPerOne ∣ u)
    (hnone : ¬1000 ∣ thousandths u) :
    (ofThousandths h hint).text = fixed false (thousandths u) := by
  have hagain : ¬unitsPerOne ∣ nearestUnits (thousandths u) :=
    mt (unitsPerOne_dvd_nearestUnits h hint).mp hnone
  rw [ofThousandths, text_of_not_dvd _ hagain, thousandths_nearestUnits h hint]

theorem text_ofThousandths_of_dvd (h : Grid.OnGrid u) (hint : ¬unitsPerOne ∣ u)
    (hzeros : 1000 ∣ thousandths u) :
    (fixed false (thousandths u)).toList =
      (ofThousandths h hint).text.toList ++ noThousandths := by
  have hwhole := (unitsPerOne_dvd_nearestUnits h hint).mpr hzeros
  have hle := thousandths_le h hint
  obtain ⟨k, hk⟩ := hzeros
  have hcount : nearestUnits (thousandths u) / unitsPerOne = k := by
    rw [hk] at hle ⊢
    have hk : k ≤ twoPow 52 := Nat.le_of_mul_le_mul_left hle (by decide)
    rw [nearestUnits_mul (hk.trans (twoPow_le (by decide)))]
    exact Nat.mul_div_cancel k unitsPerOne_pos
  have hdigits : integer (signed false k) = k.repr := rfl
  rw [ofThousandths, text_whole _ hwhole, hcount, hdigits, Nat.toList_repr, hk, toList_fixed,
    Nat.mul_mod_right, Nat.mul_div_cancel_left k (by decide)]
  rfl

/-- `y` is what is scanned of the text of `x`, and scanned of its own text. The two texts are the
same but for `x` with zeros behind the point, which `y` is printed without. -/
structure Settles (x y : Double) : Prop where
  rescans : x.Rescans y
  again : y.Rescans y
  whole : x.IsInteger → y = x
  digits : ¬x.IsInteger → ¬noThousandths <:+ x.text.toList → y.text = x.text
  zeros : ¬x.IsInteger → noThousandths <:+ x.text.toList →
    x.text.toList = y.text.toList ++ noThousandths

theorem exists_settles (h : Representable u) :
    ∃ v hv, (finite false u h).Settles (finite false v hv) := by
  by_cases hint : unitsPerOne ∣ u
  · have hrescans := rescans_whole h hint
    exact ⟨u, h, hrescans, hrescans, fun _ => rfl, fun hne => absurd hint hne,
      fun hne => absurd hint hne⟩
  · refine ⟨_, _, rescans_fraction h hint, rescans_ofThousandths h.onGrid hint,
      fun hwhole => absurd hwhole hint, fun _ hnone => ?_, fun _ hzeros => ?_⟩
    · rw [text_of_not_dvd h hint, noThousandths_suffix_fixed] at hnone
      rw [text_of_not_dvd h hint]
      exact text_ofThousandths h.onGrid hint hnone
    · rw [text_of_not_dvd h hint] at hzeros ⊢
      exact text_ofThousandths_of_dvd h.onGrid hint (noThousandths_suffix_fixed.mp hzeros)

end Double
end MiniScheme
