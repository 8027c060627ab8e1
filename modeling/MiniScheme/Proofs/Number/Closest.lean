import Mathlib.Algebra.Order.Field.Basic
import Mathlib.Algebra.Order.Field.Rat
import Mathlib.Data.List.TakeWhile
import Mathlib.Data.Rat.Cast.Order
import MiniScheme.Number.Decimal
import MiniScheme.Proofs.Number.Nearest

/-! The double that a rational becomes. No finite double is closer to it, and of two that are
equally close it is the one whose significand is even; from the middle between the largest finite
double and the next power of two on it is infinite. There is one such double, and rounding finds
it. -/

namespace MiniScheme

/-- How far `v` is from `n / d`, in parts of which `d` make one. -/
def gap (n d v : Nat) : Nat := (((d * v : Nat) : Int) - n).natAbs

section Quotients

variable {n d k : Nat}

theorem two_mul_gap_roundDiv_le (hd : 0 < d) : 2 * gap n d (roundDiv n d) ≤ d := by
  have hbelow := two_mul_le_roundDiv (n := n) hd
  have habove := roundDiv_le_two_mul n d
  unfold gap
  omega

theorem le_two_mul_gap (hd : 0 < d) (hne : k ≠ roundDiv n d) : d ≤ 2 * gap n d k := by
  have hbelow := two_mul_le_roundDiv (n := n) hd
  have habove := roundDiv_le_two_mul n d
  unfold gap
  rcases Nat.lt_or_gt_of_ne hne with hlt | hgt
  · have hstep := Nat.mul_le_mul_left d (Nat.succ_le_of_lt hlt)
    rw [Nat.mul_succ] at hstep
    omega
  · have hstep := Nat.mul_le_mul_left d (Nat.succ_le_of_lt hgt)
    rw [Nat.mul_succ] at hstep
    omega

theorem gap_roundDiv_le (hd : 0 < d) (k : Nat) : gap n d (roundDiv n d) ≤ gap n d k := by
  by_cases hk : k = roundDiv n d
  · rw [hk]
  · have hhalf := two_mul_gap_roundDiv_le (n := n) hd
    have hother := le_two_mul_gap hd hk
    omega

theorem even_roundDiv_of_gap_eq (hd : 0 < d) (hne : k ≠ roundDiv n d)
    (heq : gap n d k = gap n d (roundDiv n d)) : Even (roundDiv n d) := by
  have hhalf := two_mul_gap_roundDiv_le (n := n) hd
  have hother := le_two_mul_gap hd hne
  refine even_roundDiv hd ?_
  rw [heq] at hother
  unfold gap at hhalf hother
  omega

end Quotients

namespace Grid

variable {n d u v : Nat}

def EvenSignificand (u : Nat) : Prop := ∃ m e, Even m ∧ m < 2 ^ 53 ∧ u = twoPow e * m

theorem exists_between (hu : EvenSignificand u) (hv : EvenSignificand v) (hlt : u < v) :
    ∃ w, OnGrid w ∧ u < w ∧ w < v := by
  obtain ⟨m, e, hm, hm53, rfl⟩ := hu
  obtain ⟨n, f, hn, hn53, rfl⟩ := hv
  have hgap : ∀ {a b : Nat}, Even a → Even b → a < b → a + 1 < b := by
    rintro _ _ ⟨a, rfl⟩ ⟨b, rfl⟩ hab
    omega
  rcases Nat.le_total e f with hle | hle
  · obtain ⟨g, rfl⟩ := Nat.exists_eq_add_of_le hle
    rw [twoPow_add, Nat.mul_assoc] at hlt ⊢
    have hone := hgap hm (hn.mul_left (twoPow g)) (Nat.lt_of_mul_lt_mul_left hlt)
    exact ⟨twoPow e * (m + 1), onGrid_mul hm53,
      Nat.mul_lt_mul_of_pos_left (Nat.lt_succ_self m) (twoPow_pos e),
      Nat.mul_lt_mul_of_pos_left hone (twoPow_pos e)⟩
  · obtain ⟨g, rfl⟩ := Nat.exists_eq_add_of_le hle
    rw [twoPow_add, Nat.mul_assoc] at hlt ⊢
    have hone := hgap (hm.mul_left (twoPow g)) hn (Nat.lt_of_mul_lt_mul_left hlt)
    refine ⟨twoPow f * (n - 1), onGrid_mul ?_,
      Nat.mul_lt_mul_of_pos_left (by omega) (twoPow_pos f),
      Nat.mul_lt_mul_of_pos_left (by omega) (twoPow_pos f)⟩
    exact (Nat.sub_le n 1).trans hn53.le

theorem spacing_dvd_or_lt (n d : Nat) (hv : OnGrid v) :
    spacing (n / d) ∣ v ∨ ∃ k, v < spacing (n / d) * k ∧ d * (spacing (n / d) * k) ≤ n := by
  rcases Nat.lt_or_ge (n / d).log2 52 with hfine | hcoarse
  · left
    have hone : spacing (n / d) = 1 := by
      rw [spacing, Nat.sub_eq_zero_of_le hfine.le]
      rfl
    rw [hone]
    exact Nat.one_dvd v
  · by_cases hlow : v < twoPow (n / d).log2
    · right
      have hpow : spacing (n / d) * twoPow 52 = twoPow (n / d).log2 := by
        rw [spacing, ← twoPow_add, Nat.sub_add_cancel hcoarse]
      have hne : n / d ≠ 0 := by
        intro h
        rw [h] at hcoarse
        exact absurd hcoarse (by decide)
      refine ⟨twoPow 52, hpow ▸ hlow, ?_⟩
      rw [hpow]
      exact (Nat.mul_le_mul_left d (Nat.log2_self_le hne)).trans (Nat.mul_div_le n d)
    · left
      have hlog : (n / d).log2 ≤ v.log2 := by
        refine (Nat.le_log2 ?_).mpr (Nat.not_lt.mp hlow)
        exact (Nat.lt_of_lt_of_le (twoPow_pos _) (Nat.not_lt.mp hlow)).ne'
      exact Nat.dvd_trans (twoPow_dvd (by omega)) hv

theorem gap_mul (n d s k : Nat) : gap n d (s * k) = gap n (d * s) k := by
  rw [gap, gap, Nat.mul_assoc]

theorem gap_lt_of_lt {w : Nat} (hd : 0 < d) (hlt : v < w) (hle : d * w ≤ n) :
    gap n d w < gap n d v := by
  have hstep := Nat.mul_lt_mul_of_pos_left hlt hd
  unfold gap
  omega

theorem gap_nearest_le_mul (n : Nat) (hd : 0 < d) (k : Nat) :
    gap n d (nearest n d) ≤ gap n d (spacing (n / d) * k) := by
  have h := gap_roundDiv_le (n := n) (Nat.mul_pos hd (spacing_pos (n / d))) k
  rwa [← gap_mul, ← gap_mul] at h

theorem gap_nearest_le (n : Nat) (hd : 0 < d) (hv : OnGrid v) :
    gap n d (nearest n d) ≤ gap n d v := by
  rcases spacing_dvd_or_lt n d hv with ⟨k, rfl⟩ | ⟨k, hlt, hle⟩
  · exact gap_nearest_le_mul n hd k
  · exact (gap_nearest_le_mul n hd k).trans (gap_lt_of_lt hd hlt hle).le

theorem evenSignificand_mul {e r : Nat} (hr : Even r) (hle : r ≤ 2 ^ 53) :
    EvenSignificand (twoPow e * r) := by
  rcases Nat.lt_or_eq_of_le hle with hlt | rfl
  · exact ⟨r, e, hr, hlt, rfl⟩
  · refine ⟨2 ^ 52, e + 1, by decide, by decide, ?_⟩
    rw [twoPow_add, Nat.mul_assoc]
    rfl

theorem evenSignificand_nearest (hd : 0 < d) (hv : OnGrid v) (hne : v ≠ nearest n d)
    (heq : gap n d v = gap n d (nearest n d)) : EvenSignificand (nearest n d) := by
  rcases spacing_dvd_or_lt n d hv with ⟨k, rfl⟩ | ⟨k, hlt, hle⟩
  · have heven : Even (roundDiv n (d * spacing (n / d))) := by
      refine even_roundDiv_of_gap_eq (k := k) (Nat.mul_pos hd (spacing_pos _)) ?_ ?_
      · rintro rfl
        exact hne rfl
      · rw [← gap_mul, heq, nearest, gap_mul]
    exact evenSignificand_mul heven (roundDiv_spacing_le n d)
  · have hlt := gap_lt_of_lt hd hlt hle
    exact absurd (gap_nearest_le_mul n hd k) (Nat.not_le.mpr (heq ▸ hlt))

end Grid

theorem cast_twoPow (k : Nat) : (twoPow k : ℚ) = 2 ^ k := Nat.cast_pow 2 k

namespace Double

variable {q : ℚ} {u v w n d : Nat} {x y : Double}

def distance (q : ℚ) (u : Nat) : ℚ := |u / unitsPerOne - q|

structure IsClosest (q : ℚ) (u : Nat) : Prop where
  least : ∀ v, Representable v → distance q u ≤ distance q v
  even : ∀ v, Representable v → v ≠ u → distance q v = distance q u → Grid.EvenSignificand u

inductive IsNearest (q : ℚ) : Double → Prop
  | finite {u : Nat} (h : Representable u) (hclosest : IsClosest q u)
      (hrange : q < 2 ^ 1024 - 2 ^ 970) : IsNearest q (.finite false u h)
  | infinite (hrange : 2 ^ 1024 - 2 ^ 970 ≤ q) : IsNearest q (.infinite false)

theorem distance_lt_of_between (heq : distance q v = distance q u) (hlow : u < w) (hhigh : w < v) :
    distance q w < distance q u := by
  have hpos : (0 : ℚ) < unitsPerOne := Nat.cast_pos.mpr unitsPerOne_pos
  have huw : (u / unitsPerOne : ℚ) < w / unitsPerOne :=
    div_lt_div_of_pos_right (Nat.cast_lt.mpr hlow) hpos
  have hwv : (w / unitsPerOne : ℚ) < v / unitsPerOne :=
    div_lt_div_of_pos_right (Nat.cast_lt.mpr hhigh) hpos
  unfold distance at heq ⊢
  rcases abs_eq_abs.mp heq with heq | heq
  · linarith
  · have hneg : (u / unitsPerOne - q : ℚ) < 0 := by linarith
    rw [abs_of_neg hneg, abs_lt]
    constructor <;> linarith

theorem IsClosest.le (hu : IsClosest q u) (hv : IsClosest q v) (hu' : Representable u)
    (hv' : Representable v) : u ≤ v := by
  by_contra hlt
  rw [Nat.not_le] at hlt
  -- both would be even, and then the point between them is closer
  have heq : distance q u = distance q v := (hu.least v hv').antisymm (hv.least u hu')
  obtain ⟨w, hw, hlow, hhigh⟩ := Grid.exists_between (hv.even u hu' hlt.ne' heq)
    (hu.even v hv' hlt.ne heq.symm) hlt
  have hleast := hv.least w ⟨hw, hhigh.trans hu'.lt_limit⟩
  exact absurd (distance_lt_of_between heq hlow hhigh) (not_lt.mpr hleast)

theorem IsNearest.unique (hx : IsNearest q x) (hy : IsNearest q y) : x = y := by
  cases hx with
  | finite hu hx hrange =>
    cases hy with
    | finite hv hy _ =>
      obtain rfl := Nat.le_antisymm (hx.le hy hu hv) (hy.le hx hv hu)
      rfl
    | infinite hrange' => exact absurd hrange (not_lt.mpr hrange')
  | infinite hrange =>
    cases hy with
    | finite _ _ hrange' => exact absurd hrange' (not_lt.mpr hrange)
    | infinite => rfl

theorem distance_eq (n : Nat) (hd : 0 < d) (u : Nat) :
    distance (n / d) u = gap (n * unitsPerOne) d u / (d * unitsPerOne) := by
  have hpos : (0 : ℚ) < d * unitsPerOne :=
    mul_pos (Nat.cast_pos.mpr hd) (Nat.cast_pos.mpr unitsPerOne_pos)
  have hne : (d : ℚ) ≠ 0 := Nat.cast_ne_zero.mpr hd.ne'
  have hne' : (unitsPerOne : ℚ) ≠ 0 := Nat.cast_ne_zero.mpr unitsPerOne_pos.ne'
  have hsub : (u / unitsPerOne - n / d : ℚ) =
      (((d * u : Nat) : Int) - (n * unitsPerOne : Nat) : Int) / (d * unitsPerOne) := by
    push_cast
    rw [div_sub_div _ _ hne' hne, mul_comm (unitsPerOne : ℚ) d, mul_comm (u : ℚ) d,
      mul_comm (unitsPerOne : ℚ) n]
  rw [distance, hsub, abs_div, abs_of_pos hpos, gap, Nat.cast_natAbs, Int.cast_abs]

theorem isClosest_nearest (n : Nat) (hd : 0 < d) :
    IsClosest (n / d) (Grid.nearest (n * unitsPerOne) d) := by
  have hpos : (0 : ℚ) < d * unitsPerOne :=
    mul_pos (Nat.cast_pos.mpr hd) (Nat.cast_pos.mpr unitsPerOne_pos)
  constructor
  · intro v hv
    rw [distance_eq n hd, distance_eq n hd, div_le_div_iff_of_pos_right hpos, Nat.cast_le]
    exact Grid.gap_nearest_le _ hd hv.onGrid
  · intro v hv hne heq
    rw [distance_eq n hd, distance_eq n hd, div_left_inj' hpos.ne', Nat.cast_inj] at heq
    exact Grid.evenSignificand_nearest hd hv.onGrid hne heq

theorem isNearest_ofQuotient (n : Nat) (hd : 0 < d) :
    IsNearest (n / d) (ofQuotient false (n * unitsPerOne) d) := by
  have hpos : (0 : ℚ) < d := Nat.cast_pos.mpr hd
  have hfinite := ofQuotient_isFinite_iff_lt (s := false) (n := n) hd
  have hrange : n + d * twoPow 970 < d * twoPow 1024 ↔ (n / d : ℚ) < 2 ^ 1024 - 2 ^ 970 := by
    rw [div_lt_iff₀ hpos, sub_mul, lt_sub_iff_add_lt, ← cast_twoPow, ← cast_twoPow,
      mul_comm _ (d : ℚ), mul_comm _ (d : ℚ)]
    exact_mod_cast Iff.rfl
  rw [hrange] at hfinite
  unfold ofQuotient at hfinite ⊢
  split at hfinite
  · rename_i h
    rw [dif_pos h]
    exact .finite _ (isClosest_nearest n hd) (hfinite.mp rfl)
  · rename_i h
    rw [dif_neg h]
    exact .infinite (not_lt.mp fun hlt => absurd (hfinite.mpr hlt) Bool.false_ne_true)

end Double

namespace Numeral

def unsigned? (cs : List Char) : Option ℚ :=
  let whole := cs.takeWhile (· != '.')
  let fraction := (cs.dropWhile (· != '.')).tail
  if whole ≠ [] ∧ (whole ++ fraction).all Char.isDigit then
    some (Nat.ofDigitChars 10 (whole ++ fraction) 0 / 10 ^ fraction.length)
  else none

variable {ds ws fs : List Char}

theorem ne_point_of_isDigit {c : Char} (h : c.isDigit = true) : (c != '.') = true := by
  rw [bne_iff_ne]
  rintro rfl
  exact absurd h (by decide)

theorem unsigned?_fraction (hne : ws ≠ []) (hdigits : (ws ++ fs).all Char.isDigit = true) :
    unsigned? (ws ++ '.' :: fs) = some (Nat.ofDigitChars 10 (ws ++ fs) 0 / 10 ^ fs.length : ℚ) := by
  have hall : ∀ c ∈ ws, (c != '.') = true := fun c hc =>
    ne_point_of_isDigit (List.all_eq_true.mp hdigits c (List.mem_append_left fs hc))
  have htake : (ws ++ '.' :: fs).takeWhile (· != '.') = ws := by
    simp [List.takeWhile_append_of_pos hall]
  have hdrop : (ws ++ '.' :: fs).dropWhile (· != '.') = '.' :: fs := by
    simp [List.dropWhile_append_of_pos hall]
  rw [unsigned?, htake, hdrop, List.tail_cons, if_pos ⟨hne, hdigits⟩]

theorem unsigned?_whole (hne : ds ≠ []) (hdigits : ds.all Char.isDigit = true) :
    unsigned? ds = some (Nat.ofDigitChars 10 ds 0 : ℚ) := by
  have hall : ∀ c ∈ ds, (c != '.') = true := fun c hc =>
    ne_point_of_isDigit (List.all_eq_true.mp hdigits c hc)
  have htake : ds.takeWhile (· != '.') = ds := List.takeWhile_eq_self_iff.mpr hall
  have hdrop : ds.dropWhile (· != '.') = [] := List.dropWhile_eq_nil_iff.mpr hall
  rw [unsigned?, htake, hdrop, List.tail_nil, List.append_nil, if_pos ⟨hne, hdigits⟩]
  simp

theorem isNearest_nearest (ws fs : List Char) :
    (nearest ws fs).IsNearest (Nat.ofDigitChars 10 (ws ++ fs) 0 / 10 ^ fs.length) := by
  have hpos : 0 < Nat.pow 10 fs.length := Nat.pow_pos (by decide)
  have hcast : ((Nat.pow 10 fs.length : Nat) : ℚ) = 10 ^ fs.length := Nat.cast_pow 10 fs.length
  rw [← hcast]
  exact Double.isNearest_ofQuotient _ hpos

end Numeral

end MiniScheme
