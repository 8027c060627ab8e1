import Mathlib.Tactic.Linarith
import Mathlib.Tactic.Ring
import MiniScheme.Number.Basic

/-! How near rounding stays to the exact quotient. The error is at most half a step, and a quotient
that is nearer than that to a point goes there, so the bounds decide which quotients round to which
points and which of them are beyond all finite doubles. -/

namespace MiniScheme

section Quotients

variable {n d k : Nat}

theorem roundDiv_eq_of_near (hlow : 2 * n < 2 * (d * k) + d) (hhigh : 2 * (d * k) < 2 * n + d) :
    roundDiv n d = k := by
  have hd : 0 < d := by omega
  have hbelow := two_mul_le_roundDiv (n := n) hd
  have habove := roundDiv_le_two_mul n d
  have hle : d * roundDiv n d < d * (k + 1) := by
    rw [Nat.mul_succ]
    omega
  have hge : d * k < d * (roundDiv n d + 1) := by
    rw [Nat.mul_succ]
    omega
  exact Nat.le_antisymm (Nat.lt_succ_iff.mp (Nat.lt_of_mul_lt_mul_left hle))
    (Nat.lt_succ_iff.mp (Nat.lt_of_mul_lt_mul_left hge))

theorem div_le_roundDiv (n d : Nat) : n / d ≤ roundDiv n d := by
  unfold roundDiv
  dsimp only
  split
  · exact Nat.le_refl _
  · exact Nat.le_succ _

theorem roundDiv_le_of_le_mul (hd : 0 < d) (h : n ≤ d * k) : roundDiv n d ≤ k := by
  have habove := roundDiv_le_two_mul n d
  have hlt : d * roundDiv n d < d * (k + 1) := by
    rw [Nat.mul_succ]
    omega
  exact Nat.lt_succ_iff.mp (Nat.lt_of_mul_lt_mul_left hlt)

theorem even_roundDiv (hd : 0 < d)
    (h : 2 * n = 2 * (d * roundDiv n d) + d ∨ 2 * (d * roundDiv n d) = 2 * n + d) :
    Even (roundDiv n d) := by
  have hdiv := Nat.div_add_mod n d
  have hmod := Nat.mod_lt n hd
  rw [Nat.even_iff]
  unfold roundDiv at h ⊢
  dsimp only at h ⊢
  split at h
  · rename_i hdown
    rw [if_pos hdown]
    omega
  · rename_i hup
    rw [if_neg hup]
    rw [Nat.mul_succ] at h
    omega

end Quotients

namespace Grid

variable {n d e u : Nat}

theorem le_nearest_add (n : Nat) (hd : 0 < d) :
    2 * n ≤ 2 * (d * nearest n d) + d * spacing (n / d) := by
  have h := two_mul_le_roundDiv (n := n) (Nat.mul_pos hd (spacing_pos (n / d)))
  rwa [Nat.mul_assoc] at h

theorem nearest_le_add (n d : Nat) :
    2 * (d * nearest n d) ≤ 2 * n + d * spacing (n / d) := by
  have h := roundDiv_le_two_mul n (d * spacing (n / d))
  rwa [Nat.mul_assoc] at h

theorem spacing_le (h : u < twoPow (e + 53)) : spacing u ≤ twoPow e := by
  have hlog : u.log2 ≤ e + 52 := log2_le_of_lt h
  exact twoPow_le (by omega)

theorem spacing_eq (hlow : twoPow (e + 52) ≤ u) (hhigh : u < twoPow (e + 53)) :
    spacing u = twoPow e := by
  have hne : u ≠ 0 := (Nat.lt_of_lt_of_le (twoPow_pos _) hlow).ne'
  have hlog : u.log2 = e + 52 := (Nat.log2_eq_iff hne).mpr ⟨hlow, hhigh⟩
  rw [spacing, hlog, Nat.add_sub_cancel]

theorem nearest_mul_of_onGrid (hd : 0 < d) (h : OnGrid u) : nearest (d * u) d = u := by
  obtain ⟨k, hk⟩ := id h
  have hround : roundDiv (d * spacing u * k) (d * spacing u) = k :=
    roundDiv_mul_self (Nat.mul_pos hd (spacing_pos u)) k
  rw [Nat.mul_assoc, ← hk] at hround
  rw [nearest, Nat.mul_div_cancel_left u hd, hround]
  exact hk.symm

theorem twoPow_le_nearest (h : twoPow (e + 52) ≤ n / d) : twoPow (e + 52) ≤ nearest n d := by
  have hne : n / d ≠ 0 := (Nat.lt_of_lt_of_le (twoPow_pos _) h).ne'
  have hlog : e + 52 ≤ (n / d).log2 := (Nat.le_log2 hne).mpr h
  have hpow : twoPow (n / d).log2 = spacing (n / d) * twoPow 52 := by
    rw [spacing, ← twoPow_add, Nat.sub_add_cancel (by omega)]
  have hself : twoPow (n / d).log2 ≤ n / d := Nat.log2_self_le hne
  have hround : twoPow 52 ≤ roundDiv n (d * spacing (n / d)) := by
    refine Nat.le_trans ?_ (div_le_roundDiv _ _)
    rw [← Nat.div_div_eq_div_mul, Nat.le_div_iff_mul_le (spacing_pos _), Nat.mul_comm, ← hpow]
    exact hself
  calc twoPow (e + 52) ≤ twoPow (n / d).log2 := twoPow_le hlog
    _ = spacing (n / d) * twoPow 52 := hpow
    _ ≤ nearest n d := Nat.mul_le_mul_left _ hround

/-- A quotient that is no nearer to the last point below a power of two than to the power is not
rounded to that point: halfway between them it is odd and gets no half. -/
theorem twoPow_le_nearest_of_near (hd : 0 < d)
    (h : 2 * (d * twoPow (e + 53)) ≤ 2 * n + d * twoPow e) : twoPow (e + 53) ≤ nearest n d := by
  have hsplit : twoPow (e + 53) = twoPow e * 2 ^ 53 := twoPow_add e 53
  have hscaled : d * twoPow (e + 53) = d * twoPow e * 2 ^ 53 := by rw [hsplit, Nat.mul_assoc]
  have hlow : twoPow (e + 52) ≤ n / d := by
    have hhalf : d * twoPow (e + 52) = d * twoPow e * 2 ^ 52 := by
      rw [twoPow_add, Nat.mul_assoc]
      rfl
    rw [Nat.le_div_iff_mul_le hd, Nat.mul_comm, hhalf]
    omega
  by_cases hhigh : n / d < twoPow (e + 53)
  · by_contra hbelow
    have hpos : 0 < d * twoPow e := Nat.mul_pos hd (twoPow_pos e)
    rw [Nat.not_le, nearest, spacing_eq hlow hhigh, hsplit] at hbelow
    have hround : roundDiv n (d * twoPow e) < 2 ^ 53 := Nat.lt_of_mul_lt_mul_left hbelow
    have hle : d * twoPow e * roundDiv n (d * twoPow e) ≤ d * twoPow e * (2 ^ 53 - 1) :=
      Nat.mul_le_mul_left _ (Nat.le_sub_one_of_lt hround)
    have hhalf := two_mul_le_roundDiv (n := n) hpos
    have heq : roundDiv n (d * twoPow e) = 2 ^ 53 - 1 := by
      refine Nat.eq_of_mul_eq_mul_left hpos ?_
      omega
    have heven := even_roundDiv (n := n) hpos (by omega)
    rw [heq] at heven
    exact absurd heven (by decide)
  · have hpow : twoPow (e + 1 + 52) ≤ nearest n d :=
      twoPow_le_nearest (by rw [Nat.add_assoc]; exact Nat.not_lt.mp hhigh)
    rwa [Nat.add_assoc] at hpow

theorem nearest_lt_twoPow (h : 2 * n + d * twoPow e < 2 * (d * twoPow (e + 53))) :
    nearest n d < twoPow (e + 53) := by
  have hscaled : d * twoPow (e + 53) = d * twoPow e * 2 ^ 53 := by
    rw [twoPow_add, Nat.mul_assoc]
    rfl
  have hquot : n / d < twoPow (e + 53) := by
    refine Nat.div_lt_of_lt_mul ?_
    omega
  have hstep : d * spacing (n / d) ≤ d * twoPow e := Nat.mul_le_mul_left d (spacing_le hquot)
  have habove := nearest_le_add n d
  refine Nat.lt_of_mul_lt_mul_left (a := d) ?_
  omega

theorem nearest_lt_twoPow_iff (hd : 0 < d) :
    nearest n d < twoPow (e + 53) ↔ 2 * n + d * twoPow e < 2 * (d * twoPow (e + 53)) := by
  refine ⟨fun h => ?_, nearest_lt_twoPow⟩
  by_contra hge
  exact absurd h (Nat.not_lt.mpr (twoPow_le_nearest_of_near hd (Nat.not_lt.mp hge)))

theorem nearest_eq_of_near (hpos : 0 < d) (hpoint : twoPow e ∣ u) (hlow : twoPow (e + 52) < u)
    (hhigh : u < twoPow (e + 53)) (hbelow : 2 * (d * u) < 2 * n + d * twoPow e)
    (habove : 2 * n < 2 * (d * u) + d * twoPow e) : nearest n d = u := by
  obtain ⟨k, rfl⟩ := hpoint
  have hstep : twoPow (e + 52) + twoPow e ≤ twoPow e * k := by
    rw [twoPow_add] at hlow ⊢
    rw [← Nat.mul_succ]
    exact Nat.mul_le_mul_left _ (Nat.lt_of_mul_lt_mul_left hlow)
  have hlast : twoPow e * k + twoPow e ≤ twoPow (e + 53) := by
    rw [twoPow_add] at hhigh ⊢
    rw [← Nat.mul_succ]
    exact Nat.mul_le_mul_left _ (Nat.lt_of_mul_lt_mul_left hhigh)
  have hspacing : spacing (n / d) = twoPow e := by
    have hscaled := Nat.mul_le_mul_left d hstep
    have hscaled' := Nat.mul_le_mul_left d hlast
    rw [Nat.mul_add] at hscaled hscaled'
    refine spacing_eq ?_ (Nat.div_lt_of_lt_mul ?_)
    · rw [Nat.le_div_iff_mul_le hpos, Nat.mul_comm]
      omega
    · omega
  rw [nearest, hspacing, roundDiv_eq_of_near (k := k)]
  · rwa [Nat.mul_assoc]
  · rwa [Nat.mul_assoc]

end Grid

theorem unitsPerOne_dvd_nearest (k : Nat) : unitsPerOne ∣ Grid.nearest (k * unitsPerOne) 1 := by
  rcases Nat.le_total ((k * unitsPerOne).log2 - 52) 1074 with hfine | hcoarse
  · have hgrid : Grid.OnGrid (k * unitsPerOne) :=
      Nat.dvd_trans (twoPow_dvd hfine) (Nat.dvd_mul_left _ _)
    rw [Grid.nearest_of_onGrid hgrid]
    exact Nat.dvd_mul_left _ _
  · rw [Grid.nearest, Nat.div_one]
    exact Nat.dvd_trans (twoPow_dvd hcoarse) (Nat.dvd_mul_right _ _)

namespace Double

theorem ofQuotient_isFinite_iff {s : Bool} {n d : Nat} :
    (ofQuotient s n d).isFinite = true ↔ Grid.nearest n d < unitsLimit := by
  unfold ofQuotient
  split
  · exact iff_of_true rfl ‹_›
  · exact iff_of_false nofun ‹_›

theorem ofQuotient_isFinite_iff_lt {s : Bool} {n d : Nat} (hd : 0 < d) :
    (ofQuotient s (n * unitsPerOne) d).isFinite = true ↔ n + d * twoPow 970 < d * twoPow 1024 := by
  have hlimit : unitsLimit = twoPow (2045 + 53) := rfl
  have hend : unitsLimit = unitsPerOne * twoPow 1024 := by
    have hsum : 2098 = 1074 + 1024 := rfl
    rw [unitsLimit, unitsPerOne, hsum, twoPow_add]
  have hstep : twoPow 2045 = 2 * unitsPerOne * twoPow 970 := by
    have hsum : 2045 = 1 + 1074 + 970 := rfl
    have htwo : twoPow 1 = 2 := rfl
    rw [unitsPerOne, hsum, twoPow_add, twoPow_add, htwo]
  rw [ofQuotient_isFinite_iff, hlimit, Grid.nearest_lt_twoPow_iff hd, ← hlimit, hstep, hend]
  have hleft : 2 * (n * unitsPerOne) + d * (2 * unitsPerOne * twoPow 970) =
      2 * unitsPerOne * (n + d * twoPow 970) := by ring
  have hright : 2 * (d * (unitsPerOne * twoPow 1024)) = 2 * unitsPerOne * (d * twoPow 1024) := by
    ring
  rw [hleft, hright]
  exact Nat.mul_lt_mul_left (Nat.mul_pos Nat.two_pos unitsPerOne_pos)

theorem ofInt_isFinite_iff {n : Int} :
    (ofInt n).isFinite = true ↔ n.natAbs < twoPow 1024 - twoPow 970 := by
  rw [ofInt, ofQuotient_isFinite_iff_lt Nat.one_pos, Nat.one_mul, Nat.one_mul,
    Nat.lt_sub_iff_add_lt]

end Double
end MiniScheme
