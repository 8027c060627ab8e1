/-! Rounding of exact quotients. A quotient of naturals goes to the nearest integer, a half to
the even neighbour; a quotient counted in units goes to the nearest point of a grid whose
spacing keeps 53 significant binary digits. -/

namespace MiniScheme

def twoPow (k : Nat) : Nat := Nat.pow 2 k

theorem twoPow_pos (k : Nat) : 0 < twoPow k := Nat.two_pow_pos k

theorem twoPow_add (j k : Nat) : twoPow (j + k) = twoPow j * twoPow k := Nat.pow_add 2 j k

theorem twoPow_dvd {j k : Nat} (h : j ≤ k) : twoPow j ∣ twoPow k := Nat.pow_dvd_pow 2 h

theorem twoPow_le {j k : Nat} (h : j ≤ k) : twoPow j ≤ twoPow k :=
  Nat.le_of_dvd (twoPow_pos k) (twoPow_dvd h)

def roundDiv (n d : Nat) : Nat :=
  let q := n / d
  let twice := 2 * (n % d)
  if twice < d ∨ (twice = d ∧ q % 2 = 0) then q else q + 1

theorem roundDiv_le (n d : Nat) : roundDiv n d ≤ n / d + 1 := by
  unfold roundDiv
  dsimp only
  split <;> omega

theorem two_mul_le_roundDiv {n d : Nat} (hd : 0 < d) : 2 * n ≤ 2 * (d * roundDiv n d) + d := by
  have hdiv := Nat.div_add_mod n d
  have hmod := Nat.mod_lt n hd
  unfold roundDiv
  dsimp only
  split
  · omega
  · rw [Nat.mul_add]
    omega

theorem roundDiv_le_two_mul (n d : Nat) : 2 * (d * roundDiv n d) ≤ 2 * n + d := by
  have hdiv := Nat.div_add_mod n d
  unfold roundDiv
  dsimp only
  split
  · omega
  · rw [Nat.mul_add]
    omega

theorem roundDiv_mul_self {d : Nat} (hd : 0 < d) (k : Nat) : roundDiv (d * k) d = k := by
  simp [roundDiv, Nat.mul_div_cancel_left k hd, hd]

namespace Grid

/-- The distance between neighbouring points of the grid near `u` units: one unit while 53
binary digits hold `u`, and twice as much with every further digit. -/
def spacing (u : Nat) : Nat := twoPow (u.log2 - 52)

theorem spacing_pos (u : Nat) : 0 < spacing u := twoPow_pos _

def OnGrid (u : Nat) : Prop := spacing u ∣ u

instance (u : Nat) : Decidable (OnGrid u) := inferInstanceAs (Decidable (spacing u ∣ u))

def nearest (n d : Nat) : Nat :=
  let s := spacing (n / d)
  s * roundDiv n (d * s)

theorem spacing_dvd_twoPow {u e : Nat} (h : u.log2 ≤ e + 52) : spacing u ∣ twoPow e :=
  twoPow_dvd (by omega)

theorem log2_le_of_lt {u k : Nat} (h : u < twoPow (k + 1)) : u.log2 ≤ k := by
  by_cases hu : u = 0
  · subst hu
    simp [Nat.log2_zero]
  · exact Nat.lt_succ_iff.1 ((Nat.log2_lt hu).2 h)

theorem lt_twoPow_log2 (u : Nat) : u < twoPow (u.log2 + 1) := Nat.lt_log2_self

theorem lt_mul_spacing (q : Nat) : q < twoPow 53 * spacing q := by
  unfold spacing
  rw [← twoPow_add]
  exact Nat.lt_of_lt_of_le (lt_twoPow_log2 q) (twoPow_le (by omega))

theorem onGrid_mul {e r : Nat} (hr : r ≤ twoPow 53) : OnGrid (twoPow e * r) := by
  unfold OnGrid
  rcases Nat.lt_or_eq_of_le hr with h | h
  · refine Nat.dvd_trans (spacing_dvd_twoPow (log2_le_of_lt ?_)) (Nat.dvd_mul_right _ _)
    rw [Nat.add_assoc, twoPow_add]
    exact Nat.mul_lt_mul_of_pos_left h (twoPow_pos e)
  · subst h
    rw [← twoPow_add]
    refine Nat.dvd_trans (spacing_dvd_twoPow (e := e + 1) ?_) (twoPow_dvd (by omega))
    exact Nat.le_of_eq Nat.log2_two_pow

theorem roundDiv_spacing_le (n d : Nat) : roundDiv n (d * spacing (n / d)) ≤ twoPow 53 := by
  refine Nat.le_trans (roundDiv_le _ _) ?_
  rw [← Nat.div_div_eq_div_mul]
  refine Nat.succ_le_of_lt (Nat.div_lt_of_lt_mul ?_)
  rw [Nat.mul_comm]
  exact lt_mul_spacing (n / d)

theorem onGrid_nearest (n d : Nat) : OnGrid (nearest n d) :=
  onGrid_mul (roundDiv_spacing_le n d)

theorem nearest_of_onGrid {u : Nat} (h : OnGrid u) : nearest u 1 = u := by
  obtain ⟨k, hk⟩ := h
  have hr : roundDiv u (spacing u) = k := by
    have h := roundDiv_mul_self (spacing_pos u) k
    rwa [← hk] at h
  simp only [nearest, Nat.div_one, Nat.one_mul, hr]
  exact hk.symm

end Grid

end MiniScheme
