import Mathlib.Algebra.Group.Int.Even
import Mathlib.Algebra.Order.Field.Basic
import Mathlib.Tactic.FieldSimp
import Mathlib.Tactic.Linarith
import Mathlib.Tactic.Ring
import MiniScheme.Proofs.Number.Exact
import MiniScheme.Proofs.Number.Nearest
import MiniScheme.Proofs.Number.Written
import MiniScheme.Proofs.Run.Except

/-! What the text of a number tells about its exact value. Whole numbers are told exactly, and all
others by the nearest count of thousandths, so that texts stand in the order of the numbers. -/

namespace MiniScheme

structure IsRounded (q : ℚ) (k : ℤ) : Prop where
  near : |(k : ℚ) / 1000 - q| ≤ 1 / 2000
  even : |(k : ℚ) / 1000 - q| = 1 / 2000 → Even k

namespace IsRounded

variable {p q : ℚ} {j k : ℤ}

theorem half_le_of_ne (h : IsRounded q k) (hne : j ≠ k) : 1 / 2000 ≤ |(j : ℚ) / 1000 - q| := by
  have hstep : (1 : ℚ) ≤ |(j : ℚ) - k| := by
    have hint : (1 : ℤ) ≤ |j - k| := Int.one_le_abs (sub_ne_zero.mpr hne)
    exact_mod_cast hint
  have hapart : 1 / 1000 ≤ |((j : ℚ) / 1000 - q) - (k / 1000 - q)| := by
    have heq : ((j : ℚ) / 1000 - q) - (k / 1000 - q) = (j - k) / 1000 := by ring
    rw [heq, abs_div, abs_of_pos (by norm_num : (0 : ℚ) < 1000)]
    exact div_le_div_of_nonneg_right hstep (by norm_num)
  have htriangle := abs_sub ((j : ℚ) / 1000 - q) (k / 1000 - q)
  linarith [h.near]

theorem least (h : IsRounded q k) (j : ℤ) : |(k : ℚ) / 1000 - q| ≤ |(j : ℚ) / 1000 - q| := by
  by_cases hne : j = k
  · rw [hne]
  · exact h.near.trans (h.half_le_of_ne hne)

theorem even_of_eq (h : IsRounded q k) (hne : j ≠ k)
    (heq : |(j : ℚ) / 1000 - q| = |(k : ℚ) / 1000 - q|) : Even k :=
  h.even (le_antisymm h.near (heq ▸ h.half_le_of_ne hne))

theorem mono (hp : IsRounded p j) (hq : IsRounded q k) (hpq : p ≤ q) : j ≤ k := by
  by_contra hlt
  have hnext : k + 1 ≤ j := by omega
  have hcast : (k : ℚ) + 1 ≤ j := by exact_mod_cast hnext
  have hbelow := (abs_le.mp hp.near).2
  have habove := (abs_le.mp hq.near).1
  have hj : (j : ℚ) / 1000 - p = 1 / 2000 := by linarith
  have hk : (k : ℚ) / 1000 - q = -(1 / 2000) := by linarith
  have heq : (j : ℚ) = k + 1 := by linarith
  have hevenj := hp.even (by rw [hj]; norm_num)
  have hevenk := hq.even (by rw [hk]; norm_num)
  obtain rfl : j = k + 1 := by exact_mod_cast heq
  exact Int.even_add_one.mp hevenj hevenk

theorem ofInt (n : ℤ) : IsRounded n (1000 * n) := by
  have hexact : ((1000 * n : ℤ) : ℚ) / 1000 - n = 0 := by
    push_cast
    ring
  constructor <;> rw [hexact, abs_zero] <;> norm_num

theorem neg (h : IsRounded q k) : IsRounded (-q) (-k) := by
  have hdist : |((-k : ℤ) : ℚ) / 1000 - -q| = |(k : ℚ) / 1000 - q| := by
    rw [← abs_neg, Int.cast_neg]
    ring_nf
  refine ⟨hdist.trans_le h.near, fun heq => ?_⟩
  rw [hdist] at heq
  exact (h.even heq).neg

theorem roundDiv (u : Nat) {d : Nat} (hd : 0 < d) :
    IsRounded (u / d) (MiniScheme.roundDiv (u * 1000) d) := by
  have hpos : (0 : ℚ) < d := by exact_mod_cast hd
  have hbelow := two_mul_le_roundDiv (n := u * 1000) hd
  have habove := roundDiv_le_two_mul (u * 1000) d
  have hhalf := even_roundDiv (n := u * 1000) hd
  generalize MiniScheme.roundDiv (u * 1000) d = r at hbelow habove hhalf
  -- the error counted in halves of a thousandth, which `d` of them make a whole
  have herror : ((r : ℤ) : ℚ) / 1000 - u / d = (2 * (d * r) - 2 * (u * 1000)) / d / 2000 := by
    rw [Int.cast_natCast]
    field_simp
    ring
  have hlow : (-1 : ℚ) ≤ (2 * (d * r) - 2 * (u * 1000)) / d := by
    have hcast : (2 * (u * 1000) : ℚ) ≤ 2 * (d * r) + d := by exact_mod_cast hbelow
    rw [le_div_iff₀ hpos]
    linarith
  have hhigh : ((2 * (d * r) - 2 * (u * 1000)) / d : ℚ) ≤ 1 := by
    have hcast : (2 * (d * r) : ℚ) ≤ 2 * (u * 1000) + d := by exact_mod_cast habove
    rw [div_le_one hpos]
    linarith
  refine ⟨?_, fun htie => ?_⟩
  · rw [herror, abs_le]
    constructor <;> linarith
  · rw [herror, abs_eq (by norm_num)] at htie
    rw [Int.even_coe_nat]
    refine hhalf ?_
    rcases htie with htie | htie
    · have hone : (2 * (d * r) - 2 * (u * 1000)) / d = (1 : ℚ) := by linarith
      rw [div_eq_iff hpos.ne', one_mul] at hone
      have hcast : (2 * (d * r) : ℚ) = 2 * (u * 1000) + d := by linarith
      exact .inr (by exact_mod_cast hcast)
    · have hone : (2 * (d * r) - 2 * (u * 1000)) / d = (-1 : ℚ) := by linarith
      rw [div_eq_iff hpos.ne'] at hone
      have hcast : (2 * (u * 1000) : ℚ) = 2 * (d * r) + d := by linarith
      exact .inl (by exact_mod_cast hcast)

theorem signed (s : Bool) (u : Nat) {d : Nat} (hd : 0 < d) :
    IsRounded (Double.signed s u / d)
      (Double.signed s (MiniScheme.roundDiv (u * 1000) d)) := by
  have h := IsRounded.roundDiv u hd
  cases s with
  | false => simpa [Double.signed] using h
  | true => simpa [Double.signed, neg_div] using h.neg

end IsRounded

open Numeral

structure WritesWhole (q : ℚ) (text : List Char) : Prop where
  rational : rational? text = some q
  form : ∃ ds, IsPlain ds ∧ text = signText (q < 0) ++ ds

structure WritesRounded (q : ℚ) (text : List Char) : Prop where
  rational : ∃ k : ℤ, rational? text = some ((k : ℚ) / 1000) ∧
    |(k : ℚ) / 1000 - q| ≤ 1 / 2000 ∧
    ∀ j : ℤ, |(k : ℚ) / 1000 - q| ≤ |(j : ℚ) / 1000 - q| ∧
      (j ≠ k → |(j : ℚ) / 1000 - q| = |(k : ℚ) / 1000 - q| → EndsEven text)
  form : ∃ ws fs, IsPlain ws ∧ (∀ c ∈ fs, Lexical.IsDigit c) ∧ fs.length = 3 ∧
    text = signText (q < 0) ++ (ws ++ '.' :: fs)

theorem writesWhole_integer (n : ℤ) : WritesWhole n (integer n).toList where
  rational := rational?_integer n
  form := by
    refine ⟨_, isPlain_toDigits n.natAbs, ?_⟩
    rw [toList_integer]
    simp

theorem writesRounded_fixed (s : Bool) {u d : Nat} (hu : 0 < u) (hd : 0 < d) :
    WritesRounded (Double.signed s u / d) (fixed s (roundDiv (u * 1000) d)).toList where
  rational := by
    have h := IsRounded.signed s u hd
    refine ⟨_, rational?_fixed s _, h.near, fun j => ⟨h.least j, fun hne heq => ?_⟩⟩
    have heven : Even (roundDiv (u * 1000) d) := by
      have h := h.even_of_eq hne heq
      rwa [← Int.natAbs_even, Double.natAbs_signed] at h
    rw [toList_fixed, List.append_cons, ← List.append_assoc]
    exact endsEven_threeDigits heven _
  form := by
    have hsign : decide ((Double.signed s u / d : ℚ) < 0) = s := by
      have hpos : (0 : ℚ) < u / d := div_pos (by exact_mod_cast hu) (by exact_mod_cast hd)
      cases s with
      | false => simpa [Double.signed] using hpos.le
      | true => simpa [Double.signed, neg_div] using hpos
    rw [hsign, toList_fixed]
    exact ⟨_, _, isPlain_toDigits _, fun _ hc => Lexical.isDigit_threeDigits hc,
      length_threeDigits _, rfl⟩

namespace Number

def shown? (x : Number) : Option ℚ := x.text.toOption.bind fun text => rational? text.toList

theorem text_of_toDouble {n : ℤ} {d : Double} (h : (int n).toDouble = .ok d) :
    (int n).text = .ok (integer n) := by
  rw [text, h]
  rfl

theorem isInteger_of_toDouble {n : ℤ} {d : Double} (h : (int n).toDouble = .ok d) :
    d.IsInteger := by
  rw [toDouble] at h
  split at h
  · rename_i hfinite
    obtain rfl := Except.ok.inj h
    rw [Double.ofInt, Double.ofQuotient_isFinite_iff] at hfinite
    rw [Double.ofInt, Double.ofQuotient, dif_pos hfinite]
    exact unitsPerOne_dvd_nearest n.natAbs
  · cases h

theorem text_eq_error_iff {x : Number} {e : ArithmeticError} :
    x.text = .error e ↔
      e = .intTooLarge ∧ ∃ n, x = .int n ∧ twoPow 1024 - twoPow 970 ≤ n.natAbs := by
  cases x with
  | double x =>
    refine iff_of_false nofun ?_
    rintro ⟨_, n, h, _⟩
    cases h
  | int n =>
    have htext : (int n).text = .error e ↔ (int n).toDouble = .error e := by
      rw [text, bind_eq_error]
      refine or_iff_left ?_
      rintro ⟨_, _, h⟩
      exact pure_ne_error h
    have hlarge : ¬(Double.ofInt n).isFinite = true ↔ twoPow 1024 - twoPow 970 ≤ n.natAbs := by
      rw [Double.ofInt_isFinite_iff, Nat.not_lt]
    rw [htext, toDouble]
    constructor
    · intro h
      split at h
      · cases h
      · rename_i hfinite
        exact ⟨(Except.error.inj h).symm, n, rfl, hlarge.mp hfinite⟩
    · rintro ⟨rfl, m, hm, hle⟩
      obtain rfl := Number.int.inj hm
      exact if_neg (hlarge.mpr hle)

end Number

namespace Double

variable {s : Bool} {u : Nat} (h : Representable u)

theorem exists_text_whole (hint : unitsPerOne ∣ u) :
    ∃ n : ℤ, (finite s u h).text = integer n ∧ (signed s u / unitsPerOne : ℚ) = n := by
  have hne : (unitsPerOne : ℚ) ≠ 0 := Nat.cast_ne_zero.mpr unitsPerOne_pos.ne'
  have hcount : signed s u = signed s (u / unitsPerOne) * unitsPerOne := by
    rw [← signed_mul, Nat.div_mul_cancel hint]
  refine ⟨signed s (u / unitsPerOne), text_whole h hint, ?_⟩
  rw [hcount, Int.cast_mul, Int.cast_natCast, mul_div_cancel_right₀ _ hne]

end Double

namespace Number

theorem exists_written {x : Number} {d : Double} (hd : x.toDouble = .ok d)
    (hfinite : d.isFinite = true) :
    ∃ (q : ℚ) (text : String), x.value? = some (q : WithTop ℚ) ∧ x.text = .ok text ∧
      (d.IsInteger → WritesWhole q text.toList) ∧ (¬d.IsInteger → WritesRounded q text.toList) := by
  cases x with
  | int n =>
    exact ⟨n, integer n, rfl, text_of_toDouble hd, fun _ => writesWhole_integer n,
      fun hint => absurd (isInteger_of_toDouble hd) hint⟩
  | double x =>
    obtain rfl := Except.ok.inj hd
    cases x with
    | finite s u h =>
      refine ⟨_, _, rfl, rfl, fun hint => ?_, fun hint => ?_⟩
      · obtain ⟨n, htext, hvalue⟩ := Double.exists_text_whole h hint
        rw [htext, hvalue]
        exact writesWhole_integer n
      · have hpos : 0 < u := Nat.pos_of_ne_zero fun hzero => hint (hzero ▸ Nat.dvd_zero _)
        rw [Double.text_fraction h hint]
        exact writesRounded_fixed s hpos unitsPerOne_pos
    | _ => cases hfinite

theorem exists_isRounded {x : Number} {q D : ℚ} (hq : x.value? = some (q : WithTop ℚ))
    (hD : x.shown? = some D) : ∃ k : ℤ, D = k / 1000 ∧ IsRounded q k := by
  have hwhole : ∀ n : ℤ, rational? (integer n).toList = some D → q = n →
      ∃ k : ℤ, D = k / 1000 ∧ IsRounded q k := by
    rintro n htext rfl
    refine ⟨1000 * n, ?_, .ofInt n⟩
    rw [← Option.some.inj ((rational?_integer n).symm.trans htext)]
    push_cast
    ring
  cases x with
  | int n =>
    obtain rfl := WithTop.coe_inj.mp (WithBot.coe_inj.mp (Option.some.inj hq))
    cases hd : (int n).toDouble with
    | ok d =>
      rw [shown?, text_of_toDouble hd] at hD
      exact hwhole n hD rfl
    | error e =>
      rw [shown?, text, hd] at hD
      cases hD
  | double x =>
    cases x with
    | finite s u h =>
      obtain rfl := WithTop.coe_inj.mp (WithBot.coe_inj.mp (Option.some.inj hq))
      have hD : rational? (Double.finite s u h).text.toList = some D := hD
      by_cases hint : unitsPerOne ∣ u
      · obtain ⟨n, htext, hvalue⟩ := Double.exists_text_whole h hint
        rw [htext] at hD
        exact hwhole n hD hvalue
      · rw [Double.text_fraction h hint, rational?_fixed] at hD
        exact ⟨_, (Option.some.inj hD).symm, .signed s u unitsPerOne_pos⟩
    | infinite s => cases s <;> cases hq
    | nan => cases hq

/-- The text of a number that has a finite double says a whole number exactly and any other to the
nearest thousandth. A number that is not above another one says no more than that. Only integers
beyond all doubles have no text. -/
theorem text_accurate_monotone :
    (∀ (x : Number) (d : Double), x.toDouble = .ok d → d.isFinite = true →
      ∃ (q : ℚ) (text : String), x.value? = some (q : WithTop ℚ) ∧ x.text = .ok text ∧
        (d.IsInteger → WritesWhole q text.toList) ∧
        (¬d.IsInteger → WritesRounded q text.toList)) ∧
      (∀ (x y : Number) (p q D E : ℚ), x.value? = some (p : WithTop ℚ) →
        y.value? = some (q : WithTop ℚ) → x.shown? = some D → y.shown? = some E →
        p ≤ q → D ≤ E) ∧
      ∀ (x : Number) (e : ArithmeticError), x.text = .error e ↔
        e = .intTooLarge ∧ ∃ n, x = .int n ∧ twoPow 1024 - twoPow 970 ≤ n.natAbs := by
  refine ⟨fun x d => exists_written, fun x y p q D E hp hq hD hE hpq => ?_,
    fun x e => text_eq_error_iff⟩
  obtain ⟨j, rfl, hj⟩ := exists_isRounded hp hD
  obtain ⟨k, rfl, hk⟩ := exists_isRounded hq hE
  have hle : (j : ℚ) ≤ k := by exact_mod_cast hj.mono hk hpq
  exact div_le_div_of_nonneg_right hle (by norm_num)

end Number
end MiniScheme
