import Mathlib.Algebra.Order.Field.Rat
import Mathlib.Data.Rat.Cast.Order
import Mathlib.Order.WithBot
import MiniScheme.Number.Decimal

/-! Exact values of numbers. They are rationals with an infinity at either end, and comparison and
equality are those of exact values, whatever the two numbers are kept as. -/

namespace MiniScheme
namespace Number

def IsNaN (n : Number) : Prop := n = .double .nan

namespace Level

def value : Level → WithBot (WithTop ℚ)
  | .below => ⊥
  | .units i => ((i / unitsPerOne : ℚ) : WithTop ℚ)
  | .above => (⊤ : WithTop ℚ)

theorem lt_iff {x y : Level} : x.lt y = true ↔ x.value < y.value := by
  have hpos : (0 : ℚ) < unitsPerOne := Nat.cast_pos.mpr unitsPerOne_pos
  have htop : ∀ q : ℚ, ((q : WithTop ℚ) : WithBot (WithTop ℚ)) < (⊤ : WithTop ℚ) :=
    fun q => WithBot.coe_lt_coe.mpr (WithTop.coe_lt_top q)
  cases x with
  | below =>
    cases y with
    | below => exact iff_of_false nofun (lt_irrefl _)
    | units j => exact iff_of_true rfl (WithBot.bot_lt_coe _)
    | above => exact iff_of_true rfl (WithBot.bot_lt_coe _)
  | units i =>
    cases y with
    | below => exact iff_of_false nofun not_lt_bot
    | units j =>
      rw [lt, decide_eq_true_iff, value, value, WithBot.coe_lt_coe, WithTop.coe_lt_coe]
      rw [div_lt_div_iff_of_pos_right hpos, Int.cast_lt]
    | above => exact iff_of_true rfl (htop _)
  | above => exact iff_of_false (by cases y <;> nofun) not_top_lt

theorem lt_or_lt {x y : Level} (h : x ≠ y) : x.lt y = true ∨ y.lt x = true := by
  cases x <;> cases y <;> simp_all [lt]

theorem value_inj {x y : Level} : x.value = y.value ↔ x = y := by
  constructor
  · intro h
    by_contra hne
    rcases lt_or_lt hne with hlt | hlt
    · exact (lt_iff.mp hlt).ne h
    · exact (lt_iff.mp hlt).ne' h
  · exact congrArg value

end Level

/-- The exact value; NaN has none. -/
def value? : Number → Option (WithBot (WithTop ℚ))
  | .int n => some ((n : ℚ) : WithTop ℚ)
  | .double .nan => none
  | .double (.infinite negative) => some (if negative then ⊥ else (⊤ : WithTop ℚ))
  | .double (.finite negative u _) =>
    some ((Double.signed negative u / unitsPerOne : ℚ) : WithTop ℚ)

variable {a b c : Number} {p q : WithBot (WithTop ℚ)}

theorem value?_eq_map (a : Number) : a.value? = a.level?.map Level.value := by
  cases a with
  | int n =>
    have hne : (unitsPerOne : ℚ) ≠ 0 := Nat.cast_ne_zero.mpr unitsPerOne_pos.ne'
    have hvalue : ((n * unitsPerOne : Int) : ℚ) / unitsPerOne = n := by
      rw [Int.cast_mul, Int.cast_natCast, mul_div_cancel_right₀ _ hne]
    rw [value?, level?, Option.map_some, Level.value, hvalue]
  | double x =>
    cases x with
    | nan => rfl
    | infinite negative => cases negative <;> rfl
    | finite negative u h => rfl

theorem value?_eq_none : a.value? = none ↔ a.IsNaN := by
  cases a with
  | int n => exact iff_of_false nofun nofun
  | double x =>
    cases x with
    | nan => exact iff_of_true rfl rfl
    | infinite negative => exact iff_of_false nofun nofun
    | finite negative u h => exact iff_of_false nofun nofun

theorem eqv_iff_level {x y : Level} (ha : a.level? = some x) (hb : b.level? = some y) :
    a.eqv b = true ↔ x = y := by
  rw [eqv, ha, hb]
  exact beq_iff_eq

theorem eqv_iff : a.eqv b = true ↔ ∃ q, a.value? = some q ∧ b.value? = some q := by
  rw [value?_eq_map, value?_eq_map, eqv]
  cases a.level? with
  | none => simp
  | some x =>
    cases b.level? with
    | none => simp
    | some y =>
      simp only [Option.map_some, Option.some.injEq, beq_iff_eq, exists_eq_left', Level.value_inj]
      exact eq_comm

theorem lt_iff : a.lt b = true ↔ ∃ p q, a.value? = some p ∧ b.value? = some q ∧ p < q := by
  rw [value?_eq_map, value?_eq_map, lt]
  cases a.level? <;> cases b.level? <;> simp [Level.lt_iff]

theorem eqv_eq_decide (ha : a.value? = some p) (hb : b.value? = some q) :
    a.eqv b = decide (p = q) := by
  rw [Bool.eq_iff_iff, eqv_iff, decide_eq_true_iff]
  simp [ha, hb, eq_comm]

theorem lt_eq_decide (ha : a.value? = some p) (hb : b.value? = some q) :
    a.lt b = decide (p < q) := by
  rw [Bool.eq_iff_iff, lt_iff, decide_eq_true_iff]
  simp [ha, hb]

theorem eqv_self_iff : a.eqv a = true ↔ ¬a.IsNaN := by
  rw [eqv_iff, ← value?_eq_none]
  cases a.value? <;> simp

theorem eqv_comm (a b : Number) : a.eqv b = b.eqv a := by
  rw [Bool.eq_iff_iff, eqv_iff, eqv_iff]
  simp only [and_comm]

theorem eqv_trans (hab : a.eqv b = true) (hbc : b.eqv c = true) : a.eqv c = true := by
  obtain ⟨q, ha, hb⟩ := eqv_iff.mp hab
  obtain ⟨r, hb', hc⟩ := eqv_iff.mp hbc
  obtain rfl := Option.some.inj (hb.symm.trans hb')
  exact eqv_iff.mpr ⟨q, ha, hc⟩

theorem lt_trans (hab : a.lt b = true) (hbc : b.lt c = true) : a.lt c = true := by
  obtain ⟨p, q, ha, hb, hpq⟩ := lt_iff.mp hab
  obtain ⟨q', r, hb', hc, hqr⟩ := lt_iff.mp hbc
  obtain rfl := Option.some.inj (hb.symm.trans hb')
  exact lt_iff.mpr ⟨p, r, ha, hc, hpq.trans hqr⟩

theorem lt_of_eqv_of_lt (hab : a.eqv b = true) (hbc : b.lt c = true) : a.lt c = true := by
  obtain ⟨q, ha, hb⟩ := eqv_iff.mp hab
  obtain ⟨q', r, hb', hc, hqr⟩ := lt_iff.mp hbc
  obtain rfl := Option.some.inj (hb.symm.trans hb')
  exact lt_iff.mpr ⟨q, r, ha, hc, hqr⟩

end Number

namespace Double

variable {s t : Bool} {u v : Nat}

theorem natAbs_signed (s : Bool) (u : Nat) : (signed s u).natAbs = u := by
  cases s
  · exact Int.natAbs_natCast u
  · exact (Int.natAbs_neg u).trans (Int.natAbs_natCast u)

theorem signed_mul (s : Bool) (u v : Nat) : signed s (u * v) = signed s u * v := by
  cases s <;> simp [signed]

theorem text_eq_of_signed_eq (hu : Representable u) (hv : Representable v)
    (h : signed s u = signed t v) : (finite s u hu).text = (finite t v hv).text := by
  obtain rfl : u = v := by
    rw [← natAbs_signed s u, h, natAbs_signed]
  by_cases hst : s = t
  · rw [hst]
  · -- zero alone has both signs, and prints neither
    have hzero : u = 0 := by
      cases s <;> cases t <;> simp_all [signed]
    subst hzero
    simp only [text, Nat.zero_mod, if_true, Nat.zero_div]
    cases s <;> cases t <;> rfl

end Double

namespace Number

variable {a b : Number}

theorem text_int_of_signed_eq {n : Int} {s : Bool} {u : Nat} (hu : Representable u)
    (h : n * unitsPerOne = Double.signed s u) :
    (int n).text = .ok (Double.finite s u hu).text := by
  have hcount : n.natAbs * unitsPerOne = u := by
    rw [← Double.natAbs_signed s u, ← h, Int.natAbs_mul, Int.natAbs_natCast]
  have hsigned : Double.signed s n.natAbs = n := by
    rw [← hcount, Double.signed_mul] at h
    exact (Int.eq_of_mul_eq_mul_right (Int.natCast_ne_zero.mpr unitsPerOne_pos.ne') h).symm
  have hfinite : (Double.ofInt n).isFinite = true := by
    rw [Double.ofInt, hcount, Double.ofQuotient, dif_pos]
    · rfl
    · rw [Grid.nearest_of_onGrid hu.onGrid]
      exact hu.lt_limit
  have hwhole : u % unitsPerOne = 0 := by rw [← hcount, Nat.mul_mod_left]
  have hdigits : u / unitsPerOne = n.natAbs := by
    rw [← hcount, Nat.mul_div_cancel _ unitsPerOne_pos]
  have htext : (Double.finite s u hu).text = Numeral.integer n := by
    rw [Double.text, if_pos hwhole, hdigits, hsigned]
  rw [text, toDouble, if_pos hfinite, htext]
  rfl

theorem text_int_of_eqv {n : Int} {x : Double} (h : (int n).eqv (.double x) = true) :
    (int n).text = .ok x.text := by
  cases x with
  | nan => cases h
  | infinite s => cases s <;> cases h
  | finite s u hu => exact text_int_of_signed_eq hu (Level.units.inj ((eqv_iff_level rfl rfl).mp h))

theorem text_eq_of_eqv (h : a.eqv b = true) : a.text = b.text := by
  cases a with
  | int m =>
    cases b with
    | int n =>
      have hmn : m * unitsPerOne = n * unitsPerOne :=
        Level.units.inj ((eqv_iff_level rfl rfl).mp h)
      rw [Int.eq_of_mul_eq_mul_right (Int.natCast_ne_zero.mpr unitsPerOne_pos.ne') hmn]
    | double y => exact text_int_of_eqv h
  | double x =>
    cases b with
    | int n => exact (text_int_of_eqv (eqv_comm _ _ ▸ h)).symm
    | double y =>
      cases x with
      | nan => cases h
      | infinite s =>
        cases y with
        | infinite t => cases s <;> cases t <;> first | rfl | cases h
        | _ => cases s <;> cases h
      | finite s u hu =>
        cases y with
        | finite t v hv =>
          have huv : Double.signed s u = Double.signed t v :=
            Level.units.inj ((eqv_iff_level rfl rfl).mp h)
          exact congrArg Except.ok (Double.text_eq_of_signed_eq hu hv huv)
        | infinite t => cases t <;> cases h
        | nan => cases h

end Number
end MiniScheme
