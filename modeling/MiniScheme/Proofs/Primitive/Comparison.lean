import MiniScheme.Proofs.Eval.Settles
import MiniScheme.Proofs.Number.Exact

/-! Comparisons of numbers in a program. They answer for any two numbers, and by the order of exact
values, so that integers of any size and doubles stand in one line, NaN apart. -/

namespace MiniScheme
namespace Number

variable {a b : Number}

theorem exists_value? (ha : ¬a.IsNaN) : ∃ q, a.value? = some q := by
  rw [← value?_eq_none] at ha
  exact Option.ne_none_iff_exists'.mp ha

theorem count_comparisons (ha : ¬a.IsNaN) (hb : ¬b.IsNaN) :
    [a.lt b, a.eqv b, a.gt b].count true = 1 := by
  obtain ⟨p, hp⟩ := exists_value? ha
  obtain ⟨q, hq⟩ := exists_value? hb
  rw [gt, lt_eq_decide hp hq, eqv_eq_decide hp hq, lt_eq_decide hq hp]
  rcases lt_trichotomy p q with h | rfl | h
  · simp [h, h.ne, h.not_gt]
  · simp
  · simp [h, h.ne', h.not_gt]

theorem not_of_isNaN (h : a.IsNaN ∨ b.IsNaN) :
    a.lt b = false ∧ a.eqv b = false ∧ a.gt b = false := by
  rw [← value?_eq_none, ← value?_eq_none] at h
  refine ⟨?_, ?_, ?_⟩ <;> rw [Bool.eq_false_iff]
  · rw [Ne, lt_iff]
    rintro ⟨p, q, hp, hq, _⟩
    simp [hp, hq] at h
  · rw [Ne, eqv_iff]
    rintro ⟨q, hp, hq⟩
    simp [hp, hq] at h
  · rw [Ne, gt, lt_iff]
    rintro ⟨p, q, hp, hq, _⟩
    simp [hp, hq] at h

end Number

namespace Primitive

def Answers (op : Primitive) (a b : Number) (rest : List Value) (answer : Bool) : Prop :=
  ∀ (limit : Nat) (anchor : Option Token) (home : Address) (s : Store),
    MiniScheme.apply (limit + 3) anchor (.primitive op home) (.number a :: .number b :: rest) s =
      .ok (.boolean answer) s

variable {op : Primitive} {a b : Number} {rest : List Value} {answer : Bool}

theorem answers_of_result (hop : op.IsPure) (hcount : op.arity.Admits (rest.length + 2))
    (h : ∀ limit, op.result (limit + 1) (.number a :: .number b :: rest) = .ok (.boolean answer)) :
    op.Answers a b rest answer := by
  intro limit anchor home s
  have hargs : op.arity.Admits (Value.number a :: .number b :: rest).length := hcount
  exact apply_of_result hop hargs (h limit) anchor home

end Primitive

open Primitive

theorem answers_comparisons (a b : Number) (rest : List Value) :
    Answers .lt a b rest (a.lt b) ∧ Answers .eq a b rest (a.eqv b) ∧
      Answers .gt a b rest (a.gt b) ∧ Answers .equal a b [] (a.eqv b) := by
  have hcount : (Arity.atLeast 2).Admits (rest.length + 2) :=
    Arity.admits_atLeast.mpr (Nat.le_add_left 2 _)
  refine ⟨?_, ?_, ?_, ?_⟩
  · exact answers_of_result trivial hcount fun _ => rfl
  · exact answers_of_result trivial hcount fun _ => rfl
  · exact answers_of_result trivial hcount fun _ => rfl
  · exact answers_of_result trivial (Arity.admits_exactly.mpr rfl) fun _ => rfl

/-- Comparison of numbers is the order of exact values, which is total apart from NaN, has the
infinities beyond all integers, and agrees with `=` and with `equal?`. No comparison fails, whatever
operands follow the two numbers. -/
theorem comparisons_total_order :
    ∃ lt eq gt : Number → Number → Bool,
      (∀ a b rest, Answers .lt a b rest (lt a b) ∧ Answers .eq a b rest (eq a b) ∧
        Answers .gt a b rest (gt a b) ∧ Answers .equal a b [] (eq a b)) ∧
      (∀ a b, lt a b = true ↔ ∃ p q, a.value? = some p ∧ b.value? = some q ∧ p < q) ∧
      (∀ a b : Number, ¬a.IsNaN → ¬b.IsNaN → [lt a b, eq a b, gt a b].count true = 1) ∧
      (∀ a b : Number, a.IsNaN ∨ b.IsNaN → lt a b = false ∧ eq a b = false ∧ gt a b = false) ∧
      (∀ n : Int, lt (.double (.infinite true)) (.int n) = true ∧
        lt (.int n) (.double (.infinite false)) = true) ∧
      (∀ a b c, lt a b = true → lt b c = true → lt a c = true) ∧
      (∀ a b c, eq a b = true → lt b c = true → lt a c = true) ∧
      ∀ a b, gt a b = lt b a :=
  ⟨Number.lt, Number.eqv, Number.gt, answers_comparisons, fun _ _ => Number.lt_iff,
    fun _ _ => Number.count_comparisons, fun _ _ => Number.not_of_isNaN, fun _ => ⟨rfl, rfl⟩,
    fun _ _ _ => Number.lt_trans, fun _ _ _ => Number.lt_of_eqv_of_lt, fun _ _ => rfl⟩

end MiniScheme
