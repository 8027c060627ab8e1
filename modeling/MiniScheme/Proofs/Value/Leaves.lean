import MiniScheme.Form

/-! Values as the leaves of their lists, and properties of all leaves. -/

namespace MiniScheme
namespace Value

mutual

def leaves : Value → List Value
  | .list vs => leavesEach vs
  | v => [v]

def leavesEach : List Value → List Value
  | [] => []
  | v :: vs => v.leaves ++ leavesEach vs

end

def Every (P : Value → Prop) (v : Value) : Prop := ∀ w ∈ v.leaves, P w

abbrev Known (v : Value) : Prop := v.Every (· ≠ .unknown)

def IsPlain : Value → Prop
  | .symbol _ | .string _ | .number _ | .boolean _ | .noValue => True
  | _ => False

variable {P Q : Value → Prop}

theorem mem_leavesEach {vs : List Value} {w : Value} :
    w ∈ leavesEach vs ↔ ∃ v ∈ vs, w ∈ v.leaves := by
  induction vs with
  | nil => simp [leavesEach]
  | cons v vs ih => simp [leavesEach, ih]

theorem every_list {vs : List Value} : (Value.list vs).Every P ↔ ∀ v ∈ vs, v.Every P := by
  constructor
  · intro h v hv w hw
    exact h w (mem_leavesEach.mpr ⟨v, hv, hw⟩)
  · intro h w hw
    obtain ⟨v, hv, hw⟩ := mem_leavesEach.mp hw
    exact h v hv w hw

theorem Every.mono {v : Value} (h : v.Every P) (hPQ : ∀ w, P w → Q w) : v.Every Q :=
  fun w hw => hPQ w (h w hw)

theorem every_closure {c : Closure} : (Value.closure c).Every P ↔ P (.closure c) :=
  List.forall_mem_singleton

theorem every_primitive {op : Primitive} {home : Address} :
    (Value.primitive op home).Every P ↔ P (.primitive op home) := List.forall_mem_singleton

theorem every_of_isPlain {v : Value} (hv : v.IsPlain) (h : P v) : v.Every P := by
  cases v <;> first | exact hv.elim | exact List.forall_mem_singleton.mpr h

theorem IsPlain.ne_unknown (v : Value) (h : v.IsPlain) : v ≠ .unknown := by
  rintro rfl
  exact h

end Value
end MiniScheme
