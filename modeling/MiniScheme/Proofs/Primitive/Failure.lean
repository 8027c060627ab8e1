import MiniScheme.Primitive.Apply
import MiniScheme.Proofs.Run.Except
import MiniScheme.Proofs.Value.Leaves

/-! How primitives fail on values of the known classes, in a number that the primitive admits. -/

namespace MiniScheme

def Failure.OfPrimitive : Failure → Prop
  | .primitive _ | .tooDeep => True
  | .arithmetic e => e ≠ .zeroDivisor
  | _ => False

theorem Arity.admits_atLeast {n k : Nat} : (Arity.atLeast n).Admits k ↔ n ≤ k := by
  simp [Arity.Admits, Arity.atLeast]

theorem Arity.admits_exactly {n k : Nat} : (Arity.exactly n).Admits k ↔ k = n := by
  simp [Arity.Admits, Arity.exactly]

theorem Arity.not_admits_iff_lt {arity : Arity} {k : Nat} (h : arity.more = true) :
    ¬arity.Admits k ↔ k < arity.least := by
  simp [Arity.Admits, h]

theorem Arity.not_admits_iff_ne {arity : Arity} {k : Nat} (h : arity.more = false) :
    ¬arity.Admits k ↔ k ≠ arity.least := by
  simp [Arity.Admits, h]

namespace Number

theorem toDouble_error {n : Number} {e : ArithmeticError} (h : n.toDouble = .error e) :
    e = .intTooLarge := by
  cases n with
  | int n =>
    rw [toDouble] at h
    split at h
    · cases h
    · exact (Except.error.inj h).symm
  | double x => cases h

theorem text_error {n : Number} {e : ArithmeticError} (h : n.text = .error e) :
    e = .intTooLarge := by
  cases n with
  | int n =>
    rcases bind_eq_error.mp h with h | ⟨_, _, h⟩
    · exact toDouble_error h
    · exact absurd h pure_ne_error
  | double x => cases h

theorem doubles_error {f : Double → Double → Double} {a b : Number} {e : ArithmeticError}
    (h : (do let x ← a.toDouble; let y ← b.toDouble; return .double (f x y)) =
      (.error e : Except ArithmeticError Number)) : e = .intTooLarge := by
  rcases bind_eq_error.mp h with h | ⟨_, _, h⟩
  · exact toDouble_error h
  · rcases bind_eq_error.mp h with h | ⟨_, _, h⟩
    · exact toDouble_error h
    · exact absurd h pure_ne_error

theorem combine_error {ints : Int → Int → Int} {doubles : Double → Double → Double}
    {a b : Number} {e : ArithmeticError} (h : combine ints doubles a b = .error e) :
    e = .intTooLarge := by
  unfold combine at h
  split at h
  · cases h
  · exact doubles_error h

theorem div_error {a b : Number} {e : ArithmeticError} (hb : ¬b.isZero)
    (h : a.div b = .error e) : e ≠ .zeroDivisor := by
  unfold div at h
  -- the divisor has been looked at before, so a quotient fails by its size only
  rw [if_neg hb] at h
  split at h
  · rcases bind_eq_error.mp h with h | ⟨_, _, h⟩
    · simp only [intQuotient] at h
      split at h
      · cases h
      · exact Except.error.inj h ▸ ArithmeticError.noConfusion
    · exact absurd h pure_ne_error
  · exact doubles_error h ▸ ArithmeticError.noConfusion

end Number

namespace Value

variable {failure : Failure}

theorem text_error_of {F : Failure → Prop} (hdeep : F .tooDeep) {limit : Nat} {v : Value}
    (hv : v.Every fun w => w ≠ .unknown ∧
      ∀ n e, w = .number n → n.text = .error e → F (.arithmetic e))
    (h : v.text limit = .error failure) : F failure := by
  induction limit generalizing v failure with
  | zero => exact Except.error.inj h ▸ hdeep
  | succ limit ih =>
    cases v with
    | number n =>
      obtain ⟨e, he, rfl⟩ := mapError_eq_error.mp h
      exact (hv (.number n) List.mem_cons_self).2 n e rfl he
    | list vs =>
      rcases bind_eq_error.mp h with h | ⟨_, _, h⟩
      · obtain ⟨w, hw, h⟩ := mapM_eq_error h
        exact ih (every_list.mp hv w hw) h
      · exact absurd h pure_ne_error
    | unknown => exact absurd rfl (hv .unknown List.mem_cons_self).1
    | _ => cases h

theorem text_error {limit : Nat} {v : Value} (hv : v.Known) (h : v.text limit = .error failure) :
    failure.OfPrimitive := by
  refine text_error_of (F := Failure.OfPrimitive) trivial (hv.mono fun w hw => ⟨hw, ?_⟩) h
  intro n e _ he
  exact Number.text_error he ▸ ArithmeticError.noConfusion

theorem equal_error {limit : Nat} {x y : Value} (hx : x.Known) (hy : y.Known)
    (h : x.equal limit y = .error failure) : failure = .tooDeep := by
  induction limit generalizing x y failure with
  | zero => exact (Except.error.inj h).symm
  | succ limit ih =>
    cases x with
    | list xs =>
      cases y with
      | list ys =>
        unfold equal at h
        dsimp only at h
        split at h
        · rcases bind_eq_error.mp h with h | ⟨_, _, h⟩
          · obtain ⟨⟨a, b⟩, hab, h⟩ := mapM_eq_error h
            obtain ⟨ha, hb⟩ := List.of_mem_zip hab
            exact ih (every_list.mp hx a ha) (every_list.mp hy b hb) h
          · exact absurd h pure_ne_error
        · cases h
      | _ => cases h
    | unknown => exact absurd rfl (hx .unknown List.mem_cons_self)
    | _ => cases y <;> cases h

theorem asNumber_error {name : String} {v : Value} (h : v.asNumber name = .error failure) :
    ∃ fault, failure = .primitive fault := by
  unfold asNumber at h
  split at h
  · cases h
  · exact ⟨_, (Except.error.inj h).symm⟩

theorem asNumbers_error {name : String} {vs : List Value}
    (h : asNumbers name vs = .error failure) : ∃ fault, failure = .primitive fault := by
  obtain ⟨v, _, h⟩ := mapM_eq_error h
  exact asNumber_error h

theorem asItems_error {name : String} {v : Value} (h : v.asItems name = .error failure) :
    ∃ fault, failure = .primitive fault := by
  unfold asItems at h
  split at h
  · cases h
  · exact ⟨_, (Except.error.inj h).symm⟩

end Value
end MiniScheme
