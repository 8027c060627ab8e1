import MiniScheme.Proofs.Primitive.Failure
import MiniScheme.Proofs.Run.Ends

/-! What the primitives give that neither print nor call. -/

namespace MiniScheme
namespace Primitive

def IsPure : Primitive → Prop
  | .apply | .display | .newline => False
  | _ => True

def IsNumeric : Primitive → Prop
  | .add | .sub | .mul | .div | .len | .addTwo => True
  | _ => False

variable {limit : Nat} {args : List Value} {failure : Failure} {v : Value}

theorem fold_error {step : Number → Number → Except ArithmeticError Number} {seed : Number}
    {ns : List Number} (h : fold step seed ns = .error failure) :
    ∃ a b e, step a b = .error e ∧ failure = .arithmetic e := by
  obtain ⟨e, he, rfl⟩ := mapError_eq_error.mp (map_eq_error.mp h)
  obtain ⟨a, b, _, he⟩ := foldlM_eq_error he
  exact ⟨a, b, e, he, rfl⟩

theorem fold_combine_error {ints : Int → Int → Int} {doubles : Double → Double → Double}
    {seed : Number} {ns : List Number}
    (h : fold (Number.combine ints doubles) seed ns = .error failure) :
    ∃ e, failure = .arithmetic e ∧ e ≠ .zeroDivisor := by
  obtain ⟨_, _, e, hstep, rfl⟩ := fold_error h
  exact ⟨e, rfl, Number.combine_error hstep ▸ ArithmeticError.noConfusion⟩

theorem divide_error {a b : Number} (h : divide a b = .error failure) :
    failure = .primitive .divisionByZero ∨ ∃ e, failure = .arithmetic e ∧ e ≠ .zeroDivisor := by
  unfold divide at h
  split at h
  · exact .inl (Except.error.inj h).symm
  · rename_i hb
    obtain ⟨e, he, rfl⟩ := mapError_eq_error.mp h
    exact .inr ⟨e, rfl, Number.div_error hb he⟩

theorem compare_error {name : String} {test : Number → Number → Bool} {x y : Value}
    (h : compare name test x y = .error failure) : ∃ fault, failure = .primitive fault := by
  rcases bind_eq_error.mp h with h | ⟨_, _, h⟩
  · exact Value.asNumber_error h
  · rcases bind_eq_error.mp h with h | ⟨_, _, h⟩
    · exact Value.asNumber_error h
    · exact absurd h pure_ne_error

theorem exists_cons_of_asNumbers {name : String} {ns : List Number} (hargs : 1 ≤ args.length)
    (h : Value.asNumbers name args = .ok ns) : ∃ m ms, ns = m :: ms := by
  have hlen := (mapM_eq_ok h).length_eq
  exact List.exists_cons_of_length_pos (by omega)

theorem exists_cons_cons (hargs : 2 ≤ args.length) : ∃ x y rest, args = x :: y :: rest := by
  obtain ⟨x, vs, rfl⟩ := List.exists_cons_of_length_pos (by omega : 0 < args.length)
  rw [List.length_cons] at hargs
  obtain ⟨y, rest, rfl⟩ := List.exists_cons_of_length_pos (by omega : 0 < vs.length)
  exact ⟨x, y, rest, rfl⟩

theorem result_error_of {F : Failure → Prop} {op : Primitive}
    (hfault : ∀ fault, F (.primitive fault)) (hdeep : F .tooDeep)
    (htext : ∀ v ∈ args, ∀ {failure : Failure}, v.text limit = .error failure → F failure)
    (hnumber : ∀ e ≠ .zeroDivisor, op.IsNumeric → op.result limit args = .error (.arithmetic e) →
      F (.arithmetic e))
    (hop : op.IsPure) (hcount : op.arity.Admits args.length) (hargs : ∀ v ∈ args, v.Known)
    (h : op.result limit args = .error failure) : F failure := by
  have hrefuses : (∃ fault, failure = .primitive fault) → F failure := by
    rintro ⟨fault, rfl⟩
    exact hfault fault
  have hcomputes : op.IsNumeric → (∃ e, failure = .arithmetic e ∧ e ≠ .zeroDivisor) →
      F failure := by
    rintro hnumeric ⟨e, rfl, he⟩
    exact hnumber e he hnumeric h
  cases op with
  | apply => exact hop.elim
  | display => exact hop.elim
  | newline => exact hop.elim
  | list => cases h
  | sequence => cases h
  | add | mul =>
    rcases bind_eq_error.mp h with h | ⟨_, _, h⟩
    · exact hrefuses (Value.asNumbers_error h)
    · exact hcomputes trivial (fold_combine_error h)
  | sub =>
    rcases bind_eq_error.mp h with h | ⟨_, hns, h⟩
    · exact hrefuses (Value.asNumbers_error h)
    · obtain ⟨m, ms, rfl⟩ := exists_cons_of_asNumbers (Arity.admits_atLeast.mp hcount) hns
      exact hcomputes trivial (fold_combine_error h)
  | div =>
    rcases bind_eq_error.mp h with h | ⟨_, hns, h⟩
    · exact hrefuses (Value.asNumbers_error h)
    · obtain ⟨m, ms, rfl⟩ := exists_cons_of_asNumbers (Arity.admits_atLeast.mp hcount) hns
      rcases bind_eq_error.mp h with h | ⟨_, _, h⟩
      · obtain ⟨a, b, _, h⟩ := foldlM_eq_error h
        rcases divide_error h with heq | hnumeric
        · exact hrefuses ⟨_, heq⟩
        · exact hcomputes trivial hnumeric
      · exact absurd h pure_ne_error
  | eq | lt | gt =>
    obtain ⟨x, y, rest, rfl⟩ := exists_cons_cons (Arity.admits_atLeast.mp hcount)
    exact hrefuses (compare_error h)
  | equal =>
    obtain ⟨x, y, rfl⟩ := List.length_eq_two.mp (Arity.admits_exactly.mp hcount)
    rcases bind_eq_error.mp h with h | ⟨_, _, h⟩
    · exact Value.equal_error (hargs x (by simp)) (hargs y (by simp)) h ▸ hdeep
    · exact absurd h pure_ne_error
  | addTwo =>
    obtain ⟨x, y, rfl⟩ := List.length_eq_two.mp (Arity.admits_exactly.mp hcount)
    cases x with
    | number a =>
      cases y with
      | number b =>
        obtain ⟨e, he, heq⟩ := mapError_eq_error.mp (map_eq_error.mp h)
        have hne : e ≠ .zeroDivisor := Number.combine_error he ▸ ArithmeticError.noConfusion
        exact hcomputes trivial ⟨e, heq.symm, hne⟩
      | _ => exact hrefuses ⟨_, (Except.error.inj h).symm⟩
    | _ => exact hrefuses ⟨_, (Except.error.inj h).symm⟩
  | isNull | len =>
    obtain ⟨x, rest, rfl⟩ := List.exists_cons_of_length_pos (Arity.admits_atLeast.mp hcount)
    rcases bind_eq_error.mp h with h | ⟨_, _, h⟩
    · exact hrefuses (Value.asItems_error h)
    · exact absurd h pure_ne_error
  | car | cdr =>
    obtain ⟨x, rest, rfl⟩ := List.exists_cons_of_length_pos (Arity.admits_atLeast.mp hcount)
    rcases bind_eq_error.mp h with h | ⟨vs, _, h⟩
    · exact hrefuses (Value.asItems_error h)
    · cases vs with
      | nil => exact hrefuses ⟨_, (Except.error.inj h).symm⟩
      | cons v vs => cases h
  | cons =>
    obtain ⟨x, y, rest, rfl⟩ := exists_cons_cons (Arity.admits_atLeast.mp hcount)
    cases y with
    | list vs => cases h
    | _ => exact hrefuses ⟨_, (Except.error.inj h).symm⟩
  | stringAppend =>
    rcases bind_eq_error.mp h with h | ⟨_, _, h⟩
    · obtain ⟨v, hv, h⟩ := mapM_eq_error h
      exact htext v hv h
    · exact absurd h pure_ne_error

theorem result_error {op : Primitive} (hop : op.IsPure) (hcount : op.arity.Admits args.length)
    (hargs : ∀ v ∈ args, v.Known) (h : op.result limit args = .error failure) :
    failure.OfPrimitive := by
  refine result_error_of (F := Failure.OfPrimitive) (fun _ => trivial) trivial ?_ ?_ hop hcount
    hargs h
  · exact fun v hv _ h => Value.text_error (hargs v hv) h
  · exact fun e he _ _ => he

theorem run_of_isPure {op : Primitive} (hop : op.IsPure) (args : List Value) :
    op.run limit args = Run.ofExcept id (op.result limit args) := by
  cases op <;> first | exact hop.elim | rfl

theorem run_error {op : Primitive} {s t : Store} (hop : op ≠ .apply)
    (hcount : op.arity.Admits args.length) (hargs : ∀ v ∈ args, v.Known)
    (h : op.run limit args s = .error failure t) : failure.OfPrimitive := by
  by_cases hpure : op.IsPure
  · rw [run_of_isPure hpure] at h
    obtain ⟨_, herr, rfl, _⟩ := Run.ofExcept_error_iff.mp h
    exact result_error hpure hcount hargs herr
  · cases op with
    | apply => exact absurd rfl hop
    | display =>
      obtain ⟨v, rfl⟩ := List.length_eq_one_iff.mp (Arity.admits_exactly.mp hcount)
      rcases Run.bind_error_iff.mp h with h | ⟨_, _, _, h⟩
      · obtain ⟨_, herr, rfl, _⟩ := Run.ofExcept_error_iff.mp h
        exact Value.text_error (hargs v List.mem_cons_self) herr
      · cases h
    | newline =>
      obtain rfl := List.length_eq_zero_iff.mp (Arity.admits_exactly.mp hcount)
      cases h
    | _ => exact absurd trivial hpure

theorem eq_boolean_of_compare {name : String} {test : Number → Number → Bool} {x y : Value}
    (h : compare name test x y = .ok v) : ∃ b, v = .boolean b := by
  obtain ⟨_, _, h⟩ := bind_eq_ok.mp h
  obtain ⟨_, _, h⟩ := bind_eq_ok.mp h
  exact ⟨_, (pure_eq_ok.mp h).symm⟩

theorem eq_list_of_asItems {name : String} {x : Value} {vs : List Value}
    (h : x.asItems name = .ok vs) : x = .list vs := by
  unfold Value.asItems at h
  split at h
  · exact congrArg Value.list (Except.ok.inj h)
  · cases h

/-- How a primitive that neither prints nor calls comes to a value: it makes new data, or hands on
operands and parts of them. -/
inductive Makes : Primitive → List Value → Value → Prop
  | number {op : Primitive} {args : List Value} {n : Number} (hop : op.IsNumeric) :
      Makes op args (.number n)
  | boolean {op : Primitive} {args : List Value} {b : Bool} : Makes op args (.boolean b)
  | string {op : Primitive} {args : List Value} {text : String} : Makes op args (.string text)
  | car {v : Value} {vs rest : List Value} : Makes .car (.list (v :: vs) :: rest) v
  | cdr {v : Value} {vs rest : List Value} : Makes .cdr (.list (v :: vs) :: rest) (.list vs)
  | cons {v : Value} {vs rest : List Value} : Makes .cons (v :: .list vs :: rest) (.list (v :: vs))
  | list {args : List Value} : Makes .list args (.list args)
  | sequence {args : List Value} : Makes .sequence args (args.getLast?.getD .noValue)

theorem makes_of_result {op : Primitive} (h : op.result limit args = .ok v) : op.Makes args v := by
  cases op with
  | add | mul =>
    obtain ⟨_, _, h⟩ := bind_eq_ok.mp h
    obtain ⟨_, _, rfl⟩ := map_eq_ok.mp h
    exact .number trivial
  | sub =>
    obtain ⟨ns, _, h⟩ := bind_eq_ok.mp h
    cases ns with
    | nil => cases h
    | cons =>
      obtain ⟨_, _, rfl⟩ := map_eq_ok.mp h
      exact .number trivial
  | div =>
    obtain ⟨ns, _, h⟩ := bind_eq_ok.mp h
    cases ns with
    | nil => cases h
    | cons =>
      obtain ⟨_, _, h⟩ := bind_eq_ok.mp h
      exact pure_eq_ok.mp h ▸ .number trivial
  | eq | lt | gt =>
    rcases args with _ | ⟨x, _ | ⟨y, rest⟩⟩
    · cases h
    · cases h
    · obtain ⟨_, rfl⟩ := eq_boolean_of_compare h
      exact .boolean
  | equal =>
    rcases args with _ | ⟨x, _ | ⟨y, _ | _⟩⟩
    · cases h
    · cases h
    · obtain ⟨_, _, h⟩ := bind_eq_ok.mp h
      exact pure_eq_ok.mp h ▸ .boolean
    · cases h
  | isNull =>
    cases args with
    | nil => cases h
    | cons =>
      obtain ⟨_, _, h⟩ := bind_eq_ok.mp h
      exact pure_eq_ok.mp h ▸ .boolean
  | len =>
    cases args with
    | nil => cases h
    | cons =>
      obtain ⟨_, _, h⟩ := bind_eq_ok.mp h
      exact pure_eq_ok.mp h ▸ .number trivial
  | car | cdr =>
    cases args with
    | nil => cases h
    | cons x rest =>
      obtain ⟨vs, hvs, h⟩ := bind_eq_ok.mp h
      obtain rfl := eq_list_of_asItems hvs
      cases vs with
      | nil => cases h
      | cons =>
        obtain rfl := Except.ok.inj h
        constructor
  | cons =>
    rcases args with _ | ⟨x, _ | ⟨y, rest⟩⟩
    · cases h
    · cases h
    · cases y with
      | list vs => exact Except.ok.inj h ▸ .cons
      | _ => cases h
  | list => exact Except.ok.inj h ▸ .list
  | sequence => exact Except.ok.inj h ▸ .sequence
  | stringAppend =>
    obtain ⟨_, _, h⟩ := bind_eq_ok.mp h
    exact pure_eq_ok.mp h ▸ .string
  | addTwo =>
    rcases args with _ | ⟨x, _ | ⟨y, _ | _⟩⟩
    · cases h
    · cases x <;> cases h
    · cases x with
      | number a =>
        cases y with
        | number b =>
          obtain ⟨_, _, rfl⟩ := map_eq_ok.mp h
          exact .number trivial
        | _ => cases h
      | _ => cases h
    · cases x <;> cases y <;> cases h
  | apply | display | newline => cases h

def MakesData : Primitive → Prop
  | .car | .cdr | .cons | .list | .sequence => False
  | _ => True

theorem isPlain_of_result {op : Primitive} (hop : op.MakesData) (h : op.result limit args = .ok v) :
    v.IsPlain := by
  cases makes_of_result h with
  | number | boolean | string => trivial
  | _ => exact hop.elim

theorem result_every_of {op : Primitive} {P : Value → Prop}
    (hnew : ∀ w : Value, w.IsPlain →
      (∀ n, w = .number n → op.IsNumeric ∧ op.result limit args = .ok w) → P w)
    (hargs : ∀ v ∈ args, v.Every P) (h : op.result limit args = .ok v) : v.Every P := by
  have hdata : ∀ {w : Value}, w.IsPlain → (∀ n, w ≠ .number n) → w.Every P :=
    fun hw hne => Value.every_of_isPlain hw (hnew _ hw fun n heq => absurd heq (hne n))
  cases makes_of_result h with
  | number hop => exact Value.every_of_isPlain trivial (hnew _ trivial fun _ _ => ⟨hop, h⟩)
  | boolean | string => exact hdata trivial fun _ => Value.noConfusion
  | car =>
    have hitems := Value.every_list.mp (hargs _ List.mem_cons_self)
    exact hitems v List.mem_cons_self
  | cdr =>
    have hitems := Value.every_list.mp (hargs _ List.mem_cons_self)
    exact Value.every_list.mpr (List.forall_mem_cons.mp hitems).2
  | cons =>
    obtain ⟨hv, hvs, _⟩ := List.forall_mem_cons.mp hargs |>.imp_right List.forall_mem_cons.mp
    exact Value.every_list.mpr (List.forall_mem_cons.mpr ⟨hv, Value.every_list.mp hvs⟩)
  | list => exact Value.every_list.mpr hargs
  | sequence =>
    cases hlast : args.getLast? with
    | none => exact hdata trivial fun _ => Value.noConfusion
    | some w => exact hargs w (List.mem_of_getLast? hlast)

theorem result_every {op : Primitive} {P : Value → Prop} (hplain : ∀ v : Value, v.IsPlain → P v)
    (hargs : ∀ v ∈ args, v.Every P) (h : op.result limit args = .ok v) : v.Every P :=
  result_every_of (fun w hw _ => hplain w hw) hargs h

end Primitive
end MiniScheme
