import Mathlib.Algebra.BigOperators.Group.List.Basic
import Mathlib.Algebra.Ring.Int.Defs
import MiniScheme.Proofs.Primitive.Result

/-! Arithmetic on any number of operands. All of them are looked at before the first one is used, so
that an operand of another class is at fault whatever the numbers in front of it come to. Division
goes on from left to right until it meets a zero or a quotient too large. -/

namespace MiniScheme
namespace Number

def IsZero (n : Number) : Prop :=
  n = .int 0 ∨ n = .double (.zero false) ∨ n = .double (.zero true)

inductive Divides : Number → List Number → Number → Prop
  | nil (n : Number) : Divides n [] n
  | cons {n m p q : Number} {ms : List Number} (h : n.div m = .ok p) (hrest : Divides p ms q) :
      Divides n (m :: ms) q

variable {n m : Number} {ints : Int → Int → Int} {doubles : Double → Double → Double}

theorem isZero_iff : n.isZero = true ↔ n.IsZero := by
  constructor
  · intro h
    cases n with
    | int k => exact .inl (congrArg int (beq_iff_eq.mp h))
    | double x =>
      cases x with
      | finite s u hu =>
        obtain rfl := beq_iff_eq.mp h
        cases s with
        | false => exact .inr (.inl rfl)
        | true => exact .inr (.inr rfl)
      | _ => cases h
  · rintro (rfl | rfl | rfl) <;> rfl

theorem combine_ints (k : Int) (is : List Int) :
    (is.map int).foldlM (combine ints doubles) (.int k) = .ok (.int (is.foldl ints k)) := by
  induction is generalizing k with
  | nil => rfl
  | cons i is ih =>
    rw [List.map_cons, List.foldlM_cons, List.foldl_cons]
    exact ih (ints k i)

theorem foldl_sub (k : Int) (is : List Int) : is.foldl (· - ·) k = k - is.sum := by
  induction is generalizing k with
  | nil => exact (Int.sub_zero k).symm
  | cons i is ih => rw [List.foldl_cons, ih, List.sum_cons, Int.sub_sub]

end Number

namespace Value

theorem asNumbers_of_not_number (name : String) (ns : List Number) {v : Value}
    (hv : ∀ n, v ≠ .number n) (rest : List Value) :
    asNumbers name (ns.map .number ++ v :: rest) =
      .error (.primitive (.notNumber name v.kind)) := by
  induction ns with
  | nil =>
    have hfault : v.asNumber name = .error (.primitive (.notNumber name v.kind)) := by
      cases v with
      | number n => exact absurd rfl (hv n)
      | _ => rfl
    rw [List.map_nil, List.nil_append, asNumbers, List.mapM_cons, hfault]
    rfl
  | cons n ns ih =>
    rw [asNumbers] at ih ⊢
    rw [List.map_cons, List.cons_append, List.mapM_cons, ih]
    rfl

theorem asNumbers_numbers (name : String) (ns : List Number) :
    asNumbers name (ns.map .number) = .ok ns := by
  induction ns with
  | nil => rfl
  | cons n ns ih =>
    rw [asNumbers] at ih ⊢
    rw [List.map_cons, List.mapM_cons, ih]
    rfl

end Value

namespace Primitive

def Gives (op : Primitive) (args : List Value) (v : Value) : Prop :=
  ∀ (limit : Nat) (s : Store), op.run limit args s = .ok v s

def Fails (op : Primitive) (args : List Value) (failure : Failure) : Prop :=
  ∀ (limit : Nat) (s : Store), op.run limit args s = .error failure s

def Raises (op : Primitive) (args : List Value) (message : String) : Prop :=
  ∃ fault, fault.message = message ∧ op.Fails args (.primitive fault)

variable {op : Primitive} {args : List Value} {v : Value} {failure : Failure} {n m q : Number}
  {ns : List Number}

theorem gives_of_result (hop : op.IsPure) (h : ∀ limit, op.result limit args = .ok v) :
    op.Gives args v := by
  intro limit s
  rw [run_of_isPure hop, h]
  rfl

theorem fails_of_result (hop : op.IsPure) (h : ∀ limit, op.result limit args = .error failure) :
    op.Fails args failure := by
  intro limit s
  rw [run_of_isPure hop, h]
  rfl

theorem Fails.result (h : op.Fails args failure) (hop : op.IsPure) (limit : Nat) :
    op.result limit args = .error failure := by
  have hrun := h limit {}
  rw [run_of_isPure hop] at hrun
  obtain ⟨_, hresult, rfl, _⟩ := Run.ofExcept_error_iff.mp hrun
  exact hresult

def arithmetic : List Primitive := [.add, .sub, .mul, .div]

theorem raises_notNumber (hop : op ∈ arithmetic) (ns : List Number) {v : Value}
    (hv : ∀ n, v ≠ .number n) (rest : List Value) :
    op.Raises (ns.map .number ++ v :: rest) (op.name ++ " requires numbers, now " ++ v.kind) := by
  have hargs := Value.asNumbers_of_not_number op.name ns hv rest
  refine ⟨.notNumber op.name v.kind, rfl, ?_⟩
  simp only [arithmetic, List.mem_cons, List.not_mem_nil, or_false] at hop
  rcases hop with rfl | rfl | rfl | rfl
  all_goals
    refine fails_of_result trivial fun limit => ?_
    rw [result, hargs]
    rfl

theorem result_add (limit : Nat) (ns : List Number) :
    add.result limit (ns.map .number) = fold Number.add (.int 0) ns := by
  rw [result, Value.asNumbers_numbers]
  rfl

theorem result_mul (limit : Nat) (ns : List Number) :
    mul.result limit (ns.map .number) = fold Number.mul (.int 1) ns := by
  rw [result, Value.asNumbers_numbers]
  rfl

theorem result_sub (limit : Nat) (n : Number) (ns : List Number) :
    sub.result limit ((n :: ns).map .number) = fold Number.sub n ns := by
  rw [result, Value.asNumbers_numbers]
  rfl

theorem result_div (limit : Nat) (n : Number) (ns : List Number) :
    div.result limit ((n :: ns).map .number) = (ns.foldlM divide n).map .number := by
  rw [result, Value.asNumbers_numbers]
  rfl

theorem divide_eq_ok : divide n m = .ok q ↔ n.div m = .ok q := by
  unfold divide
  split
  · rename_i hzero
    have hdiv : n.div m = .error .zeroDivisor := if_pos hzero
    rw [hdiv]
    exact iff_of_false nofun nofun
  · exact mapError_eq_ok

theorem divide_eq_divisionByZero {fault : PrimitiveFault} :
    divide n m = .error (.primitive fault) ↔ fault = .divisionByZero ∧ m.IsZero := by
  rw [← Number.isZero_iff]
  unfold divide
  split
  · rename_i hzero
    rw [Except.error.injEq, Failure.primitive.injEq]
    exact ⟨fun h => ⟨h.symm, hzero⟩, fun h => h.1.symm⟩
  · rename_i hzero
    refine iff_of_false (fun h => ?_) fun h => hzero h.2
    obtain ⟨_, _, heq⟩ := mapError_eq_error.mp h
    cases heq

theorem foldlM_divide_eq_ok : ns.foldlM divide n = .ok q ↔ n.Divides ns q := by
  constructor
  · intro h
    induction ns generalizing n with
    | nil => exact pure_eq_ok.mp h ▸ .nil n
    | cons m ns ih =>
      obtain ⟨p, hp, h⟩ := bind_eq_ok.mp h
      exact .cons (divide_eq_ok.mp hp) (ih h)
  · intro h
    induction h with
    | nil n => rfl
    | cons hp _ ih => exact bind_eq_ok.mpr ⟨_, divide_eq_ok.mpr hp, ih⟩

theorem foldlM_divide_eq_divisionByZero {fault : PrimitiveFault} :
    ns.foldlM divide n = .error (.primitive fault) ↔ fault = .divisionByZero ∧
      ∃ front z rest q, ns = front ++ z :: rest ∧ n.Divides front q ∧ z.IsZero := by
  simp only [foldlM_eq_error_iff, divide_eq_divisionByZero, foldlM_divide_eq_ok]
  constructor
  · rintro ⟨front, z, rest, q, hns, hq, hfault, hz⟩
    exact ⟨hfault, front, z, rest, q, hns, hq, hz⟩
  · rintro ⟨hfault, front, z, rest, q, hns, hq, hz⟩
    exact ⟨front, z, rest, q, hns, hq, hfault, hz⟩

theorem raises_divisionByZero_iff :
    div.Raises ((n :: ns).map .number) "division by zero" ↔
      ∃ front z rest q, ns = front ++ z :: rest ∧ n.Divides front q ∧ z.IsZero := by
  constructor
  · rintro ⟨fault, _, hfails⟩
    have hresult := hfails.result trivial 0
    rw [result_div, map_eq_error, foldlM_divide_eq_divisionByZero] at hresult
    exact hresult.2
  · intro h
    refine ⟨.divisionByZero, rfl, fails_of_result trivial fun limit => ?_⟩
    rw [result_div, map_eq_error, foldlM_divide_eq_divisionByZero]
    exact ⟨rfl, h⟩

theorem div_cases (n : Number) (ns : List Number) :
    (∃ q, n.Divides ns q ∧ div.Gives ((n :: ns).map .number) (.number q)) ∨
      div.Raises ((n :: ns).map .number) "division by zero" ∨
      ∃ e, e ≠ .zeroDivisor ∧ div.Fails ((n :: ns).map .number) (.arithmetic e) := by
  have hresult : ∀ limit, div.result limit ((n :: ns).map .number) =
      (ns.foldlM divide n).map .number := fun limit => result_div limit n ns
  cases hfold : ns.foldlM divide n with
  | ok q =>
    rw [hfold] at hresult
    exact .inl ⟨q, foldlM_divide_eq_ok.mp hfold, gives_of_result trivial hresult⟩
  | error failure =>
    rw [hfold] at hresult
    obtain ⟨_, m, _, p, _, _, h⟩ := foldlM_eq_error_iff.mp hfold
    rcases divide_error h with rfl | ⟨e, rfl, he⟩
    · exact .inr (.inl ⟨.divisionByZero, rfl, fails_of_result trivial hresult⟩)
    · exact .inr (.inr ⟨e, he, fails_of_result trivial hresult⟩)

def Computes (op : Primitive) (args : List Value) : Prop :=
  (∃ q, op.Gives args (.number q)) ∨ op.Fails args (.arithmetic .intTooLarge)

theorem computes_of_fold {ints : Int → Int → Int} {doubles : Double → Double → Double}
    (hop : op.IsPure)
    (h : ∀ limit, op.result limit args = fold (Number.combine ints doubles) n ns) :
    op.Computes args := by
  cases hfold : fold (Number.combine ints doubles) n ns with
  | ok v =>
    rw [hfold] at h
    obtain ⟨q, _, rfl⟩ := map_eq_ok.mp hfold
    exact .inl ⟨q, gives_of_result hop h⟩
  | error failure =>
    rw [hfold] at h
    obtain ⟨_, _, e, hstep, rfl⟩ := fold_error hfold
    obtain rfl := Number.combine_error hstep
    exact .inr (fails_of_result hop h)

theorem computes_of_numbers (hop : op ∈ [add, sub, mul]) (hcount : op.arity.Admits ns.length) :
    op.Computes (ns.map .number) := by
  simp only [List.mem_cons, List.not_mem_nil, or_false] at hop
  rcases hop with rfl | rfl | rfl
  · exact computes_of_fold trivial fun limit => result_add limit ns
  · obtain ⟨n, ns, rfl⟩ := List.exists_cons_of_length_pos (Arity.admits_atLeast.mp hcount)
    exact computes_of_fold trivial fun limit => result_sub limit n ns
  · exact computes_of_fold trivial fun limit => result_mul limit ns

/-! Integers of any size. -/

def integers (is : List Int) : List Value := (is.map Number.int).map .number

theorem fold_ints {ints : Int → Int → Int} {doubles : Double → Double → Double} (k : Int)
    (is : List Int) :
    fold (Number.combine ints doubles) (.int k) (is.map .int) =
      .ok (.number (.int (is.foldl ints k))) := by
  rw [fold, Number.combine_ints]
  rfl

theorem gives_sum (is : List Int) : add.Gives (integers is) (.number (.int is.sum)) := by
  refine gives_of_result trivial fun limit => ?_
  rw [integers, result_add, Number.add, fold_ints, List.sum_eq_foldl]

theorem gives_product (is : List Int) : mul.Gives (integers is) (.number (.int is.prod)) := by
  refine gives_of_result trivial fun limit => ?_
  rw [integers, result_mul, Number.mul, fold_ints, List.prod_eq_foldl]

theorem gives_difference (k : Int) (is : List Int) :
    sub.Gives (integers (k :: is)) (.number (.int (k - is.sum))) := by
  refine gives_of_result trivial fun limit => ?_
  rw [integers, List.map_cons, result_sub, Number.sub, fold_ints, Number.foldl_sub]

end Primitive

open Primitive

/-- Arithmetic looks at all operands before it begins, and the first that is no number is at fault.
Sums, differences and products of numbers are numbers unless an integer is too large for a double.
Division stops at the first zero that it reaches. On integers alone everything but division is
exact, in whatever order the operands stand. -/
theorem arithmetic_folds :
    (∀ op ∈ arithmetic, ∀ (ns : List Number) (v : Value) (rest : List Value),
      (∀ n, v ≠ .number n) →
      op.Raises (ns.map .number ++ v :: rest) (op.name ++ " requires numbers, now " ++ v.kind)) ∧
    (∀ op ∈ [add, sub, mul], ∀ ns : List Number, op.arity.Admits ns.length →
      op.Computes (ns.map .number)) ∧
    (∀ (n : Number) (ns : List Number),
      (div.Raises ((n :: ns).map .number) "division by zero" ↔
        ∃ front z rest q, ns = front ++ z :: rest ∧ n.Divides front q ∧ z.IsZero) ∧
      ((∃ q, n.Divides ns q ∧ div.Gives ((n :: ns).map .number) (.number q)) ∨
        div.Raises ((n :: ns).map .number) "division by zero" ∨
        ∃ e, e ≠ .zeroDivisor ∧ div.Fails ((n :: ns).map .number) (.arithmetic e))) ∧
    ∀ is js : List Int, js.Perm is →
      add.Gives (integers js) (.number (.int is.sum)) ∧
      mul.Gives (integers js) (.number (.int is.prod)) ∧
      ∀ k : Int, sub.Gives (integers (k :: js)) (.number (.int (k - is.sum))) := by
  refine ⟨fun op hop ns v rest hv => raises_notNumber hop ns hv rest,
    fun op hop ns hcount => computes_of_numbers hop hcount,
    fun n ns => ⟨raises_divisionByZero_iff, div_cases n ns⟩, fun is js hperm => ?_⟩
  rw [← hperm.sum_eq, ← hperm.prod_eq]
  exact ⟨gives_sum js, gives_product js, fun k => gives_difference k js⟩

end MiniScheme
