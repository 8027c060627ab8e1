import MiniScheme.Proofs.Expr.Flatten
import MiniScheme.Proofs.Primitive.Result

/-! Arithmetic on doubles. It gives doubles and never fails for size. Sums and products begin with
an integer, which is left behind by the first operand and stays if there is none. -/

namespace MiniScheme

def Number.IsDouble (n : Number) : Prop := ∃ x, n = .double x

def Value.IsInexact (v : Value) : Prop := ∀ n, v = .number n → n.IsDouble

/-- Applications that give an integer, whatever numbers their operands hold. -/
def Primitive.MakesInt : Primitive → List Value → Prop
  | .len, _ => True
  | .add, [] => True
  | .mul, [] => True
  | _, _ => False

namespace Number

variable {ints : Int → Int → Int} {doubles : Double → Double → Double} {a : Number}
  {x y : Double} {ns : List Number}

theorem toDouble_int {n : Int} (h : (Double.ofInt n).isFinite = true) :
    (int n).toDouble = .ok (Double.ofInt n) := by
  rw [toDouble, if_pos h]

theorem combine_double (ha : a.toDouble = .ok x) :
    combine ints doubles a (.double y) = .ok (.double (doubles x y)) := by
  cases a with
  | int m =>
    simp only [combine, ha]
    rfl
  | double z =>
    obtain rfl := Except.ok.inj ha
    rfl

theorem foldlM_combine (hns : ∀ n ∈ ns, n.IsDouble) :
    ∃ z, ns.foldlM (combine ints doubles) (.double x) = .ok (.double z) := by
  induction ns generalizing x with
  | nil => exact ⟨x, rfl⟩
  | cons n ns ih =>
    obtain ⟨⟨y, rfl⟩, hrest⟩ := List.forall_mem_cons.mp hns
    rw [List.foldlM_cons, combine_double rfl]
    exact ih hrest

end Number

namespace Value

variable {name : String} {args : List Value} {ns : List Number} {limit : Nat} {v : Value}

theorem isDouble_of_asNumbers (hargs : ∀ v ∈ args, v.Every IsInexact)
    (h : asNumbers name args = .ok ns) : ∀ n ∈ ns, n.IsDouble := by
  intro n hn
  obtain ⟨v, hv, hnumber⟩ := exists_mem_of_forall₂ (mapM_eq_ok h).flip hn
  cases v with
  | number m =>
    obtain rfl : m = n := Except.ok.inj hnumber
    exact hargs _ hv _ List.mem_cons_self m rfl
  | _ => cases hnumber

theorem text_ne_arithmetic (hknown : v.Known) (hv : v.Every IsInexact) (e : ArithmeticError) :
    v.text limit ≠ .error (.arithmetic e) := by
  intro h
  refine text_error_of (F := fun failure => ∀ e, failure ≠ .arithmetic e)
    (fun _ => Failure.noConfusion) (fun w hw => ⟨hknown w hw, ?_⟩) h e rfl
  rintro n _ rfl htext
  obtain ⟨x, rfl⟩ := hv _ hw n rfl
  cases htext

end Value

namespace Primitive

variable {op : Primitive} {limit : Nat} {args : List Value} {ns : List Number} {v : Value}
  {ints : Int → Int → Int} {doubles : Double → Double → Double} {x : Double}

theorem fold_double (hns : ∀ n ∈ ns, n.IsDouble) :
    ∃ z, fold (Number.combine ints doubles) (.double x) ns = .ok (.number (.double z)) := by
  obtain ⟨z, hz⟩ := Number.foldlM_combine hns
  refine ⟨z, ?_⟩
  rw [fold, hz]
  rfl

theorem fold_seed {seed n : Number} (hseed : seed.toDouble = .ok x) (hn : n.IsDouble)
    (hns : ∀ n ∈ ns, n.IsDouble) :
    ∃ z, fold (Number.combine ints doubles) seed (n :: ns) = .ok (.number (.double z)) := by
  obtain ⟨y, rfl⟩ := hn
  rw [fold, List.foldlM_cons, Number.combine_double hseed]
  exact fold_double hns

theorem foldlM_divide (hns : ∀ n ∈ ns, n.IsDouble) :
    (∃ z, ns.foldlM divide (.double x) = .ok (.double z)) ∨
      ns.foldlM divide (.double x) = .error (.primitive .divisionByZero) := by
  induction ns generalizing x with
  | nil => exact .inl ⟨x, rfl⟩
  | cons n ns ih =>
    obtain ⟨⟨y, rfl⟩, hrest⟩ := List.forall_mem_cons.mp hns
    rw [List.foldlM_cons]
    by_cases hy : (Number.double y).isZero
    · have hdivide : divide (.double x) (.double y) = .error (.primitive .divisionByZero) :=
        if_pos hy
      rw [hdivide]
      exact .inr rfl
    · have hdivide : divide (.double x) (.double y) = .ok (.double (x.div y)) := by
        simp only [divide, Number.div, if_neg hy]
        rfl
      rw [hdivide]
      exact ih hrest

def GivesDouble (r : Except Failure Value) : Prop :=
  (∃ x, r = .ok (.number (.double x))) ∨ ∃ fault, r = .error (.primitive fault)

theorem givesDouble_of_asNumbers {name : String} {f : List Number → Except Failure Value}
    (hargs : ∀ v ∈ args, v.Every Value.IsInexact) (hne : 1 ≤ args.length)
    (hf : ∀ n ns, n.IsDouble → (∀ m ∈ ns, m.IsDouble) → GivesDouble (f (n :: ns))) :
    GivesDouble (Value.asNumbers name args >>= f) := by
  cases h : Value.asNumbers name args with
  | error failure =>
    obtain ⟨fault, rfl⟩ := Value.asNumbers_error h
    exact .inr ⟨fault, rfl⟩
  | ok ns =>
    obtain ⟨n, ns, rfl⟩ := exists_cons_of_asNumbers hne h
    obtain ⟨hn, hns⟩ := List.forall_mem_cons.mp (Value.isDouble_of_asNumbers hargs h)
    exact hf n ns hn hns

theorem givesDouble (hnumeric : op.IsNumeric) (hint : ¬op.MakesInt args)
    (hcount : op.arity.Admits args.length) (hargs : ∀ v ∈ args, v.Every Value.IsInexact) :
    GivesDouble (op.result limit args) := by
  cases op with
  | len => exact absurd trivial hint
  | add | mul =>
    have hne : args ≠ [] := by
      rintro rfl
      exact hint trivial
    exact givesDouble_of_asNumbers hargs (List.length_pos_iff.mpr hne)
      fun _ _ hn hns => .inl (fold_seed (Number.toDouble_int (by decide +kernel)) hn hns)
  | sub =>
    refine givesDouble_of_asNumbers hargs (Arity.admits_atLeast.mp hcount) ?_
    rintro _ ns ⟨x, rfl⟩ hns
    exact .inl (fold_double hns)
  | div =>
    refine givesDouble_of_asNumbers hargs (Arity.admits_atLeast.mp hcount) ?_
    rintro _ ns ⟨x, rfl⟩ hns
    dsimp only
    rcases foldlM_divide hns with ⟨z, hz⟩ | hzero
    · rw [hz]
      exact .inl ⟨z, rfl⟩
    · rw [hzero]
      exact .inr ⟨_, rfl⟩
  | addTwo =>
    obtain ⟨x, y, rfl⟩ := List.length_eq_two.mp (Arity.admits_exactly.mp hcount)
    obtain ⟨hx, hy, _⟩ := List.forall_mem_cons.mp hargs |>.imp_right List.forall_mem_cons.mp
    cases x with
    | number a =>
      cases y with
      | number b =>
        obtain ⟨x, rfl⟩ := hx _ List.mem_cons_self a rfl
        obtain ⟨y, rfl⟩ := hy _ List.mem_cons_self b rfl
        exact .inl ⟨x.add y, rfl⟩
      | _ => exact .inr ⟨_, rfl⟩
    | _ => exact .inr ⟨_, rfl⟩
  | _ => exact hnumeric.elim

theorem result_every_inexact {P : Value → Prop} (hplain : ∀ w, w.IsPlain → w.IsInexact → P w)
    (hP : ∀ w, P w → w.IsInexact) (hint : ¬op.MakesInt args)
    (hcount : op.arity.Admits args.length) (hargs : ∀ v ∈ args, v.Every P)
    (h : op.result limit args = .ok v) : v.Every P := by
  refine result_every_of (fun w hw hnew => hplain w hw fun n hn => ?_) hargs h
  obtain ⟨hnumeric, hresult⟩ := hnew n hn
  rcases givesDouble hnumeric hint hcount fun v hv => (hargs v hv).mono hP with
    ⟨x, hx⟩ | ⟨fault, hfault⟩
  · rw [hn] at hresult
    cases hx.symm.trans hresult
    exact ⟨x, rfl⟩
  · cases hfault.symm.trans hresult

theorem MakesInt.result_ne_arithmetic (h : op.MakesInt args) (e : ArithmeticError) :
    op.result limit args ≠ .error (.arithmetic e) := by
  intro herror
  cases op with
  | add | mul =>
    cases args with
    | nil => cases herror
    | cons v args => exact h
  | len =>
    cases args with
    | nil => cases herror
    | cons v args =>
      rcases bind_eq_error.mp herror with herror | ⟨_, _, herror⟩
      · obtain ⟨_, heq⟩ := Value.asItems_error herror
        cases heq
      · exact pure_ne_error herror
  | _ => exact h

theorem result_ne_arithmetic (hop : op.IsPure) (hcount : op.arity.Admits args.length)
    (hknown : ∀ v ∈ args, v.Known) (hargs : ∀ v ∈ args, v.Every Value.IsInexact)
    (e : ArithmeticError) : op.result limit args ≠ .error (.arithmetic e) := by
  by_cases hint : op.MakesInt args
  · exact hint.result_ne_arithmetic e
  · intro h
    refine result_error_of (F := fun failure => ∀ e, failure ≠ .arithmetic e)
      (fun _ _ => Failure.noConfusion) (fun _ => Failure.noConfusion) ?_ ?_ hop hcount hknown h e
      rfl
    · rintro v hv _ htext e rfl
      exact Value.text_ne_arithmetic (hknown v hv) (hargs v hv) e htext
    · intro e _ hnumeric hresult
      rcases givesDouble hnumeric hint hcount hargs with ⟨x, hx⟩ | ⟨fault, hfault⟩
      · cases hx.symm.trans hresult
      · cases hfault.symm.trans hresult

end Primitive
end MiniScheme
