import Mathlib.Data.List.Forall2
import MiniScheme.Proofs.Eval.Shapes

/-! What becomes of the parameters of a procedure: distinct symbols are taken as they stand, and of
every other list the first item that does not fit decides what is told, and where. -/

namespace MiniScheme

theorem Expr.IsSymbol.unique {e : Expr} {name other : String} (h : e.IsSymbol name)
    (h' : e.IsSymbol other) : name = other := by
  obtain ⟨_, rfl⟩ := h
  obtain ⟨_, h'⟩ := h'
  cases h'
  rfl

namespace Form

inductive Misfit (anchor : Token) (items : List Expr) (i : Nat) : Token → String → Prop
  | notSymbol {e : Expr} (he : items[i]? = some e) (hname : ∀ name, ¬e.IsSymbol name) :
      Misfit anchor items i anchor
        ("unknown expression: parameter should be symbol, now " ++ e.kind)
  | repeated {line : Nat} {name : String} (he : items[i]? = some (.atom line (.symbol name)))
      (hearlier : ∃ j < i, ∃ e, items[j]? = some e ∧ e.IsSymbol name) :
      Misfit anchor items i ⟨line, .atom (.symbol name)⟩
        "unknown expression: parameter show up twice"

def FailsAt {α : Type} (r : Except EvalError α) (t : Token) (message : String) : Prop :=
  ∃ err, r = .error err ∧ err.anchor = some t ∧ err.fault.message = message

section Misfits

variable {anchor t : Token} {front rest items : List Expr} {names : List String} {i : Nat}
  {message : String}

theorem exists_name_of_item {e : Expr} (hfront : List.Forall₂ Expr.IsSymbol front names)
    (he : front[i]? = some e) : ∃ name, names[i]? = some name ∧ e.IsSymbol name := by
  induction hfront generalizing i with
  | nil => cases he
  | @cons e' name front names hname _ ih =>
    cases i with
    | zero =>
      obtain rfl : e' = e := Option.some.inj he
      exact ⟨name, rfl, hname⟩
    | succ i => exact ih he

theorem exists_item_of_name {name : String} (hfront : List.Forall₂ Expr.IsSymbol front names)
    (hname : name ∈ names) : ∃ i < front.length, ∃ e, front[i]? = some e ∧ e.IsSymbol name := by
  obtain ⟨i, hi, rfl⟩ := List.mem_iff_getElem.mp hname
  have hlt : i < front.length := hfront.length_eq ▸ hi
  exact ⟨i, hlt, front[i], List.getElem?_eq_getElem hlt, hfront.get hlt hi⟩

theorem not_misfit_of_distinct (hfront : List.Forall₂ Expr.IsSymbol front names)
    (hnodup : names.Nodup) (hi : i < front.length) :
    ¬Misfit anchor (front ++ rest) i t message := by
  intro h
  cases h with
  | notSymbol he hname =>
    rw [List.getElem?_append_left hi] at he
    obtain ⟨name, _, hsymbol⟩ := exists_name_of_item hfront he
    exact hname name hsymbol
  | @repeated line name he hearlier =>
    obtain ⟨j, hj, e, he', hsymbol⟩ := hearlier
    have hlt : j < front.length := Nat.lt_trans hj hi
    rw [List.getElem?_append_left hi] at he
    rw [List.getElem?_append_left hlt] at he'
    obtain ⟨first, hfirst, hsymbol'⟩ := exists_name_of_item hfront he'
    obtain ⟨second, hsecond, hsymbol''⟩ := exists_name_of_item hfront he
    obtain rfl := hsymbol.unique hsymbol'
    obtain rfl : name = second := Expr.IsSymbol.unique ⟨line, rfl⟩ hsymbol''
    -- one name at two indices
    have heq := (List.getElem?_inj (hfront.length_eq ▸ hlt) hnodup).mp (hfirst.trans hsecond.symm)
    exact Nat.ne_of_lt hj heq

theorem Parameters.exists_misfit {err : EvalError} (h : Parameters anchor items (.error err)) :
    ∃ i t, Misfit anchor items i t err.fault.message ∧
      (∀ j < i, ∀ t message, ¬Misfit anchor items j t message) ∧ err.anchor = some t := by
  cases h with
  | @notSymbol front rest names e hfront hnodup he =>
    have hitem : (front ++ e :: rest)[front.length]? = some e := by simp
    refine ⟨front.length, anchor, .notSymbol hitem he, fun j hj _ _ => ?_, rfl⟩
    exact not_misfit_of_distinct hfront hnodup hj
  | @repeated front rest names line name hfront hnodup hname =>
    have hitem : (front ++ .atom line (.symbol name) :: rest)[front.length]? =
        some (.atom line (.symbol name)) := by simp
    obtain ⟨i, hi, e, he, hsymbol⟩ := exists_item_of_name hfront hname
    rw [← List.getElem?_append_left hi] at he
    refine ⟨front.length, _, .repeated hitem ⟨i, hi, e, he, hsymbol⟩, fun j hj _ _ => ?_, rfl⟩
    exact not_misfit_of_distinct hfront hnodup hj

theorem parameters_list_eq_ok {line : Nat} :
    parameters anchor (.list line items) = .ok names ↔
      List.Forall₂ Expr.IsSymbol items names ∧ names.Nodup := by
  have hparameters : parameters anchor (.list line items) = distinctNames anchor [] items := rfl
  rw [hparameters, distinctNames_eq_iff]
  constructor
  · rintro ⟨hitems, hnodup⟩
    exact ⟨hitems, hnodup⟩
  · rintro ⟨hitems, hnodup⟩
    exact .names hitems hnodup

end Misfits

/-- Only a list can hold parameters. One of distinct symbols gives their names in order, and nothing
else gives any. In every other list there is a first item that does not fit: if it is no symbol, the
list is refused at the anchor, and if its name is there already, at the item itself. -/
theorem parameters_verdict (anchor : Token) (p : Expr) :
    ((∀ line items, p ≠ .list line items) →
      FailsAt (parameters anchor p) anchor
        "unknown expression: lambda parameters should be list") ∧
    ∀ line items, p = .list line items →
      (∀ names, parameters anchor p = .ok names ↔
        List.Forall₂ Expr.IsSymbol items names ∧ names.Nodup) ∧
      ((¬∃ names, List.Forall₂ Expr.IsSymbol items names ∧ names.Nodup) →
        ∃ i t message, Misfit anchor items i t message ∧
          (∀ j < i, ∀ t message, ¬Misfit anchor items j t message) ∧
          FailsAt (parameters anchor p) t message) := by
  constructor
  · intro hlist
    have hrefused : parameters anchor p = .error ⟨some anchor, .parametersNotList⟩ := by
      unfold parameters
      split
      · exact absurd rfl (hlist _ _)
      · rfl
    exact ⟨_, hrefused, rfl, rfl⟩
  · rintro line items rfl
    refine ⟨fun names => parameters_list_eq_ok, fun hnames => ?_⟩
    cases hresult : parameters anchor (.list line items) with
    | ok names => exact absurd ⟨names, parameters_list_eq_ok.mp hresult⟩ hnames
    | error err =>
      have hparameters : distinctNames anchor [] items = .error err := hresult
      obtain ⟨i, t, hmisfit, hfirst, ht⟩ := (distinctNames_eq_iff.mp hparameters).exists_misfit
      exact ⟨i, t, _, hmisfit, hfirst, err, rfl, ht, rfl⟩

example (anchor : Token) :
    let x (line : Nat) : Expr := .atom line (.symbol "x")
    parameters anchor (.list 0 [x 0, x 1, .atom 2 (.boolean true)]) =
      .error ⟨some ⟨1, .atom (.symbol "x")⟩, .repeatedParameter⟩ := rfl

end Form
end MiniScheme
