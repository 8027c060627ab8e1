import MiniScheme.Proofs.Primitive.Result
import MiniScheme.Proofs.Value.Matches

/-! Primitives on matching operands have matching results. -/

namespace MiniScheme
namespace Correspondence

variable {C : Correspondence} {args args' : List Value}

theorem exceptRel_of_isPlain {r : Except Failure Value} (h : ∀ v, r = .ok v → v.IsPlain) :
    ExceptRel C.Matches Eq r r := by
  cases r with
  | ok v => exact .ok (.plain (h v rfl))
  | error failure => exact .error rfl

theorem asNumbers_eq (h : List.Forall₂ C.Matches args args') (name : String) :
    Value.asNumbers name args' = Value.asNumbers name args :=
  (mapM_eq_of_forall₂ h fun _ _ hab => (hab.asNumber_eq name).symm).symm

theorem Matches.number_cases {v v' : Value} (h : C.Matches v v') :
    (∃ n, v = .number n ∧ v' = .number n) ∨ (∀ n, v ≠ .number n) ∧ ∀ n, v' ≠ .number n := by
  cases h with
  | plain h =>
    cases v with
    | number n => exact .inl ⟨n, rfl, rfl⟩
    | _ => exact .inr ⟨fun _ => Value.noConfusion, fun _ => Value.noConfusion⟩
  | _ => exact .inr ⟨fun _ => Value.noConfusion, fun _ => Value.noConfusion⟩

theorem compare_eq {v v' w w' : Value} (hv : C.Matches v v') (hw : C.Matches w w') (name : String)
    (test : Number → Number → Bool) :
    Primitive.compare name test v' w' = Primitive.compare name test v w := by
  unfold Primitive.compare
  rw [hv.asNumber_eq, hw.asNumber_eq]

theorem matches_head? (h : List.Forall₂ C.Matches args args') :
    C.Matches (args.head?.getD .noValue) (args'.head?.getD .noValue) := by
  cases h with
  | nil => exact .plain trivial
  | cons hab _ => exact hab

theorem matches_getLast? (h : List.Forall₂ C.Matches args args') :
    C.Matches (args.getLast?.getD .noValue) (args'.getLast?.getD .noValue) := by
  rw [List.getLast?_eq_head?_reverse, List.getLast?_eq_head?_reverse]
  exact matches_head? (List.forall₂_reverse_iff.mpr h)

theorem result_eq (hhome : Relator.BiUnique C.home) (hid : Relator.BiUnique C.identity)
    (h : List.Forall₂ C.Matches args args') (limit : Nat) {op : Primitive} (hop : op.MakesData) :
    op.result limit args' = op.result limit args := by
  cases op with
  | add | mul | sub | div => simp only [Primitive.result, asNumbers_eq h]
  | eq | lt | gt =>
    rcases h with _ | ⟨hx, _ | ⟨hy, _⟩⟩
    · rfl
    · rfl
    · simp only [Primitive.result, compare_eq hx hy]
  | equal =>
    rcases h with _ | ⟨hx, _ | ⟨hy, _ | _⟩⟩
    · rfl
    · rfl
    · simp only [Primitive.result, hx.equal_eq hhome hid hy]
    · rfl
  | isNull | len =>
    rcases h with _ | ⟨hx, _⟩
    · rfl
    · refine ((hx.asItems _).bind_eq fun vs ws hvs => ?_).symm
      cases hvs with
      | nil => rfl
      | cons _ hvs => simp only [List.length_cons, hvs.length_eq, List.isEmpty_cons]
  | stringAppend =>
    simp only [Primitive.result, mapM_eq_of_forall₂ h fun _ _ hab => (hab.text_eq limit).symm]
  | addTwo =>
    rcases h with _ | ⟨hx, _ | ⟨hy, _ | _⟩⟩
    · rfl
    · simp [Primitive.result]
    · rcases hx.number_cases with ⟨m, rfl, rfl⟩ | ⟨hx, hx'⟩
      · rcases hy.number_cases with ⟨n, rfl, rfl⟩ | ⟨hy, hy'⟩
        · rfl
        · simp [Primitive.result, hy, hy']
      · simp [Primitive.result, hx, hx']
    · simp [Primitive.result]
  | apply | display | newline => simp [Primitive.result]
  | _ => exact hop.elim

theorem result_matches (hhome : Relator.BiUnique C.home) (hid : Relator.BiUnique C.identity)
    (h : List.Forall₂ C.Matches args args') (limit : Nat) (op : Primitive) :
    ExceptRel C.Matches Eq (op.result limit args) (op.result limit args') := by
  by_cases hop : op.MakesData
  · rw [result_eq hhome hid h limit hop]
    exact exceptRel_of_isPlain fun v => Primitive.isPlain_of_result hop
  · cases op with
    | car | cdr =>
      rcases h with _ | ⟨hx, _⟩
      · exact .error rfl
      · refine (hx.asItems _).bind fun vs ws hvs => ?_
        cases hvs with
        | nil => exact .error rfl
        | cons hv hvs => first | exact .ok hv | exact .ok (.list hvs)
    | cons =>
      rcases h with _ | ⟨hx, _ | ⟨hy, _⟩⟩
      · exact .error rfl
      · exact .error rfl
      · cases hy with
        | plain hy => rename_i y _ _ _; cases y <;> first | exact hy.elim | exact .error rfl
        | list hvs => exact .ok (.list (.cons hx hvs))
        | _ => exact .error rfl
    | list => exact .ok (.list h)
    | sequence => exact .ok (matches_getLast? h)
    | _ => exact absurd trivial hop

end Correspondence
end MiniScheme
