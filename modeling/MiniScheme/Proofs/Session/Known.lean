import MiniScheme.Proofs.Eval.Top
import MiniScheme.Proofs.Failure.Message
import MiniScheme.Proofs.Store.Every

/-! No value of unknown class ever gets into a run, so every failure inside is one that the top
level knows how to report, or a number that is too large. -/

namespace MiniScheme

def Failure.Reported : Failure → Prop
  | .eval err => ∀ t ∈ err.anchor, t.shape.IsAnchor
  | .tooDeep => True
  | .arithmetic e => e ≠ .zeroDivisor
  | _ => False

theorem Failure.OfPrimitive.orPrimitive {failure : Failure} (h : failure.OfPrimitive) :
    OrPrimitive Failure.Reported failure := by
  cases failure with
  | primitive fault => exact .inl ⟨fault, rfl⟩
  | tooDeep => exact .inr trivial
  | arithmetic e => exact .inr h
  | _ => exact h.elim

theorem Failure.Reported.surface_eq {failure : Failure} (h : failure.Reported) (raises : Bool) :
    (∃ e, failure = .arithmetic e ∧ e ≠ .zeroDivisor) ∨
      ∃ rest, failure.surface raises = .ofMessage raises (.ok ("runtime error" ++ rest)) := by
  cases failure with
  | eval err =>
    obtain ⟨rest, htext⟩ := EvalError.text_ok h
    exact .inr ⟨rest, congrArg (Failure.ofMessage raises) htext⟩
  | tooDeep =>
    obtain ⟨rest, htext⟩ := @EvalError.text_ok ⟨none, .tooDeep⟩
      fun t ht => absurd ht (Option.not_mem_none t)
    exact .inr ⟨rest, congrArg (Failure.ofMessage raises) htext⟩
  | arithmetic e => exact .inl ⟨e, rfl, h⟩
  | _ => exact h.elim

def Invariant.known : Invariant where
  store := Store.Every Value.Known
  env _ _ := True
  leaf _ v := v ≠ .unknown
  expr _ := True
  failure := Failure.Reported

namespace Invariant

theorem lawful_known : known.Lawful where
  env_extends _ h := h
  leaf_extends _ h := h
  lookup hs _ h := hs.of_lookup? h
  define hs _ hv name := hs.define _ name hv
  assign hs _ hv name := hs.assign _ name hv
  print hs _ := hs
  warn hs _ := hs
  items _ _ _ := trivial
  quoted _ h := Expr.quoted_every Value.IsPlain.ne_unknown _ h
  noValue := Value.noConfusion
  lambda hs _ _ _ := ⟨hs, Value.noConfusion⟩
  call hs _ hargs _ := ⟨hs.alloc fun _ hb => hargs _ (Frame.mem_ofArguments hb), trivial, trivial⟩
  result _ hargs _ h := Primitive.result_every Value.IsPlain.ne_unknown hargs h
  tooDeep := trivial
  raises _ h _ ht := (h.anchors ht).isAnchor
  ofCall _ _ ht := nomatch ht
  result_error _ hargs hop hcount h := (Primitive.result_error hop hcount hargs h).orPrimitive
  text_error _ hv h := (Value.text_error hv h).orPrimitive

end Invariant
end MiniScheme
