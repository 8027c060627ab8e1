import MiniScheme.Proofs.Eval.Anchors
import MiniScheme.Proofs.Value.Leaves

/-! The errors that an expression raises by itself, apart from those of its parts. They are reported
at a symbol or at a parenthesis of the expression. -/

namespace MiniScheme

def EvalFault.OfCall : EvalFault → Prop
  | .tooFewOperands .. | .otherOperandCount .. | .notCallable _ | .primitive _ => True
  | _ => False

namespace Expr

theorem quotedEach_eq_mapM (es : List Expr) : quotedEach es = es.mapM quoted :=
  eq_mapM (g := quotedEach) rfl (fun _ _ => rfl) es

mutual

theorem quoted_error {err : EvalError} {t : Token} :
    (e : Expr) → e.quoted = .error err → t ∈ err.anchor → t.Anchors e
  | .atom _ (.symbol _), h, _ => nomatch h
  | .atom _ (.string ..), h, _ => nomatch h
  | .atom _ (.number ..), h, _ => nomatch h
  | .atom _ (.boolean _), h, _ => nomatch h
  | .stray line message, h, ht => by
    rw [← Except.error.inj h] at ht
    obtain rfl := Option.some.inj ht
    exact .stray line message
  | .list line items, h, ht => by
    rcases bind_eq_error.mp h with h | ⟨_, _, h⟩
    · obtain ⟨e, he, h⟩ := quotedEach_error items h ht
      exact h.list he
    · exact absurd h pure_ne_error
  | .unknown, h, ht => by
    rw [← Except.error.inj h] at ht
    cases ht

theorem quotedEach_error {err : EvalError} {t : Token} :
    (es : List Expr) → quotedEach es = .error err → t ∈ err.anchor → ∃ e ∈ es, t.Anchors e
  | [], h, _ => nomatch h
  | e :: es, h, ht => by
    rcases bind_eq_error.mp h with h | ⟨_, _, h⟩
    · exact ⟨e, List.mem_cons_self, quoted_error e h ht⟩
    · rcases bind_eq_error.mp h with h | ⟨_, _, h⟩
      · obtain ⟨e', he, h⟩ := quotedEach_error es h ht
        exact ⟨e', List.mem_cons_of_mem e he, h⟩
      · exact absurd h pure_ne_error

end

variable {P : Value → Prop}

def Writes (e : Expr) (n : Number) : Prop :=
  ∃ line written, ⟨some line, .atom (.number written n)⟩ ∈ e.flatten

theorem Writes.list {e : Expr} {n : Number} {items : List Expr} (h : e.Writes n) (he : e ∈ items)
    (line : Nat) : (list line items).Writes n := by
  obtain ⟨line', written, hmem⟩ := h
  refine ⟨line', written, List.mem_cons_of_mem _ (List.mem_append_left _ ?_)⟩
  exact flatten_subset_flattenEach he hmem

mutual

theorem quoted_every_of : (e : Expr) → {v : Value} →
    (hnew : ∀ w : Value, w.IsPlain → (∀ n, w = .number n → e.Writes n) → P w) →
    e.quoted = .ok v → v.Every P
  | .atom line a, _, hnew, h => by
    cases a <;> obtain rfl := Except.ok.inj h <;>
      refine Value.every_of_isPlain trivial (hnew _ trivial ?_) <;> rintro _ ⟨⟩
    exact ⟨line, _, List.mem_cons_self⟩
  | .stray .., _, _, h => nomatch h
  | .list line items, _, hnew, h => by
    obtain ⟨vs, hvs, h⟩ := bind_eq_ok.mp h
    obtain rfl := pure_eq_ok.mp h
    refine Value.every_list.mpr (quotedEach_every_of items (fun w hw hwrites => ?_) hvs)
    refine hnew w hw fun n hn => ?_
    obtain ⟨e, he, hwrites⟩ := hwrites n hn
    exact hwrites.list he line
  | .unknown, _, _, h => nomatch h

theorem quotedEach_every_of : (es : List Expr) → {vs : List Value} →
    (hnew : ∀ w : Value, w.IsPlain → (∀ n, w = .number n → ∃ e ∈ es, e.Writes n) → P w) →
    quotedEach es = .ok vs → ∀ v ∈ vs, v.Every P
  | [], _, _, h => by
    obtain rfl := Except.ok.inj h
    exact List.forall_mem_nil _
  | e :: es, _, hnew, h => by
    obtain ⟨v, hv, h⟩ := bind_eq_ok.mp h
    obtain ⟨vs, hvs, h⟩ := bind_eq_ok.mp h
    obtain rfl := pure_eq_ok.mp h
    refine List.forall_mem_cons.mpr ⟨quoted_every_of e (fun w hw hwrites => ?_) hv,
      quotedEach_every_of es (fun w hw hwrites => ?_) hvs⟩
    · exact hnew w hw fun n hn => ⟨e, List.mem_cons_self, hwrites n hn⟩
    · refine hnew w hw fun n hn => ?_
      obtain ⟨e', he, hwrites⟩ := hwrites n hn
      exact ⟨e', List.mem_cons_of_mem e he, hwrites⟩

end

theorem quoted_every (hplain : ∀ v : Value, v.IsPlain → P v) (e : Expr) {v : Value}
    (h : e.quoted = .ok v) : v.Every P := quoted_every_of e (fun w hw _ => hplain w hw) h

theorem Every.quoted_ne_error {P : Atom → Prop} {e : Expr} (he : e.Every P) (err : EvalError) :
    e.quoted ≠ .error err := by
  induction he with
  | @atom line a _ => cases a <;> nofun
  | list line _ ih =>
    intro h
    rcases bind_eq_error.mp h with h | ⟨_, _, h⟩
    · rw [quotedEach_eq_mapM] at h
      obtain ⟨e, he, h⟩ := mapM_eq_error h
      exact ih e he h
    · exact absurd h pure_ne_error

/-- The errors that the evaluation of an expression raises by itself. -/
inductive Raises : Expr → EvalError → Prop
  | unbound (line : Nat) (name : String) :
      Raises (.atom line (.symbol name)) ⟨some ⟨line, .atom (.symbol name)⟩, .unboundVariable⟩
  | quoted {e : Expr} {err : EvalError} (h : e.quoted = .error err) : Raises e err
  | form {line : Nat} {items : List Expr} {err : EvalError}
      (h : Form.ofItems line items = .error err) : Raises (.list line items) err
  | assign {line nameLine : Nat} {items : List Expr} {name : String} {value : Expr}
      (h : Form.ofItems line items = .ok (.assign name nameLine value)) :
      Raises (.list line items) ⟨some ⟨nameLine, .atom (.symbol name)⟩, .unboundVariable⟩
  | call (line : Nat) (items : List Expr) {fault : EvalFault} (h : fault.OfCall) :
      Raises (.list line items) ⟨some ⟨line, .leftParen⟩, fault⟩

theorem Raises.anchors {e : Expr} {err : EvalError} (h : e.Raises err) {t : Token}
    (ht : t ∈ err.anchor) : t.Anchors e := by
  cases h with
  | unbound line name => exact Option.some.inj ht ▸ .symbol line name
  | quoted h => exact quoted_error e h ht
  | form h => exact Form.ofItems_error h ht
  | assign h => exact Option.some.inj ht ▸ Form.anchors_of_assign h
  | call line items => exact Option.some.inj ht ▸ .paren line items

end Expr
end MiniScheme
