import MiniScheme.Proofs.Eval.Matches
import MiniScheme.Proofs.Eval.Top

/-! Programs in step, and the correspondences that do no more than rename frames and closures. -/

namespace MiniScheme
namespace Correspondence

variable {C : Correspondence} {limit : Nat} {s s' : Store} {a a' : Address}
  {F : Failure → Failure → Prop}

def Panics (C : Correspondence) (F : Failure → Failure → Prop) : Prop :=
  ∀ (t t' : Store) (err err' : EvalError), C.Relates t t' → C.error err err' →
    C.Pairs t t' (Run.panicWith err.text : Run Value) (Run.panicWith err'.text) C.Matches F

theorem Lawful.pairs_evalTop (hC : C.Lawful) (hpanics : C.Panics F) (hF : ∀ f, F f f)
    (hs : C.Relates s s') (ha : C.addr a a') {e e' : Expr} (he : C.expr e e') :
    C.Pairs s s' (evalTop limit e a) (evalTop limit e' a') C.Matches F := by
  have heval := (hC.pairs_all limit).1 s s' e e' a a' hs ha he
  refine heval.tryCatch fun t t' failure failure' ht hfailure => ?_
  cases hfailure with
  | eval h => exact hpanics t t' _ _ ht h
  | same failure =>
    cases failure with
    | eval err => exact hpanics t t' _ _ ht (hC.error_refl err)
    | tooDeep => exact hpanics t t' _ _ ht (hC.error_refl ⟨none, .tooDeep⟩)
    | _ => exact pairs_throw ht (hF _)

theorem Lawful.pairs_evalProgram (hC : C.Lawful) (hpanics : C.Panics F) (hF : ∀ f, F f f)
    (hs : C.Relates s s') (ha : C.addr a a') {es es' : List Expr}
    (hes : List.Forall₂ C.expr es es') :
    C.Pairs s s' (evalProgram limit es a) (evalProgram limit es' a') C.Matches F := by
  have key : ∀ v v' : Value, C.Matches v v' →
      C.Pairs s s' (es.foldlM (fun _ e => evalTop limit e a) v)
        (es'.foldlM (fun _ e => evalTop limit e a') v') C.Matches F := by
    induction hes generalizing s s' with
    | nil => exact fun v v' hv => pairs_pure hs hv
    | cons he _ ih =>
      intro v v' _
      rw [List.foldlM_cons, List.foldlM_cons]
      exact (hC.pairs_evalTop hpanics hF hs ha he).bind fun t t' w w' ht hw => ih ht w w' hw
  exact key .noValue .noValue (.plain trivial)

/-! Values and expressions that match themselves. -/

theorem matches_self :
    (v : Value) → (∀ w ∈ v.leaves, (∀ vs, w ≠ .list vs) → C.Matches w w) → C.Matches v v
  | .list vs, h => .list (List.forall₂_same.mpr fun v hv =>
      matches_self v fun w hw => h w (Value.mem_leavesEach.mpr ⟨v, hv, hw⟩))
  | .symbol _, h | .string _, h | .number _, h | .boolean _, h | .noValue, h | .primitive .., h
  | .closure _, h | .unknown, h => h _ List.mem_cons_self fun _ => Value.noConfusion

theorem quoted_self (herror : ∀ err, C.error err err) (e : Expr) :
    ExceptRel C.Matches C.error e.quoted e.quoted := by
  cases h : e.quoted with
  | error err => exact .error (herror err)
  | ok v =>
    have hplain : v.Every Value.IsPlain := Expr.quoted_every (fun _ h => h) e h
    exact .ok (matches_self v fun w hw _ => .plain (hplain w hw))

theorem formMatches_self (hexpr : ∀ e, C.expr e e) (herror : ∀ err, C.error err err)
    (hname : ∀ a n, C.name a n) (form : Form) : C.FormMatches form form := by
  cases form with
  | empty => exact .empty
  | define name value => exact .define (hexpr value)
  | cond test yes no =>
    refine .cond (hexpr test) (hexpr yes) ?_
    cases no with
    | none => exact .none
    | some no => exact .some (hexpr no)
  | quote e => exact .quote (quoted_self herror e)
  | assign name line value => exact .assign (fun a => hname a name) (hexpr value) (herror _)
  | lambda params body => exact .lambda (hexpr body)
  | call operator operands =>
    exact .call (hexpr operator) (List.forall₂_same.mpr fun e _ => hexpr e)

theorem expands_self (hexpr : ∀ e, C.expr e e) (herror : ∀ err, C.error err err)
    (hname : ∀ a n, C.name a n) (e : Expr) : C.Expands e e := by
  cases e with
  | atom line a =>
    cases a with
    | symbol name => exact .symbol (fun a => hname a name) (herror _)
    | _ => exact .datum trivial trivial (quoted_self herror _)
  | stray line message => exact .datum trivial trivial (quoted_self herror _)
  | unknown => exact .datum trivial trivial (quoted_self herror _)
  | list line items =>
    refine .list ?_ fun _ _ => herror _
    cases Form.ofItems line items with
    | ok form => exact .ok (formMatches_self hexpr herror hname form)
    | error err => exact .error (herror err)

end Correspondence
end MiniScheme
