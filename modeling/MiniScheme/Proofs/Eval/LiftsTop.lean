import MiniScheme.Interpret
import MiniScheme.Proofs.Eval.Lifts
import MiniScheme.Proofs.Expr.Unread

/-! Programs under two limits, side by side: what holds of every expression on its own goes through
the whole of a program, and through the reading before it. -/

namespace MiniScheme

def Run.surface : Failure → Run Value
  | .eval error => panicWith error.text
  | .tooDeep => panicWith (EvalError.text ⟨none, .tooDeep⟩)
  | failure => throw failure

theorem evalTop_eq (limit : Nat) (e : Expr) (env : Address) :
    evalTop limit e env = tryCatch (eval limit e env) Run.surface := rfl

structure LiftsTop (limit limit' : Nat) (R : {α : Type} → Run α → Run α → Prop) : Prop where
  silent {α : Type} {m : Run α} (h : m.Silent) : R m m
  bind {α β : Type} {m m' : Run α} {f f' : α → Run β} (h : R m m') (hf : ∀ a, R (f a) (f' a)) :
    R (m >>= f) (m' >>= f')
  panicWith {α : Type} (text : Except ArithmeticError String) :
    R (Run.panicWith text : Run α) (Run.panicWith text)
  evalTop (e : Expr) (env : Address) : R (evalTop limit e env) (evalTop limit' e env)

namespace LiftsTop

variable {limit limit' : Nat} {R : {α : Type} → Run α → Run α → Prop}

theorem evalProgram (hR : LiftsTop limit limit' R) (es : List Expr) (env : Address) :
    R (evalProgram limit es env) (MiniScheme.evalProgram limit' es env) := by
  have key : ∀ v, R (es.foldlM (fun _ e => MiniScheme.evalTop limit e env) v)
      (es.foldlM (fun _ e => MiniScheme.evalTop limit' e env) v) := by
    induction es with
    | nil => exact fun v => hR.silent (Run.silent_pure v)
    | cons e es ih =>
      intro v
      rw [List.foldlM_cons, List.foldlM_cons]
      exact hR.bind (hR.evalTop e env) ih
  exact key .noValue

theorem readTokens (hR : LiftsTop limit limit R) (source : String) :
    R (readTokens limit (scan source)) (MiniScheme.readTokens limit (scan source)) := by
  unfold MiniScheme.readTokens
  cases hread : readProgram limit (scan source) with
  | ok es => exact hR.silent (Run.silent_pure es)
  | error failure =>
    rcases readProgram_scan_error hread with rfl | ⟨err, rfl, _⟩
    · exact hR.silent Run.silent_tooDeep
    · exact hR.panicWith err.text

theorem interpret (hR : LiftsTop limit limit R) (source : String) (env : Option Address) :
    R (interpret limit source env) (MiniScheme.interpret limit source env) := by
  have hevaluate : ∀ (es : List Expr) {m : Run Address}, m.Silent →
      R (m >>= MiniScheme.evalProgram limit es) (m >>= MiniScheme.evalProgram limit es) :=
    fun es _ hm => hR.bind (hR.silent hm) fun a => hR.evalProgram es a
  cases env with
  | some a => exact hR.bind (hR.readTokens source) fun es => hevaluate es (Run.silent_pure a)
  | none => exact hR.bind (hR.readTokens source) fun es => hevaluate es (Run.silent_alloc _)

end LiftsTop
end MiniScheme
