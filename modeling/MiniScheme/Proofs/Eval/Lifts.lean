import MiniScheme.Proofs.Eval.Keeps
import MiniScheme.Proofs.Primitive.Lifts

/-! Evaluation under two limits, side by side. Both runs are put together in the same way from steps
that leave the console alone, from what primitives compute and from printing, so a relation that
goes through binding holds of the whole if it holds of these, and of what is begun where the
smaller limit has come to its end. -/

namespace MiniScheme

/-- What evaluation asks of a relation between its runs, of which those on the right may nest `more`
levels deeper. -/
structure Lifts (more : Nat) (R : {α : Type} → Run α → Run α → Prop) : Prop where
  silent {α : Type} {m : Run α} (h : m.Silent) : R m m
  bind {α β : Type} {m m' : Run α} {f f' : α → Run β} (h : R m m') (hf : ∀ a, R (f a) (f' a)) :
    R (m >>= f) (m' >>= f')
  anchored {m m' : Run Value} (anchor : Option Token) (h : R m m') :
    R (anchored anchor m) (anchored anchor m')
  cut {α : Type} {r r' : Except Failure α} (h : Cut r r') :
    R (Run.ofExcept id r) (Run.ofExcept id r')
  print (text : String) : R (Run.print text) (Run.print text)
  eval (e : Expr) (env : Address) : R (eval 0 e env) (eval more e env)
  apply (anchor : Option Token) (f : Value) (args : List Value) :
    R (apply 0 anchor f args) (apply more anchor f args)
  primitive (op : Primitive) (args : List Value) :
    R (applyPrimitive 0 op args) (applyPrimitive more op args)

namespace Lifts

variable {more limit : Nat} {R : {α : Type} → Run α → Run α → Prop}

def EvalLifts (more : Nat) (R : {α : Type} → Run α → Run α → Prop) (limit : Nat) : Prop :=
  ∀ e env, R (MiniScheme.eval limit e env) (MiniScheme.eval (limit + more) e env)

def ApplyLifts (more : Nat) (R : {α : Type} → Run α → Run α → Prop) (limit : Nat) : Prop :=
  ∀ anchor f args,
    R (MiniScheme.apply limit anchor f args) (MiniScheme.apply (limit + more) anchor f args)

def PrimitiveLifts (more : Nat) (R : {α : Type} → Run α → Run α → Prop) (limit : Nat) : Prop :=
  ∀ op args, R (applyPrimitive limit op args) (applyPrimitive (limit + more) op args)

theorem throw (hR : Lifts more R) {α : Type} {failure : Failure} (h : failure.IsInner) :
    R (throw failure : Run α) (throw failure) := hR.silent (Run.silent_throw h)

theorem noValue (hR : Lifts more R) : R (pure Value.noValue) (pure Value.noValue) :=
  hR.silent (Run.silent_pure _)

theorem ofExcept (hR : Lifts more R) {α : Type} (r : Except EvalError α) :
    R (Run.ofExcept .eval r) (Run.ofExcept .eval r) :=
  hR.silent (Run.silent_ofExcept fun _ _ => trivial)

theorem mapM (hR : Lifts more R) {α β : Type} {f f' : α → Run β} (h : ∀ a, R (f a) (f' a))
    (as : List α) : R (as.mapM f) (as.mapM f') := by
  induction as with
  | nil => exact hR.silent (Run.silent_pure _)
  | cons a as ih =>
    rw [List.mapM_cons, List.mapM_cons]
    exact hR.bind (h a) fun b => hR.bind ih fun bs => hR.silent (Run.silent_pure _)

theorem run (hR : Lifts more R) (limit : Nat) (op : Primitive) (args : List Value) :
    R (op.run limit args) (op.run (limit + more) args) := by
  have hresult : R (Run.ofExcept id (op.result limit args))
      (Run.ofExcept id (op.result (limit + more) args)) := hR.cut (op.cut_result limit more args)
  have hprint (text : String) : R (do Run.print text; return Value.noValue)
      (do Run.print text; return Value.noValue) := hR.bind (hR.print text) fun _ => hR.noValue
  cases op with
  | display =>
    rcases args with _ | ⟨v, _ | _⟩
    · exact hresult
    · exact hR.bind (hR.cut (v.cut_text limit more)) hprint
    · exact hresult
  | newline =>
    cases args with
    | nil => exact hprint "\n"
    | cons => exact hresult
  | _ => exact hresult

theorem symbol (hR : Lifts more R) (line : Nat) (name : String) (env : Address) :
    R (MiniScheme.eval (limit + 1) (.atom line (.symbol name)) env)
      (MiniScheme.eval (limit + 1 + more) (.atom line (.symbol name)) env) := by
  rw [Nat.add_right_comm]
  unfold MiniScheme.eval
  refine hR.silent (Run.silent_get (fun s => ?_) fun s c => ?_)
  · split
    · exact Run.silent_pure _
    · exact Run.silent_throw trivial
  · rw [s.lookup?_withConsole]

theorem evalLifts_succ (hR : Lifts more R) (heval : EvalLifts more R limit)
    (happly : ApplyLifts more R limit) : EvalLifts more R (limit + 1) := by
  intro e env
  cases e with
  | atom line a =>
    cases a with
    | symbol name => exact hR.symbol line name env
    | _ =>
      rw [Nat.add_right_comm]
      exact hR.silent (Run.silent_pure _)
  | stray | unknown =>
    rw [Nat.add_right_comm]
    exact hR.throw trivial
  | list line items =>
    rw [Nat.add_right_comm]
    unfold MiniScheme.eval
    refine hR.bind (hR.ofExcept _) fun form => ?_
    cases form with
    | empty => exact hR.noValue
    | define name value =>
      refine hR.bind (heval value env) fun v => ?_
      exact hR.bind (hR.silent (Run.silent_define env name v)) fun _ => hR.noValue
    | cond test yes no =>
      refine hR.bind (heval test env) fun v => ?_
      split
      · exact heval yes env
      · cases no with
        | some no => exact heval no env
        | none => exact hR.noValue
    | quote e => exact hR.ofExcept _
    | assign name nameLine value =>
      refine hR.bind (heval value env) fun v => ?_
      refine hR.bind (hR.silent (Run.silent_tryAssign env name v)) fun bound => ?_
      cases bound with
      | true => exact hR.noValue
      | false => exact hR.throw trivial
    | lambda params body => exact hR.silent (Run.silent_newClosure "lambda" params body env)
    | call operator operands =>
      refine hR.bind (heval operator env) fun f => ?_
      exact hR.bind (hR.mapM (fun e => heval e env) operands) fun args => happly _ f args

theorem applyLifts_succ (hR : Lifts more R) (heval : EvalLifts more R limit)
    (hprimitive : PrimitiveLifts more R limit) : ApplyLifts more R (limit + 1) := by
  intro anchor f args
  rw [Nat.add_right_comm]
  unfold MiniScheme.apply
  cases f with
  | primitive op home =>
    exact hR.bind (hR.ofExcept _) fun _ => hR.anchored anchor (hprimitive op args)
  | closure c =>
    refine hR.bind (hR.ofExcept _) fun _ => ?_
    refine hR.bind (hR.silent (Run.silent_alloc _)) fun frame => ?_
    exact heval c.body frame
  | _ => exact hR.throw trivial

theorem primitiveLifts_succ (hR : Lifts more R) (happly : ApplyLifts more R limit) :
    PrimitiveLifts more R (limit + 1) := by
  intro op args
  have hrun := hR.run limit op args
  rw [Nat.add_right_comm]
  cases op with
  | apply =>
    cases args with
    | nil => exact hrun
    | cons f args =>
      cases hf : f.isProcedure with
      | true =>
        rw [applyPrimitive_callee hf, applyPrimitive_callee hf]
        exact happly none f args
      | false =>
        rw [applyPrimitive_noCallee hf, applyPrimitive_noCallee hf]
        exact hR.throw trivial
  | _ => exact hrun

theorem all (hR : Lifts more R) (limit : Nat) :
    EvalLifts more R limit ∧ ApplyLifts more R limit ∧ PrimitiveLifts more R limit := by
  induction limit with
  | zero =>
    unfold EvalLifts ApplyLifts PrimitiveLifts
    rw [Nat.zero_add]
    exact ⟨hR.eval, hR.apply, hR.primitive⟩
  | succ limit ih =>
    obtain ⟨heval, happly, hprimitive⟩ := ih
    exact ⟨hR.evalLifts_succ heval happly, hR.applyLifts_succ heval hprimitive,
      hR.primitiveLifts_succ happly⟩

end Lifts
end MiniScheme
