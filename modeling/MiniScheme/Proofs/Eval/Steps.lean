import Mathlib.Data.List.Induction
import MiniScheme.Proofs.Eval.Passes
import MiniScheme.Proofs.Store.Steps

/-! Every moment of a run is reached from its start by single steps, in which the definitions are
those that the run makes. -/

namespace MiniScheme

open Store

/-- The definitions that a task makes, itself or in a task that it starts. -/
inductive Task.Defines : Nat → Task → Store → Definition → Prop
  | here {limit line : Nat} {items : List Expr} {env : Address} {s t : Store} {name : String}
      {value : Expr} {v : Value} (hform : Form.ofItems line items = .ok (.define name value))
      (hvalue : MiniScheme.eval limit value env s = .ok v t) :
      Defines (limit + 1) (eval (.list line items) env) s ⟨t, env, name, v⟩
  | inside {limit : Nat} {task inner : Task} {s t : Store} {held : List Value} {d : Definition}
      (h : task.Starts limit s held inner t) (hd : Defines limit inner t d) :
      Defines (limit + 1) task s d

namespace Run

variable {α β ε : Type} {D : Definition → Prop} {s : Store}

theorem steps_bind {m : Run α} {f : α → Run β} (hm : Steps D s (after m s))
    (hf : ∀ a t, m s = .ok a t → Steps D t (after (f a) t)) :
    Steps D s (after (m >>= f) s) := by
  rw [after_bind]
  cases hrun : m s with
  | ok a t =>
    rw [after_of_ok hrun] at hm
    exact hm.trans (hf a t hrun)
  | error failure t =>
    rw [after_of_error hrun] at hm
    exact hm

theorem steps_ofExcept (wrap : ε → Failure) (r : Except ε α) :
    Steps D s (after (ofExcept wrap r) s) := by
  cases r <;> exact .refl

theorem steps_ofExcept_bind {wrap : ε → Failure} {r : Except ε α} {f : α → Run β}
    (hf : ∀ a, r = .ok a → Steps D s (after (f a) s)) :
    Steps D s (after (ofExcept wrap r >>= f) s) := by
  cases r with
  | ok a => exact hf a rfl
  | error e => exact .refl

theorem steps_mapM {f : α → Run β} {as : List α}
    (hf : ∀ front a rest bs t, as = front ++ a :: rest → front.mapM f s = .ok bs t →
      Steps D t (after (f a) t)) : Steps D s (after (as.mapM f) s) := by
  induction as using List.reverseRecOn with
  | nil => exact .refl
  | append_singleton as a ih =>
    rw [List.mapM_append]
    refine steps_bind (ih fun front b rest bs t hsplit hfront => ?_) fun bs t hfront => ?_
    · exact hf front b (rest ++ [a]) bs t (by simp [hsplit]) hfront
    · refine steps_bind ?_ fun last u _ => .refl
      rw [List.mapM_cons]
      exact steps_bind (hf as a [] bs t rfl hfront) fun b u _ => .refl

theorem steps_run (limit : Nat) (op : Primitive) (args : List Value) :
    Steps D s (after (op.run limit args) s) := by
  have hresult : Steps D s (after (ofExcept id (op.result limit args)) s) := steps_ofExcept id _
  cases op with
  | display =>
    rcases args with _ | ⟨v, _ | _⟩
    · exact hresult
    · exact steps_ofExcept_bind fun text _ => .single (.print s text)
    · exact hresult
  | newline =>
    cases args with
    | nil => exact .single (.print s "\n")
    | cons => exact hresult
  | _ => exact hresult

theorem after_anchored (anchor : Option Token) (m : Run Value) :
    after (anchored anchor m) s = after m s := by
  unfold anchored
  rw [after_tryCatch]
  cases hrun : m s with
  | ok v t => exact (after_of_ok hrun).symm
  | error failure t =>
    rw [after_of_error hrun]
    cases failure <;> rfl

end Run

namespace Task

open Run

def RunSteps (limit : Nat) : Prop :=
  ∀ (task : Task) (s : Store), Steps (task.Defines limit s) s (after (task.run limit) s)

variable {limit : Nat} {task inner : Task} {s t : Store} {held : List Value}

theorem RunSteps.inside (ih : RunSteps limit) (h : task.Starts limit s held inner t) :
    Steps (task.Defines (limit + 1) s) t (after (inner.run limit) t) :=
  (ih inner t).mono fun _ hd => .inside h hd

theorem RunSteps.operands (ih : RunSteps limit) {line : Nat} {items operands front rest : List Expr}
    {env : Address} {operator : Expr} {f : Value}
    (hform : Form.ofItems line items = .ok (.call operator operands))
    (hf : MiniScheme.eval limit operator env s = .ok f t) (hfront : front ++ rest = operands) :
    Steps ((eval (.list line items) env).Defines (limit + 1) s) t
      (after (front.mapM fun e => MiniScheme.eval limit e env) t) := by
  refine steps_mapM fun before e after args u hsplit hbefore => ?_
  have hoperands : operands = before ++ e :: (after ++ rest) := by simp [← hfront, hsplit]
  exact ih.inside (.operand (hoperands ▸ hform) hf hbefore)

theorem RunSteps.operator (ih : RunSteps limit) {line : Nat} {items operands : List Expr}
    {env : Address} {operator : Expr} {f : Value}
    (hform : Form.ofItems line items = .ok (.call operator operands))
    (hf : MiniScheme.eval limit operator env s = .ok f t) :
    Steps ((eval (.list line items) env).Defines (limit + 1) s) s t :=
  after_of_ok hf ▸ ih.inside (.operator hform)

theorem RunSteps.starts (ih : RunSteps limit) (h : task.Starts limit s held inner t) :
    Steps (task.Defines (limit + 1) s) s t := by
  cases h with
  | define | assign | test | operator | primitive | callee => exact .refl
  | yes hform htest | no hform htest => exact after_of_ok htest ▸ ih.inside (.test hform)
  | operand hform hf hfront =>
    exact (ih.operator hform hf).trans (after_of_ok hfront ▸ ih.operands hform hf rfl)
  | call hform hf hargs =>
    have hoperands := ih.operands hform hf (List.append_nil _)
    exact (ih.operator hform hf).trans (after_of_ok hargs ▸ hoperands)
  | body => exact .single (.alloc s _)

theorem RunSteps.list (ih : RunSteps limit) (line : Nat) (items : List Expr) (env : Address)
    (s : Store) :
    Steps ((eval (.list line items) env).Defines (limit + 1) s) s
      (after (MiniScheme.eval (limit + 1) (.list line items) env) s) := by
  unfold MiniScheme.eval
  refine steps_ofExcept_bind fun form hform => ?_
  cases form with
  | empty => exact .refl
  | quote e => exact steps_ofExcept ..
  | lambda params body => exact .single (.newClosure s)
  | define name value =>
    refine steps_bind (ih.inside (.define hform)) fun v t hvalue => ?_
    have hdefines : Defines (limit + 1) (eval (.list line items) env) s ⟨t, env, name, v⟩ :=
      .here hform hvalue
    exact .single (.define hdefines)
  | assign name nameLine value =>
    refine steps_bind (ih.inside (.assign hform)) fun v t _ => ?_
    refine steps_bind (.single (.assign t env name v)) fun bound u _ => ?_
    cases bound <;> exact .refl
  | cond test yes no =>
    refine steps_bind (ih.inside (.test hform)) fun v t htest => ?_
    cases hv : v.isTruthy with
    | true => exact ih.inside (.yes hform htest hv)
    | false =>
      cases no with
      | some no => exact ih.inside (.no hform htest hv)
      | none => exact .refl
  | call operator operands =>
    refine steps_bind (ih.inside (.operator hform)) fun f t hf => ?_
    refine steps_bind (ih.operands hform hf (List.append_nil _)) fun args u hargs => ?_
    exact ih.inside (.call hform hf hargs)

theorem RunSteps.eval_succ (ih : RunSteps limit) (e : Expr) (env : Address) (s : Store) :
    Steps ((eval e env).Defines (limit + 1) s) s (after (MiniScheme.eval (limit + 1) e env) s) := by
  cases e with
  | list line items => exact ih.list line items env s
  | atom line a =>
    cases a with
    | symbol name =>
      refine steps_bind .refl fun u t _ => ?_
      split <;> exact .refl
    | _ => exact .refl
  | stray | unknown => exact .refl

theorem RunSteps.apply_succ (ih : RunSteps limit) (anchor : Option Token) (f : Value)
    (args : List Value) (s : Store) :
    Steps ((apply anchor f args).Defines (limit + 1) s) s
      (after (MiniScheme.apply (limit + 1) anchor f args) s) := by
  unfold MiniScheme.apply
  cases f with
  | primitive op home =>
    refine steps_ofExcept_bind fun _ hcount => ?_
    rw [after_anchored]
    exact ih.inside (.primitive hcount)
  | closure c =>
    refine steps_ofExcept_bind fun _ hcount => ?_
    refine steps_bind (.single (.alloc s _)) fun a t hframe => ?_
    obtain ⟨rfl, rfl⟩ := EStateM.Result.ok.inj hframe
    exact ih.inside (.body hcount)
  | _ => exact .refl

theorem RunSteps.primitive_succ (ih : RunSteps limit) (op : Primitive) (args : List Value)
    (s : Store) :
    Steps ((primitive op args).Defines (limit + 1) s) s
      (after (applyPrimitive (limit + 1) op args) s) := by
  have hrun : Steps ((primitive op args).Defines (limit + 1) s) s (after (op.run limit args) s) :=
    steps_run limit op args
  cases op with
  | apply =>
    cases args with
    | nil => exact hrun
    | cons f args =>
      cases hf : f.isProcedure with
      | true =>
        rw [applyPrimitive_callee hf]
        exact ih.inside (.callee hf)
      | false =>
        rw [applyPrimitive_noCallee hf]
        exact .refl
  | _ => exact hrun

theorem runSteps (limit : Nat) : RunSteps limit := by
  induction limit with
  | zero =>
    intro task s
    cases task <;> exact .refl
  | succ limit ih =>
    intro task s
    cases task with
    | eval e env => exact ih.eval_succ e env s
    | apply anchor f args => exact ih.apply_succ anchor f args s
    | primitive op args => exact ih.primitive_succ op args s

theorem Passes.steps {m : Moment} (h : task.Passes limit s m) :
    Steps (task.Defines limit s) s m.store := by
  induction h with
  | start => exact .refl
  | @value limit task s t v h => exact after_of_ok h ▸ runSteps limit task s
  | @failure limit task s t failure h => exact after_of_error h ▸ runSteps limit task s
  | @inside limit _ _ _ _ _ _ hstart _ ih =>
    exact ((runSteps limit).starts hstart).trans (ih.mono fun _ hd => .inside hstart hd)

end Task
end MiniScheme
