import Mathlib.Logic.Relation
import MiniScheme.Eval

/-! What a run consists of. Evaluation, application and primitives start one another, each at a
store of its own, with one nesting less. -/

namespace MiniScheme

inductive Task
  | eval (e : Expr) (env : Address)
  | apply (anchor : Option Token) (f : Value) (args : List Value)
  | primitive (op : Primitive) (args : List Value)

namespace Task

def run (limit : Nat) : Task → Run Value
  | eval e env => MiniScheme.eval limit e env
  | apply anchor f args => MiniScheme.apply limit anchor f args
  | primitive op args => applyPrimitive limit op args

def frames : Task → List Address
  | eval _ env => [env]
  | _ => []

def values : Task → List Value
  | eval .. => []
  | apply _ f args => f :: args
  | primitive _ args => args

/-- A task at the store `s` starts another one, with one nesting less, after all that comes before
it has come to its end. The first list holds the values that wait meanwhile. -/
inductive Starts (limit : Nat) : Task → Store → List Value → Task → Store → Prop
  | define {s : Store} {line : Nat} {items : List Expr} {env : Address} {name : String}
      {value : Expr} (hform : Form.ofItems line items = .ok (.define name value)) :
      Starts limit (eval (.list line items) env) s [] (eval value env) s
  | assign {s : Store} {line nameLine : Nat} {items : List Expr} {env : Address} {name : String}
      {value : Expr} (hform : Form.ofItems line items = .ok (.assign name nameLine value)) :
      Starts limit (eval (.list line items) env) s [] (eval value env) s
  | test {s : Store} {line : Nat} {items : List Expr} {env : Address} {test yes : Expr}
      {no : Option Expr} (hform : Form.ofItems line items = .ok (.cond test yes no)) :
      Starts limit (eval (.list line items) env) s [] (eval test env) s
  | yes {s t : Store} {line : Nat} {items : List Expr} {env : Address} {test yes : Expr}
      {no : Option Expr} {v : Value} (hform : Form.ofItems line items = .ok (.cond test yes no))
      (htest : MiniScheme.eval limit test env s = .ok v t) (hv : v.isTruthy = true) :
      Starts limit (eval (.list line items) env) s [] (eval yes env) t
  | no {s t : Store} {line : Nat} {items : List Expr} {env : Address} {test yes no : Expr}
      {v : Value} (hform : Form.ofItems line items = .ok (.cond test yes (some no)))
      (htest : MiniScheme.eval limit test env s = .ok v t) (hv : v.isTruthy = false) :
      Starts limit (eval (.list line items) env) s [] (eval no env) t
  | operator {s : Store} {line : Nat} {items : List Expr} {env : Address} {operator : Expr}
      {operands : List Expr} (hform : Form.ofItems line items = .ok (.call operator operands)) :
      Starts limit (eval (.list line items) env) s [] (eval operator env) s
  | operand {s t u : Store} {line : Nat} {items : List Expr} {env : Address} {operator e : Expr}
      {front rest : List Expr} {f : Value} {args : List Value}
      (hform : Form.ofItems line items = .ok (.call operator (front ++ e :: rest)))
      (hf : MiniScheme.eval limit operator env s = .ok f t)
      (hfront : front.mapM (fun e => MiniScheme.eval limit e env) t = .ok args u) :
      Starts limit (eval (.list line items) env) s (f :: args) (eval e env) u
  | call {s t u : Store} {line : Nat} {items : List Expr} {env : Address} {operator : Expr}
      {operands : List Expr} {f : Value} {args : List Value}
      (hform : Form.ofItems line items = .ok (.call operator operands))
      (hf : MiniScheme.eval limit operator env s = .ok f t)
      (hargs : operands.mapM (fun e => MiniScheme.eval limit e env) t = .ok args u) :
      Starts limit (eval (.list line items) env) s [] (apply (some ⟨line, .leftParen⟩) f args) u
  | primitive {s : Store} {anchor : Option Token} {op : Primitive} {home : Address}
      {args : List Value} (hcount : checkCount anchor op.name op.arity args.length = .ok ()) :
      Starts limit (apply anchor (.primitive op home) args) s [] (primitive op args) s
  | body {s : Store} {anchor : Option Token} {c : Closure} {args : List Value}
      (hcount : checkCount anchor c.name (.exactly c.params.length) args.length = .ok ()) :
      Starts limit (apply anchor (.closure c) args) s [] (eval c.body s.fresh)
        (s.alloc (Frame.ofArguments c.params args c.env))
  | callee {s : Store} {f : Value} {args : List Value} (hf : f.isProcedure = true) :
      Starts limit (primitive .apply (f :: args)) s [] (apply none f args) s

end Task

structure Moment where
  frames : List Address
  values : List Value
  store : Store

inductive Task.Passes : Nat → Task → Store → Moment → Prop
  | start (limit : Nat) (task : Task) (s : Store) :
      Passes limit task s ⟨task.frames, task.values, s⟩
  | value {limit : Nat} {task : Task} {s t : Store} {v : Value}
      (h : task.run limit s = .ok v t) : Passes limit task s ⟨task.frames, v :: task.values, t⟩
  | failure {limit : Nat} {task : Task} {s t : Store} {failure : Failure}
      (h : task.run limit s = .error failure t) :
      Passes limit task s ⟨task.frames, task.values, t⟩
  | inside {limit : Nat} {task inner : Task} {s t : Store} {held : List Value} {m : Moment}
      (h : task.Starts limit s held inner t) (hm : Passes limit inner t m) :
      Passes (limit + 1) task s
        ⟨task.frames ++ m.frames, task.values ++ (held ++ m.values), m.store⟩

structure Job where
  limit : Nat
  task : Task
  store : Store

namespace Job

inductive Starts : Job → Job → Prop
  | mk {limit : Nat} {task inner : Task} {s t : Store} {held : List Value}
      (h : task.Starts limit s held inner t) : Starts ⟨limit + 1, task, s⟩ ⟨limit, inner, t⟩

abbrev Reaches : Job → Job → Prop := Relation.ReflTransGen Starts

end Job
end MiniScheme
