import MiniScheme.Proofs.Eval.Shapes
import MiniScheme.Proofs.Primitive.Native

/-! Evaluation by rules, without a limit: what an expression in a frame makes of a store, in which
it ends with a value or with a failure. A failure of a part is the failure of the whole, in the
store that the part has left. -/

namespace MiniScheme

abbrev Outcome (α : Type) := EStateM.Result Failure Store α

inductive Judgement
  | evaluates (e : Expr) (env : Address) (s : Store) (r : Outcome Value)
  | evaluatesEach (es : List Expr) (env : Address) (s : Store) (r : Outcome (List Value))
  | applies (anchor : Option Token) (f : Value) (args : List Value) (s : Store)
    (r : Outcome Value)

open Judgement in
/-- The shape of a form is read before any of its parts is evaluated. A frame is written to when the
value is there, and what has been written before a failure stays. -/
inductive Derivable : Judgement → Prop
  | symbol {line : Nat} {name : String} {env : Address} {s : Store} {v : Value}
      (h : s.lookup? env name = some v) :
      Derivable (evaluates (.atom line (.symbol name)) env s (.ok v s))
  | unbound {line : Nat} {name : String} {env : Address} {s : Store}
      (h : s.lookup? env name = none) :
      Derivable (evaluates (.atom line (.symbol name)) env s
        (.error (.eval ⟨some ⟨line, .atom (.symbol name)⟩, .unboundVariable⟩) s))
  | string {line : Nat} {value : String} {closed : Bool} {env : Address} {s : Store} :
      Derivable (evaluates (.atom line (.string value closed)) env s (.ok (.string value) s))
  | number {line : Nat} {written : String} {n : Number} {env : Address} {s : Store} :
      Derivable (evaluates (.atom line (.number written n)) env s (.ok (.number n) s))
  | boolean {line : Nat} {b : Bool} {env : Address} {s : Store} :
      Derivable (evaluates (.atom line (.boolean b)) env s (.ok (.boolean b) s))
  | stray {line : Nat} {message : String} {env : Address} {s : Store} :
      Derivable (evaluates (.stray line message) env s
        (.error (.eval ⟨some ⟨line, .rightParen⟩, .stray message⟩) s))
  | unknown {env : Address} {s : Store} :
      Derivable (evaluates .unknown env s
        (.error (.eval ⟨none, .unknownExpression "Expression"⟩) s))
  | malformed {line : Nat} {items : List Expr} {env : Address} {s : Store} {err : EvalError}
      (hform : Form.Reads line items (.error err)) :
      Derivable (evaluates (.list line items) env s (.error (.eval err) s))
  | empty {line : Nat} {env : Address} {s : Store} :
      Derivable (evaluates (.list line []) env s (.ok .noValue s))
  | define {line : Nat} {items : List Expr} {env : Address} {s t : Store} {name : String}
      {value : Expr} {v : Value} (hform : Form.Reads line items (.ok (.define name value)))
      (hvalue : Derivable (evaluates value env s (.ok v t))) :
      Derivable (evaluates (.list line items) env s (.ok .noValue (t.define env name v)))
  | defineFails {line : Nat} {items : List Expr} {env : Address} {s t : Store} {name : String}
      {value : Expr} {failure : Failure}
      (hform : Form.Reads line items (.ok (.define name value)))
      (hvalue : Derivable (evaluates value env s (.error failure t))) :
      Derivable (evaluates (.list line items) env s (.error failure t))
  | condYes {line : Nat} {items : List Expr} {env : Address} {s t : Store} {test yes : Expr}
      {no : Option Expr} {v : Value} {r : Outcome Value}
      (hform : Form.Reads line items (.ok (.cond test yes no)))
      (htest : Derivable (evaluates test env s (.ok v t))) (hv : v ≠ .boolean false)
      (hyes : Derivable (evaluates yes env t r)) :
      Derivable (evaluates (.list line items) env s r)
  | condNo {line : Nat} {items : List Expr} {env : Address} {s t : Store} {test yes no : Expr}
      {r : Outcome Value} (hform : Form.Reads line items (.ok (.cond test yes (some no))))
      (htest : Derivable (evaluates test env s (.ok (.boolean false) t)))
      (hno : Derivable (evaluates no env t r)) : Derivable (evaluates (.list line items) env s r)
  | condNone {line : Nat} {items : List Expr} {env : Address} {s t : Store} {test yes : Expr}
      (hform : Form.Reads line items (.ok (.cond test yes none)))
      (htest : Derivable (evaluates test env s (.ok (.boolean false) t))) :
      Derivable (evaluates (.list line items) env s (.ok .noValue t))
  | condFails {line : Nat} {items : List Expr} {env : Address} {s t : Store} {test yes : Expr}
      {no : Option Expr} {failure : Failure}
      (hform : Form.Reads line items (.ok (.cond test yes no)))
      (htest : Derivable (evaluates test env s (.error failure t))) :
      Derivable (evaluates (.list line items) env s (.error failure t))
  | quote {line : Nat} {items : List Expr} {env : Address} {s : Store} {e : Expr} {v : Value}
      (hform : Form.Reads line items (.ok (.quote e))) (hv : e.quoted = .ok v) :
      Derivable (evaluates (.list line items) env s (.ok v s))
  | quoteFails {line : Nat} {items : List Expr} {env : Address} {s : Store} {e : Expr}
      {err : EvalError} (hform : Form.Reads line items (.ok (.quote e)))
      (herr : e.quoted = .error err) :
      Derivable (evaluates (.list line items) env s (.error (.eval err) s))
  | assign {line nameLine : Nat} {items : List Expr} {env a : Address} {s t : Store}
      {name : String} {value : Expr} {v : Value}
      (hform : Form.Reads line items (.ok (.assign name nameLine value)))
      (hvalue : Derivable (evaluates value env s (.ok v t))) (ha : t.holder? env name = some a) :
      Derivable (evaluates (.list line items) env s (.ok .noValue (t.define a name v)))
  | assignUnbound {line nameLine : Nat} {items : List Expr} {env : Address} {s t : Store}
      {name : String} {value : Expr} {v : Value}
      (hform : Form.Reads line items (.ok (.assign name nameLine value)))
      (hvalue : Derivable (evaluates value env s (.ok v t)))
      (hnone : t.holder? env name = none) :
      Derivable (evaluates (.list line items) env s
        (.error (.eval ⟨some ⟨nameLine, .atom (.symbol name)⟩, .unboundVariable⟩) t))
  | assignFails {line nameLine : Nat} {items : List Expr} {env : Address} {s t : Store}
      {name : String} {value : Expr} {failure : Failure}
      (hform : Form.Reads line items (.ok (.assign name nameLine value)))
      (hvalue : Derivable (evaluates value env s (.error failure t))) :
      Derivable (evaluates (.list line items) env s (.error failure t))
  | lambda {line : Nat} {items : List Expr} {env : Address} {s : Store} {params : List String}
      {body : Expr} (hform : Form.Reads line items (.ok (.lambda params body))) :
      Derivable (evaluates (.list line items) env s
        (.ok (.closure ⟨s.nextClosure, "lambda", params, body, env⟩)
          { s with nextClosure := s.nextClosure + 1 }))
  | call {line : Nat} {items : List Expr} {env : Address} {s t u : Store} {operator : Expr}
      {operands : List Expr} {f : Value} {args : List Value} {r : Outcome Value}
      (hform : Form.Reads line items (.ok (.call operator operands)))
      (hf : Derivable (evaluates operator env s (.ok f t)))
      (hargs : Derivable (evaluatesEach operands env t (.ok args u)))
      (hr : Derivable (applies (some ⟨line, .leftParen⟩) f args u r)) :
      Derivable (evaluates (.list line items) env s r)
  | operatorFails {line : Nat} {items : List Expr} {env : Address} {s t : Store}
      {operator : Expr} {operands : List Expr} {failure : Failure}
      (hform : Form.Reads line items (.ok (.call operator operands)))
      (hf : Derivable (evaluates operator env s (.error failure t))) :
      Derivable (evaluates (.list line items) env s (.error failure t))
  | operandFails {line : Nat} {items : List Expr} {env : Address} {s t u : Store}
      {operator : Expr} {operands : List Expr} {f : Value} {failure : Failure}
      (hform : Form.Reads line items (.ok (.call operator operands)))
      (hf : Derivable (evaluates operator env s (.ok f t)))
      (hargs : Derivable (evaluatesEach operands env t (.error failure u))) :
      Derivable (evaluates (.list line items) env s (.error failure u))
  | nil {env : Address} {s : Store} : Derivable (evaluatesEach [] env s (.ok [] s))
  | cons {e : Expr} {es : List Expr} {env : Address} {s t u : Store} {v : Value}
      {vs : List Value} (he : Derivable (evaluates e env s (.ok v t)))
      (hes : Derivable (evaluatesEach es env t (.ok vs u))) :
      Derivable (evaluatesEach (e :: es) env s (.ok (v :: vs) u))
  | headFails {e : Expr} {es : List Expr} {env : Address} {s t : Store} {failure : Failure}
      (he : Derivable (evaluates e env s (.error failure t))) :
      Derivable (evaluatesEach (e :: es) env s (.error failure t))
  | tailFails {e : Expr} {es : List Expr} {env : Address} {s t u : Store} {v : Value}
      {failure : Failure} (he : Derivable (evaluates e env s (.ok v t)))
      (hes : Derivable (evaluatesEach es env t (.error failure u))) :
      Derivable (evaluatesEach (e :: es) env s (.error failure u))
  | tooFew {anchor : Option Token} {op : Primitive} {home : Address} {args : List Value}
      {s : Store} (hmore : op.arity.more = true) (hcount : args.length < op.arity.least) :
      Derivable (applies anchor (.primitive op home) args s
        (.error (.eval ⟨anchor, .tooFewOperands op.name op.arity.least args.length⟩) s))
  | otherCount {anchor : Option Token} {op : Primitive} {home : Address} {args : List Value}
      {s : Store} (hmore : op.arity.more = false) (hcount : args.length ≠ op.arity.least) :
      Derivable (applies anchor (.primitive op home) args s
        (.error (.eval ⟨anchor, .otherOperandCount op.name op.arity.least args.length⟩) s))
  | native {anchor : Option Token} {op : Primitive} {home : Address} {args : List Value}
      {s t : Store} {v : Value} (hop : op ≠ .apply) (hcount : op.arity.Admits args.length)
      (h : op.native args s = .ok v t) :
      Derivable (applies anchor (.primitive op home) args s (.ok v t))
  | refused {anchor : Option Token} {op : Primitive} {home : Address} {args : List Value}
      {s t : Store} {fault : PrimitiveFault} (hop : op ≠ .apply)
      (hcount : op.arity.Admits args.length)
      (h : op.native args s = .error (.primitive fault) t) :
      Derivable (applies anchor (.primitive op home) args s
        (.error (.eval ⟨anchor, .primitive fault⟩) t))
  | nativeFails {anchor : Option Token} {op : Primitive} {home : Address} {args : List Value}
      {s t : Store} {failure : Failure} (hop : op ≠ .apply)
      (hcount : op.arity.Admits args.length) (h : op.native args s = .error failure t)
      (hfailure : ∀ fault, failure ≠ .primitive fault) :
      Derivable (applies anchor (.primitive op home) args s (.error failure t))
  | callee {anchor : Option Token} {home : Address} {f : Value} {args : List Value} {s : Store}
      {r : Outcome Value} (hf : f.isProcedure = true)
      (hr : Derivable (applies none f args s r)) :
      Derivable (applies anchor (.primitive .apply home) (f :: args) s r)
  | noCallee {anchor : Option Token} {home : Address} {f : Value} {args : List Value}
      {s : Store} (hf : f.isProcedure = false) :
      Derivable (applies anchor (.primitive .apply home) (f :: args) s
        (.error (.eval ⟨anchor, .primitive (.applyNotProcedure f.kind)⟩) s))
  | otherParams {anchor : Option Token} {c : Closure} {args : List Value} {s : Store}
      (hcount : args.length ≠ c.params.length) :
      Derivable (applies anchor (.closure c) args s
        (.error (.eval ⟨anchor, .otherOperandCount c.name c.params.length args.length⟩) s))
  | body {anchor : Option Token} {c : Closure} {args : List Value} {s : Store}
      {r : Outcome Value} (hcount : args.length = c.params.length)
      (hr : Derivable (evaluates c.body s.fresh
        (s.alloc (Frame.ofArguments c.params args c.env)) r)) :
      Derivable (applies anchor (.closure c) args s r)
  | notCallable {anchor : Option Token} {f : Value} {args : List Value} {s : Store}
      (hf : f.isProcedure = false) :
      Derivable (applies anchor f args s (.error (.eval ⟨anchor, .notCallable f.kind⟩) s))

abbrev Evaluates (e : Expr) (env : Address) (s : Store) (r : Outcome Value) : Prop :=
  Derivable (.evaluates e env s r)

abbrev EvaluatesEach (es : List Expr) (env : Address) (s : Store)
    (r : Outcome (List Value)) : Prop := Derivable (.evaluatesEach es env s r)

abbrev Applies (anchor : Option Token) (f : Value) (args : List Value) (s : Store)
    (r : Outcome Value) : Prop := Derivable (.applies anchor f args s r)

def Outcome.IsFinal {α : Type} (r : Outcome α) : Prop :=
  ∀ failure t, r = .error failure t → failure ≠ .tooDeep ∧ ∀ fault, failure ≠ .primitive fault

section Final

variable {α β : Type} {t : Store} {failure : Failure}

theorem isFinal_ok (a : α) (t : Store) : Outcome.IsFinal (.ok a t) := fun _ _ h => nomatch h

theorem isFinal_error (h : failure ≠ .tooDeep) (hfault : ∀ fault, failure ≠ .primitive fault) :
    Outcome.IsFinal (.error failure t : Outcome α) := by
  rintro _ _ heq
  cases heq
  exact ⟨h, hfault⟩

theorem isFinal_eval (err : EvalError) (t : Store) :
    Outcome.IsFinal (.error (.eval err) t : Outcome α) := isFinal_error nofun fun _ => nofun

theorem Outcome.IsFinal.error (h : IsFinal (.error failure t : Outcome α)) :
    IsFinal (.error failure t : Outcome β) :=
  isFinal_error (h failure t rfl).1 (h failure t rfl).2

def Judgement.IsFinal : Judgement → Prop
  | evaluates _ _ _ r => r.IsFinal
  | evaluatesEach _ _ _ r => r.IsFinal
  | applies _ _ _ _ r => r.IsFinal

theorem Derivable.isFinal {J : Judgement} (h : Derivable J) : J.IsFinal := by
  induction h with
  | symbol | string | number | boolean | empty | define | condNone | quote | assign | lambda =>
    exact isFinal_ok _ _
  | unbound | stray | unknown | malformed | quoteFails | assignUnbound => exact isFinal_eval _ _
  | defineFails _ _ ih | condFails _ _ ih | assignFails _ _ ih | operatorFails _ _ ih => exact ih
  | condYes _ _ _ _ _ ih | condNo _ _ _ _ ih | call _ _ _ _ _ _ ih => exact ih
  | operandFails _ _ _ _ ih => exact ih.error
  | nil | cons => exact isFinal_ok _ _
  | headFails _ ih => exact ih.error
  | tailFails _ _ _ ih => exact ih
  | native => exact isFinal_ok _ _
  | tooFew | otherCount | refused | noCallee | otherParams | notCallable => exact isFinal_eval _ _
  | @nativeFails _ op _ _ _ _ failure _ _ h hfailure =>
    refine isFinal_error ?_ hfailure
    rintro rfl
    exact op.native_ne_tooDeep _ _ _ h
  | callee _ _ ih | body _ _ ih => exact ih

end Final

end MiniScheme
