import MiniScheme.Proofs.Eval.Keeps
import MiniScheme.Proofs.Eval.Rules

/-! What the rules derive is how evaluation ends under every limit that is large enough. Each rule
is one step of the evaluator, so the induction is on the derivation. -/

namespace MiniScheme

def Form.run (limit line : Nat) (env : Address) : Form → Run Value
  | .empty => return .noValue
  | .define name value => do
    let v ← eval limit value env
    Run.define env name v
    return .noValue
  | .cond test yes no => do
    let v ← eval limit test env
    if v.isTruthy then eval limit yes env
    else match no with
      | some no => eval limit no env
      | none => return .noValue
  | .quote e => Run.ofExcept .eval e.quoted
  | .assign name nameLine value => do
    let v ← eval limit value env
    if ← Run.tryAssign env name v then return .noValue
    else throw (.eval ⟨some ⟨nameLine, .atom (.symbol name)⟩, .unboundVariable⟩)
  | .lambda params body => Run.newClosure "lambda" params body env
  | .call operator operands => do
    let f ← eval limit operator env
    let args ← operands.mapM fun e => eval limit e env
    apply limit (some ⟨line, .leftParen⟩) f args

section Steps

variable {limit line : Nat} {items : List Expr} {env : Address} {s : Store}

theorem eval_list_eq (limit line : Nat) (items : List Expr) (env : Address) :
    eval (limit + 1) (.list line items) env =
      (Run.ofExcept .eval (Form.ofItems line items) >>= fun form => form.run limit line env) := by
  unfold eval
  refine bind_congr fun form => ?_
  cases form <;> rfl

theorem eval_list {form : Form} (h : Form.ofItems line items = .ok form) :
    eval (limit + 1) (.list line items) env = form.run limit line env := by
  rw [eval_list_eq, h]
  rfl

theorem eval_list_error {err : EvalError} (h : Form.ofItems line items = .error err) :
    eval (limit + 1) (.list line items) env s = .error (.eval err) s := by
  rw [eval_list_eq, h]
  rfl

theorem eval_symbol (limit line : Nat) (name : String) (env : Address) (s : Store) :
    eval (limit + 1) (.atom line (.symbol name)) env s = match s.lookup? env name with
      | some v => .ok v s
      | none => .error (.eval ⟨some ⟨line, .atom (.symbol name)⟩, .unboundVariable⟩) s := by
  unfold eval
  change (match s.lookup? env name with
    | some v => (pure v : Run Value)
    | none => throw (Failure.eval ⟨some ⟨line, .atom (.symbol name)⟩, .unboundVariable⟩)) s = _
  cases s.lookup? env name <;> rfl

theorem isTruthy_eq_false {v : Value} : v.isTruthy = false ↔ v = .boolean false := by
  cases v with
  | boolean b => cases b <;> simp [Value.isTruthy]
  | _ => simp [Value.isTruthy]

theorem assign_bound {name : String} {a : Address} {v : Value} {failure : Failure}
    (h : s.holder? env name = some a) :
    (do if ← Run.tryAssign env name v then return .noValue else throw failure : Run Value) s =
      .ok .noValue (s.define a name v) := by
  have hassign : Run.tryAssign env name v s = .ok true (s.define a name v) := by
    rw [Run.tryAssign_apply, h]
  exact Run.bind_of_ok hassign

theorem assign_unbound {name : String} {v : Value} {failure : Failure}
    (h : s.holder? env name = none) :
    (do if ← Run.tryAssign env name v then return .noValue else throw failure : Run Value) s =
      .error failure s := by
  have hassign : Run.tryAssign env name v s = .ok false s := by
    rw [Run.tryAssign_apply, h]
  exact Run.bind_of_ok hassign

theorem checkCount_of_admits {anchor : Option Token} {name : String} {arity : Arity} {count : Nat}
    (h : arity.Admits count) : checkCount anchor name arity count = .ok () := if_pos h

theorem checkCount_tooFew {anchor : Option Token} {name : String} {arity : Arity} {count : Nat}
    (hmore : arity.more = true) (hcount : count < arity.least) :
    checkCount anchor name arity count =
      .error ⟨anchor, .tooFewOperands name arity.least count⟩ := by
  unfold checkCount
  rw [if_neg ((Arity.not_admits_iff_lt hmore).mpr hcount), if_pos hmore]

theorem checkCount_otherCount {anchor : Option Token} {name : String} {arity : Arity}
    {count : Nat} (hmore : arity.more = false) (hcount : count ≠ arity.least) :
    checkCount anchor name arity count =
      .error ⟨anchor, .otherOperandCount name arity.least count⟩ := by
  unfold checkCount
  rw [if_neg ((Arity.not_admits_iff_ne hmore).mpr hcount), if_neg (by simp [hmore])]

theorem apply_closure {anchor : Option Token} {c : Closure} {args : List Value}
    (hcount : args.length = c.params.length) :
    apply (limit + 1) anchor (.closure c) args s =
      eval limit c.body s.fresh (s.alloc (Frame.ofArguments c.params args c.env)) := by
  unfold apply
  dsimp only
  rw [checkCount_of_admits (Arity.admits_exactly.mpr hcount)]
  rfl

theorem apply_closure_error {anchor : Option Token} {c : Closure} {args : List Value}
    (hcount : args.length ≠ c.params.length) :
    apply (limit + 1) anchor (.closure c) args s =
      .error (.eval ⟨anchor, .otherOperandCount c.name c.params.length args.length⟩) s := by
  have harity : (Arity.exactly c.params.length).more = false := rfl
  unfold apply
  dsimp only
  rw [checkCount_otherCount harity hcount]
  rfl

theorem apply_of_isProcedure_eq_false {anchor : Option Token} {f : Value} {args : List Value}
    (hf : f.isProcedure = false) :
    apply (limit + 1) anchor f args = throw (.eval ⟨anchor, .notCallable f.kind⟩) := by
  cases f <;> first | rfl | cases hf

theorem anchored_ok {anchor : Option Token} {m : Run Value} {t : Store} {v : Value}
    (h : m s = .ok v t) : anchored anchor m s = .ok v t := by
  unfold anchored
  rw [Run.tryCatch_apply, h]

theorem apply_of_result {op : Primitive} {args : List Value} {v : Value} (hop : op.IsPure)
    (hcount : op.arity.Admits args.length) (h : op.result limit args = .ok v)
    (anchor : Option Token) (home : Address) :
    apply (limit + 2) anchor (.primitive op home) args s = .ok v s := by
  have hne : op ≠ .apply := by
    rintro rfl
    exact hop
  have hrun : applyPrimitive (limit + 1) op args s = .ok v s := by
    rw [applyPrimitive_of_ne_apply hne, Primitive.run_of_isPure hop, h]
    rfl
  unfold apply
  dsimp only
  rw [checkCount_of_admits hcount]
  exact anchored_ok hrun

theorem anchored_primitive {anchor : Option Token} {m : Run Value} {t : Store}
    {fault : PrimitiveFault} (h : m s = .error (.primitive fault) t) :
    anchored anchor m s = .error (.eval ⟨anchor, .primitive fault⟩) t := by
  unfold anchored
  rw [Run.tryCatch_apply, h]
  rfl

theorem anchored_error {anchor : Option Token} {m : Run Value} {t : Store} {failure : Failure}
    (h : m s = .error failure t) (hfault : ∀ fault, failure ≠ .primitive fault) :
    anchored anchor m s = .error failure t := by
  unfold anchored
  rw [Run.tryCatch_apply, h]
  cases failure <;> first | rfl | exact absurd rfl (hfault _)

theorem anchored_eq_error {anchor : Option Token} {m : Run Value} {t : Store} {failure : Failure}
    (h : anchored anchor m s = .error failure t) :
    (∃ fault, failure = .eval ⟨anchor, .primitive fault⟩) ∨ m s = .error failure t := by
  cases hm : m s with
  | ok v u => cases (anchored_ok hm).symm.trans h
  | error failure' u =>
    by_cases hfault : ∃ fault, failure' = .primitive fault
    · obtain ⟨fault, rfl⟩ := hfault
      obtain ⟨rfl, _⟩ := EStateM.Result.error.inj ((anchored_primitive hm).symm.trans h)
      exact .inl ⟨fault, rfl⟩
    · exact .inr ((anchored_error hm (not_exists.mp hfault)).symm.trans h)

theorem anchored_congr {anchor : Option Token} {m m' : Run Value} (h : m s = m' s) :
    anchored anchor m s = anchored anchor m' s := by
  unfold anchored
  rw [Run.tryCatch_apply, Run.tryCatch_apply, h]

theorem anchored_of_isFinal {anchor : Option Token} {m : Run Value}
    (h : Outcome.IsFinal (m s)) : anchored anchor m s = m s := by
  cases hm : m s with
  | ok v t => exact anchored_ok hm
  | error failure t => exact anchored_error hm (h failure t hm).2

section Primitives

variable {op : Primitive} {args : List Value} {anchor : Option Token} {home : Address}

theorem exists_applies_of_not_admits (hcount : ¬op.arity.Admits args.length) :
    ∃ err, checkCount anchor op.name op.arity args.length = .error err ∧
      Applies anchor (.primitive op home) args s (.error (.eval err) s) := by
  cases hmore : op.arity.more with
  | true =>
    have hlt : args.length < op.arity.least := (Arity.not_admits_iff_lt hmore).mp hcount
    exact ⟨_, checkCount_tooFew hmore hlt, .tooFew hmore hlt⟩
  | false =>
    have hne : args.length ≠ op.arity.least := (Arity.not_admits_iff_ne hmore).mp hcount
    exact ⟨_, checkCount_otherCount hmore hne, .otherCount hmore hne⟩

theorem applies_native (hop : op ≠ .apply) (hcount : op.arity.Admits args.length) :
    Applies anchor (.primitive op home) args s (anchored anchor (op.native args) s) := by
  cases hnative : op.native args s with
  | ok v t =>
    rw [anchored_ok hnative]
    exact .native hop hcount hnative
  | error failure t =>
    -- a fault of an operand gets the place of the call, and no other failure does
    by_cases hfault : ∃ fault, failure = .primitive fault
    · obtain ⟨fault, rfl⟩ := hfault
      rw [anchored_primitive hnative]
      exact .refused hop hcount hnative
    · rw [anchored_error hnative (not_exists.mp hfault)]
      exact .nativeFails hop hcount hnative (not_exists.mp hfault)

end Primitives

end Steps

namespace Run

variable {α β : Type} {m m' : Nat → Run α} {s t : Store}

/-- Under every limit that is large enough the run ends like this. -/
def Settles (m : Nat → Run α) (s : Store) (r : Outcome α) : Prop :=
  ∃ limit, ∀ larger, limit ≤ larger → m larger s = r

theorem settles_of_eq {m : Run α} {r : Outcome α} (h : m s = r) : Settles (fun _ => m) s r :=
  ⟨0, fun _ _ => h⟩

theorem Settles.succ {r : Outcome α} (h : Settles (fun limit => m (limit + 1)) s r) :
    Settles m s r := by
  obtain ⟨limit, h⟩ := h
  refine ⟨limit + 1, fun larger hlarger => ?_⟩
  obtain ⟨n, rfl⟩ := Nat.exists_eq_add_of_le' hlarger
  exact h (n + limit) (Nat.le_add_left limit n)

theorem Settles.bind {f : Nat → α → Run β} {a : α} {r : Outcome β} (hm : Settles m s (.ok a t))
    (hf : Settles (fun limit => f limit a) t r) :
    Settles (fun limit => m limit >>= f limit) s r := by
  obtain ⟨first, hm⟩ := hm
  obtain ⟨second, hf⟩ := hf
  refine ⟨max first second, fun larger hlarger => ?_⟩
  have hfirst := hm larger ((le_max_left ..).trans hlarger)
  have hsecond := hf larger ((le_max_right ..).trans hlarger)
  exact (bind_of_ok hfirst).trans hsecond

theorem Settles.bind_error {f : Nat → α → Run β} {failure : Failure}
    (hm : Settles m s (.error failure t)) :
    Settles (fun limit => m limit >>= f limit) s (.error failure t) := by
  obtain ⟨limit, hm⟩ := hm
  exact ⟨limit, fun larger hlarger => bind_of_error (hm larger hlarger)⟩

theorem Settles.unique {r r' : Outcome α} (h : Settles m s r) (h' : Settles m s r') : r = r' := by
  obtain ⟨first, h⟩ := h
  obtain ⟨second, h'⟩ := h'
  exact (h _ (le_max_left first second)).symm.trans (h' _ (le_max_right first second))

theorem settles_list {line : Nat} {items : List Expr} {form : Form} {env : Address}
    {r : Outcome Value} (hform : Form.Reads line items (.ok form))
    (h : Settles (fun limit => form.run limit line env) s r) :
    Settles (fun limit => eval limit (.list line items) env) s r := by
  refine Settles.succ ?_
  simp only [eval_list hform.ofItems_eq]
  exact h

theorem settles_native {op : Primitive} {args : List Value} {anchor : Option Token}
    {home : Address} {r : Outcome Value} (hop : op ≠ .apply) (hcount : op.arity.Admits args.length)
    (h : anchored anchor (op.native args) s = r) :
    Settles (fun limit => apply limit anchor (.primitive op home) args) s r := by
  -- one level for the call and one for the primitive; the others are for printing and comparing
  refine ⟨Value.depthEach args + 2, fun larger hlarger => ?_⟩
  obtain ⟨n, rfl⟩ := Nat.exists_eq_add_of_le' hlarger
  have hrun : applyPrimitive (n + Value.depthEach args + 1) op args s = op.native args s := by
    rw [applyPrimitive_of_ne_apply hop, op.run_eq_native (Nat.le_add_left _ n)]
  change apply (n + Value.depthEach args + 1 + 1) anchor (.primitive op home) args s = r
  unfold apply
  dsimp only
  rw [checkCount_of_admits hcount, ← h]
  exact anchored_congr hrun

theorem settles_refused {op : Primitive} {args : List Value} {anchor : Option Token}
    {home : Address} {err : EvalError}
    (h : checkCount anchor op.name op.arity args.length = .error err) :
    Settles (fun limit => apply limit anchor (.primitive op home) args) s
      (.error (.eval err) s) := by
  refine Settles.succ ?_
  unfold apply
  dsimp only
  rw [h]
  exact settles_of_eq rfl

end Run

open Run

def Judgement.Settled : Judgement → Prop
  | evaluates e env s r => Settles (fun limit => eval limit e env) s r
  | evaluatesEach es env s r => Settles (fun limit => es.mapM fun e => eval limit e env) s r
  | applies anchor f args s r => Settles (fun limit => apply limit anchor f args) s r

theorem Derivable.settled {J : Judgement} (h : Derivable J) : J.Settled := by
  induction h with
  | @symbol line name env s v h =>
    refine Settles.succ ⟨0, fun limit _ => (eval_symbol limit line name env s).trans ?_⟩
    rw [h]
  | @unbound line name env s h =>
    refine Settles.succ ⟨0, fun limit _ => (eval_symbol limit line name env s).trans ?_⟩
    rw [h]
  | string | number | boolean | stray | unknown | empty => exact Settles.succ ⟨0, fun _ _ => rfl⟩
  | malformed hform => exact Settles.succ ⟨0, fun _ _ => eval_list_error hform.ofItems_eq⟩
  | define hform _ ih => exact settles_list hform (ih.bind (settles_of_eq rfl))
  | defineFails hform _ ih => exact settles_list hform ih.bind_error
  | @condYes _ _ _ _ _ _ _ _ v _ hform _ hv _ ih ihyes =>
    refine settles_list hform (ih.bind ?_)
    have htruthy : v.isTruthy = true := by
      rw [← Bool.not_eq_false]
      exact fun h => hv (isTruthy_eq_false.mp h)
    simp only [htruthy, if_true]
    exact ihyes
  | condNo hform _ _ ih ihno => exact settles_list hform (ih.bind ihno)
  | condNone hform _ ih => exact settles_list hform (ih.bind (settles_of_eq rfl))
  | condFails hform _ ih => exact settles_list hform ih.bind_error
  | quote hform hv =>
    refine settles_list hform (settles_of_eq ?_)
    rw [hv]
    rfl
  | quoteFails hform herr =>
    refine settles_list hform (settles_of_eq ?_)
    rw [herr]
    rfl
  | assign hform _ ha ih =>
    exact settles_list hform (ih.bind (settles_of_eq (assign_bound ha)))
  | assignUnbound hform _ hnone ih =>
    exact settles_list hform (ih.bind (settles_of_eq (assign_unbound hnone)))
  | assignFails hform _ ih => exact settles_list hform ih.bind_error
  | lambda hform => exact settles_list hform (settles_of_eq rfl)
  | call hform _ _ _ ihf ihargs ih => exact settles_list hform (ihf.bind (ihargs.bind ih))
  | operatorFails hform _ ih => exact settles_list hform ih.bind_error
  | operandFails hform _ _ ihf ih => exact settles_list hform (ihf.bind ih.bind_error)
  | nil => exact settles_of_eq rfl
  | cons _ _ ihe ih =>
    simp only [Judgement.Settled, List.mapM_cons]
    exact ihe.bind (ih.bind (settles_of_eq rfl))
  | headFails _ ih =>
    simp only [Judgement.Settled, List.mapM_cons]
    exact ih.bind_error
  | tailFails _ _ ihe ih =>
    simp only [Judgement.Settled, List.mapM_cons]
    exact ihe.bind ih.bind_error
  | tooFew hmore hcount => exact settles_refused (checkCount_tooFew hmore hcount)
  | otherCount hmore hcount => exact settles_refused (checkCount_otherCount hmore hcount)
  | native hop hcount h => exact settles_native hop hcount (anchored_ok h)
  | refused hop hcount h => exact settles_native hop hcount (anchored_primitive h)
  | nativeFails hop hcount h hfailure =>
    exact settles_native hop hcount (anchored_error h hfailure)
  | @callee anchor home f args s r hf hr ih =>
    -- what the callee fails with is no fault of an operand, so it keeps its own place
    obtain ⟨limit, ih⟩ := ih
    refine Settles.succ (Settles.succ ⟨limit, fun larger hlarger => ?_⟩)
    have hrun : applyPrimitive (larger + 1) .apply (f :: args) s = r := by
      rw [applyPrimitive_callee hf]
      exact ih larger hlarger
    have hfinal : Outcome.IsFinal (applyPrimitive (larger + 1) .apply (f :: args) s) := by
      rw [hrun]
      exact hr.isFinal
    unfold apply
    exact (anchored_of_isFinal hfinal).trans hrun
  | @noCallee anchor home f args s hf =>
    refine Settles.succ (Settles.succ ⟨0, fun larger _ => ?_⟩)
    unfold apply
    refine anchored_primitive (m := applyPrimitive (larger + 1) .apply (f :: args)) ?_
    rw [applyPrimitive_noCallee hf]
    rfl
  | otherParams hcount => exact Settles.succ ⟨0, fun _ _ => apply_closure_error hcount⟩
  | body hcount _ ih =>
    refine Settles.succ ?_
    obtain ⟨limit, ih⟩ := ih
    exact ⟨limit, fun larger hlarger => (apply_closure hcount).trans (ih larger hlarger)⟩
  | notCallable hf =>
    refine Settles.succ ⟨0, fun _ _ => ?_⟩
    dsimp only
    rw [apply_of_isProcedure_eq_false hf]
    rfl

end MiniScheme
