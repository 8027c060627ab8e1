import MiniScheme.Proofs.Eval.Invariant
import MiniScheme.Proofs.Eval.Tasks

/-! Evaluation keeps an invariant that it carries along, whatever it evaluates and however it ends,
if the primitives that it applies on the way have good results. The induction is on the limit, over
evaluation, application and primitives at once. -/

namespace MiniScheme

section Primitives

variable {limit : Nat} {f : Value}

theorem applyPrimitive_of_ne_apply {op : Primitive} (hop : op ≠ .apply) (args : List Value) :
    applyPrimitive (limit + 1) op args = op.run limit args := by
  cases op <;> first | exact absurd rfl hop | rfl

theorem applyPrimitive_callee (hf : f.isProcedure = true) (args : List Value) :
    applyPrimitive (limit + 1) .apply (f :: args) = apply limit none f args := by
  unfold applyPrimitive
  exact if_pos hf

theorem applyPrimitive_noCallee (hf : f.isProcedure = false) (args : List Value) :
    applyPrimitive (limit + 1) .apply (f :: args) =
      throw (.primitive (.applyNotProcedure f.kind)) := by
  unfold applyPrimitive
  exact if_neg (by simp [hf])

end Primitives

namespace Invariant

variable {I : Invariant} {limit : Nat} {s t : Store} {task inner : Task} {j : Job}

def Begins (I : Invariant) (s : Store) : Task → Prop
  | .eval e env => I.env s env ∧ I.expr e
  | .apply anchor f args => I.value s f ∧ (∀ v ∈ args, I.value s v) ∧
      ∀ fault : EvalFault, fault.OfCall → I.failure (.eval ⟨anchor, fault⟩)
  | .primitive op args => (∀ v ∈ args, I.value s v) ∧ op.arity.Admits args.length

def Fails (I : Invariant) : Task → Failure → Prop
  | .primitive .. => OrPrimitive I.failure
  | _ => I.failure

def KeepsJob (I : Invariant) (j : Job) : Prop :=
  I.store j.store → I.Begins j.store j.task →
    I.Keeps j.store (j.task.run j.limit) I.value (I.Fails j.task)

def KeepsInside (I : Invariant) (limit : Nat) (task : Task) (s : Store) : Prop :=
  ∀ ⦃held inner t⦄, task.Starts limit s held inner t → I.KeepsJob ⟨limit, inner, t⟩

def Yields (I : Invariant) (j : Job) : Prop :=
  ∀ ⦃limit op args s⦄, j.Reaches ⟨limit + 1, .primitive op args, s⟩ → I.store s →
    (∀ v ∈ args, I.value s v) → op.arity.Admits args.length →
      ∀ v, op.result limit args = .ok v → I.value s v

theorem Yields.of_reaches {inner : Job} (h : I.Yields j) (hreach : j.Reaches inner) :
    I.Yields inner := fun _ _ _ _ hinner => h (hreach.trans hinner)

theorem Lawful.yields (hI : I.Lawful) (j : Job) : I.Yields j :=
  fun _ _ _ _ _ hs hargs hcount _ h => hI.result hs hargs hcount h

theorem Carried.keeps_noValue (hI : I.Carried) (hs : I.store s) {F : Failure → Prop} :
    I.Keeps s (pure .noValue) I.value F :=
  keeps_pure hs (Value.every_of_isPlain trivial hI.noValue)

theorem Carried.keeps_run (hI : I.Carried) {op : Primitive} {args : List Value} (hop : op ≠ .apply)
    (hs : I.store s) (hargs : ∀ v ∈ args, I.value s v) (hcount : op.arity.Admits args.length)
    (hresult : ∀ v, op.result limit args = .ok v → I.value s v) :
    I.Keeps s (op.run limit args) I.value (OrPrimitive I.failure) := by
  have hprint : ∀ text : String,
      I.Keeps s (do Run.print text; return .noValue) I.value (OrPrimitive I.failure) := by
    intro text
    refine (keeps_modify (s.extends_print text) (hI.print hs text) trivial).bind
      (P := fun _ _ => True) fun t _ _ ht _ => ?_
    exact hI.keeps_noValue ht
  by_cases hpure : op.IsPure
  · rw [Primitive.run_of_isPure hpure]
    exact keeps_ofExcept hs hresult fun failure h => hI.result_error hs hargs hpure hcount h
  · cases op with
    | apply => exact absurd rfl hop
    | display =>
      obtain ⟨v, rfl⟩ := List.length_eq_one_iff.mp (Arity.admits_exactly.mp hcount)
      refine keeps_ofExcept_bind hs (fun text _ => hprint text) fun failure h => ?_
      exact hI.text_error hs (hargs v List.mem_cons_self) h
    | newline =>
      obtain rfl := List.length_eq_zero_iff.mp (Arity.admits_exactly.mp hcount)
      exact hprint "\n"
    | _ => exact absurd trivial hpure

theorem Carried.keeps_primitive (hI : I.Carried) {op : Primitive} {args : List Value}
    (hyields : I.Yields ⟨limit + 1, .primitive op args, s⟩)
    (hinside : I.KeepsInside limit (.primitive op args) s) :
    I.KeepsJob ⟨limit + 1, .primitive op args, s⟩ := by
  rintro hs ⟨hargs, hcount⟩
  dsimp only [Task.run]
  by_cases hop : op = .apply
  · subst hop
    obtain ⟨f, rest, rfl⟩ := List.exists_cons_of_length_pos (Arity.admits_atLeast.mp hcount)
    obtain ⟨hf, hrest⟩ := List.forall_mem_cons.mp hargs
    cases hprocedure : f.isProcedure with
    | true =>
      rw [applyPrimitive_callee hprocedure]
      exact (hinside (.callee hprocedure) hs ⟨hf, hrest, fun _ h => hI.ofCall h⟩).mono
        (fun _ _ h => h) fun _ h => .inr h
    | false =>
      rw [applyPrimitive_noCallee hprocedure]
      exact keeps_throw hs (.inl ⟨_, rfl⟩)
  · rw [applyPrimitive_of_ne_apply hop]
    exact hI.keeps_run hop hs hargs hcount (hyields .refl hs hargs hcount)

theorem ofCall_of_checkCount {anchor : Option Token} {name : String} {arity : Arity} {count : Nat}
    {err : EvalError} (h : checkCount anchor name arity count = .error err) :
    ∃ fault : EvalFault, fault.OfCall ∧ err = ⟨anchor, fault⟩ := by
  unfold checkCount at h
  split at h
  · cases h
  · split at h
    · exact ⟨.tooFewOperands name arity.least count, trivial, (Except.error.inj h).symm⟩
    · exact ⟨.otherOperandCount name arity.least count, trivial, (Except.error.inj h).symm⟩

theorem anchor_of_checkCount {anchor : Option Token} {name : String} {arity : Arity} {count : Nat}
    {err : EvalError} (h : checkCount anchor name arity count = .error err) :
    err.anchor = anchor := by
  obtain ⟨_, _, rfl⟩ := ofCall_of_checkCount h
  rfl

theorem admits_of_checkCount {anchor : Option Token} {name : String} {arity : Arity} {count : Nat}
    (h : checkCount anchor name arity count = .ok ()) : arity.Admits count := by
  unfold checkCount at h
  split at h
  · assumption
  · split at h <;> cases h

theorem keeps_checkCount {anchor : Option Token} {name : String} {arity : Arity} {count : Nat}
    {f : Unit → Run Value} (hs : I.store s)
    (hanchor : ∀ fault : EvalFault, fault.OfCall → I.failure (.eval ⟨anchor, fault⟩))
    (hf : checkCount anchor name arity count = .ok () → I.Keeps s (f ()) I.value I.failure) :
    I.Keeps s (Run.ofExcept .eval (checkCount anchor name arity count) >>= f) I.value
      I.failure := by
  refine keeps_ofExcept_bind hs (fun _ h => hf h) fun err h => ?_
  obtain ⟨fault, hfault, rfl⟩ := ofCall_of_checkCount h
  exact hanchor fault hfault

theorem keeps_anchored {anchor : Option Token} {m : Run Value}
    (h : I.Keeps s m I.value (OrPrimitive I.failure))
    (hanchor : ∀ fault : EvalFault, fault.OfCall → I.failure (.eval ⟨anchor, fault⟩)) :
    I.Keeps s (anchored anchor m) I.value I.failure := by
  refine h.tryCatch fun t failure _ ht hfailure => ?_
  split
  · exact keeps_throw ht (hanchor _ trivial)
  · rename_i hne
    rcases hfailure with ⟨fault, rfl⟩ | hfailure
    · exact absurd rfl (hne fault)
    · exact keeps_throw ht hfailure

theorem Carried.begins_body (hI : I.Carried) {anchor : Option Token} {c : Closure}
    {args : List Value} (hs : I.store s) (h : I.Begins s (.apply anchor (.closure c) args))
    (hcount : checkCount anchor c.name (.exactly c.params.length) args.length = .ok ()) :
    I.store (s.alloc (Frame.ofArguments c.params args c.env)) ∧
      I.Begins (s.alloc (Frame.ofArguments c.params args c.env)) (.eval c.body s.fresh) :=
  hI.call hs (Value.every_closure.mp h.1) h.2.1
    (Arity.admits_exactly.mp (admits_of_checkCount hcount))

theorem Carried.keeps_apply (hI : I.Carried) {anchor : Option Token} {f : Value}
    {args : List Value} (hinside : I.KeepsInside limit (.apply anchor f args) s) :
    I.KeepsJob ⟨limit + 1, .apply anchor f args, s⟩ := by
  intro hs hbegins
  have ⟨_, hargs, hanchor⟩ := hbegins
  dsimp only [Task.run]
  unfold apply
  cases f with
  | primitive op home =>
    refine keeps_checkCount hs hanchor fun hcount => ?_
    exact keeps_anchored (hinside (.primitive hcount) hs ⟨hargs, admits_of_checkCount hcount⟩)
      hanchor
  | closure c =>
    refine keeps_checkCount hs hanchor fun hcount => ?_
    obtain ⟨ht, hbody⟩ := hI.begins_body hs hbegins hcount
    have hframe : I.Keeps s (Run.extend c.env c.params args) (fun t a => t =
        s.alloc (Frame.ofArguments c.params args c.env) ∧ a = s.fresh) I.failure :=
      ⟨s.extends_alloc _, ht, rfl, rfl⟩
    refine hframe.bind ?_
    rintro _ _ _ _ ⟨rfl, rfl⟩
    exact hinside (.body hcount) ht hbody
  | _ => exact keeps_throw hs (hanchor _ trivial)

section Lists

variable {line : Nat} {items : List Expr} {env : Address}

theorem Carried.keeps_front (hI : I.Carried) {operator : Expr} {operands front rest : List Expr}
    {f : Value} (hinside : I.KeepsInside limit (.eval (.list line items) env) s)
    (hform : Form.ofItems line items = .ok (.call operator operands))
    (he : I.expr (.list line items)) (hf : eval limit operator env s = .ok f t) (ht : I.store t)
    (henv : I.env t env) (hfront : front ++ rest = operands) :
    I.Keeps t (front.mapM fun e => eval limit e env) (fun u vs => ∀ v ∈ vs, I.value u v)
      I.failure := by
  refine keeps_mapM (R := I.value) (fun _ _ _ => hI.value_extends) ht ?_
  intro before e after args u hsplit hbefore htu hu
  obtain rfl : before ++ e :: (after ++ rest) = operands := by simp [← hfront, hsplit]
  have hpart := hI.items he e (Form.exprs_subset hform (by simp [Form.exprs]))
  exact hinside (.operand hform hf hbefore) hu ⟨hI.env_extends htu henv, hpart⟩

theorem Carried.keeps_list (hI : I.Carried)
    (hinside : I.KeepsInside limit (.eval (.list line items) env) s) :
    I.KeepsJob ⟨limit + 1, .eval (.list line items) env, s⟩ := by
  rintro hs ⟨henv, he⟩
  dsimp only [Task.run]
  unfold eval
  -- the form is known from here on, so its parts are items and its errors are the list's own
  refine keeps_ofExcept_bind hs (fun form hform => ?_) fun err h => hI.raises he (.form h)
  have hparts : ∀ e ∈ form.exprs, I.expr e :=
    fun e h => hI.items he e (Form.exprs_subset hform h)
  cases form with
  | empty => exact hI.keeps_noValue hs
  | define name value =>
    have hvalue := hinside (.define hform) hs ⟨henv, hparts value (by simp [Form.exprs])⟩
    refine Keeps.bind hvalue fun t v hst ht hv => ?_
    have hdefine : I.Keeps t (Run.define env name v) (fun _ _ => True) I.failure :=
      ⟨t.extends_define env name v, hI.define ht (hI.env_extends hst henv) hv name, trivial⟩
    exact hdefine.bind fun u _ _ hu _ => hI.keeps_noValue hu
  | cond test yes no =>
    have htest := hinside (.test hform) hs ⟨henv, hparts test (by simp [Form.exprs])⟩
    refine Keeps.bind_of_ok htest fun t v hrun hst ht _ => ?_
    have henv := hI.env_extends hst henv
    split
    · rename_i hv
      exact hinside (.yes hform hrun hv) ht ⟨henv, hparts yes (by simp [Form.exprs])⟩
    · rename_i hv
      cases no with
      | some no =>
        exact hinside (.no hform hrun (Bool.not_eq_true _ ▸ hv)) ht
          ⟨henv, hparts no (by simp [Form.exprs])⟩
      | none => exact hI.keeps_noValue ht
  | quote e =>
    have he : I.expr e := hparts e (by simp [Form.exprs])
    exact keeps_ofExcept hs (fun v h => hI.quoted he h) fun err h => hI.raises he (.quoted h)
  | assign name nameLine value =>
    have hvalue := hinside (.assign hform) hs ⟨henv, hparts value (by simp [Form.exprs])⟩
    refine Keeps.bind hvalue fun t v hst ht hv => ?_
    have hassign : I.Keeps t (Run.tryAssign env name v) (fun _ _ => True) I.failure :=
      ⟨t.extends_assign env name v, hI.assign ht (hI.env_extends hst henv) hv name, trivial⟩
    refine hassign.bind fun u bound _ hu _ => ?_
    cases bound with
    | true => exact hI.keeps_noValue hu
    | false => exact keeps_throw hu (hI.raises he (.assign hform))
  | lambda params body =>
    obtain ⟨ht, hclosure⟩ := hI.lambda hs henv he hform
    exact ⟨s.extends_nextClosure, ht, Value.every_closure.mpr hclosure⟩
  | call operator operands =>
    have hoperator := hinside (.operator hform) hs ⟨henv, hparts operator (by simp [Form.exprs])⟩
    refine Keeps.bind_of_ok hoperator fun t f hf hst ht hgood => ?_
    have hoperands := hI.keeps_front hinside hform he hf ht (hI.env_extends hst henv)
      (List.append_nil operands)
    refine hoperands.bind_of_ok fun u args hargs htu hu hvalues => ?_
    exact hinside (.call hform hf hargs) hu
      ⟨hI.value_extends htu hgood, hvalues, fun fault h => hI.raises he (.call line items h)⟩

end Lists

theorem Carried.keeps_expr (hI : I.Carried) {e : Expr} {env : Address}
    (hinside : I.KeepsInside limit (.eval e env) s) :
    I.KeepsJob ⟨limit + 1, .eval e env, s⟩ := by
  cases e with
  | list line items => exact hI.keeps_list hinside
  | atom line atom =>
    rintro hs ⟨henv, he⟩
    dsimp only [Task.run]
    unfold eval
    cases atom with
    | symbol name =>
      refine keeps_get ?_
      split
      · rename_i v h
        exact keeps_pure hs (hI.lookup hs henv h)
      · exact keeps_throw hs (hI.raises he (.unbound line name))
    | string => exact keeps_pure hs (hI.quoted he rfl)
    | number => exact keeps_pure hs (hI.quoted he rfl)
    | boolean => exact keeps_pure hs (hI.quoted he rfl)
  | stray | unknown =>
    rintro hs ⟨_, he⟩
    dsimp only [Task.run]
    unfold eval
    exact keeps_throw hs (hI.raises he (.quoted rfl))

/-- A job keeps the invariant if the primitives that it applies have good results. -/
theorem Carried.keeps (hI : I.Carried) (h : I.Yields j) : I.KeepsJob j := by
  obtain ⟨limit, task, s⟩ := j
  induction limit generalizing task s with
  | zero =>
    intro hs _
    cases task with
    | primitive op args => exact keeps_throw hs (.inr hI.tooDeep)
    | _ => exact keeps_throw hs hI.tooDeep
  | succ limit ih =>
    have hinside : I.KeepsInside limit task s :=
      fun _ inner t hstart => ih inner t (h.of_reaches (.single (.mk hstart)))
    cases task with
    | eval e env => exact hI.keeps_expr hinside
    | apply anchor f args => exact hI.keeps_apply hinside
    | primitive op args => exact hI.keeps_primitive h hinside

theorem Lawful.keeps_eval (hI : I.Lawful) {e : Expr} {env : Address} (hs : I.store s)
    (henv : I.env s env) (he : I.expr e) : I.Keeps s (eval limit e env) I.value I.failure :=
  hI.keeps (hI.yields ⟨limit, .eval e env, s⟩) hs ⟨henv, he⟩

theorem Lawful.keeps_operands (hI : I.Lawful) {es : List Expr} {env : Address} (hs : I.store s)
    (henv : I.env s env) (hes : ∀ e ∈ es, I.expr e) :
    I.Keeps s (es.mapM fun e => eval limit e env) (fun t vs => ∀ v ∈ vs, I.value t v)
      I.failure := by
  refine keeps_mapM (R := I.value) (fun _ _ _ => hI.value_extends) hs ?_
  rintro front e rest vs t rfl _ hst ht
  exact hI.keeps_eval ht (hI.env_extends hst henv) (hes e (by simp))

end Invariant
end MiniScheme
