import MiniScheme.Proofs.Eval.Settles

/-! The rules and the evaluator agree: what evaluation ends with under any limit, unless it ends at
the limit, the rules derive, and they derive nothing else. -/

namespace MiniScheme

open Run

def Run.Derives {α : Type} (m : Run α) (s : Store) (J : Outcome α → Prop) : Prop :=
  J (m s) ∨ ∃ t, m s = .error .tooDeep t

section Derives

variable {α β : Type} {m : Run α} {s : Store} {J : Outcome α → Prop} {K : Outcome β → Prop}

theorem derives_of_eq {r : Outcome α} (hr : J r) (h : m s = r) : Run.Derives m s J :=
  .inl (h ▸ hr)

theorem Run.Derives.bind {f : α → Run β} (h : Run.Derives m s J)
    (hok : ∀ a t, J (.ok a t) → Run.Derives (f a) t K)
    (herror : ∀ failure t, J (.error failure t) → K (.error failure t)) :
    Run.Derives (m >>= f) s K := by
  rcases h with h | ⟨t, htooDeep⟩
  · cases hm : m s with
    | ok a t =>
      unfold Run.Derives
      rw [bind_of_ok hm]
      exact hok a t (hm ▸ h)
    | error failure t =>
      exact derives_of_eq (herror failure t (hm ▸ h)) (bind_of_error hm)
  · exact .inr ⟨t, bind_of_error htooDeep⟩

theorem Run.Derives.mono {J' : Outcome α → Prop} (h : Run.Derives m s J)
    (hJ : ∀ r, J r → J' r) : Run.Derives m s J' := h.imp_left (hJ _)

end Derives

def EvalDerives (limit : Nat) : Prop :=
  ∀ e env s, Derives (eval limit e env) s (Evaluates e env s)

def ApplyDerives (limit : Nat) : Prop :=
  ∀ anchor f args s, Derives (apply limit anchor f args) s (Applies anchor f args s)

def PrimitiveDerives (limit : Nat) : Prop :=
  ∀ anchor op home args s, op.arity.Admits args.length →
    Derives (anchored anchor (applyPrimitive limit op args)) s
      (Applies anchor (.primitive op home) args s)

section Sound

variable {limit : Nat}

theorem EvalDerives.operands (h : EvalDerives limit) (es : List Expr) (env : Address)
    (s : Store) : Derives (es.mapM fun e => eval limit e env) s (EvaluatesEach es env s) := by
  induction es generalizing s with
  | nil => exact .inl .nil
  | cons e es ih =>
    rw [List.mapM_cons]
    refine (h e env s).bind (fun v t he => ?_) fun failure t he => .headFails he
    refine (ih t).bind (fun vs u hes => ?_) fun failure u hes => .tailFails he hes
    exact .inl (.cons he hes)

theorem EvalDerives.list (heval : EvalDerives limit) (happly : ApplyDerives limit) {line : Nat}
    {items : List Expr} {form : Form} (env : Address) (s : Store)
    (hform : Form.Reads line items (.ok form)) :
    Derives (form.run limit line env) s (Evaluates (.list line items) env s) := by
  cases form with
  | empty =>
    obtain rfl : items = [] := by
      cases hform
      rfl
    exact .inl .empty
  | define name value =>
    refine (heval value env s).bind (fun v t hvalue => ?_) fun _ _ h => .defineFails hform h
    exact .inl (.define hform hvalue)
  | cond test yes no =>
    refine (heval test env s).bind (fun v t htest => ?_) fun _ _ h => .condFails hform h
    by_cases hv : v = .boolean false
    · subst hv
      cases no with
      | some no => exact (heval no env t).mono fun r hno => .condNo hform htest hno
      | none => exact .inl (.condNone hform htest)
    · rw [if_pos (by rwa [← Bool.not_eq_false, isTruthy_eq_false])]
      exact (heval yes env t).mono fun r hyes => .condYes hform htest hv hyes
  | quote e =>
    cases hquoted : e.quoted with
    | ok v => exact derives_of_eq (.quote hform hquoted) (by rw [Form.run, hquoted]; rfl)
    | error err => exact derives_of_eq (.quoteFails hform hquoted) (by rw [Form.run, hquoted]; rfl)
  | assign name nameLine value =>
    refine (heval value env s).bind (fun v t hvalue => ?_) fun _ _ h => .assignFails hform h
    cases ha : t.holder? env name with
    | some a => exact derives_of_eq (.assign hform hvalue ha) (assign_bound ha)
    | none => exact derives_of_eq (.assignUnbound hform hvalue ha) (assign_unbound ha)
  | lambda params body => exact .inl (.lambda hform)
  | call operator operands =>
    refine (heval operator env s).bind (fun f t hf => ?_) fun _ _ h => .operatorFails hform h
    refine (heval.operands operands env t).bind (fun args u hargs => ?_)
      fun _ _ h => .operandFails hform hf h
    exact (happly _ f args u).mono fun r hr => .call hform hf hargs hr

theorem evalDerives_succ (heval : EvalDerives limit) (happly : ApplyDerives limit) :
    EvalDerives (limit + 1) := by
  intro e env s
  cases e with
  | atom line a =>
    cases a with
    | symbol name =>
      have hrun := eval_symbol limit line name env s
      cases hv : s.lookup? env name with
      | some v => exact derives_of_eq (.symbol hv) (by rw [hrun, hv])
      | none => exact derives_of_eq (.unbound hv) (by rw [hrun, hv])
    | string => exact .inl .string
    | number => exact .inl .number
    | boolean => exact .inl .boolean
  | stray => exact .inl .stray
  | unknown => exact .inl .unknown
  | list line items =>
    obtain ⟨r, hform⟩ := Form.exists_reads line items
    cases r with
    | error err => exact derives_of_eq (.malformed hform) (eval_list_error hform.ofItems_eq)
    | ok form =>
      rw [eval_list hform.ofItems_eq]
      exact heval.list happly env s hform

theorem primitiveDerives_succ (happly : ApplyDerives limit) : PrimitiveDerives (limit + 1) := by
  intro anchor op home args s hcount
  by_cases hop : op = .apply
  · subst hop
    obtain ⟨f, args, rfl⟩ := List.exists_cons_of_length_pos (Arity.admits_atLeast.mp hcount)
    cases hf : f.isProcedure with
    | false =>
      refine derives_of_eq (.noCallee hf) (anchored_primitive ?_)
      rw [applyPrimitive_noCallee hf]
      rfl
    | true =>
      rw [applyPrimitive_callee hf]
      rcases happly none f args s with hr | ⟨t, htooDeep⟩
      · exact derives_of_eq (.callee hf hr) (anchored_of_isFinal hr.isFinal)
      · exact .inr ⟨t, anchored_error htooDeep fun _ => nofun⟩
  · rw [applyPrimitive_of_ne_apply hop]
    rcases op.run_eq_native_or limit args s with hrun | ⟨t, htooDeep⟩
    · exact derives_of_eq (applies_native hop hcount) (anchored_congr hrun)
    · exact .inr ⟨t, anchored_error htooDeep fun _ => nofun⟩

theorem applyDerives_succ (heval : EvalDerives limit) (hprimitive : PrimitiveDerives limit) :
    ApplyDerives (limit + 1) := by
  intro anchor f args s
  cases f with
  | primitive op home =>
    unfold apply
    dsimp only
    by_cases hcount : op.arity.Admits args.length
    · rw [checkCount_of_admits hcount]
      exact hprimitive anchor op home args s hcount
    · obtain ⟨err, hcheck, hrefused⟩ := exists_applies_of_not_admits hcount
      rw [hcheck]
      exact .inl hrefused
  | closure c =>
    unfold apply
    dsimp only
    by_cases hcount : args.length = c.params.length
    · rw [checkCount_of_admits (Arity.admits_exactly.mpr hcount)]
      exact (heval c.body s.fresh _).mono fun r hr => .body hcount hr
    · have harity : (Arity.exactly c.params.length).more = false := rfl
      rw [checkCount_otherCount harity hcount]
      exact .inl (.otherParams hcount)
  | _ => exact .inl (.notCallable rfl)

theorem derives_all (limit : Nat) :
    EvalDerives limit ∧ ApplyDerives limit ∧ PrimitiveDerives limit := by
  induction limit with
  | zero =>
    refine ⟨fun e env s => .inr ⟨s, rfl⟩, fun anchor f args s => .inr ⟨s, rfl⟩, ?_⟩
    exact fun anchor op home args s _ => .inr ⟨s, anchored_error rfl fun _ => nofun⟩
  | succ limit ih =>
    obtain ⟨heval, happly, hprimitive⟩ := ih
    exact ⟨evalDerives_succ heval happly, applyDerives_succ heval hprimitive,
      primitiveDerives_succ happly⟩

end Sound

/-- The rules derive exactly the ways in which evaluation ends when its limit is lifted: those that
it ends in under every limit from some limit on, other than by the limit itself. They derive at most
one, and it is how evaluation ends under each single limit that it does not end at. -/
theorem evaluates_iff (e : Expr) (env : Address) (s : Store) :
    (∀ r, Evaluates e env s r ↔
      Settles (fun limit => eval limit e env) s r ∧ ∀ t, r ≠ .error .tooDeep t) ∧
    (∀ limit, (∀ t, eval limit e env s ≠ .error .tooDeep t) →
      Evaluates e env s (eval limit e env s)) ∧
    ∀ r r', Evaluates e env s r → Evaluates e env s r' → r = r' := by
  have hsound : ∀ limit, (∀ t, eval limit e env s ≠ .error .tooDeep t) →
      Evaluates e env s (eval limit e env s) := by
    intro limit hlimit
    rcases (derives_all limit).1 e env s with h | ⟨t, htooDeep⟩
    · exact h
    · exact absurd htooDeep (hlimit t)
  have hsettles : ∀ r, Evaluates e env s r → Settles (fun limit => eval limit e env) s r :=
    fun r h => h.settled
  refine ⟨fun r => ⟨fun h => ⟨hsettles r h, ?_⟩, ?_⟩, hsound, ?_⟩
  · rintro t rfl
    exact (h.isFinal _ t rfl).1 rfl
  · rintro ⟨⟨limit, hlimit⟩, hr⟩
    have hrun : eval limit e env s = r := hlimit limit (Nat.le_refl limit)
    exact hrun ▸ hsound limit (by rwa [hrun])
  · exact fun r r' h h' => (hsettles r h).unique (hsettles r' h')

theorem evaluates_display_car :
    let s := after newGlobal {}
    let e := .list 0 [.atom 0 (.symbol "begin"),
      .list 0 [.atom 0 (.symbol "display"), .atom 0 (.boolean true)],
      .list 1 [.atom 1 (.symbol "car"), .atom 1 (.boolean true)]]
    let r := .error (.eval ⟨some ⟨1, .leftParen⟩, .primitive (.notList "car" "BooleanVal")⟩)
      (s.withConsole { buffer := "#t" })
    Evaluates e 0 s r ∧ Settles (fun limit => eval limit e 0) s r ∧
      ∀ r', Evaluates e 0 s r' → r' = r := by
  intro s e r
  have hrun : eval 10 e 0 s = r := rfl
  obtain ⟨hiff, hsound, hunique⟩ := evaluates_iff e 0 s
  have h : Evaluates e 0 s r := hsound 10 fun t => nofun
  exact ⟨h, ((hiff r).mp h).1, fun r' h' => hunique r' r h' h⟩

end MiniScheme
