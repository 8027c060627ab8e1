import MiniScheme.Proofs.Eval.Settles
import MiniScheme.Proofs.Failure.Limit
import MiniScheme.Proofs.Session.Known
import MiniScheme.Proofs.Store.Links

/-! Expressions without `lambda`. Nothing that they evaluate to is a closure, so they write nowhere
but in the global frame, and their evaluation is by parts of themselves and of operand lists. It
always comes to an end. -/

namespace MiniScheme

inductive Expr.LambdaFree : Expr → Prop
  | atom (line : Nat) (a : Atom) : LambdaFree (.atom line a)
  | stray (line : Nat) (message : String) : LambdaFree (.stray line message)
  | unknown : LambdaFree .unknown
  | list (line : Nat) {items : List Expr} (hhead : ∀ e ∈ items.head?, ¬e.IsSymbol "lambda")
      (hitems : ∀ e ∈ items, LambdaFree e) : LambdaFree (.list line items)

def Value.IsGiven (v : Value) : Prop := v ≠ .unknown ∧ ∀ c, v ≠ .closure c

theorem Value.IsPlain.isGiven (v : Value) (h : v.IsPlain) : v.IsGiven := by
  cases v <;> first | exact h.elim | exact ⟨nofun, nofun⟩

namespace Store

/-- The store differs from an earlier one in the frame at `env` alone, which is inside no other and
binds no closure. -/
structure ChangedAt (start : Store) (env : Address) (s : Store) : Prop where
  size : s.frames.size = start.frames.size
  others : ∀ {a : Address}, a ≠ env → s.frames[a]? = start.frames[a]?
  enclosing : s.enclosing? env = none
  bound : ∀ f, s.frames[env]? = some f → ∀ b ∈ f.bindings, b.2.Every Value.IsGiven

variable {start s t : Store} {env a : Address} {name : String} {v : Value}

theorem ChangedAt.of_frames_eq (h : start.ChangedAt env s) (hframes : t.frames = s.frames) :
    start.ChangedAt env t where
  size := hframes ▸ h.size
  others ha := hframes ▸ h.others ha
  enclosing := by
    have henclosing := h.enclosing
    unfold enclosing? at henclosing ⊢
    rwa [hframes]
  bound := hframes ▸ h.bound

theorem ChangedAt.eq_of_leads (h : start.ChangedAt env s) (hleads : s.Leads env a) : a = env := by
  induction hleads with
  | refl => rfl
  | tail _ hlink ih =>
    subst ih
    exact absurd (h.enclosing.symm.trans hlink) nofun

theorem ChangedAt.lookup? (h : start.ChangedAt env s) (hv : s.lookup? env name = some v) :
    v.Every Value.IsGiven := by
  obtain ⟨a, hleads, hlocal⟩ := leads_of_lookup? hv
  obtain rfl := h.eq_of_leads hleads
  obtain ⟨f, hf, hget⟩ := Option.bind_eq_some_iff.mp hlocal
  exact h.bound f hf _ (Frame.mem_of_get? hget)

theorem ChangedAt.define (h : start.ChangedAt env s) (hv : v.Every Value.IsGiven)
    (name : String) : start.ChangedAt env (s.define env name v) where
  size := (s.fresh_define env name v).trans h.size
  others ha := (s.frames_define_of_ne ha name v).trans (h.others ha)
  enclosing := (s.enclosing?_define env env name v).trans h.enclosing
  bound := by
    intro g hg b hb
    rw [Store.define, Array.getElem?_modify, if_pos rfl] at hg
    obtain ⟨f, hf, rfl⟩ := Option.map_eq_some_iff.mp hg
    rcases Frame.mem_insert hb with heq | hb
    · exact heq ▸ hv
    · exact h.bound f hf b hb

theorem ChangedAt.assign (h : start.ChangedAt env s) (hv : v.Every Value.IsGiven)
    (name : String) : start.ChangedAt env (s.assign env name v).2 := by
  rcases s.assign_eq env name v with heq | ⟨a, hleads, heq⟩
  · rw [heq]
    exact h
  · rw [heq, h.eq_of_leads hleads]
    exact h.define hv name

theorem changedAt_newGlobal (s : Store) :
    (s.alloc (globalFrame s.fresh)).ChangedAt s.fresh (s.alloc (globalFrame s.fresh)) where
  size := rfl
  others _ := rfl
  enclosing := by
    rw [enclosing?_alloc, if_pos rfl]
    rfl
  bound := by
    intro f hf b hb
    rw [frames_alloc_fresh] at hf
    obtain rfl := Option.some.inj hf
    obtain ⟨op, _, rfl⟩ := List.mem_map.mp hb
    exact Value.every_primitive.mpr ⟨nofun, nofun⟩

end Store

def Invariant.lambdaFree (start : Store) (env : Address) : Invariant where
  store := start.ChangedAt env
  env _ a := a = env
  leaf _ := Value.IsGiven
  expr := Expr.LambdaFree
  failure failure := (∀ message, failure ≠ .panic message) ∧
    ∀ err, failure = .eval err → err.anchor = none → err.fault.IsOther

theorem Expr.LambdaFree.not_lambda {line : Nat} {items : List Expr} {params : List String}
    {body : Expr} (he : (Expr.list line items).LambdaFree) :
    ¬Form.Reads line items (.ok (.lambda params body)) := by
  intro hform
  cases he with
  | list _ hhead _ =>
    cases hform with
    | lambda _ => exact hhead _ rfl ⟨_, rfl⟩

namespace Invariant

variable {start : Store} {env : Address}

theorem orPrimitive_lambdaFree {failure : Failure} (h : failure.OfPrimitive) :
    OrPrimitive (lambdaFree start env).failure failure := by
  refine h.orPrimitive.imp_right fun _ => ⟨?_, ?_⟩
  · rintro message rfl
    exact h
  · rintro err rfl
    exact h.elim

theorem lawful_lambdaFree (start : Store) (env : Address) : (lambdaFree start env).Lawful where
  env_extends _ h := h
  leaf_extends _ h := h
  lookup hs ha h := by
    obtain rfl := ha
    exact hs.lookup? h
  define hs ha hv name := by
    obtain rfl := ha
    exact hs.define hv name
  assign hs ha hv name := by
    obtain rfl := ha
    exact hs.assign hv name
  print hs _ := hs.of_frames_eq rfl
  warn hs _ := hs.of_frames_eq rfl
  items h := by
    cases h with
    | list _ _ hitems => exact hitems
  quoted _ h := Expr.quoted_every Value.IsPlain.isGiven _ h
  noValue := Value.IsPlain.isGiven .noValue trivial
  lambda _ _ he h := absurd (Form.ofItems_eq_iff.mp h) he.not_lambda
  call _ hc _ _ := absurd rfl (hc.2 _)
  result _ hargs _ h := Primitive.result_every Value.IsPlain.isGiven hargs h
  tooDeep := ⟨fun _ h => Failure.noConfusion h, fun _ h => Failure.noConfusion h⟩
  raises _ h := by
    refine ⟨fun _ h => Failure.noConfusion h, ?_⟩
    rintro err heq
    obtain rfl := Failure.eval.inj heq
    exact h.isOther
  ofCall h := by
    refine ⟨fun _ h => Failure.noConfusion h, ?_⟩
    rintro err heq _
    obtain rfl := Failure.eval.inj heq
    exact h.isOther
  result_error _ hargs hop hcount h := by
    have hknown := fun v hv => (hargs v hv).mono fun _ hw => hw.1
    exact orPrimitive_lambdaFree (Primitive.result_error hop hcount hknown h)
  text_error _ hv h := orPrimitive_lambdaFree (Value.text_error (hv.mono fun _ hw => hw.1) h)

end Invariant

/-! Every expression without `lambda` has an outcome by the rules. -/

section Outcomes

variable {start s t : Store} {env : Address} {anchor : Option Token} {f : Value}
  {args : List Value} {op : Primitive} {home : Address}

theorem exists_applies (hf : f.Every Value.IsGiven) (hargs : ∀ v ∈ args, v.Every Value.IsGiven) :
    ∃ r, Applies anchor f args s r := by
  have hother : ∀ {anchor : Option Token} {f : Value} {args : List Value}, f.Every Value.IsGiven →
      (∀ g rest, args = g :: rest → g.isProcedure = true → ∃ r, Applies none g rest s r) →
        ∃ r, Applies anchor f args s r := by
    intro anchor f args hf hcallee
    cases f with
    | closure c => exact absurd rfl ((Value.every_closure.mp hf).2 c)
    | primitive op home =>
      by_cases hcount : op.arity.Admits args.length
      · by_cases hop : op = .apply
        · subst hop
          obtain ⟨g, rest, rfl⟩ := List.exists_cons_of_length_pos (Arity.admits_atLeast.mp hcount)
          cases hg : g.isProcedure with
          | true =>
            obtain ⟨r, hr⟩ := hcallee g rest rfl hg
            exact ⟨r, .callee hg hr⟩
          | false => exact ⟨_, .noCallee hg⟩
        · exact ⟨_, applies_native hop hcount⟩
      · obtain ⟨_, _, hrefused⟩ := exists_applies_of_not_admits hcount
        exact ⟨_, hrefused⟩
    | _ => exact ⟨_, .notCallable rfl⟩
  induction args generalizing anchor f with
  | nil => exact hother hf nofun
  | cons g rest ih =>
    obtain ⟨hg, hrest⟩ := List.forall_mem_cons.mp hargs
    refine hother hf ?_
    rintro _ _ ⟨rfl, rfl⟩ _
    exact ih hg hrest

theorem Store.ChangedAt.evaluates {e : Expr} {v : Value} (hs : start.ChangedAt env s)
    (he : e.LambdaFree) (h : Evaluates e env s (.ok v t)) :
    start.ChangedAt env t ∧ v.Every Value.IsGiven := by
  obtain ⟨limit, hsettled⟩ := h.settled
  exact ((Invariant.lawful_lambdaFree start env).keeps_eval hs rfl he |>.of_ok
    (hsettled limit le_rfl)).2

theorem Store.ChangedAt.evaluatesEach {es : List Expr} {vs : List Value}
    (hs : start.ChangedAt env s) (hes : ∀ e ∈ es, e.LambdaFree)
    (h : EvaluatesEach es env s (.ok vs t)) :
    start.ChangedAt env t ∧ ∀ v ∈ vs, v.Every Value.IsGiven := by
  obtain ⟨limit, hsettled⟩ := h.settled
  have hI := Invariant.lawful_lambdaFree start env
  exact ((hI.keeps_operands hs rfl hes).of_ok (hsettled limit le_rfl)).2

theorem exists_evaluatesEach {es : List Expr} (hfree : ∀ e ∈ es, e.LambdaFree)
    (hes : ∀ e ∈ es, ∀ {s : Store}, start.ChangedAt env s → ∃ r, Evaluates e env s r)
    (hs : start.ChangedAt env s) : ∃ r, EvaluatesEach es env s r := by
  induction es generalizing s with
  | nil => exact ⟨_, .nil⟩
  | cons e es ih =>
    obtain ⟨he, hfree⟩ := List.forall_mem_cons.mp hfree
    obtain ⟨hhead, htail⟩ := List.forall_mem_cons.mp hes
    obtain ⟨r, hr⟩ := hhead hs
    cases r with
    | error failure t => exact ⟨_, .headFails hr⟩
    | ok v t =>
      obtain ⟨r', hr'⟩ := ih hfree htail (hs.evaluates he hr).1
      cases r' with
      | error failure u => exact ⟨_, .tailFails hr hr'⟩
      | ok vs u => exact ⟨_, .cons hr hr'⟩

theorem exists_evaluates_call {line : Nat} {items operands : List Expr} {operator : Expr}
    (hform : Form.Reads line items (.ok (.call operator operands)))
    (hfree : operator.LambdaFree) (hoperands : ∀ e ∈ operands, e.LambdaFree)
    (hoperator : ∃ r, Evaluates operator env s r)
    (hparts : ∀ e ∈ operands, ∀ {s : Store}, start.ChangedAt env s → ∃ r, Evaluates e env s r)
    (hs : start.ChangedAt env s) : ∃ r, Evaluates (.list line items) env s r := by
  obtain ⟨r, hr⟩ := hoperator
  cases r with
  | error failure t => exact ⟨_, .operatorFails hform hr⟩
  | ok f t =>
    obtain ⟨ht, hf⟩ := hs.evaluates hfree hr
    obtain ⟨r', hr'⟩ := exists_evaluatesEach hoperands hparts ht
    cases r' with
    | error failure u => exact ⟨_, .operandFails hform hr hr'⟩
    | ok args u =>
      obtain ⟨r, happly⟩ := exists_applies hf (ht.evaluatesEach hoperands hr').2
      exact ⟨r, .call hform hr hr' happly⟩

theorem exists_evaluates_list {line : Nat} {items : List Expr}
    (he : (Expr.list line items).LambdaFree) (hitems : ∀ e ∈ items, e.LambdaFree)
    (hparts : ∀ e ∈ items, ∀ {s : Store}, start.ChangedAt env s → ∃ r, Evaluates e env s r)
    (hs : start.ChangedAt env s) : ∃ r, Evaluates (.list line items) env s r := by
  obtain ⟨r | form, hform⟩ := Form.exists_reads line items
  · exact ⟨_, .malformed hform⟩
  have hmem : form.exprs ⊆ items := Form.exprs_subset hform.ofItems_eq
  cases form with
  | empty =>
    cases hform
    exact ⟨_, .empty⟩
  | define name value =>
    obtain ⟨r, hr⟩ := hparts value (hmem (by simp [Form.exprs])) hs
    cases r with
    | ok v t => exact ⟨_, .define hform hr⟩
    | error failure t => exact ⟨_, .defineFails hform hr⟩
  | cond test yes no =>
    have htest : test ∈ items := hmem (by simp [Form.exprs])
    obtain ⟨r, hr⟩ := hparts test htest hs
    cases r with
    | error failure t => exact ⟨_, .condFails hform hr⟩
    | ok v t =>
      have ht := (hs.evaluates (hitems test htest) hr).1
      by_cases hv : v = .boolean false
      · subst hv
        cases no with
        | none => exact ⟨_, .condNone hform hr⟩
        | some no =>
          obtain ⟨r', hr'⟩ := hparts no (hmem (by simp [Form.exprs])) ht
          exact ⟨r', .condNo hform hr hr'⟩
      · obtain ⟨r', hr'⟩ := hparts yes (hmem (by simp [Form.exprs])) ht
        exact ⟨r', .condYes hform hr hv hr'⟩
  | quote e =>
    cases hquoted : e.quoted with
    | ok v => exact ⟨_, .quote hform hquoted⟩
    | error err => exact ⟨_, .quoteFails hform hquoted⟩
  | assign name nameLine value =>
    obtain ⟨r, hr⟩ := hparts value (hmem (by simp [Form.exprs])) hs
    cases r with
    | error failure t => exact ⟨_, .assignFails hform hr⟩
    | ok v t =>
      cases hholder : t.holder? env name with
      | some a => exact ⟨_, .assign hform hr hholder⟩
      | none => exact ⟨_, .assignUnbound hform hr hholder⟩
  | lambda params body => exact absurd hform he.not_lambda
  | call operator operands =>
    have hoperator : operator ∈ items := hmem (by simp [Form.exprs])
    have hoperands : operands ⊆ items := fun e he => hmem (by simp [Form.exprs, he])
    exact exists_evaluates_call hform (hitems operator hoperator)
      (fun e he => hitems e (hoperands he)) (hparts operator hoperator hs)
      (fun e he => hparts e (hoperands he)) hs

theorem exists_evaluates {e : Expr} (he : e.LambdaFree) (hs : start.ChangedAt env s) :
    ∃ r, Evaluates e env s r := by
  induction he generalizing s with
  | atom line a =>
    cases a with
    | symbol name =>
      cases hlookup : s.lookup? env name with
      | some v => exact ⟨_, .symbol hlookup⟩
      | none => exact ⟨_, .unbound hlookup⟩
    | string value closed => exact ⟨_, .string⟩
    | number written n => exact ⟨_, .number⟩
    | boolean b => exact ⟨_, .boolean⟩
  | stray line message => exact ⟨_, .stray⟩
  | unknown => exact ⟨_, .unknown⟩
  | list line hhead hitems ih =>
    exact exists_evaluates_list (.list line hhead hitems) hitems (fun e he _ => ih e he) hs

end Outcomes

end MiniScheme
