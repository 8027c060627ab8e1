import MiniScheme.Proofs.Eval.Keeps
import MiniScheme.Proofs.Primitive.Matches
import MiniScheme.Proofs.Store.Matches

/-! Two runs in step. From matching stores, evaluation of matching expressions ends in the same way
on both sides, with matching values or failures and with matching stores. -/

namespace MiniScheme

def Expr.IsDatum : Expr → Prop
  | .atom _ (.symbol _) | .list .. => False
  | _ => True

theorem eval_of_isDatum {e : Expr} (he : e.IsDatum) (limit : Nat) (env : Address) :
    eval (limit + 1) e env = Run.ofExcept .eval e.quoted := by
  cases e with
  | atom line a => cases a <;> first | exact he.elim | rfl
  | list => exact he.elim
  | _ => rfl

namespace Correspondence

inductive Fails (C : Correspondence) : Failure → Failure → Prop
  | same (failure : Failure) : Fails C failure failure
  | eval {err err' : EvalError} (h : C.error err err') : Fails C (.eval err) (.eval err')

inductive FormMatches (C : Correspondence) : Form → Form → Prop
  | empty : FormMatches C .empty .empty
  | define {name : String} {value value' : Expr} (hvalue : C.expr value value') :
      FormMatches C (.define name value) (.define name value')
  | cond {test test' yes yes' : Expr} {no no' : Option Expr} (htest : C.expr test test')
      (hyes : C.expr yes yes') (hno : Option.Rel C.expr no no') :
      FormMatches C (.cond test yes no) (.cond test' yes' no')
  | quote {e e' : Expr} (h : ExceptRel C.Matches C.error e.quoted e'.quoted) :
      FormMatches C (.quote e) (.quote e')
  | assign {name : String} {line line' : Nat} {value value' : Expr} (hn : ∀ a, C.name a name)
      (hvalue : C.expr value value')
      (herror : C.error ⟨some ⟨line, .atom (.symbol name)⟩, .unboundVariable⟩
        ⟨some ⟨line', .atom (.symbol name)⟩, .unboundVariable⟩) :
      FormMatches C (.assign name line value) (.assign name line' value')
  | lambda {params : List String} {body body' : Expr} (hbody : C.expr body body') :
      FormMatches C (.lambda params body) (.lambda params body')
  | call {operator operator' : Expr} {operands operands' : List Expr}
      (hoperator : C.expr operator operator') (hoperands : List.Forall₂ C.expr operands operands') :
      FormMatches C (.call operator operands) (.call operator' operands')

inductive Expands (C : Correspondence) : Expr → Expr → Prop
  | symbol {line line' : Nat} {name : String} (hn : ∀ a, C.name a name)
      (herror : C.error ⟨some ⟨line, .atom (.symbol name)⟩, .unboundVariable⟩
        ⟨some ⟨line', .atom (.symbol name)⟩, .unboundVariable⟩) :
      Expands C (.atom line (.symbol name)) (.atom line' (.symbol name))
  | datum {e e' : Expr} (he : e.IsDatum) (he' : e'.IsDatum)
      (h : ExceptRel C.Matches C.error e.quoted e'.quoted) : Expands C e e'
  | list {line line' : Nat} {items items' : List Expr}
      (hform : ExceptRel C.FormMatches C.error (Form.ofItems line items)
        (Form.ofItems line' items'))
      (hcall : ∀ fault : EvalFault, fault.OfCall →
        C.error ⟨some ⟨line, .leftParen⟩, fault⟩ ⟨some ⟨line', .leftParen⟩, fault⟩) :
      Expands C (.list line items) (.list line' items')

/-- What evaluation asks of a correspondence: it keeps apart what is apart, and goes on from an
expression to its parts. -/
structure Lawful (C : Correspondence) : Prop where
  addr_biUnique : Relator.BiUnique C.addr
  home_biUnique : Relator.BiUnique C.home
  identity_biUnique : Relator.BiUnique C.identity
  expands {e e' : Expr} (h : C.expr e e') : C.Expands e e'
  error_refl (err : EvalError) : C.error err err
  print {c c' : Console} (h : C.console c c') (text : String) :
    C.console (c.print text) (c'.print text)

def Pairs {α β : Type} (C : Correspondence) (s s' : Store) (m : Run α) (m' : Run β)
    (P : α → β → Prop) (F : Failure → Failure → Prop) : Prop :=
  Run.Pairs m s m' s' (fun a t b t' => C.Relates t t' ∧ P a b)
    fun failure t failure' t' => C.Relates t t' ∧ F failure failure'

section Rules

variable {α β γ δ ε ε' : Type} {C : Correspondence} {s s' : Store} {P : α → β → Prop}
  {Q : γ → δ → Prop} {F : Failure → Failure → Prop} {m : Run α} {m' : Run β}

theorem Pairs.after (h : C.Pairs s s' m m' P F) : C.Relates (Run.after m s) (Run.after m' s') := by
  unfold Run.after
  rcases Run.Pairs.cases h with ⟨a, t, b, t', hm, hm', ht, _⟩ | ⟨f, t, f', t', hm, hm', ht, _⟩
  · rw [hm, hm']
    exact ht
  · rw [hm, hm']
    exact ht

theorem pairs_pure {a : α} {b : β} (hs : C.Relates s s') (h : P a b) :
    C.Pairs s s' (pure a) (pure b) P F := ⟨hs, h⟩

theorem pairs_throw {failure failure' : Failure} (hs : C.Relates s s') (h : F failure failure') :
    C.Pairs s s' (throw failure : Run α) (throw failure' : Run β) P F := ⟨hs, h⟩

theorem Pairs.bind {k : α → Run γ} {k' : β → Run δ} (h : C.Pairs s s' m m' P F)
    (hk : ∀ t t' a b, C.Relates t t' → P a b → C.Pairs t t' (k a) (k' b) Q F) :
    C.Pairs s s' (m >>= k) (m' >>= k') Q F :=
  Run.Pairs.bind h fun a t b t' ⟨ht, hab⟩ => hk t t' a b ht hab

theorem pairs_get {f : Store → Run α} {f' : Store → Run β} (h : C.Pairs s s' (f s) (f' s') P F) :
    C.Pairs s s' (get >>= f) (get >>= f') P F := h

theorem pairs_modify {f f' : Store → Store} {P : Unit → Unit → Prop}
    (hs : C.Relates (f s) (f' s')) (h : P () ()) : C.Pairs s s' (modify f) (modify f') P F :=
  ⟨hs, h⟩

theorem pairs_ofExcept {E : ε → ε' → Prop} {wrap : ε → Failure} {wrap' : ε' → Failure}
    {r : Except ε α} {r' : Except ε' β} (hs : C.Relates s s') (h : ExceptRel P E r r')
    (herror : ∀ e e', E e e' → F (wrap e) (wrap' e')) :
    C.Pairs s s' (Run.ofExcept wrap r) (Run.ofExcept wrap' r') P F :=
  Run.pairs_ofExcept h (fun _ _ hab => ⟨hs, hab⟩) fun e e' he => ⟨hs, herror e e' he⟩

theorem Pairs.tryCatch {G : Failure → Failure → Prop} {handle : Failure → Run α}
    {handle' : Failure → Run β} (h : C.Pairs s s' m m' P F)
    (hhandle : ∀ t t' failure failure', C.Relates t t' → F failure failure' →
      C.Pairs t t' (handle failure) (handle' failure') P G) :
    C.Pairs s s' (tryCatch m handle) (tryCatch m' handle') P G :=
  Run.Pairs.tryCatch h fun f t f' t' ⟨ht, hf⟩ => hhandle t t' f f' ht hf

end Rules

variable {C : Correspondence} {limit : Nat} {s s' : Store} {a a' : Address}
  {anchor anchor' : Option Token} {v v' : Value} {args args' : List Value}

def EvalPairs (C : Correspondence) (limit : Nat) : Prop :=
  ∀ (s s' : Store) (e e' : Expr) (a a' : Address), C.Relates s s' → C.addr a a' → C.expr e e' →
    C.Pairs s s' (eval limit e a) (eval limit e' a') C.Matches C.Fails

def ApplyPairs (C : Correspondence) (limit : Nat) : Prop :=
  ∀ (s s' : Store) (anchor anchor' : Option Token) (f f' : Value) (args args' : List Value),
    C.Relates s s' → C.Matches f f' → List.Forall₂ C.Matches args args' →
    (∀ fault : EvalFault, fault.OfCall → C.error ⟨anchor, fault⟩ ⟨anchor', fault⟩) →
    C.Pairs s s' (apply limit anchor f args) (apply limit anchor' f' args') C.Matches C.Fails

def PrimitivePairs (C : Correspondence) (limit : Nat) : Prop :=
  ∀ (s s' : Store) (op : Primitive) (args args' : List Value),
    C.Relates s s' → List.Forall₂ C.Matches args args' →
    C.Pairs s s' (applyPrimitive limit op args) (applyPrimitive limit op args') C.Matches C.Fails

theorem pairs_noValue (hs : C.Relates s s') {F : Failure → Failure → Prop} :
    C.Pairs s s' (pure .noValue) (pure .noValue) C.Matches F := pairs_pure hs (.plain trivial)

theorem Lawful.pairs_run (hC : C.Lawful) {op : Primitive} (hs : C.Relates s s')
    (hargs : List.Forall₂ C.Matches args args') :
    C.Pairs s s' (op.run limit args) (op.run limit args') C.Matches C.Fails := by
  have hprint : ∀ {t t' : Store}, C.Relates t t' → ∀ text : String,
      C.Pairs t t' (do Run.print text; return .noValue) (do Run.print text; return .noValue)
        C.Matches C.Fails := by
    intro t t' ht text
    have hmodify : C.Pairs t t' (Run.print text) (Run.print text) (fun _ _ => True) C.Fails :=
      pairs_modify (ht.of_console (hC.print ht.console text)) trivial
    exact hmodify.bind fun u u' _ _ hu _ => pairs_noValue hu
  have hresult : C.Pairs s s' (Run.ofExcept id (op.result limit args))
      (Run.ofExcept id (op.result limit args')) C.Matches C.Fails := by
    have hvalues := result_matches hC.home_biUnique hC.identity_biUnique hargs limit op
    refine pairs_ofExcept hs hvalues ?_
    rintro failure _ rfl
    exact .same failure
  by_cases hpure : op.IsPure
  · rw [Primitive.run_of_isPure hpure, Primitive.run_of_isPure hpure]
    exact hresult
  · cases op with
    | apply => exact hresult
    | display =>
      rcases hargs with _ | ⟨hv, _ | _⟩
      · exact hresult
      · simp only [Primitive.run, hv.text_eq limit]
        refine Pairs.bind (P := Eq) ?_ fun t t' text _ ht h => h ▸ hprint ht text
        refine pairs_ofExcept (E := Eq) hs ?_ fun failure _ h => h ▸ .same failure
        cases Value.text limit _ with
        | ok text => exact .ok rfl
        | error failure => exact .error rfl
      · exact hresult
    | newline =>
      cases hargs with
      | nil => exact hprint hs "\n"
      | cons => exact hresult
    | _ => exact absurd trivial hpure

theorem Lawful.primitivePairs_succ (hC : C.Lawful) (happly : C.ApplyPairs limit) :
    C.PrimitivePairs (limit + 1) := by
  intro s s' op args args' hs hargs
  have hrun : C.Pairs s s' (op.run limit args) (op.run limit args') C.Matches C.Fails :=
    hC.pairs_run hs hargs
  cases op with
  | apply =>
    cases hargs with
    | nil => exact hrun
    | cons hf hargs =>
      simp only [applyPrimitive, hf.isProcedure_eq, hf.kind_eq]
      split
      · exact happly s s' none none _ _ _ _ hs hf hargs fun _ _ => hC.error_refl _
      · exact pairs_throw hs (.same _)
  | _ => exact hrun

theorem pairs_checkCount (hs : C.Relates s s')
    (hanchor : ∀ fault : EvalFault, fault.OfCall → C.error ⟨anchor, fault⟩ ⟨anchor', fault⟩)
    (name : String) (arity : Arity) (count : Nat) :
    C.Pairs s s' (Run.ofExcept .eval (checkCount anchor name arity count))
      (Run.ofExcept .eval (checkCount anchor' name arity count)) (fun _ _ => True) C.Fails := by
  refine pairs_ofExcept (E := C.error) hs ?_ fun _ _ h => .eval h
  unfold checkCount
  split
  · exact .ok trivial
  · split
    · exact .error (hanchor _ trivial)
    · exact .error (hanchor _ trivial)

theorem pairs_anchored {m m' : Run Value} (h : C.Pairs s s' m m' C.Matches C.Fails)
    (hanchor : ∀ fault : EvalFault, fault.OfCall → C.error ⟨anchor, fault⟩ ⟨anchor', fault⟩) :
    C.Pairs s s' (anchored anchor m) (anchored anchor' m') C.Matches C.Fails := by
  refine h.tryCatch fun t t' failure failure' ht hfailure => ?_
  cases hfailure with
  | same failure =>
    cases failure with
    | primitive fault => exact pairs_throw ht (.eval (hanchor _ trivial))
    | _ => exact pairs_throw ht (.same _)
  | eval h => exact pairs_throw ht (.eval h)

theorem Lawful.pairs_extend (hC : C.Lawful) (hs : C.Relates s s') (ha : C.addr a a')
    (params : List String) (hargs : List.Forall₂ C.Matches args args') :
    C.Pairs s s' (Run.extend a params args) (Run.extend a' params args') C.addr C.Fails :=
  ⟨hs.alloc hC.addr_biUnique (frameMatches_ofArguments _ params hargs ha), hs.addr_fresh⟩

theorem Lawful.pairs_define (hC : C.Lawful) (hs : C.Relates s s') (ha : C.addr a a')
    (hv : C.Matches v v') (name : String) :
    C.Pairs s s' (Run.define a name v) (Run.define a' name v') (fun _ _ => True) C.Fails :=
  pairs_modify (hs.define hC.addr_biUnique ha hv name) trivial

theorem Lawful.pairs_tryAssign (hC : C.Lawful) (hs : C.Relates s s') (ha : C.addr a a')
    {name : String} (hn : ∀ b, C.name b name) (hv : C.Matches v v') :
    C.Pairs s s' (Run.tryAssign a name v) (Run.tryAssign a' name v') Eq C.Fails :=
  (hs.assign hC.addr_biUnique ha hn hv).symm

theorem pairs_operands (heval : C.EvalPairs limit) (hs : C.Relates s s') (ha : C.addr a a')
    {es es' : List Expr} (hes : List.Forall₂ C.expr es es') :
    C.Pairs s s' (es.mapM fun e => eval limit e a) (es'.mapM fun e => eval limit e a')
      (List.Forall₂ C.Matches) C.Fails :=
  Run.pairs_mapM hes hs fun e e' t t' he ht => heval t t' e e' a a' ht ha he

theorem Lawful.applyPairs_succ (hC : C.Lawful) (heval : C.EvalPairs limit)
    (hprimitive : C.PrimitivePairs limit) : C.ApplyPairs (limit + 1) := by
  intro s s' anchor anchor' f f' args args' hs hf hargs hanchor
  unfold apply
  cases hf with
  | primitive op h =>
    rw [← hargs.length_eq]
    refine (pairs_checkCount hs hanchor _ _ _).bind fun t t' _ _ ht _ => ?_
    exact pairs_anchored (hprimitive t t' op args args' ht hargs) hanchor
  | closure hid hbody henv =>
    rw [← hargs.length_eq]
    refine (pairs_checkCount hs hanchor _ _ _).bind fun t t' _ _ ht _ => ?_
    refine (hC.pairs_extend ht henv _ hargs).bind fun u u' a a' hu ha => ?_
    exact heval u u' _ _ a a' hu ha hbody
  | plain hf =>
    cases f <;> first | exact hf.elim | exact pairs_throw hs (.eval (hanchor _ trivial))
  | _ => exact pairs_throw hs (.eval (hanchor _ trivial))

theorem Lawful.pairs_list (hC : C.Lawful) (heval : C.EvalPairs limit) (happly : C.ApplyPairs limit)
    (hs : C.Relates s s') (ha : C.addr a a') {line line' : Nat} {items items' : List Expr}
    (hform : ExceptRel C.FormMatches C.error (Form.ofItems line items) (Form.ofItems line' items'))
    (hcall : ∀ fault : EvalFault, fault.OfCall →
      C.error ⟨some ⟨line, .leftParen⟩, fault⟩ ⟨some ⟨line', .leftParen⟩, fault⟩) :
    C.Pairs s s' (eval (limit + 1) (.list line items) a) (eval (limit + 1) (.list line' items') a')
      C.Matches C.Fails := by
  unfold eval
  refine (pairs_ofExcept hs hform fun _ _ h => .eval h).bind fun t t' form form' ht hform => ?_
  cases hform with
  | empty => exact pairs_noValue ht
  | define hvalue =>
    refine (heval t t' _ _ a a' ht ha hvalue).bind fun u u' v v' hu hv => ?_
    exact (hC.pairs_define hu ha hv _).bind fun w w' _ _ hw _ => pairs_noValue hw
  | cond htest hyes hno =>
    refine (heval t t' _ _ a a' ht ha htest).bind fun u u' v v' hu hv => ?_
    rw [hv.isTruthy_eq]
    split
    · exact heval u u' _ _ a a' hu ha hyes
    · cases hno with
      | some hno => exact heval u u' _ _ a a' hu ha hno
      | none => exact pairs_noValue hu
  | quote h => exact pairs_ofExcept ht h fun _ _ h => .eval h
  | assign hn hvalue herror =>
    refine (heval t t' _ _ a a' ht ha hvalue).bind fun u u' v v' hu hv => ?_
    refine (hC.pairs_tryAssign hu ha hn hv).bind fun w w' bound _ hw hbound => ?_
    subst hbound
    cases bound with
    | true => exact pairs_noValue hw
    | false => exact pairs_throw hw (.eval herror)
  | lambda hbody =>
    obtain ⟨hid, hu⟩ := ht.newClosure
    exact ⟨hu, .closure hid hbody ha⟩
  | call hoperator hoperands =>
    refine (heval t t' _ _ a a' ht ha hoperator).bind fun u u' f f' hu hf => ?_
    refine (pairs_operands heval hu ha hoperands).bind fun w w' args args' hw hargs => ?_
    exact happly w w' _ _ f f' args args' hw hf hargs hcall

theorem Lawful.evalPairs_succ (hC : C.Lawful) (heval : C.EvalPairs limit)
    (happly : C.ApplyPairs limit) : C.EvalPairs (limit + 1) := by
  intro s s' e e' a a' hs ha he
  cases hC.expands he with
  | symbol hn herror =>
    unfold eval
    refine pairs_get ?_
    have hlookup := hs.lookup? ha hn
    generalize s.lookup? a _ = x, s'.lookup? a' _ = y at hlookup
    cases hlookup with
    | some hv => exact pairs_pure hs hv
    | none => exact pairs_throw hs (.eval herror)
  | datum he he' h =>
    rw [eval_of_isDatum he, eval_of_isDatum he']
    exact pairs_ofExcept hs h fun _ _ h => .eval h
  | list hform hcall => exact hC.pairs_list heval happly hs ha hform hcall

theorem Lawful.pairs_all (hC : C.Lawful) (limit : Nat) :
    C.EvalPairs limit ∧ C.ApplyPairs limit ∧ C.PrimitivePairs limit := by
  induction limit with
  | zero =>
    refine ⟨fun s s' _ _ _ _ hs _ _ => ?_, fun s s' _ _ _ _ _ _ hs _ _ _ => ?_,
      fun s s' _ _ _ hs _ => ?_⟩
    · exact pairs_throw hs (.same .tooDeep)
    · exact pairs_throw hs (.same .tooDeep)
    · exact pairs_throw hs (.same .tooDeep)
  | succ limit ih =>
    obtain ⟨heval, happly, hprimitive⟩ := ih
    exact ⟨hC.evalPairs_succ heval happly, hC.applyPairs_succ heval hprimitive,
      hC.primitivePairs_succ happly⟩

end Correspondence
end MiniScheme
