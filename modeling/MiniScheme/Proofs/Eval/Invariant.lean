import Mathlib.Data.List.Induction
import MiniScheme.Eval
import MiniScheme.Proofs.Eval.Raises
import MiniScheme.Proofs.Primitive.Result
import MiniScheme.Proofs.Run.Ends
import MiniScheme.Proofs.Store.Extends

/-! Invariants of evaluation: what has to hold of the parts of a run, one law for every way in which
a run makes a new part, and the rules by which an invariant is kept from step to step. -/

namespace MiniScheme

def OrPrimitive (F : Failure → Prop) (failure : Failure) : Prop :=
  (∃ fault, failure = .primitive fault) ∨ F failure

structure Invariant where
  store : Store → Prop
  env : Store → Address → Prop
  leaf : Store → Value → Prop
  expr : Expr → Prop
  failure : Failure → Prop

namespace Invariant

def value (I : Invariant) (s : Store) (v : Value) : Prop := v.Every (I.leaf s)

/-- What evaluation asks of an invariant, the results of primitives apart. A value or an environment
stays good in a later store, and each step on good parts gives good parts or fails as it may. -/
structure Carried (I : Invariant) : Prop where
  env_extends {s t : Store} {a : Address} (h : s.Extends t) : I.env s a → I.env t a
  leaf_extends {s t : Store} {v : Value} (h : s.Extends t) : I.leaf s v → I.leaf t v
  lookup {s : Store} {a : Address} {name : String} {v : Value} (hs : I.store s) (ha : I.env s a)
    (h : s.lookup? a name = some v) : I.value s v
  define {s : Store} {a : Address} {v : Value} (hs : I.store s) (ha : I.env s a)
    (hv : I.value s v) (name : String) : I.store (s.define a name v)
  assign {s : Store} {a : Address} {v : Value} (hs : I.store s) (ha : I.env s a)
    (hv : I.value s v) (name : String) : I.store (s.assign a name v).2
  print {s : Store} (hs : I.store s) (text : String) :
    I.store { s with console := s.console.print text }
  warn {s : Store} (hs : I.store s) (text : String) :
    I.store { s with console.stderr := s.console.stderr ++ text ++ "\n" }
  items {line : Nat} {items : List Expr} (h : I.expr (.list line items)) : ∀ e ∈ items, I.expr e
  quoted {s : Store} {e : Expr} {v : Value} (he : I.expr e) (h : e.quoted = .ok v) : I.value s v
  noValue {s : Store} : I.leaf s .noValue
  lambda {s : Store} {a : Address} {line : Nat} {items : List Expr} {params : List String}
    {body : Expr} (hs : I.store s) (ha : I.env s a) (he : I.expr (.list line items))
    (h : Form.ofItems line items = .ok (.lambda params body)) :
    I.store { s with nextClosure := s.nextClosure + 1 } ∧
      I.leaf { s with nextClosure := s.nextClosure + 1 }
        (.closure ⟨s.nextClosure, "lambda", params, body, a⟩)
  call {s : Store} {c : Closure} {args : List Value} (hs : I.store s) (hc : I.leaf s (.closure c))
    (hargs : ∀ v ∈ args, I.value s v) (h : args.length = c.params.length) :
    I.store (s.alloc (Frame.ofArguments c.params args c.env)) ∧
      I.env (s.alloc (Frame.ofArguments c.params args c.env)) s.fresh ∧ I.expr c.body
  tooDeep : I.failure .tooDeep
  raises {e : Expr} {err : EvalError} (he : I.expr e) (h : e.Raises err) : I.failure (.eval err)
  ofCall {fault : EvalFault} (h : fault.OfCall) : I.failure (.eval ⟨none, fault⟩)
  result_error {s : Store} {limit : Nat} {op : Primitive} {args : List Value} {failure : Failure}
    (hs : I.store s) (hargs : ∀ v ∈ args, I.value s v) (hop : op.IsPure)
    (hcount : op.arity.Admits args.length) (h : op.result limit args = .error failure) :
    OrPrimitive I.failure failure
  text_error {s : Store} {limit : Nat} {v : Value} {failure : Failure} (hs : I.store s)
    (hv : I.value s v) (h : v.text limit = .error failure) :
    OrPrimitive I.failure failure

structure Lawful (I : Invariant) : Prop extends I.Carried where
  result {s : Store} {limit : Nat} {op : Primitive} {args : List Value} {v : Value}
    (hs : I.store s) (hargs : ∀ v ∈ args, I.value s v) (hcount : op.arity.Admits args.length)
    (h : op.result limit args = .ok v) : I.value s v

def Keeps {α : Type} (I : Invariant) (s : Store) (m : Run α) (P : Store → α → Prop)
    (F : Failure → Prop) : Prop :=
  Run.Ends m s (fun a t => s.Extends t ∧ I.store t ∧ P t a)
    fun failure t => s.Extends t ∧ I.store t ∧ F failure

variable {α β : Type} {I : Invariant} {s : Store} {P : Store → α → Prop} {Q : Store → β → Prop}
  {F : Failure → Prop}

theorem Carried.value_extends (hI : I.Carried) {t : Store} {v : Value} (h : s.Extends t)
    (hv : I.value s v) : I.value t v := hv.mono fun _ hw => hI.leaf_extends h hw

theorem Keeps.after {m : Run α} (h : I.Keeps s m P F) :
    s.Extends (m.after s) ∧ I.store (m.after s) :=
  Run.Ends.after (P := fun t => s.Extends t ∧ I.store t)
    (Run.Ends.mono h (fun _ _ h => ⟨h.1, h.2.1⟩) fun _ _ h => ⟨h.1, h.2.1⟩)

theorem Keeps.of_ok {t : Store} {m : Run α} {a : α} (h : I.Keeps s m P F)
    (hm : m s = .ok a t) : s.Extends t ∧ I.store t ∧ P t a := by
  unfold Keeps Run.Ends at h
  rwa [hm] at h

theorem Keeps.of_error {t : Store} {m : Run α} {failure : Failure} (h : I.Keeps s m P F)
    (hm : m s = .error failure t) :
    s.Extends t ∧ I.store t ∧ F failure := by
  unfold Keeps Run.Ends at h
  rwa [hm] at h

theorem Keeps.mono {G : Failure → Prop} {m : Run α} {P' : Store → α → Prop}
    (h : I.Keeps s m P F) (hP : ∀ t a, P t a → P' t a) (hF : ∀ failure, F failure → G failure) :
    I.Keeps s m P' G :=
  Run.Ends.mono h (fun a t ⟨hst, ht, ha⟩ => ⟨hst, ht, hP t a ha⟩)
    fun failure _ ⟨hst, ht, hf⟩ => ⟨hst, ht, hF failure hf⟩

theorem keeps_pure {a : α} (hs : I.store s) (ha : P s a) : I.Keeps s (pure a) P F :=
  ⟨.refl s, hs, ha⟩

theorem keeps_throw {failure : Failure} (hs : I.store s) (hf : F failure) :
    I.Keeps s (throw failure : Run α) P F := ⟨.refl s, hs, hf⟩

theorem keeps_modify {f : Store → Store} {P : Store → Unit → Prop} (hext : s.Extends (f s))
    (hs : I.store (f s)) (hP : P (f s) ()) : I.Keeps s (modify f) P F := ⟨hext, hs, hP⟩

theorem Keeps.bind_of_ok {m : Run α} {f : α → Run β} (h : I.Keeps s m P F)
    (hf : ∀ t a, m s = .ok a t → s.Extends t → I.store t → P t a → I.Keeps t (f a) Q F) :
    I.Keeps s (m >>= f) Q F := by
  refine (Run.ends_bind m f).mpr (Run.Ends.mono (Run.Ends.with_run h) ?_ fun _ _ h => h)
  rintro a t ⟨hm, hst, ht, ha⟩
  refine Run.Ends.mono (hf t a hm hst ht ha) ?_ ?_
  · exact fun b u ⟨htu, hu, hb⟩ => ⟨hst.trans htu, hu, hb⟩
  · exact fun failure u ⟨htu, hu, hfail⟩ => ⟨hst.trans htu, hu, hfail⟩

theorem Keeps.bind {m : Run α} {f : α → Run β} (h : I.Keeps s m P F)
    (hf : ∀ t a, s.Extends t → I.store t → P t a → I.Keeps t (f a) Q F) :
    I.Keeps s (m >>= f) Q F :=
  h.bind_of_ok fun t a _ => hf t a

theorem keeps_get {f : Store → Run α} (h : I.Keeps s (f s) P F) : I.Keeps s (get >>= f) P F := h

theorem keeps_ofExcept {ε : Type} {wrap : ε → Failure} {r : Except ε α} (hs : I.store s)
    (hok : ∀ a, r = .ok a → P s a) (herror : ∀ e, r = .error e → F (wrap e)) :
    I.Keeps s (Run.ofExcept wrap r) P F :=
  (Run.ends_ofExcept wrap r).mpr
    ⟨fun a ha => ⟨.refl s, hs, hok a ha⟩, fun e he => ⟨.refl s, hs, herror e he⟩⟩

theorem keeps_ofExcept_bind {ε : Type} {wrap : ε → Failure} {r : Except ε α} {f : α → Run β}
    (hs : I.store s) (hok : ∀ a, r = .ok a → I.Keeps s (f a) Q F)
    (herror : ∀ e, r = .error e → F (wrap e)) : I.Keeps s (Run.ofExcept wrap r >>= f) Q F := by
  cases r with
  | ok a => exact hok a rfl
  | error e => exact keeps_throw hs (herror e rfl)

theorem Keeps.tryCatch {G : Failure → Prop} {m : Run α} {handle : Failure → Run α}
    (h : I.Keeps s m P F)
    (hhandle : ∀ t failure, s.Extends t → I.store t → F failure →
      I.Keeps t (handle failure) P G) : I.Keeps s (tryCatch m handle) P G := by
  refine (Run.ends_tryCatch m handle).mpr (Run.Ends.mono h (fun _ _ h => h) ?_)
  rintro failure t ⟨hst, ht, hf⟩
  refine Run.Ends.mono (hhandle t failure hst ht hf) ?_ ?_
  · exact fun b u ⟨htu, hu, hb⟩ => ⟨hst.trans htu, hu, hb⟩
  · exact fun failure u ⟨htu, hu, hfail⟩ => ⟨hst.trans htu, hu, hfail⟩

theorem keeps_mapM {R : Store → β → Prop} (hR : ∀ s t b, s.Extends t → R s b → R t b)
    {f : α → Run β} {as : List α} (hs : I.store s)
    (hf : ∀ front a rest bs t, as = front ++ a :: rest → front.mapM f s = .ok bs t →
      s.Extends t → I.store t → I.Keeps t (f a) R F) :
    I.Keeps s (as.mapM f) (fun t bs => ∀ b ∈ bs, R t b) F := by
  -- the elements are taken from the end, so that the prefix of one is all that came before
  induction as using List.reverseRecOn with
  | nil => exact keeps_pure hs (List.forall_mem_nil _)
  | append_singleton as a ih =>
    rw [List.mapM_append]
    refine (ih fun front b rest bs t hsplit => ?_).bind_of_ok fun t bs hfront hst ht hbs => ?_
    · exact hf front b (rest ++ [a]) bs t (by simp [hsplit])
    · have hlast : I.Keeps t ([a].mapM f) (fun u bs => ∀ b ∈ bs, R u b) F := by
        rw [List.mapM_cons]
        refine (hf as a [] bs t rfl hfront hst ht).bind fun u b _ hu hb => ?_
        exact keeps_pure hu (List.forall_mem_singleton.mpr hb)
      refine hlast.bind fun u last htu hu hlast => keeps_pure hu ?_
      exact List.forall_mem_append.mpr ⟨fun b hb => hR t u b htu (hbs b hb), hlast⟩

end Invariant
end MiniScheme
