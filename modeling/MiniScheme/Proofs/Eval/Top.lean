import MiniScheme.Interpret
import MiniScheme.Proofs.Eval.Keeps

/-! Programs keep every lawful invariant too. What an expression fails with at the top level is a
panic, an exit, or a failure that no one turns into either. -/

namespace MiniScheme

def Failure.ofMessage (raises : Bool) : Except ArithmeticError String → Failure
  | .ok message => if raises then .panic message else .exit 1
  | .error e => .arithmetic e

def Failure.surface (raises : Bool) : Failure → Failure
  | .eval err => .ofMessage raises err.text
  | .tooDeep => .ofMessage raises (EvalError.text ⟨none, .tooDeep⟩)
  | failure => failure

theorem interpret_of_read {limit : Nat} {source : String} {es : List Expr}
    (hread : readProgram limit (scan source) = .ok es) (env : Option Address) :
    interpret limit source env = match env with
      | some a => evalProgram limit es a
      | none => Run.newGlobal >>= evalProgram limit es := by
  unfold interpret readTokens
  rw [hread]
  cases env <;> rfl

theorem evalProgram_concat (limit : Nat) (es : List Expr) (e : Expr) (env : Address) :
    evalProgram limit (es ++ [e]) env =
      evalProgram limit es env >>= fun _ => evalTop limit e env := by
  unfold evalProgram
  rw [List.foldlM_append]
  refine bind_congr fun v => ?_
  rw [List.foldlM_cons]
  exact bind_pure _

theorem ends_interpret_of_unread {limit : Nat} {source : String} {failure : Failure}
    (hread : readProgram limit (scan source) = .error failure) {env : Option Address} {s : Store}
    {Q : Value → Store → Prop} {E : Failure → Store → Prop}
    (h : Run.Ends (Run.read (.error failure) : Run (List Expr)) s (fun _ _ => False) E) :
    Run.Ends (interpret limit source env) s Q E := by
  unfold interpret readTokens
  rw [hread]
  exact (Run.ends_bind _ _).mpr (h.mono (fun _ _ hfalse => hfalse.elim) fun _ _ hE => hE)

namespace Invariant

variable {I : Invariant} {limit : Nat} {s : Store} {a : Address} {α : Type}
  {P : Store → α → Prop} {F : Failure → Prop}

def Surfaces (I : Invariant) (raises : Bool) (failure : Failure) : Prop :=
  ∃ inner, I.failure inner ∧ failure = inner.surface raises

theorem Carried.keeps_panicWith (hI : I.Carried) (hs : I.store s)
    {text : Except ArithmeticError String} (hF : F (.ofMessage s.console.raisesPanics text)) :
    I.Keeps s (Run.panicWith text : Run α) P F := by
  cases text with
  | error e => exact keeps_throw hs hF
  | ok message =>
    unfold Run.panicWith Run.panic
    refine keeps_get ?_
    cases hraises : s.console.raisesPanics with
    | true =>
      rw [hraises] at hF
      exact keeps_throw hs hF
    | false =>
      rw [hraises] at hF
      exact ⟨s.extends_warn message, hI.warn hs message, hF⟩

theorem Carried.keeps_evalTop (hI : I.Carried) (hs : I.store s) (ha : I.env s a) {e : Expr}
    (he : I.expr e) (hyields : I.Yields ⟨limit, .eval e a, s⟩) :
    I.Keeps s (evalTop limit e a) I.value (I.Surfaces s.console.raisesPanics) := by
  have heval : I.Keeps s (eval limit e a) I.value I.failure := hI.keeps hyields hs ⟨ha, he⟩
  refine heval.tryCatch fun t failure hst ht hfailure => ?_
  rw [← hst.raisesPanics]
  split
  · exact hI.keeps_panicWith ht ⟨_, hfailure, rfl⟩
  · exact hI.keeps_panicWith ht ⟨_, hfailure, rfl⟩
  · rename_i herror hdeep
    refine keeps_throw ht ⟨failure, hfailure, ?_⟩
    cases failure with
    | eval error => exact absurd rfl (herror error)
    | tooDeep => exact absurd rfl hdeep
    | _ => rfl

def YieldsEach (I : Invariant) (limit : Nat) (es : List Expr) (a : Address) (s : Store) : Prop :=
  ∀ ⦃front e rest v t⦄, es = front ++ e :: rest → evalProgram limit front a s = .ok v t →
    I.Yields ⟨limit, .eval e a, t⟩

theorem YieldsEach.front {es rest : List Expr} (h : I.YieldsEach limit (es ++ rest) a s) :
    I.YieldsEach limit es a s := by
  rintro front e rest' v t rfl
  exact h (by rw [List.append_assoc, List.cons_append])

theorem Carried.keeps_evalProgram (hI : I.Carried) (hs : I.store s) (ha : I.env s a)
    {es : List Expr} (hes : ∀ e ∈ es, I.expr e) (hyields : I.YieldsEach limit es a s) :
    I.Keeps s (evalProgram limit es a) I.value (I.Surfaces s.console.raisesPanics) := by
  -- from the back, since it depends on what stands before an expression what it applies
  induction es using List.reverseRecOn with
  | nil => exact hI.keeps_noValue hs
  | append_singleton es e ih =>
    obtain ⟨hes, he⟩ := List.forall_mem_append.mp hes
    rw [evalProgram_concat]
    refine (ih hes hyields.front).bind_of_ok fun t v hrun hst ht _ => ?_
    rw [← hst.raisesPanics]
    exact hI.keeps_evalTop ht (hI.env_extends hst ha) (he e List.mem_cons_self) (hyields rfl hrun)

theorem Lawful.keeps_evalProgram (hI : I.Lawful) (hs : I.store s) (ha : I.env s a)
    {es : List Expr} (hes : ∀ e ∈ es, I.expr e) :
    I.Keeps s (evalProgram limit es a) I.value (I.Surfaces s.console.raisesPanics) :=
  hI.toCarried.keeps_evalProgram hs ha hes fun _ _ _ _ _ _ _ => hI.yields _

variable {source : String} {env : Option Address}

theorem Carried.keeps_interpret_none (hI : I.Carried)
    (hnew : I.store (s.alloc (Store.globalFrame s.fresh)) ∧
      I.env (s.alloc (Store.globalFrame s.fresh)) s.fresh)
    {es : List Expr} (hread : readProgram limit (scan source) = .ok es) (hes : ∀ e ∈ es, I.expr e)
    (hyields : I.YieldsEach limit es s.fresh (s.alloc (Store.globalFrame s.fresh))) :
    I.Keeps s (interpret limit source none) I.value (I.Surfaces s.console.raisesPanics) := by
  rw [interpret_of_read hread]
  have hglobal : I.Keeps s Run.newGlobal (fun t a => t = s.alloc (Store.globalFrame s.fresh) ∧
      a = s.fresh) (I.Surfaces s.console.raisesPanics) := ⟨s.extends_alloc _, hnew.1, rfl, rfl⟩
  refine hglobal.bind ?_
  rintro _ _ _ _ ⟨rfl, rfl⟩
  exact hI.keeps_evalProgram hnew.1 hnew.2 hes hyields

theorem Lawful.keeps_interpret_of_read (hI : I.Lawful) (hs : I.store s)
    (hnew : I.store (s.alloc (Store.globalFrame s.fresh)) ∧
      I.env (s.alloc (Store.globalFrame s.fresh)) s.fresh) (henv : ∀ a ∈ env, I.env s a)
    {es : List Expr} (hread : readProgram limit (scan source) = .ok es)
    (hes : ∀ e ∈ es, I.expr e) :
    I.Keeps s (interpret limit source env) I.value (I.Surfaces s.console.raisesPanics) := by
  cases env with
  | some a =>
    rw [interpret_of_read hread]
    exact hI.keeps_evalProgram hs (henv a rfl) hes
  | none =>
    exact hI.keeps_interpret_none hnew hread hes fun _ _ _ _ _ _ _ => hI.yields _

theorem Carried.keeps_unread (hI : I.Carried) (hs : I.store s) {failure : Failure}
    (hread : readProgram limit (scan source) = .error failure)
    (hreport : ∀ err, failure = .read err → F (.ofMessage s.console.raisesPanics err.text))
    (hother : (∀ err, failure ≠ .read err) → F failure) :
    I.Keeps s (interpret limit source env) I.value F := by
  refine ends_interpret_of_unread hread (Run.Ends.mono (?_ : I.Keeps s _ (fun _ _ => False) _)
    (fun _ _ h => h.2.2.elim) fun _ _ h => h)
  cases failure with
  | read err => exact hI.keeps_panicWith hs (hreport err rfl)
  | _ => exact keeps_throw hs (hother fun _ => Failure.noConfusion)

theorem Lawful.keeps_interpret (hI : I.Lawful) (hs : I.store s)
    (hnew : I.store (s.alloc (Store.globalFrame s.fresh)) ∧
      I.env (s.alloc (Store.globalFrame s.fresh)) s.fresh) (henv : ∀ a ∈ env, I.env s a)
    (hes : ∀ es, readProgram limit (scan source) = .ok es → ∀ e ∈ es, I.expr e) :
    I.Keeps s (interpret limit source env) I.value fun _ => True := by
  cases hread : readProgram limit (scan source) with
  | ok es =>
    exact (hI.keeps_interpret_of_read hs hnew henv hread (hes es hread)).mono (fun _ _ h => h)
      fun _ _ => trivial
  | error failure => exact hI.keeps_unread hs hread (fun _ _ => trivial) fun _ => trivial

theorem Lawful.keeps_interpret_some (hI : I.Lawful) (hs : I.store s) (ha : I.env s a)
    (hes : ∀ es, readProgram limit (scan source) = .ok es → ∀ e ∈ es, I.expr e) :
    I.Keeps s (interpret limit source (some a)) I.value fun _ => True := by
  cases hread : readProgram limit (scan source) with
  | ok es =>
    rw [interpret_of_read hread]
    exact (hI.keeps_evalProgram hs ha (hes es hread)).mono (fun _ _ h => h) fun _ _ => trivial
  | error failure => exact hI.keeps_unread hs hread (fun _ _ => trivial) fun _ => trivial

end Invariant
end MiniScheme
