import MiniScheme.Proofs.Eval.Passes
import MiniScheme.Proofs.Eval.Settles
import MiniScheme.Proofs.Session.Known

/-! Where failures come from. A task fails by itself or like a task that it starts, so every failure
is that of a task that is at fault alone, and that has been started step by step. An error without
a position is that of an application that the primitive `apply` has started. -/

namespace MiniScheme

theorem Expr.Raises.anchor_ne_none {e : Expr} {err : EvalError} (h : e.Raises err)
    (he : e.TopLevel) : err.anchor ≠ none := by
  cases h with
  | quoted h =>
    cases he with
    | clean he => exact absurd h (he.quoted_ne_error err)
    | stray line =>
      cases h
      nofun
  | form h =>
    cases Form.ofItems_eq_iff.mp h with
    | lambdaNames h => cases h <;> nofun
    | _ => nofun
  | _ => nofun

open Run

namespace Job

def outcome (j : Job) : Outcome Value := j.task.run j.limit j.store

structure AtFault (j : Job) (failure : Failure) (t : Store) : Prop where
  outcome_eq : j.outcome = .error failure t
  own : ∀ inner, j.Starts inner → inner.outcome ≠ .error failure t

variable {j : Job} {failure : Failure} {s t : Store} {limit : Nat} {err : EvalError}

theorem exists_atFault (h : j.outcome = .error failure t) :
    ∃ inner, j.Reaches inner ∧ inner.AtFault failure t := by
  obtain ⟨limit, task, s⟩ := j
  -- what a task starts has a smaller limit, so there is an end to looking for the one at fault
  induction limit generalizing task s with
  | zero => exact ⟨_, .refl, h, fun _ hstart => nomatch hstart⟩
  | succ limit ih =>
    by_cases hinner : ∃ inner, Starts ⟨limit + 1, task, s⟩ inner ∧ inner.outcome = .error failure t
    · obtain ⟨_, hstart, hfails⟩ := hinner
      cases hstart with
      | mk hstart =>
        obtain ⟨inner, hreach, hfault⟩ := ih _ _ hfails
        exact ⟨inner, .head (.mk hstart) hreach, hfault⟩
    · exact ⟨_, .refl, h, fun inner hstart hfails => hinner ⟨inner, hstart, hfails⟩⟩

/-! The errors that tasks of the three kinds are at fault for. -/

theorem raises_of_form {line : Nat} {items : List Expr} {form : Form} {env : Address}
    (hform : Form.ofItems line items = .ok form)
    (hrun : form.run limit line env s = .error (.eval err) t)
    (hown : ∀ {inner : Task} {u : Store} {held : List Value},
      Task.Starts limit (.eval (.list line items) env) s held inner u →
        inner.run limit u ≠ .error (.eval err) t) :
    (Expr.list line items).Raises err := by
  cases form with
  | empty => cases hrun
  | define name value =>
    rcases bind_error_iff.mp hrun with h | ⟨_, _, _, h⟩
    · exact absurd h (hown (.define hform))
    · cases h
  | cond test yes no =>
    rcases bind_error_iff.mp hrun with h | ⟨v, u, htest, h⟩
    · exact absurd h (hown (.test hform))
    · cases hv : v.isTruthy with
      | true =>
        rw [if_pos hv] at h
        exact absurd h (hown (.yes hform htest hv))
      | false =>
        rw [if_neg (by simp [hv])] at h
        cases no with
        | some no => exact absurd h (hown (.no hform htest hv))
        | none => cases h
  | quote e =>
    obtain ⟨_, herr, heq, _⟩ := ofExcept_error_iff.mp hrun
    obtain rfl := Failure.eval.inj heq
    cases Form.ofItems_eq_iff.mp hform with
    | quote =>
      refine .quoted ?_
      simp only [Expr.quoted, Expr.quotedEach, herr]
      rfl
  | assign name nameLine value =>
    rcases bind_error_iff.mp hrun with h | ⟨_, u, _, h⟩
    · exact absurd h (hown (.assign hform))
    · rcases bind_error_iff.mp h with h | ⟨bound, _, _, h⟩
      · cases h
      · cases bound with
        | true => cases h
        | false =>
          cases h
          exact .assign hform
  | lambda params body => cases hrun
  | call operator operands =>
    rcases bind_error_iff.mp hrun with h | ⟨f, u, hf, h⟩
    · exact absurd h (hown (.operator hform))
    · rcases bind_error_iff.mp h with h | ⟨args, w, hargs, h⟩
      · obtain ⟨front, e, rest, args, w, rfl, hfront, h⟩ := mapM_error h
        exact absurd h (hown (.operand hform hf hfront))
      · exact absurd h (hown (.call hform hf hargs))

theorem AtFault.raises {e : Expr} {env : Address}
    (h : AtFault ⟨limit, .eval e env, s⟩ (.eval err) t) : e.Raises err := by
  obtain ⟨hrun, hown⟩ := h
  cases limit with
  | zero => cases hrun
  | succ limit =>
    cases e with
    | atom line a =>
      cases a with
      | symbol name =>
        have hsymbol := (eval_symbol limit line name env s).symm.trans hrun
        split at hsymbol
        · cases hsymbol
        · cases hsymbol
          exact .unbound line name
      | _ => cases hrun
    | stray line message =>
      cases hrun
      exact .quoted rfl
    | unknown =>
      cases hrun
      exact .quoted rfl
    | list line items =>
      have hlist := (congrFun (eval_list_eq limit line items env) s).symm.trans hrun
      rcases ofExcept_bind_error_iff.mp hlist with ⟨_, hform, heq, _⟩ | ⟨form, hform, hlist⟩
      · cases heq
        exact .form hform
      · exact raises_of_form hform hlist fun hstart => hown _ (.mk hstart)

theorem AtFault.anchor_eq {anchor : Option Token} {f : Value} {args : List Value}
    (h : AtFault ⟨limit, .apply anchor f args, s⟩ (.eval err) t) : err.anchor = anchor := by
  obtain ⟨hrun, hown⟩ := h
  cases limit with
  | zero => cases hrun
  | succ limit =>
    unfold outcome Task.run apply at hrun
    cases f with
    | primitive op home =>
      rcases ofExcept_bind_error_iff.mp hrun with ⟨_, hcheck, heq, _⟩ | ⟨_, hcheck, hrun⟩
      · cases heq
        exact Invariant.anchor_of_checkCount hcheck
      · rcases anchored_eq_error hrun with ⟨fault, heq⟩ | hrun
        · cases heq
          rfl
        · exact absurd hrun (hown _ (.mk (.primitive hcheck)))
    | closure c =>
      rcases ofExcept_bind_error_iff.mp hrun with ⟨_, hcheck, heq, _⟩ | ⟨_, hcheck, hrun⟩
      · cases heq
        exact Invariant.anchor_of_checkCount hcheck
      · exact absurd hrun (hown _ (.mk (.body hcheck)))
    | _ =>
      cases hrun
      rfl

theorem not_atFault_primitive {op : Primitive} {args : List Value}
    (hcount : op.arity.Admits args.length) (hargs : ∀ v ∈ args, v.Known) :
    ¬AtFault ⟨limit, .primitive op args, s⟩ (.eval err) t := by
  rintro ⟨hrun, hown⟩
  cases limit with
  | zero => cases hrun
  | succ limit =>
    unfold outcome Task.run at hrun
    by_cases hop : op = .apply
    · subst hop
      obtain ⟨f, rest, rfl⟩ := List.exists_cons_of_length_pos (Arity.admits_atLeast.mp hcount)
      cases hf : f.isProcedure with
      | false =>
        dsimp only at hrun
        rw [applyPrimitive_noCallee hf] at hrun
        cases hrun
      | true =>
        dsimp only at hrun
        rw [applyPrimitive_callee hf] at hrun
        exact hown _ (.mk (.callee hf)) hrun
    · dsimp only at hrun
      rw [applyPrimitive_of_ne_apply hop] at hrun
      exact Primitive.run_error hop hcount hargs hrun

end Job

namespace Invariant

variable {I : Invariant}

/-- An error without a place, raised by an expression that can be read, comes from an application
that the primitive `apply` has started, and nothing that this application starts is at fault. -/
theorem Lawful.exists_callee (hI : I.Lawful) (hknown : ∀ s v, I.leaf s v → v ≠ .unknown)
    (hexpr : ∀ e, I.expr e → e.TopLevel) {limit : Nat} {e : Expr} {env : Address} {s t : Store}
    {fault : EvalFault} (hs : I.store s) (henv : I.env s env) (he : I.expr e)
    (h : eval limit e env s = .error (.eval ⟨none, fault⟩) t) :
    ∃ k f args u, Job.Reaches ⟨limit, .eval e env, s⟩ ⟨k + 1, .primitive .apply (f :: args), u⟩ ∧
      f.isProcedure = true ∧ Job.AtFault ⟨k, .apply none f args, u⟩ (.eval ⟨none, fault⟩) t := by
  obtain ⟨inner, hreach, hfault⟩ := Job.exists_atFault (j := ⟨limit, .eval e env, s⟩) h
  obtain ⟨_, hbegins⟩ :=
    hI.reaches (j := ⟨limit, .eval e env, s⟩) (hI.yields _) hs ⟨henv, he⟩ hreach
  obtain ⟨k, task, u⟩ := inner
  cases task with
  | eval e' env' => exact absurd rfl (hfault.raises.anchor_ne_none (hexpr e' hbegins.2))
  | primitive op args =>
    have hargs : ∀ v ∈ args, v.Known := fun v hv => (hbegins.1 v hv).mono (hknown u)
    exact absurd hfault (Job.not_atFault_primitive hbegins.2 hargs)
  | apply anchor f args =>
    -- a call that is an expression has a place, so this one has been started by `apply`
    obtain rfl : none = anchor := hfault.anchor_eq
    rcases hreach.cases_tail with h | ⟨_, hreach, hstart⟩
    · cases h
    · cases hstart with
      | mk hstart =>
        cases hstart with
        | callee hf => exact ⟨k, f, args, u, hreach, hf, hfault⟩

end Invariant

end MiniScheme
