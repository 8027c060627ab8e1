import MiniScheme.Proofs.Eval.Output
import MiniScheme.Proofs.Eval.Steps
import MiniScheme.Proofs.Session.Apart

/-! The bindings of a store during a program and after it: none is ever dropped, and a name that
cannot be seen from a frame comes to be seen by a definition on the chain of that frame. -/

namespace MiniScheme

open Store

inductive ProgramMeets (limit : Nat) (es : List Expr) (env : Address) (s : Store) : Store → Prop
  | during {front rest : List Expr} {e : Expr} {v : Value} {t : Store} {m : Moment}
      (hes : es = front ++ e :: rest) (hfront : evalProgram limit front env s = .ok v t)
      (hm : (Task.eval e env).Passes limit t m) : ProgramMeets limit es env s m.store
  | ended : ProgramMeets limit es env s (Run.after (evalProgram limit es env) s)

def ProgramDefines (limit : Nat) (es : List Expr) (env : Address) (s : Store) (d : Definition) :
    Prop :=
  ∃ front e rest v t, es = front ++ e :: rest ∧ evalProgram limit front env s = .ok v t ∧
    (Task.eval e env).Defines limit t d

namespace Run

variable {α : Type} {D : Definition → Prop} {s : Store}

theorem steps_panicWith (text : Except ArithmeticError String) :
    Steps D s (after (panicWith text : Run α) s) := by
  cases text with
  | error e => exact .refl
  | ok message =>
    change Steps D s (after (panic message : Run α) s)
    unfold after
    rw [panic_apply]
    cases s.console.raisesPanics with
    | true => exact .refl
    | false => exact .single (.warn s message)

theorem steps_surface (failure : Failure) : Steps D s (after (surface failure) s) := by
  unfold surface
  split
  · exact steps_panicWith _
  · exact steps_panicWith _
  · exact .refl

theorem steps_evalTop (limit : Nat) (e : Expr) (env : Address) (s : Store) :
    Steps ((Task.eval e env).Defines limit s) s (after (evalTop limit e env) s) := by
  have heval : Steps ((Task.eval e env).Defines limit s) s (after (eval limit e env) s) :=
    Task.runSteps limit (.eval e env) s
  rw [evalTop_eq, after_tryCatch]
  cases hrun : eval limit e env s with
  | ok v t => exact after_of_ok hrun ▸ heval
  | error failure t =>
    exact (after_of_error hrun ▸ heval).trans (steps_surface failure)

theorem steps_evalProgram (limit : Nat) (es : List Expr) (env : Address) (s : Store) :
    Steps (ProgramDefines limit es env s) s (after (evalProgram limit es env) s) := by
  induction es using List.reverseRecOn with
  | nil => exact .refl
  | append_singleton es e ih =>
    have hsplit : evalProgram limit (es ++ [e]) env =
        evalProgram limit es env >>= fun v => [e].foldlM (fun _ e => evalTop limit e env) v :=
      List.foldlM_append
    rw [hsplit]
    refine steps_bind (ih.mono ?_) fun v t hes => ?_
    · rintro d ⟨front, e', rest, v, t, rfl, hfront, hd⟩
      exact ⟨front, e', rest ++ [e], v, t, by simp, hfront, hd⟩
    · rw [List.foldlM_cons]
      refine steps_bind ((steps_evalTop limit e env t).mono fun d hd => ?_) fun _ _ _ => .refl
      exact ⟨es, e, [], v, t, rfl, hes, hd⟩

end Run

theorem ProgramMeets.steps {limit : Nat} {es : List Expr} {env : Address} {s t : Store}
    (h : ProgramMeets limit es env s t) : Steps (ProgramDefines limit es env s) s t := by
  cases h with
  | ended => exact Run.steps_evalProgram limit es env s
  | @during front rest e v u m hes hfront hm =>
    have hbefore := Run.after_of_ok hfront ▸ Run.steps_evalProgram limit front env s
    refine (hbefore.mono ?_).trans (hm.steps.mono ?_)
    · rintro d ⟨first, e', last, w, u, rfl, hfirst, hd⟩
      exact ⟨first, e', last ++ e :: rest, w, u, by simp [hes], hfirst, hd⟩
    · exact fun d hd => ⟨front, e, rest, v, u, hes, hfront, hd⟩

theorem Store.Sound.framed {s : Store} {a : Address} (h : s.Sound) (ha : a < s.fresh) :
    s.Framed a := by
  intro b hleads
  induction hleads with
  | refl => exact ha
  | tail _ hlink _ => exact h.enclosing? hlink

/-- At every moment of a program, and after it however it ends, each frame has kept its link and all
its names, and what could be seen from a frame can be seen from there. A name that could not be seen
is seen now only if the program has made a definition of it on the chain of that frame. -/
theorem bound_stays_bound {limit : Nat} {es : List Expr} {env : Address} {s t : Store}
    (h : ProgramMeets limit es env s t) :
    (∀ (a : Address) (f : Frame), s.frames[a]? = some f →
        ∃ g, t.frames[a]? = some g ∧ f.Extends g) ∧
      (∀ a name, (s.lookup? a name).isSome → (t.lookup? a name).isSome) ∧
      ∀ a name, s.Framed a → s.lookup? a name = none → (t.lookup? a name).isSome →
        ∃ d, ProgramDefines limit es env s d ∧ d.name = name ∧ s.Leads a d.env ∧
          d.store.lookup? a name = none ∧ s.Extends d.store ∧ d.after.Extends t := by
  have hsteps := h.steps
  refine ⟨hsteps.extends.frames, fun a name => hsteps.extends.lookup?, ?_⟩
  intro a name ha hnone hsome
  obtain ⟨d, hd, hname, hleads, hunbound, hbefore, hafter⟩ :=
    hsteps.exists_definition ha hnone hsome
  exact ⟨d, hd, hname, hleads, hunbound, hbefore.extends, hafter.extends⟩

theorem bound_stays_bound_define :
    let s := Run.after Run.newGlobal {}
    let es := [.list 0 [.atom 0 (.symbol "define"), .atom 0 (.symbol "x"), .atom 0 (.boolean true)]]
    let t := Run.after (evalProgram 9 es 0) s
    ProgramMeets 9 es 0 s t ∧
      (s.lookup? 0 "car").isSome ∧ (t.lookup? 0 "car").isSome ∧
      s.Framed 0 ∧ s.lookup? 0 "x" = none ∧ (t.lookup? 0 "x").isSome ∧
        ∃ d, ProgramDefines 9 es 0 s d ∧ d.name = "x" ∧ s.Leads 0 d.env ∧
          d.store.lookup? 0 "x" = none ∧ s.Extends d.store ∧ d.after.Extends t := by
  intro s es t
  have hmeets : ProgramMeets 9 es 0 s t := .ended
  obtain ⟨_, hkeeps, hgains⟩ := bound_stays_bound hmeets
  have hcar : (s.lookup? 0 "car").isSome := rfl
  have hnone : s.lookup? 0 "x" = none := rfl
  have hsome : (t.lookup? 0 "x").isSome := rfl
  have hsession : Session [0] s := .newGlobal (.start {})
  obtain ⟨hs, henvs⟩ := hsession.sound
  have hframed : s.Framed 0 := hs.framed (henvs 0 List.mem_cons_self)
  exact ⟨hmeets, hcar, hkeeps 0 "car" hcar, hframed, hnone, hsome,
    hgains 0 "x" hframed hnone hsome⟩

end MiniScheme
