import MiniScheme.Proofs.Eval.Frames
import MiniScheme.Proofs.Eval.Passes
import MiniScheme.Proofs.Session.Basic

/-! The moments of a session: between two calls of the interpreter, and while an expression of a
program is evaluated. An invariant that the host cannot break either holds at all of them. -/

namespace MiniScheme

inductive Session.Meets : Moment → Prop
  | between {envs : List Address} {s : Store} (h : Session envs s) : Meets ⟨envs, [], s⟩
  | during {envs : List Address} {s t : Store} (h : Session envs s) {limit : Nat}
      {source : String} {env : Address} (henv : env ∈ envs) {front rest : List Expr} {e : Expr}
      {v : Value} {m : Moment}
      (hread : readProgram limit (scan source) = .ok (front ++ e :: rest))
      (hfront : evalProgram limit front env s = .ok v t)
      (hm : (Task.eval e env).Passes limit t m) :
      Meets ⟨envs ++ m.frames, v :: m.values, m.store⟩

namespace Invariant

/-- An invariant for whole sessions: the host may make global environments, read any source and do
with the console as it likes. -/
structure OfSession (I : Invariant) : Prop extends I.Lawful where
  start (console : Console) : I.store { console := console }
  newGlobal {s : Store} (hs : I.store s) : I.store (s.alloc (Store.globalFrame s.fresh)) ∧
    I.env (s.alloc (Store.globalFrame s.fresh)) s.fresh
  console {s : Store} (hs : I.store s) (console : Console) : I.store { s with console := console }
  env_console {s : Store} {a : Address} (ha : I.env s a) (console : Console) :
    I.env { s with console := console } a
  all (e : Expr) : I.expr e

variable {I : Invariant}

theorem OfSession.session (hI : I.OfSession) {envs : List Address} {s : Store}
    (h : Session envs s) : I.store s ∧ ∀ a ∈ envs, I.env s a := by
  induction h with
  | start console => exact ⟨hI.start console, List.forall_mem_nil _⟩
  | @newGlobal envs s _ ih =>
    obtain ⟨hs, henvs⟩ := ih
    obtain ⟨ht, henv⟩ := hI.newGlobal hs
    exact ⟨ht, List.forall_mem_cons.mpr
      ⟨henv, fun a ha => hI.env_extends (s.extends_alloc _) (henvs a ha)⟩⟩
  | interpret _ limit source henv ih =>
    obtain ⟨hs, henvs⟩ := ih
    have hkeeps : I.Keeps _ (MiniScheme.interpret limit source _) _ _ :=
      hI.keeps_interpret hs (hI.newGlobal hs) (fun a ha => henvs a (henv a ha))
        fun _ _ e _ => hI.all e
    obtain ⟨hst, ht⟩ := hkeeps.after
    exact ⟨ht, fun a ha => hI.env_extends hst (henvs a ha)⟩
  | console _ console ih =>
    exact ⟨hI.console ih.1 console, fun a ha => hI.env_console (ih.2 a ha) console⟩

theorem OfSession.holds (hI : I.OfSession) {m : Moment} (h : Session.Meets m) : I.Holds m := by
  cases h with
  | between h =>
    obtain ⟨hs, henvs⟩ := hI.session h
    exact ⟨hs, henvs, List.forall_mem_nil _⟩
  | @during _ _ _ h _ _ _ henv front rest e _ _ hread hfront hm =>
    obtain ⟨hs, henvs⟩ := hI.session h
    have hes : ∀ e' ∈ front ++ e :: rest, I.expr e' := fun e' _ => hI.all e'
    obtain ⟨hst, hm⟩ := hI.during hs (henvs _ henv) hes hfront hm
    refine ⟨hm.store, List.forall_mem_append.mpr ⟨fun a ha => ?_, ?_⟩, hm.values⟩
    · exact hI.env_extends hst (henvs a ha)
    · exact (List.forall_mem_cons.mp hm.frames).2

def anything : Invariant where
  store _ := True
  env _ _ := True
  leaf _ _ := True
  expr _ := True
  failure _ := True

theorem lawful_anything : anything.Lawful := by
  refine OfFrames.lawful ?_ (fun _ => trivial) fun _ => trivial
  constructor <;> intros <;> first | trivial | exact fun _ _ => trivial

end Invariant

theorem extends_interpret (limit : Nat) (source : String) (env : Option Address) (s : Store) :
    s.Extends (Run.after (interpret limit source env) s) := by
  have hkeeps : Invariant.anything.Keeps s (interpret limit source env) _ _ :=
    Invariant.lawful_anything.keeps_interpret trivial ⟨trivial, trivial⟩ (fun _ _ => trivial)
      fun _ _ _ _ => trivial
  exact hkeeps.after.1

end MiniScheme
