import MiniScheme.Proofs.Eval.Relabeling
import MiniScheme.Proofs.Session.Funnel

/-! Runs in a fresh global environment. What was done before, in this or that store, has no effect
on how they end or on what they print. -/

namespace MiniScheme

namespace Correspondence

def fromNow (s s' : Store) : Correspondence :=
  relabeling (Shift s.fresh s'.fresh) (Shift s.fresh s'.fresh) (Shift s.nextClosure s'.nextClosure)
    s.console s'.console

variable {s s' : Store} {limit : Nat}

theorem lawful_fromNow (s s' : Store) : (fromNow s s').Lawful :=
  lawful_relabeling (biUnique_shift _ _) (biUnique_shift _ _) (biUnique_shift _ _) _ _

theorem relates_fromNow (s s' : Store) : (fromNow s s').Relates s s' where
  frames := by
    rintro _ _ ⟨i, rfl, rfl⟩
    rw [s.frames_fresh_add, s'.frames_fresh_add]
    exact .none
  common _ := False.elim
  fresh i := ⟨i, rfl, rfl⟩
  nextClosure i := ⟨i, rfl, rfl⟩
  console := ⟨"", "", (Console.extend_empty _).symm, (Console.extend_empty _).symm⟩

theorem pairs_newGlobal (s s' : Store) :
    (fromNow s s').Pairs s s' Run.newGlobal Run.newGlobal (fromNow s s').addr Eq := by
  have hs := relates_fromNow s s'
  exact ⟨hs.alloc (biUnique_shift _ _) (frameMatches_globalFrame hs.addr_fresh), hs.addr_fresh⟩

end Correspondence

open Correspondence

variable {s s' : Store}

theorem alike_evalProgram (h : s'.console.raisesPanics = s.console.raisesPanics) (limit : Nat)
    (es : List Expr) :
    Run.Alike (Run.newGlobal >>= evalProgram limit es) s (Run.newGlobal >>= evalProgram limit es)
      s' := by
  have hes : List.Forall₂ Eq es es := List.forall₂_same.mpr fun _ _ => rfl
  refine Pairs.alike ((pairs_newGlobal s s').bind fun t t' a a' ht ha => ?_)
  exact (lawful_fromNow s s').pairs_evalProgram (panics_relabeling h) (fun _ => rfl) ht ha hes

/-- A source, or an expression that has been read, ends in a fresh global environment as it ends in
any other one, whatever has been run before and whatever waits in the buffer. -/
theorem interpret_alike (h : s'.console.raisesPanics = s.console.raisesPanics) (limit : Nat) :
    (∀ source, Run.Alike (interpret limit source none) s (interpret limit source none) s') ∧
      (∀ source, Run.Alike (Run.newGlobal >>= fun a => interpret limit source (some a)) s
        (Run.newGlobal >>= fun a => interpret limit source (some a)) s') ∧
      ∀ e, Run.Alike (Run.newGlobal >>= evalTop limit e) s (Run.newGlobal >>= evalTop limit e)
        s' := by
  refine ⟨fun source => ?_, fun source => ?_, fun e => ?_⟩
  · -- a source that is not read fails before there is an environment
    cases hread : readProgram limit (scan source) with
    | ok es =>
      rw [interpret_of_read hread]
      exact alike_evalProgram h limit es
    | error failure =>
      exact Pairs.alike (pairs_interpret_of_unread h (relates_fromNow s s') hread none none)
  · refine Pairs.alike ((pairs_newGlobal s s').bind fun t t' a a' ht ha => ?_)
    exact pairs_interpret (biUnique_shift _ _) (biUnique_shift _ _) (biUnique_shift _ _) h ht ha
  · refine Pairs.alike ((pairs_newGlobal s s').bind fun t t' a a' ht ha => ?_)
    exact (lawful_fromNow s s').pairs_evalTop (panics_relabeling h) (fun _ => rfl) ht ha rfl

theorem interpret_alike_after_call :
    let s := Run.after (interpret 50 "(define f (lambda (x) x)) (display f) (car f)" none) {}
    s.console.raisesPanics = true ∧
      (∀ source, Run.Alike (interpret 50 source none) {} (interpret 50 source none) s) ∧
      (∀ source, Run.Alike (Run.newGlobal >>= fun a => interpret 50 source (some a)) {}
        (Run.newGlobal >>= fun a => interpret 50 source (some a)) s) ∧
      ∀ e, Run.Alike (Run.newGlobal >>= evalTop 50 e) {} (Run.newGlobal >>= evalTop 50 e) s := by
  have hstart : Session [] {} := .start {}
  have hraises := hstart.raisesPanics_interpret 50
    "(define f (lambda (x) x)) (display f) (car f)" none
  exact ⟨hraises, interpret_alike hraises 50⟩

end MiniScheme
