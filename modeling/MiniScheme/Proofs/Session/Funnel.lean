import MiniScheme.Proofs.Session.Known
import MiniScheme.Proofs.Session.Moments

/-! The ways in which a call of the interpreter ends, in any session. -/

namespace MiniScheme

theorem known_globalFrame (home : Address) :
    ∀ b ∈ (Store.globalFrame home).bindings, b.2.Known :=
  Store.every_globalFrame fun _ => Value.noConfusion

theorem Invariant.ofSession_known : Invariant.known.OfSession where
  toLawful := lawful_known
  start _ := fun _ _ hf => nomatch hf
  newGlobal hs := ⟨hs.alloc (known_globalFrame _), trivial⟩
  console hs _ := hs
  env_console _ _ := trivial
  all _ := trivial

theorem Session.every_known {envs : List Address} {s : Store} (h : Session envs s) :
    s.Every Value.Known := (Invariant.ofSession_known.session h).1

theorem Session.raisesPanics_interpret {envs : List Address} {s : Store} (_ : Session envs s)
    (limit : Nat) (source : String) (env : Option Address) :
    (Run.after (MiniScheme.interpret limit source env) s).console.raisesPanics =
      s.console.raisesPanics := (extends_interpret limit source env s).raisesPanics

inductive Escapes (limit : Nat) (source : String) (s : Store) : Failure → Store → Prop
  | parser (rest : String) : Escapes limit source s (.panic ("parser error at " ++ rest)) s
  | runtime (rest : String) (t : Store) :
      Escapes limit source s (.panic ("runtime error" ++ rest)) t
  | overflow {e : ArithmeticError} (h : e = .intTooLarge ∨ e = .quotientTooLarge) (t : Store) :
      Escapes limit source s (.arithmetic e) t
  | unread (h : readProgram limit (scan source) = .error .tooDeep) :
      Escapes limit source s .tooDeep s

theorem Escapes.store_eq {limit : Nat} {source : String} {s t : Store} {failure : Failure}
    (h : Escapes limit source s failure t)
    (hfailure : failure = .tooDeep ∨ ∃ rest, failure = .panic ("parser error at " ++ rest)) :
    t = s := by
  cases h with
  | parser rest => rfl
  | unread h => rfl
  | overflow h t => rcases hfailure with h | ⟨_, h⟩ <;> cases h
  | runtime rest t =>
    rcases hfailure with h | ⟨rest', h⟩
    · cases h
    · -- the first letters of the two messages differ
      have hlist := congrArg String.toList (Failure.panic.inj h)
      simp at hlist

theorem Failure.Reported.escapes {failure : Failure} (h : failure.Reported) (limit : Nat)
    (source : String) (s t : Store) : Escapes limit source s (failure.surface true) t := by
  rcases h.surface_eq true with ⟨e, rfl, hne⟩ | ⟨rest, heq⟩
  · cases e with
    | intTooLarge => exact .overflow (.inl rfl) t
    | quotientTooLarge => exact .overflow (.inr rfl) t
    | zeroDivisor => exact absurd rfl hne
  · rw [heq]
    exact .runtime rest t

/-- Every call of a session has a value of the known classes, or it ends with a panic, with a number
that is too large, or with a source that nests too deep to be read. -/
theorem interpret_escapes {envs : List Address} {s : Store} (hs : Session envs s)
    (hraises : s.console.raisesPanics = true) (limit : Nat) (source : String)
    (env : Option Address) :
    Run.Ends (interpret limit source env) s (fun v _ => v.Known) (Escapes limit source s) ∧
      ∀ failure t, interpret limit source env s = .error failure t →
        (failure = .tooDeep ∨ ∃ rest, failure = .panic ("parser error at " ++ rest)) → t = s := by
  have hends : Run.Ends (interpret limit source env) s (fun v _ => v.Known)
      (Escapes limit source s) := by
    cases hread : readProgram limit (scan source) with
    | ok es =>
      have hkeeps : Invariant.known.Keeps s (interpret limit source env) _ _ :=
        Invariant.lawful_known.keeps_interpret_of_read hs.every_known
          ⟨hs.every_known.alloc (known_globalFrame _), trivial⟩ (fun _ _ => trivial) hread
          fun _ _ => trivial
      refine Run.Ends.mono hkeeps (fun v _ h => h.2.2) ?_
      rintro failure t ⟨_, _, inner, hinner, rfl⟩
      exact hraises ▸ hinner.escapes limit source s t
    | error failure =>
      -- nothing has been evaluated, so the store is the one before the call
      refine ends_interpret_of_unread hread ?_
      rcases readProgram_scan_error hread with rfl | ⟨err, rfl, hanchor⟩
      · exact Escapes.unread hread
      · obtain ⟨rest, htext⟩ := ReadError.text_ok hanchor
        rw [Run.read, htext]
        exact Run.ends_panic hraises (.parser rest)
  refine ⟨hends, fun failure t hrun hfailure => ?_⟩
  unfold Run.Ends at hends
  rw [hrun] at hends
  exact Escapes.store_eq hends hfailure

theorem interpret_escapes_after_call :
    let s := Run.after Run.newGlobal {}
    let t := Run.after (interpret 50 "(define x #t) (car x)" (some 0)) s
    Session [0] t ∧ t.console.raisesPanics = true ∧
      Run.Ends (interpret 50 "(display x) (" (some 0)) t (fun v _ => v.Known)
        (Escapes 50 "(display x) (" t) := by
  have hnew : Session [0] (Run.after Run.newGlobal {}) := .newGlobal (.start {})
  have hcall : Session [0] (Run.after (interpret 50 "(define x #t) (car x)" (some 0)) _) :=
    hnew.interpret 50 "(define x #t) (car x)" (by simp)
  have hraises := hnew.raisesPanics_interpret 50 "(define x #t) (car x)" (some 0)
  exact ⟨hcall, hraises, (interpret_escapes hcall hraises 50 "(display x) (" (some 0)).1⟩

end MiniScheme
