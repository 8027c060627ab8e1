import MiniScheme.Proofs.Eval.Output

/-! Where the console sends its output. The two settings decide which way texts and panics leave a
program, and nothing else of what it does. -/

namespace MiniScheme

def Console.configured (c : Console) (raises buffers : Bool) : Console :=
  { c with raisesPanics := raises, buffersOutput := buffers }

def Store.configured (s : Store) (raises buffers : Bool) : Store :=
  s.withConsole (s.console.configured raises buffers)

theorem Console.print_configured (c : Console) (raises buffers : Bool) (text : String) :
    (c.configured raises buffers).print text =
      { c with
        raisesPanics := raises
        buffersOutput := buffers
        buffer := if buffers then c.buffer ++ text else c.buffer
        stdout := if buffers then c.stdout else c.stdout ++ text } := by
  cases buffers <;> rfl

/-- A source ends in the same frames under all settings, with the same value or the same failure,
but for a panic that is not to be raised: it writes its message and exits. What goes to the buffer
under one setting is what goes out at once under the other. -/
theorem interpret_configured (limit : Nat) (source : String) (env : Option Address) (s : Store) :
    ∃ text,
      (Run.after (interpret limit source env) (s.configured true true)).console =
        { s.console with
          raisesPanics := true
          buffersOutput := true
          buffer := s.console.buffer ++ text } ∧
      ∀ raises buffers,
        let shown : Console :=
          { s.console with
            raisesPanics := raises
            buffersOutput := buffers
            buffer := if buffers then s.console.buffer ++ text else s.console.buffer
            stdout := if buffers then s.console.stdout else s.console.stdout ++ text }
        interpret limit source env (s.configured raises buffers) =
          match interpret limit source env (s.configured true true) with
          | .ok v t => .ok v (t.withConsole shown)
          | .error (.panic message) t =>
            if raises then .error (.panic message) (t.withConsole shown)
            else .error (.exit 1)
              (t.withConsole { shown with stderr := s.console.stderr ++ message ++ "\n" })
          | .error failure t => .error failure (t.withConsole shown) := by
  obtain ⟨r, text, hr⟩ := (liftsTop_reports limit).interpret source env s
  have hrun : ∀ raises buffers, interpret limit source env (s.configured raises buffers) =
      Run.deliver (s.console.configured raises buffers) text r := fun _ _ => hr _
  refine ⟨text, ?_, fun raises buffers => ?_⟩
  · unfold Run.after
    rw [hrun]
    cases r with
    | ok v t => rfl
    | error failure t => cases failure <;> rfl
  · rw [hrun, hrun]
    unfold Run.deliver
    rw [Console.print_configured]
    cases r with
    | ok v t => rfl
    | error failure t =>
      cases failure with
      | panic message => cases raises <;> rfl
      | _ => rfl

end MiniScheme
