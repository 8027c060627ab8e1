import MiniScheme.Proofs.Eval.Limit
import MiniScheme.Proofs.Eval.Settles

/-! Sequencing. The operands of a call are evaluated as the expressions of a program are, so a
primitive that returns its last operand makes a program of them. The programs differ in where the
failure of an expression is handled, and no expression comes after it in either. -/

namespace MiniScheme

open Run

namespace Run

theorem exists_surface (failure : Failure) (s : Store) :
    ∃ failure' t, surface failure s = .error failure' t := by
  have hpanic : ∀ text, ∃ failure' t, (panicWith text : Run Value) s = .error failure' t := by
    intro text
    cases text with
    | error e => exact ⟨_, _, rfl⟩
    | ok message =>
      obtain ⟨failure', t, _, h, _⟩ := stops_panic message (β := Value) s
      exact ⟨failure', t, h⟩
  unfold surface
  split
  · exact hpanic _
  · exact hpanic _
  · exact ⟨_, _, rfl⟩

end Run

section Programs

variable {limit : Nat} {e : Expr} {es : List Expr} {env home : Address} {s t : Store}

theorem evalTop_of_ok {v : Value} (h : eval limit e env s = .ok v t) :
    evalTop limit e env s = .ok v t := by
  rw [evalTop_eq, tryCatch_apply, h]

theorem evalTop_of_error {failure : Failure} (h : eval limit e env s = .error failure t) :
    evalTop limit e env s = surface failure t := by
  rw [evalTop_eq, tryCatch_apply, h]

theorem evalProgram_apply (limit : Nat) (es : List Expr) (env : Address) (s : Store) :
    evalProgram limit es env s = match es.mapM (fun e => eval limit e env) s with
      | .ok args t => .ok (args.getLast?.getD .noValue) t
      | .error failure t => surface failure t := by
  -- the value so far is that of the last expression before the rest
  suffices h : ∀ v, es.foldlM (fun _ e => evalTop limit e env) v s =
      match es.mapM (fun e => eval limit e env) s with
      | .ok args t => .ok (args.getLast?.getD v) t
      | .error failure t => surface failure t from h .noValue
  induction es generalizing s with
  | nil => exact fun v => rfl
  | cons e es ih =>
    intro v
    rw [List.foldlM_cons, List.mapM_cons]
    cases he : eval limit e env s with
    | error failure t =>
      obtain ⟨failure', u, hsurface⟩ := exists_surface failure t
      rw [bind_of_error ((evalTop_of_error he).trans hsurface), bind_of_error he]
      exact hsurface.symm
    | ok w t =>
      rw [bind_of_ok (evalTop_of_ok he), bind_of_ok he, ih]
      cases hes : es.mapM (fun e => eval limit e env) t with
      | error failure u => rw [bind_of_error hes]
      | ok args u =>
        rw [bind_of_ok hes]
        change _ = EStateM.Result.ok ((w :: args).getLast?.getD v) u
        rw [List.getLast?_cons]
        rfl

theorem apply_sequence (limit : Nat) (anchor : Option Token) (home : Address) (args : List Value)
    (s : Store) : apply (limit + 2) anchor (.primitive .sequence home) args s =
      .ok (args.getLast?.getD .noValue) s := by
  have hpure : Primitive.IsPure .sequence := trivial
  exact apply_of_result hpure (Nat.zero_le _) rfl anchor home

def Expr.sequence (line nameLine : Nat) (es : List Expr) : Expr :=
  .list line (.atom nameLine (.symbol "begin") :: es)

theorem eval_sequence (hbegin : s.lookup? env "begin" = some (.primitive .sequence home))
    (line nameLine limit : Nat) (es : List Expr) :
    eval (limit + 2) (.sequence line nameLine es) env s =
      (do
        let args ← es.mapM fun e => eval (limit + 1) e env
        apply (limit + 1) (some ⟨line, .leftParen⟩) (.primitive .sequence home) args) s := by
  have hname : eval (limit + 1) (.atom nameLine (.symbol "begin")) env s =
      .ok (.primitive .sequence home) s := by rw [eval_symbol, hbegin]
  have hform : Form.ofItems line (.atom nameLine (.symbol "begin") :: es) =
      .ok (.call (.atom nameLine (.symbol "begin")) es) := rfl
  rw [Expr.sequence, eval_list hform]
  exact bind_of_ok hname

theorem evalTop_sequence (hbegin : s.lookup? env "begin" = some (.primitive .sequence home))
    (line nameLine limit : Nat) (es : List Expr) :
    evalTop (limit + 3) (.sequence line nameLine es) env s =
      evalProgram (limit + 2) es env s := by
  have heval := eval_sequence hbegin line nameLine (limit + 1) es
  rw [evalProgram_apply]
  cases hes : es.mapM (fun e => eval (limit + 2) e env) s with
  | ok args t =>
    rw [bind_of_ok hes, apply_sequence] at heval
    exact evalTop_of_ok heval
  | error failure t =>
    rw [bind_of_error hes] at heval
    exact evalTop_of_error heval

theorem mapM_eval_succ (h : ∀ t, es.mapM (fun e => eval limit e env) s ≠ .error .tooDeep t) :
    es.mapM (fun e => eval (limit + 1) e env) s = es.mapM (fun e => eval limit e env) s :=
  ((lifts_cutShort 1).mapM (fun e => ((lifts_cutShort 1).all limit).1 e env) es).eq_of_not_stopped
    s h

/-- Where `begin` is the primitive, at the start, a call of it ends as the program of its operands
does: under a limit with one level more always, and under the same limit if the call does not come
to it. -/
theorem begin_sequences (hbegin : s.lookup? env "begin" = some (.primitive .sequence home))
    (line nameLine limit : Nat) (es : List Expr) :
    evalTop (limit + 3) (.sequence line nameLine es) env s = evalProgram (limit + 2) es env s ∧
      ((∀ t, eval limit (.sequence line nameLine es) env s ≠ .error .tooDeep t) →
        evalTop limit (.sequence line nameLine es) env s = evalProgram limit es env s) := by
  refine ⟨evalTop_sequence hbegin line nameLine limit es, fun hlimit => ?_⟩
  -- the call needs a level for itself and one for its name
  match limit with
  | 0 | 1 => exact absurd rfl (hlimit s)
  | limit + 2 =>
    rw [eval_sequence hbegin] at hlimit
    have hsame : es.mapM (fun e => eval (limit + 2) e env) s =
        es.mapM (fun e => eval (limit + 1) e env) s :=
      mapM_eval_succ fun t hes => hlimit t (bind_of_error hes)
    have heval := eval_sequence hbegin line nameLine limit es
    rw [evalProgram_apply, hsame]
    cases hes : es.mapM (fun e => eval (limit + 1) e env) s with
    | error failure t => exact evalTop_of_error (heval.trans (bind_of_error hes))
    | ok args t =>
      rw [bind_of_ok hes] at heval hlimit
      cases limit with
      | zero => exact absurd rfl (hlimit t)
      | succ limit =>
        rw [apply_sequence] at heval
        exact evalTop_of_ok heval

theorem begin_sequences_redefined :
    let s := after newGlobal {}
    let es := [
      .list 0 [.atom 0 (.symbol "define"), .atom 0 (.symbol "begin"), .atom 0 (.boolean true)],
      .atom 1 (.symbol "begin"), .atom 2 (.symbol "x"), .atom 3 (.boolean false)]
    s.lookup? 0 "begin" = some (.primitive .sequence 0) ∧
      (∀ t, eval 9 (.sequence 0 0 es) 0 s ≠ .error .tooDeep t) ∧
      evalTop 9 (.sequence 0 0 es) 0 s = evalProgram 9 es 0 s := by
  intro s es
  have hbegin : s.lookup? 0 "begin" = some (.primitive .sequence 0) := rfl
  have hrun : eval 9 (.sequence 0 0 es) 0 s =
      .error (.eval ⟨some ⟨2, .atom (.symbol "x")⟩, .unboundVariable⟩)
        (s.define 0 "begin" (.boolean true)) := rfl
  have hlimit : ∀ t, eval 9 (.sequence 0 0 es) 0 s ≠ .error .tooDeep t := by
    intro t h
    rw [hrun] at h
    cases h
  exact ⟨hbegin, hlimit, (begin_sequences hbegin 0 0 9 es).2 hlimit⟩

end Programs
end MiniScheme
