import MiniScheme.Proofs.Eval.LambdaFree
import MiniScheme.Proofs.Session.Bindings

/-! Programs without `lambda` always end. Each expression has an outcome by the rules, so there is
a limit that no expression comes to, and the largest of these serves for the whole program. -/

namespace MiniScheme

def ProgramEnds (limit : Nat) (es : List Expr) (env : Address) (s : Store) : Prop :=
  ∀ larger, limit ≤ larger → evalProgram larger es env s = evalProgram limit es env s ∧
    ∀ front e rest v t u, es = front ++ e :: rest → evalProgram larger front env s = .ok v t →
      eval larger e env t ≠ .error .tooDeep u

def Value.ClosureFree (v : Value) : Prop := v.Every fun w => ∀ c, w ≠ .closure c

section Programs

variable {limit limit' : Nat} {es : List Expr} {e : Expr} {start s t : Store} {env : Address}
  {v : Value}

theorem evalTop_congr (h : eval limit e env s = eval limit' e env s) :
    evalTop limit e env s = evalTop limit' e env s := by
  rw [evalTop_eq, evalTop_eq, Run.tryCatch_apply, Run.tryCatch_apply, h]

theorem eq_or_of_concat_eq {front rest : List Expr} {e' : Expr}
    (h : es ++ [e] = front ++ e' :: rest) :
    (front = es ∧ e' = e) ∨ ∃ rest', es = front ++ e' :: rest' := by
  rcases List.eq_nil_or_concat rest with rfl | ⟨rest, x, rfl⟩
  · obtain ⟨rfl, hlast⟩ := List.append_inj' h rfl
    exact .inl ⟨rfl, (List.cons.inj hlast).1.symm⟩
  · rw [List.concat_eq_append, ← List.cons_append, ← List.append_assoc] at h
    exact .inr ⟨rest, (List.append_inj' h rfl).1⟩

theorem ProgramEnds.concat {first second : Nat} (h : ProgramEnds first es env s)
    (hlast : ∀ v t, evalProgram first es env s = .ok v t →
      ∃ r : Outcome Value, r.IsFinal ∧ ∀ larger, second ≤ larger → eval larger e env t = r) :
    ProgramEnds (max first second) (es ++ [e]) env s := by
  intro larger hlarger
  obtain ⟨hfirst, hsecond⟩ := max_le_iff.mp hlarger
  have hes : evalProgram larger es env s = evalProgram (max first second) es env s :=
    (h larger hfirst).1.trans (h _ (le_max_left first second)).1.symm
  constructor
  · rw [evalProgram_concat, evalProgram_concat]
    cases hrun : evalProgram (max first second) es env s with
    | error failure t => rw [Run.bind_of_error hrun, Run.bind_of_error (hes.trans hrun)]
    | ok v t =>
      rw [Run.bind_of_ok hrun, Run.bind_of_ok (hes.trans hrun)]
      obtain ⟨r, _, hr⟩ := hlast v t ((h _ (le_max_left first second)).1.symm.trans hrun)
      exact evalTop_congr ((hr larger hsecond).trans (hr _ (le_max_right first second)).symm)
  · intro front e' rest v t u hsplit hfront
    rcases eq_or_of_concat_eq hsplit with ⟨rfl, rfl⟩ | ⟨rest', rfl⟩
    · obtain ⟨r, hfinal, hr⟩ := hlast v t ((h larger hfirst).1.symm.trans hfront)
      rw [hr larger hsecond]
      rintro rfl
      exact (hfinal _ _ rfl).1 rfl
    · exact (h larger hfirst).2 front e' rest' v t u rfl hfront

theorem exists_programEnds (hes : ∀ e ∈ es, e.LambdaFree) (hs : start.ChangedAt env s) :
    ∃ limit, ProgramEnds limit es env s := by
  -- from the back, since what stands before an expression decides in which store it is evaluated
  induction es using List.reverseRecOn with
  | nil => exact ⟨0, fun _ _ => ⟨rfl, by simp⟩⟩
  | append_singleton es e ih =>
    obtain ⟨hes, he⟩ := List.forall_mem_append.mp hes
    obtain ⟨first, hfirst⟩ := ih hes
    cases hrun : evalProgram first es env s with
    | error failure t =>
      refine ⟨max first 0, hfirst.concat fun v u hok => ?_⟩
      rw [hrun] at hok
      cases hok
    | ok v t =>
      have hI := Invariant.lawful_lambdaFree start env
      obtain ⟨_, ht, _⟩ := (hI.keeps_evalProgram hs rfl hes).of_ok hrun
      obtain ⟨r, hr⟩ := exists_evaluates (he e List.mem_cons_self) ht
      obtain ⟨second, hsecond⟩ := hr.settled
      refine ⟨max first second, hfirst.concat fun w u hok => ?_⟩
      obtain ⟨rfl, rfl⟩ := EStateM.Result.ok.inj (hrun.symm.trans hok)
      exact ⟨r, hr.isFinal, hsecond⟩

theorem evalProgram_ne_limit (hes : ∀ e ∈ es, e.LambdaFree) (hs : start.ChangedAt env s)
    (hinside : ∀ front e rest v t u, es = front ++ e :: rest →
      evalProgram limit front env s = .ok v t → eval limit e env t ≠ .error .tooDeep u) :
    evalProgram limit es env s ≠
      .error (.panic "runtime error: maximum recursion depth exceeded") t := by
  intro h
  obtain ⟨front, e, rest, v, u, rfl, hfront, htop⟩ := Run.foldlM_error h
  obtain ⟨hes, he⟩ := List.forall_mem_append.mp hes
  have hI := Invariant.lawful_lambdaFree start env
  obtain ⟨_, hu, _⟩ := (hI.keeps_evalProgram hs rfl hes).of_ok hfront
  obtain ⟨err, message, w, htext, hpanics, _, hrun | ⟨hrun, _⟩⟩ :=
    exists_panic_of_evalTop htop nofun
  · obtain ⟨_, _, _, hother⟩ :=
      (hI.keeps_eval hu rfl (he e List.mem_cons_self)).of_error hrun
    have hmessage : message = "runtime error: maximum recursion depth exceeded" := by
      rw [Run.panic_apply] at hpanics
      split at hpanics
      · exact Failure.panic.inj (EStateM.Result.error.inj hpanics).1
      · cases hpanics
    exact EvalError.text_ne_limit (hother err rfl) (hmessage ▸ htext)
  · exact hinside front e rest v u w rfl hfront hrun

theorem Value.closureFree_of_isGiven (h : v.Every Value.IsGiven) : v.ClosureFree :=
  h.mono fun _ hw => hw.2

theorem changedAt_of_programMeets (hes : ∀ e ∈ es, e.LambdaFree) (hs : start.ChangedAt env s)
    (h : ProgramMeets limit es env s t) : start.ChangedAt env t := by
  have hI := Invariant.lawful_lambdaFree start env
  cases h with
  | ended => exact (hI.keeps_evalProgram hs rfl hes).after.2
  | @during front rest e v u m hsplit hfront hm =>
    subst hsplit
    exact (hI.during hs rfl hes hfront hm).2.store

end Programs

/-- A program without `lambda` ends in a fresh global environment: from some limit on it ends in one
way, none of its expressions comes to the limit, and no message says so. Under every limit, at every
moment of it and after it, there are the frames that there were, none has changed but the global
one, and no closure is in that or in the value. -/
theorem lambdaFree_ends {es : List Expr} {s t : Store} {env : Address}
    (hes : ∀ e ∈ es, e.LambdaFree) (hnew : Run.newGlobal s = .ok env t) :
    (∃ limit, ∀ larger, limit ≤ larger →
      evalProgram larger es env t = evalProgram limit es env t ∧
      (∀ front e rest v u w, es = front ++ e :: rest →
        evalProgram larger front env t = .ok v u → eval larger e env u ≠ .error .tooDeep w) ∧
      ∀ u, evalProgram larger es env t ≠
        .error (.panic "runtime error: maximum recursion depth exceeded") u) ∧
    ∀ limit,
      (∀ u, ProgramMeets limit es env t u → u.frames.size = t.frames.size ∧
        (∀ a, a ≠ env → u.frames[a]? = t.frames[a]?) ∧
        ∀ f, u.frames[env]? = some f → ∀ b ∈ f.bindings, b.2.ClosureFree) ∧
      ∀ v u, evalProgram limit es env t = .ok v u → v.ClosureFree := by
  obtain ⟨rfl, rfl⟩ : s.fresh = env ∧ s.alloc (Store.globalFrame s.fresh) = t :=
    EStateM.Result.ok.inj hnew
  have hs := s.changedAt_newGlobal
  constructor
  · obtain ⟨limit, hends⟩ := exists_programEnds hes hs
    refine ⟨limit, fun larger hlarger => ?_⟩
    obtain ⟨heq, hinside⟩ := hends larger hlarger
    exact ⟨heq, hinside, fun u => evalProgram_ne_limit hes hs hinside⟩
  · intro limit
    constructor
    · intro u hmeets
      have hu := changedAt_of_programMeets hes hs hmeets
      refine ⟨hu.size, fun a ha => hu.others ha, fun f hf b hb => ?_⟩
      exact Value.closureFree_of_isGiven (hu.bound f hf b hb)
    · intro v u hrun
      have hI := Invariant.lawful_lambdaFree (s.alloc (Store.globalFrame s.fresh)) s.fresh
      obtain ⟨_, _, hv⟩ := (hI.keeps_evalProgram hs rfl hes).of_ok hrun
      exact Value.closureFree_of_isGiven hv

theorem lambdaFree_ends_apply :
    let es := [.list 0 [.atom 0 (.symbol "define"), .atom 0 (.symbol "x"),
      .list 0 [.atom 0 (.symbol "apply"), .atom 0 (.symbol "apply"), .atom 0 (.symbol "list"),
        .atom 0 (.boolean true)]]]
    let t := Run.after Run.newGlobal {}
    (∀ e ∈ es, e.LambdaFree) ∧ Run.newGlobal {} = .ok 0 t ∧
      (∃ limit, ∀ larger, limit ≤ larger → evalProgram larger es 0 t = evalProgram limit es 0 t) ∧
      ∀ limit v u, evalProgram limit es 0 t = .ok v u → v.ClosureFree := by
  intro es t
  have hother : ∀ {name : String}, name ≠ "lambda" →
      ∀ e ∈ some (Expr.atom 0 (.symbol name)), ¬e.IsSymbol "lambda" := by
    rintro name hname e he ⟨_, rfl⟩
    cases he
    exact hname rfl
  have hcall : (Expr.list 0 [.atom 0 (.symbol "apply"), .atom 0 (.symbol "apply"),
      .atom 0 (.symbol "list"), .atom 0 (.boolean true)]).LambdaFree := by
    refine .list 0 (hother (by decide)) ?_
    simp only [List.forall_mem_cons]
    exact ⟨.atom .., .atom .., .atom .., .atom .., List.forall_mem_nil _⟩
  have hes : ∀ e ∈ es, e.LambdaFree := by
    refine List.forall_mem_singleton.mpr (.list 0 (hother (by decide)) ?_)
    simp only [List.forall_mem_cons]
    exact ⟨.atom .., .atom .., hcall, List.forall_mem_nil _⟩
  have hnew : Run.newGlobal {} = .ok 0 t := rfl
  obtain ⟨⟨limit, hends⟩, hfree⟩ := lambdaFree_ends hes hnew
  exact ⟨hes, hnew, ⟨limit, fun larger hlarger => (hends larger hlarger).1⟩,
    fun limit v u hrun => (hfree limit).2 v u hrun⟩

end MiniScheme
