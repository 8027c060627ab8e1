import MiniScheme.Proofs.Eval.LiftsTop

/-! What programs print. No run looks at the console that it prints on, so the same run on another
console has the same ending and prints the same text; only a panic leaves as the console says. -/

namespace MiniScheme

theorem lifts_prints : Lifts 0 fun m _ => m.Prints where
  silent h := h.prints
  bind hm hf := hm.bind hf
  anchored anchor hm := hm.anchored anchor
  cut h := (Run.silent_ofExcept h.isInner).prints
  print := Run.prints_print
  eval _ _ := Run.silent_tooDeep.prints
  apply _ _ _ := Run.silent_tooDeep.prints
  primitive _ _ := Run.silent_tooDeep.prints

theorem prints_eval (limit : Nat) (e : Expr) (env : Address) : (eval limit e env).Prints :=
  (lifts_prints.all limit).1 e env

def Store.withStdout (s : Store) (out : String) : Store :=
  s.withConsole { s.console with stdout := out }

namespace Run

variable {α β : Type}

def deliver (c : Console) (text : String) :
    EStateM.Result Failure Store α → EStateM.Result Failure Store α
  | .ok a t => .ok a (t.withConsole (c.print text))
  | .error (.panic message) t =>
    if c.raisesPanics then .error (.panic message) (t.withConsole (c.print text))
    else .error (.exit 1)
      (t.withConsole { c.print text with stderr := c.stderr ++ message ++ "\n" })
  | .error failure t => .error failure (t.withConsole (c.print text))

/-- From every store there is one ending and one text for all consoles. -/
def Reports (m : Run α) : Prop :=
  ∀ s : Store, ∃ r text, ∀ c, m (s.withConsole c) = deliver c text r

theorem deliver_of_isInner {failure : Failure} (h : failure.IsInner) (c : Console) (text : String)
    (t : Store) : deliver c text (.error failure t : EStateM.Result Failure Store α) =
      .error failure (t.withConsole (c.print text)) := by
  cases failure with
  | panic => exact h.elim
  | _ => rfl

theorem deliver_print (c : Console) (first second : String) (r : EStateM.Result Failure Store α) :
    deliver (c.print first) second r = deliver c (first ++ second) r := by
  unfold deliver
  rw [c.print_print, c.raisesPanics_print, c.stderr_print]

theorem Prints.reports {m : Run α} (h : m.Prints) : m.Reports := by
  intro s
  obtain ⟨text, htext⟩ := h.withConsole s
  refine ⟨m s, text, fun c => ?_⟩
  rw [htext c]
  cases hm : m s with
  | ok a t => rfl
  | error failure t => exact (deliver_of_isInner (h.isInner s failure t hm) c text t).symm

theorem panic_apply (message : String) (s : Store) : (panic message : Run α) s =
    if s.console.raisesPanics then .error (.panic message) s
    else .error (.exit 1)
      (s.withConsole { s.console with stderr := s.console.stderr ++ message ++ "\n" }) := by
  have h : (panic message : Run α) s = (do
      if s.console.raisesPanics then throw (.panic message)
      modify fun s => { s with console.stderr := s.console.stderr ++ message ++ "\n" }
      throw (.exit 1) : Run α) s := rfl
  rw [h]
  cases s.console.raisesPanics <;> rfl

theorem panic_bind {message : String} {s : Store} (f : α → Run β) :
    (panic message >>= f) s = panic message s := by
  simp only [Bind.bind, EStateM.bind, panic_apply]
  cases s.console.raisesPanics <;> rfl

theorem exists_panic_of_panicWith {text : Except ArithmeticError String} {s t : Store}
    {failure : Failure} (h : (panicWith text : Run α) s = .error failure t)
    (hpanic : ¬failure.IsInner) :
    ∃ message, text = .ok message ∧ (panic message : Run α) s = .error failure t := by
  cases text with
  | error e =>
    cases h
    exact absurd trivial hpanic
  | ok message => exact ⟨message, rfl, h⟩

theorem reports_panic (message : String) : Reports (panic message : Run α) := by
  refine fun s => ⟨.error (.panic message) s, "", fun c => ?_⟩
  rw [panic_apply, deliver, c.print_empty]
  rfl

theorem reports_panicWith (text : Except ArithmeticError String) :
    Reports (panicWith text : Run α) := by
  cases text with
  | ok message => exact reports_panic message
  | error e =>
    have hthrow : Silent (throw (.arithmetic e) : Run α) := silent_throw trivial
    exact hthrow.prints.reports

theorem Prints.stderr_after {m : Run α} (h : m.Prints) (s : Store) :
    (after m s).console.stderr = s.console.stderr := by
  obtain ⟨text, htext⟩ := h.withConsole s
  have hself : m s = mapStore (·.withConsole (s.console.print text)) (m s) := htext s.console
  rw [console_after_eq hself, Console.stderr_print]

theorem exists_of_deliver {c : Console} {text : String} {r : EStateM.Result Failure Store α} {a : α}
    {u : Store} (h : deliver c text r = .ok a u) :
    ∃ t, r = .ok a t ∧ u = t.withConsole (c.print text) := by
  unfold deliver at h
  cases r with
  | ok b t =>
    obtain ⟨rfl, rfl⟩ := EStateM.Result.ok.inj h
    exact ⟨t, rfl, rfl⟩
  | error failure t =>
    cases failure with
    | panic message =>
      dsimp only at h
      split at h <;> cases h
    | _ => cases h

theorem exists_of_deliver_panic {c : Console} {text message : String}
    {r : EStateM.Result Failure Store α} {u : Store}
    (h : deliver c text r = .error (.panic message) u) :
    c.raisesPanics = true ∧
      ∃ t, r = .error (.panic message) t ∧ u = t.withConsole (c.print text) := by
  unfold deliver at h
  cases r with
  | ok b t => cases h
  | error failure t =>
    cases failure with
    | panic =>
      dsimp only at h
      split at h
      · rename_i hraises
        obtain ⟨hmessage, rfl⟩ := EStateM.Result.error.inj h
        cases hmessage
        exact ⟨hraises, t, rfl, rfl⟩
      · cases h
    | _ => cases h

theorem Reports.stderr_of_ok {m : Run α} {s t : Store} (h : m.Reports) {a : α}
    (hm : m s = .ok a t) : t.console.stderr = s.console.stderr := by
  obtain ⟨r, text, hr⟩ := h s
  have hdeliver : m s = deliver s.console text r := hr s.console
  obtain ⟨u, _, rfl⟩ := exists_of_deliver (hdeliver.symm.trans hm)
  exact s.console.stderr_print text

theorem buffer_print_stdout (c : Console) (out text : String) :
    ({ c with stdout := out }.print text).buffer = (c.print text).buffer := by
  unfold Console.print
  cases c.buffersOutput <;> rfl

theorem Reports.exists_of_ok {m : Run α} {u : Store} (h : m.Reports) (s : Store) (out : String)
    {a : α} (hm : m (s.withStdout out) = .ok a u) :
    ∃ t, m s = .ok a t ∧ t.console.buffer = u.console.buffer := by
  obtain ⟨r, text, hr⟩ := h s
  have hleft : deliver { s.console with stdout := out } text r = .ok a u := (hr _).symm.trans hm
  have hright : m s = deliver s.console text r := hr s.console
  obtain ⟨t, rfl, rfl⟩ := exists_of_deliver hleft
  exact ⟨_, hright, (buffer_print_stdout s.console out text).symm⟩

theorem Reports.exists_of_panic {m : Run α} {u : Store} (h : m.Reports) (s : Store) (out : String)
    {message : String} (hm : m (s.withStdout out) = .error (.panic message) u) :
    ∃ t, m s = .error (.panic message) t ∧ t.console.buffer = u.console.buffer := by
  obtain ⟨r, text, hr⟩ := h s
  have hleft : deliver { s.console with stdout := out } text r = .error (.panic message) u :=
    (hr _).symm.trans hm
  have hright : m s = deliver s.console text r := hr s.console
  obtain ⟨hraises, t, rfl, rfl⟩ := exists_of_deliver_panic hleft
  exact ⟨_, hright.trans (if_pos hraises), (buffer_print_stdout s.console out text).symm⟩

theorem Reports.bind {m : Run α} {f : α → Run β} (hm : m.Reports) (hf : ∀ a, (f a).Reports) :
    Reports (m >>= f) := by
  intro s
  obtain ⟨r, first, hfirst⟩ := hm s
  cases r with
  | ok a t =>
    obtain ⟨r, second, hsecond⟩ := hf a t
    refine ⟨r, first ++ second, fun c => ?_⟩
    have hrun : m (s.withConsole c) = .ok a (t.withConsole (c.print first)) := hfirst c
    rw [bind_of_ok hrun, hsecond, deliver_print]
  | error failure t =>
    refine ⟨.error failure t, first, fun c => ?_⟩
    simp only [Bind.bind, EStateM.bind, hfirst c]
    unfold deliver
    cases failure with
    | panic message => cases c.raisesPanics <;> rfl
    | _ => rfl

theorem Prints.reports_tryCatch {m : Run α} {handle : Failure → Run α} (hm : m.Prints)
    (hhandle : ∀ failure, failure.IsInner → (handle failure).Reports) :
    Reports (tryCatch m handle) := by
  intro s
  obtain ⟨first, hfirst⟩ := hm.withConsole s
  cases hrun : m s with
  | ok a t =>
    refine ⟨.ok a t, first, fun c => ?_⟩
    rw [tryCatch_apply, hfirst c, hrun]
    rfl
  | error failure t =>
    obtain ⟨r, second, hsecond⟩ := hhandle failure (hm.isInner s failure t hrun) t
    refine ⟨r, first ++ second, fun c => ?_⟩
    rw [tryCatch_apply, hfirst c, hrun, ← deliver_print]
    exact hsecond (c.print first)

end Run

theorem reports_evalTop (limit : Nat) (e : Expr) (env : Address) :
    (evalTop limit e env).Reports := by
  rw [evalTop_eq]
  refine (prints_eval limit e env).reports_tryCatch fun failure hinner => ?_
  unfold Run.surface
  split
  · exact Run.reports_panicWith _
  · exact Run.reports_panicWith _
  · exact (Run.silent_throw hinner).prints.reports

theorem exists_panic_of_evalTop {limit : Nat} {e : Expr} {env : Address} {s t : Store}
    {failure : Failure} (h : evalTop limit e env s = .error failure t) (hpanic : ¬failure.IsInner) :
    ∃ err message u, err.text = .ok message ∧
      (Run.panic message : Run Value) u = .error failure t ∧
      u.console.stderr = s.console.stderr ∧
      (eval limit e env s = .error (.eval err) u ∨
        eval limit e env s = .error .tooDeep u ∧ err = ⟨none, .tooDeep⟩) := by
  have hstderr := (prints_eval limit e env).stderr_after s
  rw [evalTop_eq, Run.tryCatch_apply] at h
  cases hrun : eval limit e env s with
  | ok v u =>
    rw [hrun] at h
    cases h
  | error inner u =>
    rw [hrun] at h
    rw [Run.after_of_error hrun] at hstderr
    have hinner := (prints_eval limit e env).isInner s inner u hrun
    have hsurface : Run.surface inner u = .error failure t := h
    cases inner with
    | eval err =>
      obtain ⟨message, htext, hpanics⟩ := Run.exists_panic_of_panicWith hsurface hpanic
      exact ⟨err, message, u, htext, hpanics, hstderr, .inl rfl⟩
    | tooDeep =>
      have hdeep : (Run.panicWith (EvalError.text ⟨none, .tooDeep⟩) : Run Value) u =
        .error failure t := hsurface
      obtain ⟨message, htext, hpanics⟩ := Run.exists_panic_of_panicWith hdeep hpanic
      exact ⟨_, message, u, htext, hpanics, hstderr, .inr ⟨rfl, rfl⟩⟩
    | _ =>
      cases hsurface
      exact absurd hinner hpanic

theorem liftsTop_reports (limit : Nat) : LiftsTop limit limit fun m _ => m.Reports where
  silent h := h.prints.reports
  bind hm hf := hm.bind hf
  panicWith := Run.reports_panicWith
  evalTop := reports_evalTop limit

end MiniScheme
