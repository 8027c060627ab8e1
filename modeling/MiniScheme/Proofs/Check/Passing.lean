import MiniScheme.Proofs.Check.Steps
import MiniScheme.Proofs.Eval.Top
import MiniScheme.Proofs.Session.Buffer

/-! What it means that the check of a whole program passes. The forms of the source are as expected,
so far as there are any, and of the run the value and the output are compared if it returns and the
message if it panics. -/

namespace MiniScheme

mutual

theorem Expr.isInner_of_text {e : Expr} {failure : Failure} (h : e.text = .error failure) :
    failure.IsInner := by
  cases e with
  | atom line a =>
    cases a with
    | number written x =>
      obtain ⟨_, _, rfl⟩ := mapError_eq_error.mp h
      trivial
    | _ => cases h
  | stray line message => cases h
  | list line items =>
    rcases bind_eq_error.mp h with h | ⟨_, _, h⟩
    · exact isInner_of_textEach h
    · exact absurd h pure_ne_error
  | unknown => exact Except.error.inj h ▸ trivial

theorem Expr.isInner_of_textEach {es : List Expr} {failure : Failure}
    (h : Expr.textEach es = .error failure) : failure.IsInner := by
  cases es with
  | nil => cases h
  | cons e es =>
    rcases bind_eq_error.mp h with h | ⟨_, _, h⟩
    · exact isInner_of_text h
    · rcases bind_eq_error.mp h with h | ⟨_, _, h⟩
      · exact isInner_of_textEach h
      · exact absurd h pure_ne_error

end

theorem Expr.isInner_of_programText {es : List Expr} {failure : Failure}
    (h : Expr.programText es = .error failure) : failure.IsInner := by
  rcases bind_eq_error.mp h with h | ⟨_, _, h⟩
  · exact isInner_of_textEach h
  · exact absurd h pure_ne_error

namespace Check

theorem isInner_of_tokensText {ts : List Token} {failure : Failure}
    (h : tokensText ts = .error failure) : failure.IsInner := by
  rcases MiniScheme.bind_eq_error.mp h with h | ⟨_, _, h⟩
  · obtain ⟨t, _, h⟩ := mapM_eq_error h
    obtain ⟨_, _, rfl⟩ := mapError_eq_error.mp h
    trivial
  · exact absurd h pure_ne_error

/-! The stages of the check of a program. -/

variable {e : Expectation} {source : String} {es : List Expr} {s t : Store} {message : String}

def compared (label : String) (expected : Option String) (r : Except Failure String) :
    Check Unit := do
  let text ← ofExcept r
  line (label ++ text)
  mayEqual expected text

theorem exists_of_compared {label : String} {expected : Option String}
    {r : Except Failure String} (h : compared label expected r s = .ok () t) :
    ∃ text out, r = .ok text ∧ (∀ expectation ∈ expected, expectation = text) ∧
      t = s.withStdout out := by
  obtain ⟨text, u, htext, h⟩ := bind_eq_ok.mp h
  obtain ⟨rfl, rfl⟩ := ofExcept_eq_ok.mp htext
  obtain ⟨_, v, hline, h⟩ := bind_eq_ok.mp h
  obtain ⟨_, rfl⟩ := EStateM.Result.ok.inj hline
  obtain ⟨hmet, rfl⟩ := mayEqual_eq_ok.mp h
  exact ⟨text, _, rfl, hmet, rfl⟩

theorem neverPanics_compared {label : String} {expected : Option String}
    {r : Except Failure String} (h : ∀ failure, r = .error failure → failure.IsInner) :
    NeverPanics (compared label expected r) :=
  (neverPanics_ofExcept h).bind fun _ =>
    (neverPanics_line _).bind fun _ => neverPanics_mayEqual _ _

def stages (source : String) (e : Expectation) : Check Unit := do
  compared "* tokens: " e.tokens (tokensText (scan source))
  let es ← readAll (scan source)
  compared "* expression: " e.expression (Expr.programText es)
  let result ← evaluatedWithOutput e es
  mayEqual e.result result

theorem interpreting_eq (source : String) (e : Expectation) : interpreting source e = (do
    showSource (Text.trim source)
    onPanic (stages (Text.trim source) e) fun message => do
      let _ ← ofRun Run.flush
      panicked e message
    ruleOff) := by
  simp only [interpreting, stages, compared, bind_assoc]

def running (es : List Expr) : Run Value := Run.newGlobal >>= evalProgram recursionLimit es

def showOutput (output : String) : Check Unit := do
  unless output.isEmpty do line ("* output: " ++ output)

theorem ofRun_bind {α β : Type} (m : Run α) (f : α → Run β) :
    ofRun (m >>= f) = ofRun m >>= fun a => ofRun (f a) := by
  funext s
  simp only [ofRun, Bind.bind, EStateM.bind]
  cases m s <;> rfl

theorem evaluatedWithOutput_eq (e : Expectation) (es : List Expr) :
    evaluatedWithOutput e es = (do
      let v ← ofRun (running es)
      let result ← printed v
      let output ← ofRun Run.flush
      showOutput output
      mayEqual e.output output
      line ("* result: " ++ result)
      return result) := by
  have hshow : ∀ (output : String) (rest : Check String),
      (if output.isEmpty = true then rest else line ("* output: " ++ output) >>= fun _ => rest) =
        showOutput output >>= fun _ => rest := by
    intro output rest
    unfold showOutput
    split <;> rfl
  simp only [evaluatedWithOutput, evaluated, running, ofRun_bind, bind_assoc, hshow]

theorem exists_of_showOutput {output : String} (h : showOutput output s = .ok () t) :
    ∃ out, t = s.withStdout out := by
  unfold showOutput at h
  split at h
  · obtain ⟨_, rfl⟩ := EStateM.Result.ok.inj h
    exact ⟨s.console.stdout, rfl⟩
  · obtain ⟨_, rfl⟩ := EStateM.Result.ok.inj h
    exact ⟨_, rfl⟩

theorem exists_of_evaluatedWithOutput {result : String}
    (h : evaluatedWithOutput e es s = .ok result t) :
    ∃ v u out, running es s = .ok v u ∧ v.text recursionLimit = .ok result ∧
      (∀ output ∈ e.output, output = u.console.buffer) ∧
      t = (u.withBuffer "").withStdout out := by
  rw [evaluatedWithOutput_eq] at h
  obtain ⟨v, u, hrun, h⟩ := bind_eq_ok.mp h
  obtain ⟨text, _, hprinted, h⟩ := bind_eq_ok.mp h
  obtain ⟨htext, rfl⟩ := ofExcept_eq_ok.mp hprinted
  obtain ⟨output, _, hflush, h⟩ := bind_eq_ok.mp h
  obtain ⟨rfl, rfl⟩ := EStateM.Result.ok.inj (ofRun_eq_ok.mp hflush)
  obtain ⟨_, _, hshown, h⟩ := bind_eq_ok.mp h
  obtain ⟨_, rfl⟩ := exists_of_showOutput hshown
  obtain ⟨_, _, hcompared, h⟩ := bind_eq_ok.mp h
  obtain ⟨hmet, rfl⟩ := mayEqual_eq_ok.mp hcompared
  obtain ⟨_, _, hline, h⟩ := bind_eq_ok.mp h
  obtain ⟨_, rfl⟩ := EStateM.Result.ok.inj hline
  obtain ⟨rfl, rfl⟩ := EStateM.Result.ok.inj h
  exact ⟨v, u, _, ofRun_eq_ok.mp hrun, htext, hmet, rfl⟩

theorem neverPanics_showOutput (output : String) : NeverPanics (showOutput output) := by
  unfold showOutput
  split
  · nofun
  · exact neverPanics_line _

theorem running_of_evaluatedWithOutput
    (h : evaluatedWithOutput e es s = .error (.run (.panic message)) t) :
    running es s = .error (.panic message) t := by
  rw [evaluatedWithOutput_eq] at h
  rcases bind_eq_error.mp h with h | ⟨v, u, _, h⟩
  · exact ofRun_eq_error.mp h
  · -- nothing that comes behind the run panics
    have htext : NeverPanics (printed v) :=
      neverPanics_ofExcept (v.cut_text recursionLimit 0).isInner
    refine absurd h (htext.bind (fun _ => ?_) u message t)
    refine .bind (m := ofRun Run.flush) nofun fun output => ?_
    refine (neverPanics_showOutput output).bind fun _ => ?_
    exact (neverPanics_mayEqual _ _).bind fun _ => (neverPanics_line _).bind fun _ => nofun

structure FormsMet (source : String) (e : Expectation) : Prop where
  tokens : ∃ text, tokensText (scan source) = .ok text ∧
    ∀ expectation ∈ e.tokens, expectation = text
  expression : ∀ es, readProgram recursionLimit (scan source) = .ok es →
    ∃ text, Expr.programText es = .ok text ∧ ∀ expectation ∈ e.expression, expectation = text

theorem formsMet_of_read {tokens text : String}
    (htokens : tokensText (scan source) = .ok tokens)
    (hmet : ∀ expectation ∈ e.tokens, expectation = tokens)
    (hread : readProgram recursionLimit (scan source) = .ok es)
    (htext : Expr.programText es = .ok text)
    (hmet' : ∀ expectation ∈ e.expression, expectation = text) : FormsMet source e where
  tokens := ⟨tokens, htokens, hmet⟩
  expression fs hfs := by
    obtain rfl := Except.ok.inj (hread.symm.trans hfs)
    exact ⟨text, htext, hmet'⟩

theorem readTokens_eq_ok :
    readTokens recursionLimit (scan source) s = .ok es t ↔
      readProgram recursionLimit (scan source) = .ok es ∧ s = t := by
  rw [readTokens]
  cases readProgram recursionLimit (scan source) with
  | ok fs => simp [Run.read, pure, EStateM.pure]
  | error failure =>
    refine iff_of_false (fun h => ?_) fun h => ?_
    · cases failure with
      | read error =>
        have h : (Run.panicWith error.text : Run (List Expr)) s = .ok es t := h
        cases htext : error.text with
        | ok message =>
          rw [htext, Run.panicWith, Run.panic_apply] at h
          split at h <;> cases h
        | error _ =>
          rw [htext] at h
          cases h
      | _ => cases h
    · cases h.1

theorem interpret_eq_running (hread : readProgram recursionLimit (scan source) = .ok es) :
    interpret recursionLimit source none = running es := interpret_of_read hread none

theorem met_of_stages (h : stages source e s = .ok () t) :
    FormsMet source e ∧ ∃ out v u result,
      interpret recursionLimit source none (s.withStdout out) = .ok v u ∧
      v.text recursionLimit = .ok result ∧ (∀ output ∈ e.output, output = u.console.buffer) ∧
      (∀ expectation ∈ e.result, expectation = result) ∧
      ∃ out', t = (u.withBuffer "").withStdout out' := by
  obtain ⟨_, _, hscanned, h⟩ := bind_eq_ok.mp h
  obtain ⟨tokens, out, htokens, hmet, rfl⟩ := exists_of_compared hscanned
  obtain ⟨es, _, hes, h⟩ := bind_eq_ok.mp h
  obtain ⟨hread, rfl⟩ := readTokens_eq_ok.mp (ofRun_eq_ok.mp hes)
  obtain ⟨_, _, hexpression, h⟩ := bind_eq_ok.mp h
  obtain ⟨text, out', htext, hmet', rfl⟩ := exists_of_compared hexpression
  obtain ⟨result, _, hevaluated, h⟩ := bind_eq_ok.mp h
  obtain ⟨v, u, _, hrun, hresult, houtput, rfl⟩ := exists_of_evaluatedWithOutput hevaluated
  obtain ⟨hmet'', rfl⟩ := mayEqual_eq_ok.mp h
  refine ⟨formsMet_of_read htokens hmet hread htext hmet', out', v, u, result, ?_, hresult, houtput,
    hmet'', _, rfl⟩
  rw [interpret_eq_running hread]
  exact hrun

theorem met_of_stages_panic (h : stages source e s = .error (.run (.panic message)) t) :
    FormsMet source e ∧ ∃ out,
      interpret recursionLimit source none (s.withStdout out) = .error (.panic message) t := by
  rcases bind_eq_error.mp h with h | ⟨_, _, hscanned, h⟩
  · exact absurd h (neverPanics_compared (fun _ => isInner_of_tokensText) s message t)
  · obtain ⟨tokens, out, htokens, hmet, rfl⟩ := exists_of_compared hscanned
    rcases bind_eq_error.mp h with h | ⟨es, _, hes, h⟩
    · have hread := ofRun_eq_error.mp h
      refine ⟨⟨⟨tokens, htokens, hmet⟩, fun fs hfs => ?_⟩, out, Run.bind_of_error hread⟩
      cases hread.symm.trans (readTokens_eq_ok.mpr ⟨hfs, rfl⟩)
    · obtain ⟨hread, rfl⟩ := readTokens_eq_ok.mp (ofRun_eq_ok.mp hes)
      rcases bind_eq_error.mp h with h | ⟨_, _, hexpression, h⟩
      · exact absurd h (neverPanics_compared (fun _ => Expr.isInner_of_programText) _ message t)
      · obtain ⟨text, out', htext, hmet', rfl⟩ := exists_of_compared hexpression
        rcases bind_eq_error.mp h with h | ⟨result, u, _, h⟩
        · refine ⟨formsMet_of_read htokens hmet hread htext hmet', out', ?_⟩
          rw [interpret_eq_running hread]
          exact running_of_evaluatedWithOutput h
        · exact absurd h (neverPanics_mayEqual _ _ u message t)

theorem exists_of_panicked (h : panicked e message s = .ok () t) :
    e.panic = some message ∧ ∃ out, t = s.withStdout out := by
  obtain ⟨_, _, hline, h⟩ := bind_eq_ok.mp h
  obtain ⟨_, rfl⟩ := EStateM.Result.ok.inj hline
  obtain ⟨hpanic, rfl⟩ := mustEqual_eq_ok.mp h
  exact ⟨hpanic, _, rfl⟩

theorem buffer_of_writes {α : Type} {m : Run α} {texts : List String} (h : m.Writes s texts)
    (hbuffers : s.console.buffersOutput = true) :
    (Run.after m s).console.buffer = s.console.buffer ++ String.join texts := by
  obtain ⟨errors, hconsole⟩ := h.console_after
  rw [hconsole, Console.buffer_extend hbuffers]

def EndingMet (source : String) (e : Expectation) (s : Store) : Prop :=
  let run := interpret recursionLimit source none
  (∃ v t result texts, run s = .ok v t ∧ v.text recursionLimit = .ok result ∧
      run.Writes s texts ∧ (∀ output ∈ e.output, output = String.join texts) ∧
      ∀ expectation ∈ e.result, expectation = result) ∨
    ∃ message t, run s = .error (.panic message) t ∧ e.panic = some message

/-- A program that passes its check has the tokens and the expression that are expected, and ends as
expected. Of a program that returns no panic is expected in vain, though, and of one that panics no
output and no value. -/
theorem met_of_interpreting (hbuffer : s.console.buffer = "")
    (hbuffers : s.console.buffersOutput = true) (h : interpreting source e s = .ok () t) :
    FormsMet (Text.trim source) e ∧ EndingMet (Text.trim source) e s := by
  have hreports := (liftsTop_reports recursionLimit).interpret (Text.trim source) none
  obtain ⟨texts, hwrites⟩ := (liftsTop_traced recursionLimit).interpret (Text.trim source) none s
  rw [interpreting_eq] at h
  obtain ⟨_, _, hline, h⟩ := bind_eq_ok.mp h
  obtain ⟨_, rfl⟩ := EStateM.Result.ok.inj hline
  obtain ⟨_, _, hstages, _⟩ := bind_eq_ok.mp h
  rcases onPanic_eq_ok.mp hstages with hstages | ⟨message, _, hstages, hpanicked⟩
  · obtain ⟨hforms, out, v, u, result, hrun, hresult, houtput, hmet, _⟩ := met_of_stages hstages
    obtain ⟨u', hrun', hsame⟩ := hreports.exists_of_ok s out hrun
    have hdisplayed := buffer_of_writes hwrites hbuffers
    rw [Run.after_of_ok hrun', hsame, hbuffer, String.empty_append] at hdisplayed
    exact ⟨hforms, .inl ⟨v, u', result, texts, hrun', hresult, hwrites, hdisplayed ▸ houtput, hmet⟩⟩
  · obtain ⟨hforms, out, hrun⟩ := met_of_stages_panic hstages
    obtain ⟨u', hrun', _⟩ := hreports.exists_of_panic s out hrun
    obtain ⟨_, _, _, hpanicked⟩ := bind_eq_ok.mp hpanicked
    exact ⟨hforms, .inr ⟨message, u', hrun', (exists_of_panicked hpanicked).1⟩⟩

def returns {ε σ α : Type} : EStateM.Result ε σ α → Bool
  | .ok .. => true
  | .error .. => false

theorem exists_of_returns {ε σ α : Type} {r : EStateM.Result ε σ α} (h : returns r = true) :
    ∃ a t, r = .ok a t := by
  cases r with
  | ok a t => exact ⟨a, t, rfl⟩
  | error => cases h

theorem met_of_interpreting_displayed :
    let source := " (display \"a\") 2\n"
    let e : Expectation := { output := "a", result := "2" }
    (∃ t, interpreting source e {} = .ok () t) ∧
      FormsMet (Text.trim source) e ∧ EndingMet (Text.trim source) e {} := by
  intro source e
  have hpasses : returns (interpreting source e {}) = true := by decide +kernel
  obtain ⟨_, t, h⟩ := exists_of_returns hpasses
  exact ⟨⟨t, h⟩, met_of_interpreting rfl rfl h⟩

theorem interpreting_panic_unread (panic : Option String) (h : interpreting source e s = .ok () t)
    (hreturns : ∀ message u,
      interpret recursionLimit (Text.trim source) none s ≠ .error (.panic message) u) :
    interpreting source { e with panic } s = .ok () t := by
  have hreports := (liftsTop_reports recursionLimit).interpret (Text.trim source) none
  rw [interpreting_eq] at h ⊢
  obtain ⟨_, _, hline, h⟩ := bind_eq_ok.mp h
  obtain ⟨_, u, hstages, hrule⟩ := bind_eq_ok.mp h
  refine bind_eq_ok.mpr ⟨_, _, hline, bind_eq_ok.mpr ⟨(), u, onPanic_eq_ok.mpr (.inl ?_), hrule⟩⟩
  obtain ⟨_, rfl⟩ := EStateM.Result.ok.inj hline
  rcases onPanic_eq_ok.mp hstages with hstages | ⟨message, _, hstages, _⟩
  · exact hstages
  · obtain ⟨_, out, hrun⟩ := met_of_stages_panic hstages
    obtain ⟨u', hrun', _⟩ := hreports.exists_of_panic s out hrun
    exact absurd hrun' (hreturns message u')

theorem interpreting_unmet_panic :
    ¬∀ (source : String) (e : Expectation) (s t : Store), s.console.buffer = "" →
      interpreting source e s = .ok () t → ∀ message ∈ e.panic,
        ∃ u, interpret recursionLimit (Text.trim source) none s = .error (.panic message) u := by
  intro hmet
  have hpasses : returns (interpreting "1" {} {}) = true := by decide +kernel
  have hreturns : returns (interpret recursionLimit (Text.trim "1") none {}) = true := by
    decide +kernel
  obtain ⟨_, t, h⟩ := exists_of_returns hpasses
  obtain ⟨_, _, hrun⟩ := exists_of_returns hreturns
  have hunread := interpreting_panic_unread "boom" h fun _ _ hpanics => by
    cases hrun.symm.trans hpanics
  obtain ⟨_, hpanics⟩ := hmet "1" { panic := "boom" } {} t rfl hunread "boom" rfl
  cases hrun.symm.trans hpanics

end Check
end MiniScheme
