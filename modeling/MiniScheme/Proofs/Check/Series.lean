import MiniScheme.Proofs.Check.Passing

/-! Checks that pass one after the other. They share one buffer, so what a check leaves there is
compared with what the next one expects. -/

namespace MiniScheme
namespace Check

inductive Subject
  | primitives
  | programs

structure Trial where
  subject : Subject
  source : String
  expected : Expectation

namespace Trial

def check (c : Trial) : Check Unit :=
  match c.subject with
  | .primitives => applying c.source c.expected
  | .programs => interpreting c.source c.expected

def program (c : Trial) : String :=
  match c.subject with
  | .primitives => c.source
  | .programs => Text.trim c.source

def run (c : Trial) : Run Value := interpret recursionLimit c.program none

def series (trials : List Trial) : Check Unit := trials.forM check

end Trial

def applied (source : String) (e : Expectation) : Check Unit := do
  let es ← readAll (scan source)
  let result ← evaluatedWithOutput e es
  mustEqual "result" e.result result

def Subject.clear : Subject → Check Unit
  | .primitives => return ()
  | .programs => do let _ ← ofRun Run.flush

def Subject.cleared : Subject → Store → Store
  | .primitives, s => s
  | .programs, s => s.withBuffer ""

structure Tries (found : Check Unit) (source : String) (e : Expectation) : Prop where
  of_ok : ∀ {s t}, found s = .ok () t → ∃ out v u out',
    interpret recursionLimit source none (s.withStdout out) = .ok v u ∧
      (∀ output ∈ e.output, output = u.console.buffer) ∧ t = (u.withBuffer "").withStdout out'
  of_panic : ∀ {s message t}, found s = .error (.run (.panic message)) t →
    ∃ out, interpret recursionLimit source none (s.withStdout out) = .error (.panic message) t

theorem tries_stages (source : String) (e : Expectation) : Tries (stages source e) source e where
  of_ok h := by
    obtain ⟨_, out, v, u, _, hrun, _, houtput, _, out', ht⟩ := met_of_stages h
    exact ⟨out, v, u, out', hrun, houtput, ht⟩
  of_panic h := (met_of_stages_panic h).2

theorem tries_applied (source : String) (e : Expectation) : Tries (applied source e) source e where
  of_ok {s t} h := by
    obtain ⟨es, _, hes, h⟩ := bind_eq_ok.mp h
    obtain ⟨hread, rfl⟩ := readTokens_eq_ok.mp (ofRun_eq_ok.mp hes)
    obtain ⟨result, _, hevaluated, h⟩ := bind_eq_ok.mp h
    obtain ⟨v, u, out, hrun, _, houtput, rfl⟩ := exists_of_evaluatedWithOutput hevaluated
    obtain ⟨_, rfl⟩ := mustEqual_eq_ok.mp h
    rw [← interpret_eq_running hread] at hrun
    exact ⟨s.console.stdout, v, u, out, hrun, houtput, rfl⟩
  of_panic {s message t} h := by
    refine ⟨s.console.stdout, ?_⟩
    rcases bind_eq_error.mp h with h | ⟨es, _, hes, h⟩
    · exact Run.bind_of_error (ofRun_eq_error.mp h)
    · obtain ⟨hread, rfl⟩ := readTokens_eq_ok.mp (ofRun_eq_ok.mp hes)
      rcases bind_eq_error.mp h with h | ⟨_, u, _, h⟩
      · rw [interpret_eq_running hread]
        exact running_of_evaluatedWithOutput h
      · exact absurd h (neverPanics_mustEqual _ _ _ u message t)

namespace Trial

variable {c : Trial} {s t u : Store} {trials front rest : List Trial}

def found (c : Trial) : Check Unit :=
  match c.subject with
  | .primitives => applied c.program c.expected
  | .programs => stages c.program c.expected

theorem tries_found (c : Trial) : Tries c.found c.program c.expected := by
  unfold found
  split
  · exact tries_applied _ _
  · exact tries_stages _ _

theorem check_eq (c : Trial) : c.check = (do
    showSource c.program
    onPanic c.found fun message => do
      c.subject.clear
      panicked c.expected message
    ruleOff) := by
  obtain ⟨subject, source, expected⟩ := c
  cases subject with
  | primitives => rfl
  | programs => exact (interpreting_eq source expected).trans rfl

theorem clear_eq_ok {subject : Subject} (h : subject.clear s = .ok () t) :
    t = subject.cleared s := by
  cases subject <;> exact (EStateM.Result.ok.inj h).2.symm

theorem exists_of_check (h : c.check s = .ok () t) : ∃ out out',
    (∃ v u, c.run (s.withStdout out) = .ok v u ∧
        (∀ output ∈ c.expected.output, output = u.console.buffer) ∧
        t = (u.withBuffer "").withStdout out') ∨
      ∃ message u, c.run (s.withStdout out) = .error (.panic message) u ∧
        c.expected.panic = some message ∧ t = (c.subject.cleared u).withStdout out' := by
  rw [check_eq] at h
  obtain ⟨_, _, hline, h⟩ := bind_eq_ok.mp h
  obtain ⟨_, rfl⟩ := EStateM.Result.ok.inj hline
  obtain ⟨_, _, htries, h⟩ := bind_eq_ok.mp h
  obtain ⟨_, rfl⟩ := EStateM.Result.ok.inj h
  rcases onPanic_eq_ok.mp htries with hfound | ⟨message, u, hfound, hpanicked⟩
  · obtain ⟨out, v, u, out', hrun, houtput, rfl⟩ := c.tries_found.of_ok hfound
    exact ⟨out, _, .inl ⟨v, u, hrun, houtput, rfl⟩⟩
  · obtain ⟨out, hrun⟩ := c.tries_found.of_panic hfound
    obtain ⟨_, _, hclear, hpanicked⟩ := bind_eq_ok.mp hpanicked
    obtain rfl := clear_eq_ok hclear
    obtain ⟨hpanic, out', rfl⟩ := exists_of_panicked hpanicked
    exact ⟨out, _, .inr ⟨message, u, hrun, hpanic, rfl⟩⟩

theorem reports_run (c : Trial) : c.run.Reports := (liftsTop_reports recursionLimit).interpret _ _

theorem exists_writes (c : Trial) (s : Store) : ∃ texts, c.run.Writes s texts :=
  (liftsTop_traced recursionLimit).interpret _ _ s

inductive Ends (c : Trial) (s t : Store) : Prop
  | returned {v : Value} {u : Store} (hrun : c.run s = .ok v u)
      (houtput : ∀ output ∈ c.expected.output, output = u.console.buffer)
      (hbuffer : t.console.buffer = "")
  | panicked {message : String} {u : Store} (hrun : c.run s = .error (.panic message) u)
      (hpanic : c.expected.panic = some message)
      (hbuffer : t.console.buffer = (c.subject.cleared u).console.buffer)

theorem cleared_buffer_congr {subject : Subject} (h : s.console.buffer = t.console.buffer) :
    (subject.cleared s).console.buffer = (subject.cleared t).console.buffer := by
  cases subject with
  | primitives => exact h
  | programs => rfl

theorem buffersOutput_cleared (subject : Subject) (s : Store) :
    (subject.cleared s).console.buffersOutput = s.console.buffersOutput := by
  cases subject <;> rfl

theorem ends_of_check (h : c.check s = .ok () t) : c.Ends s t := by
  obtain ⟨out, _, ⟨v, u, hrun, houtput, rfl⟩ | ⟨message, u, hrun, hpanic, rfl⟩⟩ := exists_of_check h
  · obtain ⟨w, hrun', hsame⟩ := c.reports_run.exists_of_ok s out hrun
    exact .returned hrun' (hsame ▸ houtput) rfl
  · obtain ⟨w, hrun', hsame⟩ := c.reports_run.exists_of_panic s out hrun
    exact .panicked hrun' hpanic (cleared_buffer_congr hsame.symm)

theorem buffersOutput_after_run (c : Trial) (s : Store) :
    (Run.after c.run s).console.buffersOutput = s.console.buffersOutput := by
  obtain ⟨texts, hwrites⟩ := c.exists_writes s
  obtain ⟨errors, hconsole⟩ := hwrites.console_after
  rw [hconsole, Console.buffersOutput_extend]

theorem buffersOutput_of_check (h : c.check s = .ok () t) :
    t.console.buffersOutput = s.console.buffersOutput := by
  obtain ⟨out, _, ⟨v, u, hrun, _, rfl⟩ | ⟨message, u, hrun, _, rfl⟩⟩ := exists_of_check h
  · have hafter := c.buffersOutput_after_run (s.withStdout out)
    rw [Run.after_of_ok hrun] at hafter
    exact hafter
  · have hafter := c.buffersOutput_after_run (s.withStdout out)
    rw [Run.after_of_error hrun] at hafter
    exact (buffersOutput_cleared c.subject u).trans hafter

def Spills (c : Trial) (s : Store) : Prop :=
  c.subject = .primitives ∧
    ∃ message u, c.run s = .error (.panic message) u ∧ u.console.buffer ≠ s.console.buffer

theorem buffer_of_check (hbuffer : s.console.buffer = "") (h : c.check s = .ok () t)
    (hspills : ¬c.Spills s) : t.console.buffer = "" := by
  cases ends_of_check h with
  | returned _ _ ht => exact ht
  | @panicked message u hrun _ ht =>
    rw [ht]
    cases hsubject : c.subject with
    | primitives =>
      by_contra hne
      exact hspills ⟨hsubject, message, u, hrun, hbuffer ▸ hne⟩
    | programs => rfl

def NoneSpills (trials : List Trial) (s : Store) : Prop :=
  ∀ front c rest u, trials = front ++ c :: rest → series front s = .ok () u → ¬c.Spills u

theorem series_cons_eq_ok :
    series (c :: rest) s = .ok () t ↔ ∃ u, c.check s = .ok () u ∧ series rest u = .ok () t :=
  then_eq_ok

theorem series_append_eq_ok :
    series (front ++ rest) s = .ok () t ↔
      ∃ u, series front s = .ok () u ∧ series rest u = .ok () t := by
  have happend : series (front ++ rest) = (do series front; series rest) := List.forM_append
  rw [happend, then_eq_ok]

theorem noneSpills_cons : NoneSpills (c :: rest) s ↔
    ¬c.Spills s ∧ ∀ u, c.check s = .ok () u → NoneSpills rest u := by
  constructor
  · intro h
    refine ⟨h [] c rest s rfl rfl, fun u hc front d rest' v hsplit hfront => ?_⟩
    refine h (c :: front) d rest' v (congrArg (c :: ·) hsplit) ?_
    exact series_cons_eq_ok.mpr ⟨u, hc, hfront⟩
  · rintro ⟨hc, hrest⟩ front d rest' v hsplit hfront
    cases front with
    | nil =>
      obtain ⟨rfl, _⟩ := List.cons.inj hsplit
      obtain ⟨_, rfl⟩ := EStateM.Result.ok.inj hfront
      exact hc
    | cons c' front =>
      obtain ⟨rfl, rfl⟩ := List.cons.inj hsplit
      obtain ⟨u, hu, hfront⟩ := series_cons_eq_ok.mp hfront
      exact hrest u hu front d rest' v rfl hfront

theorem noneSpills_of_programs (h : ∀ c ∈ trials, c.subject = .programs) (s : Store) :
    NoneSpills trials s := by
  rintro front c rest u rfl _ ⟨hsubject, _⟩
  have hprograms := h c (List.mem_append_right _ List.mem_cons_self)
  cases hprograms.symm.trans hsubject

theorem buffer_of_series (hbuffer : s.console.buffer = "") (h : series trials s = .ok () t)
    (hspills : NoneSpills trials s) :
    t.console.buffer = "" ∧ t.console.buffersOutput = s.console.buffersOutput := by
  induction trials generalizing s with
  | nil =>
    obtain ⟨_, rfl⟩ := EStateM.Result.ok.inj h
    exact ⟨hbuffer, rfl⟩
  | cons c rest ih =>
    obtain ⟨u, hc, h⟩ := series_cons_eq_ok.mp h
    obtain ⟨hquiet, hrest⟩ := noneSpills_cons.mp hspills
    obtain ⟨ht, hbuffers⟩ := ih (buffer_of_check hbuffer hc hquiet) h (hrest u hc)
    exact ⟨ht, hbuffers.trans (buffersOutput_of_check hc)⟩

end Trial

open Trial

/-- In a series of checks that pass from an empty buffer on, the buffer is empty before and after
each of them, so that what is compared with the output expected of it is what its own program has
displayed. This takes that no check of primitives has a program that displays something and then
panics, since that text stays. -/
theorem outputs_apart {trials : List Trial} {s t : Store} (hbuffer : s.console.buffer = "")
    (h : series trials s = .ok () t) (hspills : NoneSpills trials s) :
    t.console.buffer = "" ∧ ∀ front c rest, trials = front ++ c :: rest →
      ∃ u v texts, series front s = .ok () u ∧ c.check u = .ok () v ∧
        u.console.buffer = "" ∧ v.console.buffer = "" ∧ c.run.Writes u texts ∧
        (s.console.buffersOutput = true → ∀ value w, c.run u = .ok value w →
          ∀ output ∈ c.expected.output, output = String.join texts) := by
  refine ⟨(buffer_of_series hbuffer h hspills).1, ?_⟩
  rintro front c rest rfl
  obtain ⟨u, hfront, h⟩ := series_append_eq_ok.mp h
  obtain ⟨v, hc, _⟩ := series_cons_eq_ok.mp h
  obtain ⟨texts, hwrites⟩ := c.exists_writes u
  have hquiet : NoneSpills front s := by
    intro front' d rest' w hsplit hfront'
    exact hspills front' d (rest' ++ c :: rest) w (by simp [hsplit]) hfront'
  obtain ⟨hu, hbuffers⟩ := buffer_of_series hbuffer hfront hquiet
  have hv := buffer_of_check hu hc (hspills front c rest u rfl hfront)
  refine ⟨u, v, texts, hfront, hc, hu, hv, hwrites, fun hs value w hrun output hmem => ?_⟩
  have hdisplayed := buffer_of_writes hwrites (hbuffers.trans hs)
  rw [Run.after_of_ok hrun, hu, String.empty_append] at hdisplayed
  cases ends_of_check hc with
  | returned hrun' houtput _ =>
    obtain ⟨_, rfl⟩ := EStateM.Result.ok.inj (hrun.symm.trans hrun')
    exact (houtput output hmem).trans hdisplayed
  | panicked hrun' _ _ => cases hrun.symm.trans hrun'

theorem outputs_apart_after_panic :
    let first : Trial := ⟨.primitives, "(display 2)", { output := "2", result := "#<undef>" }⟩
    let second : Trial := ⟨.programs, " (display \"a\") (car 1)",
      { panic := "runtime error at LEFT_PAREN in line 1: car requires a list, now NumberVal" }⟩
    let third : Trial := ⟨.programs, "(display \"b\")", { output := "b" }⟩
    ∃ t, series [first, second, third] {} = .ok () t ∧ NoneSpills [first, second, third] {} ∧
      t.console.buffer = "" ∧
      ∃ u, series [first, second] {} = .ok () u ∧ u.console.buffer = "" := by
  intro first second third
  have hpasses : returns (series [first, second, third] {}) = true := by decide +kernel
  have hreturns : returns (first.run {}) = true := by decide +kernel
  obtain ⟨_, t, h⟩ := exists_of_returns hpasses
  obtain ⟨_, _, hrun⟩ := exists_of_returns hreturns
  have hspills : NoneSpills [first, second, third] {} := by
    refine noneSpills_cons.mpr ⟨?_, fun u _ => noneSpills_of_programs ?_ u⟩
    · rintro ⟨_, message, w, hpanics, _⟩
      cases hrun.symm.trans hpanics
    · simp [second, third]
  obtain ⟨ht, hbefore⟩ := outputs_apart rfl h hspills
  obtain ⟨u, _, _, hu, _, hempty, _⟩ := hbefore [first, second] third [] rfl
  exact ⟨t, h, hspills, ht, u, hu, hempty⟩

def leftBy {ε α : Type} : EStateM.Result ε Store α → Option String
  | .ok _ t => some t.console.buffer
  | .error .. => none

theorem exists_of_leftBy {ε α : Type} {r : EStateM.Result ε Store α} {text : String}
    (h : leftBy r = some text) : ∃ a t, r = .ok a t ∧ t.console.buffer = text := by
  cases r with
  | ok a t => exact ⟨a, t, rfl, Option.some.inj h⟩
  | error => cases h

/-- A check of primitives passes and leaves the text of a program that has panicked. The next one
then passes only if that text is expected in front of its own. -/
theorem applying_spills :
    (¬∀ (c : Trial) (s t : Store), s.console.buffer = "" → c.check s = .ok () t →
      t.console.buffer = "") ∧
    ¬∀ (front : List Trial) (c : Trial) (s u t : Store) (texts : List String),
      s.console.buffer = "" → s.console.buffersOutput = true → series front s = .ok () u →
        c.check u = .ok () t → c.run.Writes u texts → ∀ v w, c.run u = .ok v w →
          ∀ output ∈ c.expected.output, output = String.join texts := by
  let spilling : Trial := ⟨.primitives, "(begin (display 1) (car 1))",
    { panic := "runtime error at LEFT_PAREN in line 1: car requires a list, now NumberVal" }⟩
  let next : Trial := ⟨.primitives, "(display 2)", { output := "12", result := "#<undef>" }⟩
  have hleft : leftBy (spilling.check {}) = some "1" := by decide +kernel
  obtain ⟨_, u, hspilling, hu⟩ := exists_of_leftBy hleft
  constructor
  · intro hempties
    have hempty := hempties spilling {} u rfl hspilling
    exact absurd (hu.symm.trans hempty) (by decide)
  · intro happart
    have hpasses : returns (series [spilling, next] {}) = true := by decide +kernel
    obtain ⟨_, t, h⟩ := exists_of_returns hpasses
    obtain ⟨_, hfirst, h⟩ := series_cons_eq_ok.mp h
    obtain ⟨_, rfl⟩ := EStateM.Result.ok.inj (hspilling.symm.trans hfirst)
    have hfront : series [spilling] {} = .ok () u := series_cons_eq_ok.mpr ⟨u, hspilling, rfl⟩
    obtain ⟨t, hnext, _⟩ := series_cons_eq_ok.mp h
    have hbuffers : u.console.buffersOutput = true := buffersOutput_of_check hspilling
    obtain ⟨texts, hwrites⟩ := next.exists_writes u
    cases ends_of_check hnext with
    | panicked _ hpanic _ => cases hpanic
    | @returned v w hrun houtput _ =>
      have hown : "12" = String.join texts :=
        happart [spilling] next {} u t texts rfl rfl hfront hnext hwrites v w hrun "12" rfl
      have hdisplayed := buffer_of_writes hwrites hbuffers
      rw [Run.after_of_ok hrun, ← houtput "12" rfl, hu, ← hown] at hdisplayed
      exact absurd hdisplayed (by decide)

end Check
end MiniScheme
