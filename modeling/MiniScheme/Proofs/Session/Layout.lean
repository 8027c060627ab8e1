import MiniScheme.Proofs.Eval.Relabeling
import MiniScheme.Proofs.Expr.Reline

/-! Two sources with the same tokens on other lines. They run alike, and what they fail with says
the same, but for the number of a line. -/

namespace MiniScheme

inductive SameButLine : String → String → Prop
  | same (message : String) : SameButLine message message
  | line (front back : String) (n n' : Nat) :
      SameButLine (front ++ " in line " ++ n.repr ++ back) (front ++ " in line " ++ n'.repr ++ back)

inductive SameButLines : String → String → Prop
  | nil : SameButLines "" ""
  | append {errors errors' message message' : String} (h : SameButLines errors errors')
      (hmessage : SameButLine message message') :
      SameButLines (errors ++ message ++ "\n") (errors' ++ message' ++ "\n")

def Console.SameButLines (c c' d d' : Console) : Prop :=
  ∃ text errors errors', MiniScheme.SameButLines errors errors' ∧ d = c.extend text errors ∧
    d' = c'.extend text errors'

inductive Failure.SameButLine : Failure → Failure → Prop
  | same (failure : Failure) : SameButLine failure failure
  | panic {message message' : String} (h : MiniScheme.SameButLine message message') :
      SameButLine (.panic message) (.panic message')

inductive EvalError.Relined : EvalError → EvalError → Prop
  | same (err : EvalError) : Relined err err
  | line (line line' : Nat) (shape : Shape) (fault : EvalFault) :
      Relined ⟨some ⟨line, shape⟩, fault⟩ ⟨some ⟨line', shape⟩, fault⟩

theorem relined_position (front : String) (line line' : Nat) (shape : Shape) (back : String) :
    ExceptRel SameButLine Eq
      (do return front ++ (← Token.position ⟨line, shape⟩) ++ back)
      (do return front ++ (← Token.position ⟨line', shape⟩) ++ back) := by
  unfold Token.position
  dsimp only
  cases shape.describe with
  | error err => exact .error rfl
  | ok name =>
    have hassoc : ∀ n : Nat, front ++ (name ++ " in line " ++ n.repr) ++ back =
        front ++ name ++ " in line " ++ n.repr ++ back := by
      intro n
      simp only [String.append_assoc]
    have hsame := SameButLine.line (front ++ name) back (line + 1) (line' + 1)
    rw [← hassoc, ← hassoc] at hsame
    exact .ok hsame

theorem EvalError.Relined.text {err err' : EvalError} (h : err.Relined err') :
    ExceptRel SameButLine Eq err.text err'.text := by
  cases h with
  | same => exact exceptRel_refl .same (fun _ => rfl) _
  | line line line' shape fault =>
    have htext := relined_position "runtime error at " line line' shape (": " ++ fault.message)
    simp only [← String.append_assoc] at htext
    exact htext

theorem ReadError.relined_text (line line' : Nat) (shape : Shape) (fault : ReadFault) :
    ExceptRel SameButLine Eq (ReadError.text ⟨⟨line, shape⟩, fault⟩)
      (ReadError.text ⟨⟨line', shape⟩, fault⟩) := by
  have htext := relined_position "parser error at " line line' shape (": " ++ fault.message)
  simp only [← String.append_assoc] at htext
  exact htext

theorem Console.SameButLines.print {c c' d d' : Console} (h : c.SameButLines c' d d')
    (more : String) : c.SameButLines c' (d.print more) (d'.print more) := by
  obtain ⟨text, errors, errors', herrors, rfl, rfl⟩ := h
  exact ⟨text ++ more, errors, errors', herrors, c.print_extend .., c'.print_extend ..⟩

theorem Console.SameButLines.warn {c c' d d' : Console} (h : c.SameButLines c' d d')
    {message message' : String} (hmessage : MiniScheme.SameButLine message message') :
    c.SameButLines c' { d with stderr := d.stderr ++ message ++ "\n" }
      { d' with stderr := d'.stderr ++ message' ++ "\n" } := by
  obtain ⟨text, errors, errors', herrors, rfl, rfl⟩ := h
  exact ⟨text, _, _, herrors.append hmessage, c.warn_extend .., c'.warn_extend ..⟩

theorem Console.SameButLines.raisesPanics_eq {c c' d d' : Console} (h : c.SameButLines c' d d')
    (hraises : c'.raisesPanics = c.raisesPanics) : d'.raisesPanics = d.raisesPanics := by
  obtain ⟨text, errors, errors', _, rfl, rfl⟩ := h
  rw [raisesPanics_extend, raisesPanics_extend, hraises]

namespace Correspondence

variable {s s' t t' : Store} {limit : Nat}

def layout (s s' : Store) : Correspondence where
  addr := Shift s.fresh s'.fresh
  home := Shift s.fresh s'.fresh
  identity := Shift s.nextClosure s'.nextClosure
  name _ _ := True
  common _ := False
  expr := Expr.Relined
  error := EvalError.Relined
  console := s.console.SameButLines s'.console

theorem upTo_layout (s s' : Store) : (layout s s').UpTo (fun _ _ => True) fun _ => True where
  expr h := h
  name _ _ := trivial
  error _ shape fault := .line _ _ shape fault
  error_refl := .same

theorem lawful_layout (s s' : Store) : (layout s s').Lawful where
  addr_biUnique := biUnique_shift _ _
  home_biUnique := biUnique_shift _ _
  identity_biUnique := biUnique_shift _ _
  expands := (upTo_layout s s').expands
  error_refl := .same
  print h text := h.print text

theorem relates_layout (s s' : Store) : (layout s s').Relates s s' where
  frames := by
    rintro _ _ ⟨i, rfl, rfl⟩
    rw [s.frames_fresh_add, s'.frames_fresh_add]
    exact .none
  common _ := False.elim
  fresh i := ⟨i, rfl, rfl⟩
  nextClosure i := ⟨i, rfl, rfl⟩
  console := ⟨"", "", "", .nil, (Console.extend_empty _).symm, (Console.extend_empty _).symm⟩

theorem pairs_panicWith_layout {α : Type} {P : α → α → Prop}
    (hraises : s'.console.raisesPanics = s.console.raisesPanics)
    (ht : (layout s s').Relates t t') {text text' : Except ArithmeticError String}
    (h : ExceptRel SameButLine Eq text text') :
    (layout s s').Pairs t t' (Run.panicWith text) (Run.panicWith text') P
      Failure.SameButLine := by
  refine pairs_panicWith_rel ?_ ?_ (fun _ _ hmessage => .panic hmessage) .same ht h
  · exact fun _ _ hconsole => hconsole.raisesPanics_eq hraises
  · exact fun _ _ _ _ hconsole hmessage => hconsole.warn hmessage

theorem panics_layout (hraises : s'.console.raisesPanics = s.console.raisesPanics) :
    (layout s s').Panics Failure.SameButLine :=
  fun _ _ _ _ ht herr => pairs_panicWith_layout hraises ht herr.text

theorem pairs_evalProgram_layout
    (hraises : s'.console.raisesPanics = s.console.raisesPanics) {es es' : List Expr}
    (hes : List.Forall₂ Expr.Relined es es') :
    (layout s s').Pairs s s' (Run.newGlobal >>= evalProgram limit es)
      (Run.newGlobal >>= evalProgram limit es') (layout s s').Matches Failure.SameButLine := by
  have hs := relates_layout s s'
  have hglobal : (layout s s').Pairs s s' Run.newGlobal Run.newGlobal (layout s s').addr
      Failure.SameButLine :=
    ⟨hs.alloc (biUnique_shift _ _) (frameMatches_globalFrame hs.addr_fresh), hs.addr_fresh⟩
  refine hglobal.bind fun t t' a a' ht ha => ?_
  exact (lawful_layout s s').pairs_evalProgram (panics_layout hraises) .same ht ha hes

theorem pairs_read_layout {α : Type} {P : α → α → Prop}
    (hraises : s'.console.raisesPanics = s.console.raisesPanics) {failure failure' : Failure}
    (h : failure.Relined failure') :
    (layout s s').Pairs s s' (Run.read (.error failure)) (Run.read (.error failure')) P
      Failure.SameButLine := by
  have hs := relates_layout s s'
  cases h with
  | read line line' shape fault =>
    exact pairs_panicWith_layout hraises hs (ReadError.relined_text line line' shape fault)
  | same failure =>
    cases failure with
    | read err =>
      exact pairs_panicWith_layout hraises hs (exceptRel_refl .same (fun _ => rfl) err.text)
    | _ => exact pairs_throw hs (.same _)

end Correspondence

open Correspondence

/-- Layout does not matter: with the same tokens on other lines a source ends alike in a fresh
global environment, in a value with the same printed form or in a failure that says the same but
for the number of a line, and it prints the same. -/
theorem interpret_of_map_shape_eq {source source' : String}
    (hshapes : (scan source).map (·.shape) = (scan source').map (·.shape)) {s s' : Store}
    (hraises : s'.console.raisesPanics = s.console.raisesPanics) (limit : Nat) :
    Run.Pairs (interpret limit source none) s (interpret limit source' none) s'
      (fun v t v' t' => (∀ limit, v'.text limit = v.text limit) ∧
        s.console.SameButLines s'.console t.console t'.console)
      fun failure t failure' t' => failure.SameButLine failure' ∧
        s.console.SameButLines s'.console t.console t'.console := by
  have hts : List.Forall₂ Token.Relined (scan source) (scan source') := by
    have hmap : List.Forall₂ Eq ((scan source).map (·.shape)) ((scan source').map (·.shape)) := by
      rw [hshapes, List.forall₂_eq_eq_eq]
    simpa only [List.forall₂_map_left_iff, List.forall₂_map_right_iff] using hmap
  have hpairs : (layout s s').Pairs s s' (interpret limit source none)
      (interpret limit source' none) (layout s s').Matches Failure.SameButLine := by
    -- reading uses no store, so both sides read, or both panic
    have hreads := @relined_readProgram limit _ _ hts
    cases hread : readProgram limit (scan source) with
    | ok es =>
      obtain ⟨es', hread', hes⟩ := (hread ▸ hreads).exists_ok
      rw [interpret_of_read hread, interpret_of_read hread']
      exact pairs_evalProgram_layout hraises hes
    | error failure =>
      obtain ⟨failure', hread', hfailure⟩ := (hread ▸ hreads).exists_error
      unfold interpret readTokens
      rw [hread, hread']
      exact (pairs_read_layout (P := fun _ _ => False) hraises hfailure).bind
        fun _ _ _ _ _ h => h.elim
  refine Run.Pairs.mono hpairs ?_ ?_
  · exact fun v t v' t' ⟨ht, hv⟩ => ⟨hv.text_eq, ht.console⟩
  · exact fun failure t failure' t' ⟨ht, hfailure⟩ => ⟨hfailure, ht.console⟩

theorem interpret_of_map_shape_eq_newline :
    let source := "(define f (lambda (x)\n (car x))) (f #t)"
    let source' := "(define f (lambda (x) (car x))) (f #t)"
    (scan source).map (·.shape) = (scan source').map (·.shape) ∧
      Run.Pairs (interpret 50 source none) {} (interpret 50 source' none) {}
        (fun v t v' t' => (∀ limit, v'.text limit = v.text limit) ∧
          Console.SameButLines {} {} t.console t'.console)
        fun failure t failure' t' => failure.SameButLine failure' ∧
          Console.SameButLines {} {} t.console t'.console := by
  intro source source'
  have hshapes : (scan source).map (·.shape) = (scan source').map (·.shape) := by decide +kernel
  exact ⟨hshapes, interpret_of_map_shape_eq hshapes rfl 50⟩

end MiniScheme
