import MiniScheme.Proofs.Eval.Like
import MiniScheme.Proofs.Expr.Program

/-! Reading tokens that differ in nothing but their lines. The expressions differ in nothing but
their lines either, and reading fails for the same reason. -/

namespace MiniScheme

abbrev Expr.Relined : Expr → Expr → Prop := Expr.Like (fun _ _ => True) fun _ => True

abbrev Token.Relined (t t' : Token) : Prop := t.shape = t'.shape

inductive Failure.Relined : Failure → Failure → Prop
  | same (failure : Failure) : Relined failure failure
  | read (line line' : Nat) (shape : Shape) (fault : ReadFault) :
      Relined (.read ⟨⟨line, shape⟩, fault⟩) (.read ⟨⟨line', shape⟩, fault⟩)

namespace Read

def Open.Relined (o o' : Open) : Prop := List.Forall₂ Expr.Relined o.items o'.items

inductive Progress.Relined : Progress → Progress → Prop
  | finished {e e' : Expr} (h : e.Relined e') : Relined (.finished e) (.finished e')
  | pending {stack stack' : List Open} (h : List.Forall₂ Open.Relined stack stack') :
      Relined (.pending stack) (.pending stack')

structure Stop.Relined (stop stop' : Stop) : Prop where
  failure : stop.failure.Relined stop'.failure
  rest : List.Forall₂ Token.Relined stop.rest stop'.rest

variable {limit : Nat} {last last' t t' : Token} {stack stack' : List Open}
  {ts ts' : List Token} {e e' : Expr}

theorem relined_atom (line line' : Nat) (a : Atom) :
    Expr.Relined (.atom line a) (.atom line' a) := by
  cases a with
  | symbol name => exact .symbol trivial trivial
  | _ => exact .atom trivial fun _ => nofun

theorem Open.Relined.push {o o' : Open} (h : o.Relined o') (he : e.Relined e') :
    (o.push e).Relined (o'.push e') := .cons he h

theorem Open.Relined.close {o o' : Open} (h : o.Relined o') : o.close.Relined o'.close :=
  Expr.like_list trivial (List.forall₂_reverse_iff.mpr h)

theorem relined_deliver (he : e.Relined e') (h : List.Forall₂ Open.Relined stack stack') :
    (deliver e stack).Relined (deliver e' stack') := by
  cases h with
  | nil => exact .finished he
  | cons ho houter => exact .pending (.cons (ho.push he) houter)

theorem relined_step (ht : t.Relined t') (h : List.Forall₂ Open.Relined stack stack') :
    ExceptRel Progress.Relined Failure.Relined (step limit stack t) (step limit stack' t') := by
  obtain ⟨line, shape⟩ := t
  obtain ⟨line', shape'⟩ := t'
  obtain rfl : shape = shape' := ht
  unfold step
  cases shape with
  | leftParen =>
    dsimp only
    rw [h.length_eq]
    split
    · exact .ok (.pending (.cons .nil h))
    · exact .error (.same .tooDeep)
  | rightParen =>
    cases h with
    | nil => exact .ok (.finished (.stray trivial _))
    | cons ho houter => exact .ok (relined_deliver ho.close houter)
  | atom a => exact .ok (relined_deliver (relined_atom line line' a) h)
  | badNumber written => exact .error (.read line line' _ _)
  | endOfInput => exact .error (.read line line' _ _)

theorem relined_onStack (hlast : last.Relined last') (h : List.Forall₂ Open.Relined stack stack')
    (hts : List.Forall₂ Token.Relined ts ts') :
    ExceptRel (fun p p' => p.1.Relined p'.1 ∧ List.Forall₂ Token.Relined p.2 p'.2) Stop.Relined
      (onStack limit last stack ts) (onStack limit last' stack' ts') := by
  -- an open list is named by its parenthesis, whatever its line is
  have hunclosed : ∀ {o o' : Open} {us us' : List Token}, List.Forall₂ Token.Relined us us' →
      Stop.Relined ⟨.read ⟨o.paren, .unclosed⟩, us⟩ ⟨.read ⟨o'.paren, .unclosed⟩, us'⟩ :=
    fun hus => ⟨.read _ _ _ _, hus⟩
  induction hts generalizing stack stack' with
  | nil =>
    cases h with
    | nil =>
      obtain ⟨line, shape⟩ := last
      obtain ⟨line', _⟩ := last'
      obtain rfl := hlast
      exact .error ⟨.read line line' _ _, .nil⟩
    | cons => exact .error (hunclosed .nil)
  | @cons t t' ts ts' ht hts ih =>
    by_cases hend : t.shape = .endOfInput
    · obtain ⟨line, shape⟩ := t
      obtain ⟨line', shape'⟩ := t'
      obtain rfl : shape = shape' := ht
      obtain rfl : shape = .endOfInput := hend
      cases h with
      | nil => exact .error ⟨.read line line' _ _, hts⟩
      | cons => exact .error (hunclosed (.cons rfl hts))
    · have hend' : t'.shape ≠ .endOfInput := ht ▸ hend
      rw [onStack_cons hend, onStack_cons hend']
      have hstep := @relined_step limit _ _ _ _ ht h
      generalize step limit stack t = r, step limit stack' t' = r' at hstep
      cases hstep with
      | error hfailure => exact .error ⟨hfailure, hts⟩
      | ok hprogress =>
        cases hprogress with
        | finished he => exact .ok ⟨he, hts⟩
        | pending hstack => exact ih hstack

theorem relined_next (hlast : last.Relined last') (hts : List.Forall₂ Token.Relined ts ts') :
    ExceptRel (fun p p' => p.1.Relined p'.1 ∧ List.Forall₂ Token.Relined p.2 p'.2) Stop.Relined
      (next limit last ts) (next limit last' ts') := by
  rw [next_eq_onStack, next_eq_onStack]
  exact relined_onStack hlast .nil hts

theorem relined_atEnd (hts : List.Forall₂ Token.Relined ts ts') : atEnd ts' = atEnd ts := by
  cases hts with
  | nil => rfl
  | cons ht => rw [atEnd, atEnd, ht]

theorem relined_program (hlast : last.Relined last') (hts : List.Forall₂ Token.Relined ts ts') :
    ExceptRel (List.Forall₂ Expr.Relined) Stop.Relined (program limit last ts)
      (program limit last' ts') := by
  induction ts using program.induct limit last generalizing ts' with
  | case1 ts stop hnext =>
    obtain ⟨stop', hnext', hstop⟩ := (hnext ▸ relined_next hlast hts).exists_error
    rw [program_of_error hnext, program_of_error hnext']
    exact .error hstop
  | case2 ts e rest hnext hend =>
    obtain ⟨⟨e', rest'⟩, hnext', he, hrest⟩ := (hnext ▸ relined_next hlast hts).exists_ok
    rw [program_of_ok hnext, program_of_ok hnext', relined_atEnd hrest, if_pos hend, if_pos hend]
    exact .ok (.cons he .nil)
  | case3 ts e rest hnext hend ih =>
    obtain ⟨⟨e', rest'⟩, hnext', he, hrest⟩ := (hnext ▸ relined_next hlast hts).exists_ok
    rw [program_of_ok hnext, program_of_ok hnext', relined_atEnd hrest, if_neg hend, if_neg hend]
    have hprogram := ih hrest
    generalize program limit last rest = r, program limit last' rest' = r' at hprogram
    cases hprogram with
    | ok hes => exact .ok (.cons he hes)
    | error hstop => exact .error hstop

theorem relined_lastToken (hts : List.Forall₂ Token.Relined ts ts') :
    (lastToken ts).Relined (lastToken ts') := by
  have hreverse := List.forall₂_reverse_iff.mpr hts
  rw [lastToken, lastToken, List.getLast?_eq_head?_reverse, List.getLast?_eq_head?_reverse]
  generalize ts.reverse = us, ts'.reverse = us' at hreverse
  cases hreverse with
  | nil => rfl
  | cons ht => exact ht

end Read

theorem relined_readProgram {limit : Nat} {ts ts' : List Token}
    (hts : List.Forall₂ Token.Relined ts ts') :
    ExceptRel (List.Forall₂ Expr.Relined) Failure.Relined (readProgram limit ts)
      (readProgram limit ts') := by
  have hprogram := @Read.relined_program limit _ _ _ _ (Read.relined_lastToken hts) hts
  unfold readProgram
  generalize Read.program limit (Read.lastToken ts) ts = r,
    Read.program limit (Read.lastToken ts') ts' = r' at hprogram
  cases hprogram with
  | ok hes => exact .ok hes
  | error hstop => exact .error hstop.failure

end MiniScheme
