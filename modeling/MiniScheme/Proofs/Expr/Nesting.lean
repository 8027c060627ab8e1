import Mathlib.Data.List.Infix
import MiniScheme.Proofs.Expr.Program

/-! When reading a program fails, and where. Parentheses are followed by a stack that knows
nothing of expressions: it holds the left ones without a partner, and beside it stand the right
ones that met it empty. -/

namespace MiniScheme

structure Nesting where
  opened : List Token
  strays : List Token

namespace Nesting

def start : Nesting := ⟨[], []⟩

def step (n : Nesting) (t : Token) : Nesting :=
  match t.shape, n.opened with
  | .leftParen, _ => { n with opened := t :: n.opened }
  | .rightParen, _ :: outer => { n with opened := outer }
  | .rightParen, [] => { n with strays := n.strays ++ [t] }
  | _, _ => n

def after (n : Nesting) (ts : List Token) : Nesting := ts.foldl step n

@[simp]
theorem after_nil (n : Nesting) : n.after [] = n := rfl

@[simp]
theorem after_cons (n : Nesting) (t : Token) (ts : List Token) :
    n.after (t :: ts) = (n.step t).after ts := rfl

def Within (limit : Nat) (n : Nesting) (ts : List Token) : Prop :=
  ∀ front, front <+: ts → (∀ t ∈ front, t.shape ≠ .endOfInput) →
    (n.after front).opened.length ≤ limit

theorem Within.head {limit : Nat} {n : Nesting} {t : Token} {ts : List Token}
    (h : n.Within limit (t :: ts)) (ht : t.shape ≠ .endOfInput) :
    (n.step t).opened.length ≤ limit :=
  h [t] (by simp) (by simpa using ht)

theorem Within.tail {limit : Nat} {n : Nesting} {t : Token} {ts : List Token}
    (h : n.Within limit (t :: ts)) (ht : t.shape ≠ .endOfInput) :
    (n.step t).Within limit ts := by
  intro front hfront hshape
  have hcons : t :: front <+: t :: ts := (List.prefix_cons_inj t).mpr hfront
  exact h (t :: front) hcons (List.forall_mem_cons.mpr ⟨ht, hshape⟩)

theorem opened_step_congr {n m : Nesting} (h : n.opened = m.opened) (t : Token) :
    (n.step t).opened = (m.step t).opened := by
  obtain ⟨opened, _⟩ := n
  obtain ⟨_, _⟩ := m
  obtain rfl : opened = _ := h
  unfold step
  cases t.shape <;> cases opened <;> rfl

theorem opened_after_congr {n m : Nesting} (h : n.opened = m.opened) (ts : List Token) :
    (n.after ts).opened = (m.after ts).opened := by
  induction ts generalizing n m with
  | nil => exact h
  | cons t ts ih => exact ih (opened_step_congr h t)

theorem Within.congr {limit : Nat} {n m : Nesting} {ts : List Token} (h : n.Within limit ts)
    (hopened : n.opened = m.opened) : m.Within limit ts := by
  intro front hfront hshape
  rw [← opened_after_congr hopened front]
  exact h front hfront hshape

end Nesting

/-- A program nests within a limit if reading it never has more lists open. An end of the input
ends every list, so only what stands before the first one counts. -/
def NestsWithin (limit : Nat) (ts : List Token) : Prop := Nesting.start.Within limit ts

instance (limit : Nat) (ts : List Token) : Decidable (NestsWithin limit ts) :=
  decidable_of_iff (∀ front ∈ ts.inits, (∀ t ∈ front, t.shape ≠ .endOfInput) →
    (Nesting.start.after front).opened.length ≤ limit) (by simp only [List.mem_inits]; rfl)

def Token.isMalformed (t : Token) : Bool :=
  match t.shape with
  | .badNumber _ => true
  | _ => false

def Token.stray (t : Token) : Expr := .stray t.line "unexpected )"

def Expr.isStray : Expr → Bool
  | .stray .. => true
  | _ => false

namespace Read

namespace Progress

def opened : Progress → List Token
  | .finished _ => []
  | .pending stack => stack.map Open.paren

def strays : Progress → List Expr
  | .finished e => [e].filter Expr.isStray
  | .pending _ => []

def program (limit : Nat) (last : Token) (p : Progress) (ts : List Token) :
    Except Stop (List Expr) :=
  match p.resume limit last ts with
  | .error stop => .error stop
  | .ok (e, rest) => if atEnd rest then .ok [e] else (Read.program limit last rest).map (e :: ·)

end Progress

variable {limit : Nat} {last t : Token} {stack : List Open} {ts : List Token} {n : Nesting}

theorem program_eq (limit : Nat) (last : Token) (ts : List Token) :
    program limit last ts = (Progress.pending []).program limit last ts := by
  simp only [Progress.program, Progress.resume, ← next_eq_onStack]
  cases hnext : next limit last ts with
  | error stop => exact program_of_error hnext
  | ok r => exact program_of_ok hnext

theorem pending_program_cons {p : Progress} (ht : t.shape ≠ .endOfInput)
    (hstep : step limit stack t = .ok p) :
    (Progress.pending stack).program limit last (t :: ts) = p.program limit last ts := by
  simp only [Progress.program, Progress.resume, onStack_cons ht, hstep]

theorem finished_program (e : Expr) (hend : ¬atEnd ts) :
    (Progress.finished e).program limit last ts =
      ((Progress.pending []).program limit last ts).map (e :: ·) := by
  rw [← program_eq]
  exact if_neg hend

theorem not_atEnd_append {us : List Token} (hne : ts ≠ [])
    (hts : ∀ t ∈ ts, t.shape ≠ .endOfInput) : ¬atEnd (ts ++ us) := by
  obtain ⟨t, ts, rfl⟩ := List.exists_cons_of_ne_nil hne
  have ht : t.shape ≠ .endOfInput := hts t List.mem_cons_self
  simpa [atEnd] using ht

theorem deliver_ne_pending_nil (e : Expr) (stack : List Open) : deliver e stack ≠ .pending [] := by
  intro h
  cases stack <;> cases h

theorem step_ne_pending_nil : step limit stack t ≠ .ok (.pending []) := by
  intro h
  generalize hp : Progress.pending [] = p at h
  cases takes_of_step h with
  | opens | stray => cases hp
  | @closes o outer => exact deliver_ne_pending_nil _ outer hp.symm
  | atom => exact deliver_ne_pending_nil _ stack hp.symm

theorem opened_deliver (e : Expr) (stack : List Open) :
    (deliver e stack).opened = stack.map Open.paren := by
  cases stack <;> rfl

theorem strays_deliver {e : Expr} (he : e.isStray = false) (stack : List Open) :
    (deliver e stack).strays = [] := by
  cases stack with
  | nil => simp [deliver, Progress.strays, he]
  | cons o outer => rfl

theorem step_nesting {p : Progress} (hopened : stack.map Open.paren = n.opened)
    (h : step limit stack t = .ok p) :
    p.opened = (n.step t).opened ∧
      n.strays.map Token.stray ++ p.strays = (n.step t).strays.map Token.stray := by
  obtain ⟨_, strays⟩ := n
  obtain rfl : stack.map Open.paren = _ := hopened
  cases takes_of_step h with
  | opens => exact ⟨rfl, List.append_nil _⟩
  | stray =>
    refine ⟨rfl, ?_⟩
    simp [Nesting.step, Progress.strays, Expr.isStray, Token.stray]
  | @closes o outer =>
    refine ⟨opened_deliver _ outer, ?_⟩
    rw [strays_deliver rfl, List.append_nil]
    rfl
  | atom =>
    refine ⟨opened_deliver _ stack, ?_⟩
    rw [strays_deliver rfl, List.append_nil]
    rfl

theorem length_lt_of_leftParen {line : Nat} (hopened : stack.map Open.paren = n.opened)
    (hlimit : (n.step ⟨line, .leftParen⟩).opened.length ≤ limit) : stack.length < limit := by
  simpa [Nesting.step, ← hopened, Nat.succ_le_iff] using hlimit

theorem exists_step (hopened : stack.map Open.paren = n.opened) (ht : t.shape ≠ .endOfInput)
    (hform : t.isMalformed = false) (hlimit : (n.step t).opened.length ≤ limit) :
    ∃ p, step limit stack t = .ok p := by
  cases hstep : step limit stack t with
  | ok p => exact ⟨p, rfl⟩
  | error failure =>
    cases takes_of_step hstep with
    | tooDeep hlen => exact absurd (length_lt_of_leftParen hopened hlimit) hlen
    | malformed => cases hform
    | ended => exact absurd rfl ht

theorem program_malformed (last : Token) (hts : ∀ t ∈ ts, t.shape ≠ .endOfInput)
    (hopened : stack.map Open.paren = n.opened) (hnests : n.Within limit ts)
    (hfind : ts.find? Token.isMalformed = some t) (us : List Token) :
    ∃ rest, (Progress.pending stack).program limit last (ts ++ us) =
      .error ⟨.read ⟨t, .malformedNumber⟩, rest⟩ := by
  induction ts generalizing stack n with
  | nil => cases hfind
  | cons u ts ih =>
    obtain ⟨hu, hts⟩ := List.forall_mem_cons.mp hts
    rw [List.cons_append]
    rw [List.find?_cons] at hfind
    cases hform : u.isMalformed with
    | true =>
      obtain rfl : u = t := by simpa [hform] using hfind
      refine ⟨ts ++ us, ?_⟩
      obtain ⟨line, shape⟩ := u
      cases shape with
      | badNumber written => rfl
      | _ => cases hform
    | false =>
      rw [hform] at hfind
      obtain ⟨p, hstep⟩ := exists_step hopened hu hform (hnests.head hu)
      have hp := (step_nesting hopened hstep).1
      rw [pending_program_cons hu hstep]
      cases p with
      | pending stack' => exact ih hts hp (hnests.tail hu) hfind
      | finished e =>
        have hne : ts ≠ [] := by
          rintro rfl
          cases hfind
        have hnil : ([] : List Open).map Open.paren = (n.step u).opened := hp
        obtain ⟨rest, hrest⟩ := ih hts hnil (hnests.tail hu) hfind
        refine ⟨rest, ?_⟩
        rw [finished_program e (not_atEnd_append hne hts), hrest]
        rfl

structure Judged (before after : Nesting) (r : Except Stop (List Expr)) : Prop where
  unclosed {t : Token} {outer : List Token} (h : after.opened = t :: outer) :
    ∃ rest, r = .error ⟨.read ⟨t, .unclosed⟩, rest⟩
  closed (h : after.opened = []) :
    ∃ es, r = .ok es ∧ before.strays.map Token.stray ++ es.filter Expr.isStray =
      after.strays.map Token.stray

theorem Judged.cons {before between after : Nesting} {e : Expr} {r : Except Stop (List Expr)}
    (hstrays : before.strays.map Token.stray ++ (Progress.finished e).strays =
      between.strays.map Token.stray) (h : Judged between after r) :
    Judged before after (r.map (e :: ·)) where
  unclosed hopened := by
    obtain ⟨rest, rfl⟩ := h.unclosed hopened
    exact ⟨rest, rfl⟩
  closed hopened := by
    obtain ⟨es, rfl, hall⟩ := h.closed hopened
    refine ⟨e :: es, rfl, ?_⟩
    rw [← hall, ← hstrays, List.append_assoc, Progress.strays, ← List.filter_append,
      List.singleton_append]

theorem judged_atEnd (last : Token) {eof : Token} (heof : eof.shape = .endOfInput)
    {n' : Nesting} {p : Progress} (hopened : p.opened = n'.opened)
    (hstrays : n.strays.map Token.stray ++ p.strays = n'.strays.map Token.stray)
    (hp : p ≠ .pending []) : Judged n n' (p.program limit last [eof]) := by
  cases p with
  | finished e =>
    have hend : (Progress.finished e).program limit last [eof] = .ok [e] := by
      simp [Progress.program, Progress.resume, atEnd, heof]
    rw [hend]
    refine ⟨fun h => ?_, fun _ => ⟨[e], rfl, hstrays⟩⟩
    cases hopened.trans h
  | pending stack =>
    cases stack with
    | nil => exact absurd rfl hp
    | cons o outer =>
      -- an end of the input closes no list
      refine ⟨fun h => ⟨[eof], ?_⟩, fun h => ?_⟩
      · obtain rfl : o.paren = _ := (List.cons.inj (hopened.trans h)).1
        simp [Progress.program, Progress.resume, onStack, heof]
      · cases hopened.trans h

theorem program_wellFormed (last : Token) {eof : Token} (heof : eof.shape = .endOfInput)
    (hts : ∀ t ∈ ts, t.shape ≠ .endOfInput) (hopened : stack.map Open.paren = n.opened)
    (hnests : n.Within limit ts) (hform : ∀ t ∈ ts, t.isMalformed = false)
    (hsome : stack = [] → ts ≠ []) :
    Judged n (n.after ts) ((Progress.pending stack).program limit last (ts ++ [eof])) := by
  induction ts generalizing stack n with
  | nil =>
    refine judged_atEnd last heof hopened (List.append_nil _) fun h => ?_
    cases h
    exact hsome rfl rfl
  | cons u ts ih =>
    obtain ⟨hu, hts⟩ := List.forall_mem_cons.mp hts
    obtain ⟨hform, hforms⟩ := List.forall_mem_cons.mp hform
    obtain ⟨p, hstep⟩ := exists_step hopened hu hform (hnests.head hu)
    obtain ⟨hp, hstrays⟩ := step_nesting hopened hstep
    rw [List.cons_append, pending_program_cons hu hstep, Nesting.after_cons]
    cases ts with
    | nil => exact judged_atEnd last heof hp hstrays fun h => step_ne_pending_nil (h ▸ hstep)
    | cons v vs =>
      have hne : v :: vs ≠ [] := List.cons_ne_nil v vs
      cases p with
      | pending stack' =>
        have hsame : n.strays.map Token.stray = (n.step u).strays.map Token.stray := by
          rw [← hstrays, Progress.strays, List.append_nil]
        have hjudged := ih hts hp (hnests.tail hu) hforms fun _ => hne
        exact ⟨hjudged.unclosed, hsame ▸ hjudged.closed⟩
      | finished e =>
        have hnil : ([] : List Open).map Open.paren = (n.step u).opened := hp
        rw [finished_program e (not_atEnd_append hne hts)]
        exact (ih hts hnil (hnests.tail hu) hforms fun _ => hne).cons hstrays

end Read

def Refuses (limit : Nat) (ts : List Token) (anchor : Token) (message : String) : Prop :=
  ∃ err, readProgram limit ts = .error (.read err) ∧ err.anchor = anchor ∧
    err.fault.message = message

theorem refuses_of_program {limit : Nat} {ts rest : List Token} {anchor : Token}
    {fault : ReadFault} (h : (Read.Progress.pending []).program limit (Read.lastToken ts) ts =
      .error ⟨.read ⟨anchor, fault⟩, rest⟩) : Refuses limit ts anchor fault.message := by
  refine ⟨⟨anchor, fault⟩, ?_, rfl, rfl⟩
  rw [readProgram, Read.program_eq, h]
  rfl

/-- Every list of tokens behind which the input ends is judged: nothing at all, else the first
malformed number, else the innermost list left open; and if it is read, its stray parentheses
are those that close nothing. -/
theorem readProgram_verdict {limit : Nat} {ts : List Token} {eof : Token}
    (heof : eof.shape = .endOfInput) (hts : ∀ t ∈ ts, t.shape ≠ .endOfInput)
    (hnests : NestsWithin limit ts) :
    (ts = [] → Refuses limit (ts ++ [eof]) eof "unexpected end-of-stream token") ∧
    (∀ t, ts.find? Token.isMalformed = some t →
      Refuses limit (ts ++ [eof]) t "malformed number") ∧
    (ts ≠ [] → ts.find? Token.isMalformed = none →
      (∀ t outer, (Nesting.start.after ts).opened = t :: outer →
        Refuses limit (ts ++ [eof]) t "unbalanced parenthesis, missing right parenthesis") ∧
      ((Nesting.start.after ts).opened = [] →
        ∃ es, readProgram limit (ts ++ [eof]) = .ok es ∧
          es.filter Expr.isStray = (Nesting.start.after ts).strays.map Token.stray)) := by
  have hopened : ([] : List Read.Open).map Read.Open.paren = Nesting.start.opened := rfl
  refine ⟨?_, ?_, ?_⟩
  · rintro rfl
    have hfail : (Read.Progress.pending []).program limit (Read.lastToken [eof]) [eof] =
        .error ⟨.read ⟨eof, .unexpectedEnd⟩, []⟩ := by
      simp [Read.Progress.program, Read.Progress.resume, Read.onStack, Read.step, heof]
    exact refuses_of_program hfail
  · intro t hfind
    obtain ⟨rest, hrest⟩ := Read.program_malformed (Read.lastToken (ts ++ [eof])) hts hopened
      hnests hfind [eof]
    exact refuses_of_program hrest
  · intro hne hfind
    have hform : ∀ t ∈ ts, t.isMalformed = false := by
      simpa using List.find?_eq_none.mp hfind
    have hjudged := Read.program_wellFormed (Read.lastToken (ts ++ [eof])) heof hts hopened hnests
      hform fun _ => hne
    constructor
    · intro t outer h
      obtain ⟨rest, hrest⟩ := hjudged.unclosed h
      exact refuses_of_program hrest
    · intro h
      obtain ⟨es, hes, hstrays⟩ := hjudged.closed h
      rw [← Read.program_eq] at hes
      exact ⟨es, readProgram_eq_ok.mpr hes, hstrays⟩

theorem readProgram_two_strays :
    ∃ es, readProgram 1 [⟨0, .rightParen⟩, ⟨0, .leftParen⟩, ⟨1, .rightParen⟩, ⟨2, .rightParen⟩,
        ⟨2, .endOfInput⟩] = .ok es ∧
      es.filter Expr.isStray = [.stray 0 "unexpected )", .stray 2 "unexpected )"] := by
  have hts : ∀ t ∈ [(⟨0, .rightParen⟩ : Token), ⟨0, .leftParen⟩, ⟨1, .rightParen⟩,
      ⟨2, .rightParen⟩], t.shape ≠ .endOfInput := by decide
  have hnests : NestsWithin 1 [⟨0, .rightParen⟩, ⟨0, .leftParen⟩, ⟨1, .rightParen⟩,
      ⟨2, .rightParen⟩] := by decide
  have heof : (⟨2, .endOfInput⟩ : Token).shape = .endOfInput := rfl
  exact ((readProgram_verdict heof hts hnests).2.2 (List.cons_ne_nil _ _) rfl).2 rfl

end MiniScheme
