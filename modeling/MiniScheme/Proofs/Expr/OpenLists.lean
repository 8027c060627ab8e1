import MiniScheme.Proofs.Expr.Stack

/-! One expression read from tokens. The tokens taken so far are at any time those of the lists
still open, and the tokens of a clean expression lead to that expression. -/

namespace MiniScheme

namespace Read

open MiniScheme.Expr

inductive Takes (limit : Nat) : List Open → Token → Except Failure Progress → Prop
  | opens {stack : List Open} {line : Nat} (h : stack.length < limit) :
      Takes limit stack ⟨line, .leftParen⟩ (.ok (.pending (⟨line, []⟩ :: stack)))
  | tooDeep {stack : List Open} {line : Nat} (h : ¬stack.length < limit) :
      Takes limit stack ⟨line, .leftParen⟩ (.error .tooDeep)
  | stray {line : Nat} :
      Takes limit [] ⟨line, .rightParen⟩ (.ok (.finished (.stray line "unexpected )")))
  | closes {o : Open} {outer : List Open} {line : Nat} :
      Takes limit (o :: outer) ⟨line, .rightParen⟩ (.ok (deliver o.close outer))
  | atom {stack : List Open} {line : Nat} {a : Atom} :
      Takes limit stack ⟨line, .atom a⟩ (.ok (deliver (.atom line a) stack))
  | malformed {stack : List Open} {line : Nat} {written : String} :
      Takes limit stack ⟨line, .badNumber written⟩
        (.error (.read ⟨⟨line, .badNumber written⟩, .malformedNumber⟩))
  | ended {stack : List Open} {line : Nat} :
      Takes limit stack ⟨line, .endOfInput⟩
        (.error (.read ⟨⟨line, .endOfInput⟩, .unexpectedEnd⟩))

theorem takes_step (limit : Nat) (stack : List Open) (t : Token) :
    Takes limit stack t (step limit stack t) := by
  obtain ⟨line, shape⟩ := t
  cases shape with
  | leftParen =>
    simp only [step]
    split
    · exact .opens ‹_›
    · exact .tooDeep ‹_›
  | rightParen =>
    cases stack with
    | nil => exact .stray
    | cons o outer => exact .closes
  | atom a => exact .atom
  | badNumber written => exact .malformed
  | endOfInput => exact .ended

theorem takes_of_step {limit : Nat} {stack : List Open} {t : Token} {r : Except Failure Progress}
    (h : step limit stack t = r) : Takes limit stack t r := h ▸ takes_step limit stack t

/-- The machine comes to an expression, with some tokens left. -/
inductive Delivers (limit : Nat) : List Open → List Token → Expr → List Token → Prop
  | here {stack : List Open} {t : Token} {ts : List Token} {e : Expr}
      (hstep : step limit stack t = .ok (.finished e)) : Delivers limit stack (t :: ts) e ts
  | onward {stack stack' : List Open} {t : Token} {ts rest : List Token} {e : Expr}
      (hstep : step limit stack t = .ok (.pending stack')) (h : Delivers limit stack' ts e rest) :
      Delivers limit stack (t :: ts) e rest

/-- The machine stops: nothing is left, a list is open at the end, or a token is refused. -/
inductive Stops (limit : Nat) (last : Token) : List Open → List Token → Stop → Prop
  | noToken : Stops limit last [] [] ⟨.read ⟨last, .noToken⟩, []⟩
  | unclosed {o : Open} {outer : List Open} {ts : List Token} (hend : atEnd ts) :
      Stops limit last (o :: outer) ts ⟨.read ⟨o.paren, .unclosed⟩, ts⟩
  | refused {stack : List Open} {t : Token} {ts : List Token} {failure : Failure}
      (hstep : step limit stack t = .error failure) :
      Stops limit last stack (t :: ts) ⟨failure, ts⟩
  | onward {stack stack' : List Open} {t : Token} {ts : List Token} {stop : Stop}
      (hstep : step limit stack t = .ok (.pending stack')) (h : Stops limit last stack' ts stop) :
      Stops limit last stack (t :: ts) stop

theorem delivers_of_onStack {limit : Nat} {last : Token} {stack : List Open}
    {ts rest : List Token} {e : Expr} (h : onStack limit last stack ts = .ok (e, rest)) :
    Delivers limit stack ts e rest := by
  induction ts generalizing stack with
  | nil => cases stack <;> cases h
  | cons t ts ih =>
    unfold onStack at h
    split at h
    · cases h
    · split at h
      · cases h
      · rename_i hstep
        cases h
        exact .here hstep
      · rename_i hstep
        exact .onward hstep (ih h)

theorem stops_of_onStack {limit : Nat} {last : Token} {stack : List Open} {ts : List Token}
    {stop : Stop} (h : onStack limit last stack ts = .error stop) :
    Stops limit last stack ts stop := by
  induction ts generalizing stack with
  | nil =>
    cases stack with
    | nil =>
      cases h
      exact .noToken
    | cons o outer =>
      cases h
      exact .unclosed rfl
  | cons t ts ih =>
    unfold onStack at h
    split at h
    · rename_i hshape
      cases h
      exact .unclosed (beq_iff_eq.mpr hshape)
    · split at h
      · rename_i hstep
        cases h
        exact .refused hstep
      · cases h
      · rename_i hstep
        exact .onward hstep (ih h)

theorem delivers_of_next {limit : Nat} {last : Token} {ts rest : List Token} {e : Expr}
    (h : next limit last ts = .ok (e, rest)) : Delivers limit [] ts e rest :=
  delivers_of_onStack ((next_eq_onStack limit last ts).symm.trans h)

theorem stops_of_next {limit : Nat} {last : Token} {ts : List Token} {stop : Stop}
    (h : next limit last ts = .error stop) : Stops limit last [] ts stop :=
  stops_of_onStack ((next_eq_onStack limit last ts).symm.trans h)

def flattenOpen : List Open → List Mark
  | [] => []
  | o :: outer => flattenOpen outer ++ ⟨some o.line, .leftParen⟩ :: flattenEach o.items.reverse

/-- Open lists hold clean expressions, and with all that is in them they do not nest deeper than
`limit`. -/
def WithinLimit (limit : Nat) : List Open → Prop
  | [] => True
  | o :: outer => outer.length < limit ∧
      (∀ e ∈ o.items, e.Clean ∧ outer.length + 1 + e.depth ≤ limit) ∧ WithinLimit limit outer

namespace Progress

def flatten : Progress → List Mark
  | .finished e => e.flatten
  | .pending stack => flattenOpen stack

def WithinLimit (limit : Nat) : Progress → Prop
  | .finished e => e.TopLevel ∧ e.depth ≤ limit
  | .pending stack => Read.WithinLimit limit stack

end Progress

theorem flatten_deliver (e : Expr) (stack : List Open) :
    (deliver e stack).flatten = flattenOpen stack ++ e.flatten := by
  cases stack with
  | nil => rfl
  | cons o outer =>
    simp only [deliver, Progress.flatten, Open.push, flattenOpen, List.reverse_cons,
      flattenEach_append, flattenEach, List.append_nil, List.append_assoc, List.cons_append]

theorem withinLimit_deliver {limit : Nat} {e : Expr} {stack : List Open}
    (hstack : WithinLimit limit stack) (he : e.Clean) (hdepth : stack.length + e.depth ≤ limit) :
    (deliver e stack).WithinLimit limit := by
  cases stack with
  | nil => exact ⟨.clean he, by simpa using hdepth⟩
  | cons o outer =>
    obtain ⟨hlen, hitems, houter⟩ := hstack
    exact ⟨hlen, List.forall_mem_cons.mpr ⟨⟨he, hdepth⟩, hitems⟩, houter⟩

theorem clean_close {o : Open} (h : ∀ e ∈ o.items, e.Clean) : o.close.Clean :=
  .list o.line fun e he => h e (List.mem_reverse.mp he)

theorem flatten_step {limit : Nat} {stack : List Open} {t : Token} {p : Progress}
    (h : step limit stack t = .ok p) :
    ∃ m : Mark, m.Fits t ∧ p.flatten = flattenOpen stack ++ [m] := by
  cases takes_of_step h with
  | @opens _ line _ => exact ⟨⟨some line, .leftParen⟩, Mark.fits_some.mpr rfl, rfl⟩
  | @stray line => exact ⟨⟨some line, .rightParen⟩, Mark.fits_some.mpr rfl, rfl⟩
  | closes =>
    refine ⟨.closing, Mark.fits_closing.mpr rfl, ?_⟩
    simp only [flatten_deliver, Open.close, Expr.flatten, flattenOpen, List.append_assoc,
      List.cons_append]
  | @atom _ line a => exact ⟨⟨some line, .atom a⟩, Mark.fits_some.mpr rfl, flatten_deliver _ _⟩

theorem withinLimit_step {limit : Nat} {stack : List Open} {t : Token} {p : Progress}
    (h : step limit stack t = .ok p) (hstack : WithinLimit limit stack) : p.WithinLimit limit := by
  cases takes_of_step h with
  | opens hlen => exact ⟨hlen, List.forall_mem_nil _, hstack⟩
  | stray => exact ⟨.stray _, Nat.zero_le limit⟩
  | @closes o outer =>
    obtain ⟨hlen, hitems, houter⟩ := hstack
    refine withinLimit_deliver houter (clean_close fun e he => (hitems e he).1) ?_
    have hdepth : depthEach o.items.reverse ≤ limit - (outer.length + 1) := by
      refine depthEach_le fun e he => ?_
      have := (hitems e (List.mem_reverse.mp he)).2
      omega
    simp only [Open.close, depth]
    omega
  | @atom _ line =>
    cases stack with
    | nil => exact ⟨.clean (.atom line trivial), Nat.zero_le limit⟩
    | cons o outer =>
      exact withinLimit_deliver hstack (.atom line trivial) hstack.1

theorem Delivers.flatten {limit : Nat} {stack : List Open} {ts rest : List Token} {e : Expr}
    (h : Delivers limit stack ts e rest) :
    ∃ marks taken, e.flatten = flattenOpen stack ++ marks ∧ ts = taken ++ rest ∧
      List.Forall₂ Mark.Fits marks taken := by
  induction h with
  | here hstep =>
    obtain ⟨m, hm, hflat⟩ := flatten_step hstep
    exact ⟨[m], [_], hflat, rfl, .cons hm .nil⟩
  | @onward stack stack' t ts rest e hstep h ih =>
    obtain ⟨m, hm, hopen⟩ := flatten_step hstep
    obtain ⟨marks, taken, hflat, rfl, hfits⟩ := ih
    refine ⟨m :: marks, t :: taken, ?_, rfl, .cons hm hfits⟩
    rw [hflat, show flattenOpen stack' = _ from hopen, List.append_assoc, List.singleton_append]

theorem Delivers.withinLimit {limit : Nat} {stack : List Open} {ts rest : List Token} {e : Expr}
    (h : Delivers limit stack ts e rest) (hstack : WithinLimit limit stack) :
    e.TopLevel ∧ e.depth ≤ limit := by
  induction h with
  | here hstep => exact withinLimit_step hstep hstack
  | onward hstep _ ih => exact ih (withinLimit_step hstep hstack)

theorem onStack_flattenEach {limit : Nat} {last : Token} {line : Nat} {outer : List Open}
    {es items : List Expr} {ts rest : List Token}
    (hes : ∀ e ∈ es, ∀ (items : List Expr) (us vs : List Token),
      List.Forall₂ Mark.Fits e.flatten us →
        onStack limit last (⟨line, items⟩ :: outer) (us ++ vs) =
          onStack limit last (⟨line, e :: items⟩ :: outer) vs)
    (hfits : List.Forall₂ Mark.Fits (flattenEach es) ts) :
    onStack limit last (⟨line, items⟩ :: outer) (ts ++ rest) =
      onStack limit last (⟨line, es.reverse ++ items⟩ :: outer) rest := by
  induction es generalizing items ts with
  | nil =>
    obtain rfl := List.forall₂_nil_left_iff.mp hfits
    rfl
  | cons e es ih =>
    obtain ⟨he, hes⟩ := List.forall_mem_cons.mp hes
    obtain ⟨us, vs, hus, hvs, rfl⟩ := Mark.forall₂_fits_append.mp hfits
    rw [List.append_assoc, he items us (vs ++ rest) hus, ih hes hvs, List.reverse_cons,
      List.append_assoc, List.singleton_append]

theorem onStack_flatten {e : Expr} (he : e.Clean) {limit : Nat} {last : Token} {stack : List Open}
    {ts rest : List Token} (hdepth : stack.length + e.depth ≤ limit)
    (hfits : List.Forall₂ Mark.Fits e.flatten ts) :
    onStack limit last stack (ts ++ rest) = (deliver e stack).resume limit last rest := by
  induction he generalizing stack ts rest with
  | atom line _ =>
    obtain ⟨t, us, ht, hus, rfl⟩ := List.forall₂_cons_left_iff.mp hfits
    obtain rfl := List.forall₂_nil_left_iff.mp hus
    obtain rfl := Mark.fits_some.mp ht
    rw [List.singleton_append, onStack_cons Shape.noConfusion]
    rfl
  | @list line items hclean ih =>
    rw [depth] at hdepth
    obtain ⟨t, us, ht, hus, rfl⟩ := List.forall₂_cons_left_iff.mp hfits
    obtain ⟨vs, ws, hvs, hws, rfl⟩ := Mark.forall₂_fits_append.mp hus
    obtain ⟨u, xs, hu, hxs, rfl⟩ := List.forall₂_cons_left_iff.mp hws
    obtain rfl := List.forall₂_nil_left_iff.mp hxs
    obtain rfl := Mark.fits_some.mp ht
    obtain ⟨close, shape⟩ := u
    obtain rfl : shape = .rightParen := Mark.fits_closing.mp hu
    have hopen : step limit stack ⟨line, .leftParen⟩ = .ok (.pending (⟨line, []⟩ :: stack)) :=
      if_pos (by omega)
    -- an item is read inside one more open list, for which the depth of this one leaves room
    have hitems : ∀ e ∈ items, ∀ (before : List Expr) (us vs : List Token),
        List.Forall₂ Mark.Fits e.flatten us →
          onStack limit last (⟨line, before⟩ :: stack) (us ++ vs) =
            onStack limit last (⟨line, e :: before⟩ :: stack) vs := by
      intro e he before us vs hus
      have hle := depth_le_depthEach he
      exact @ih e he (⟨line, before⟩ :: stack) us vs (by rw [List.length_cons]; omega) hus
    have hclose : step limit (⟨line, items.reverse⟩ :: stack) ⟨close, .rightParen⟩ =
        .ok (deliver (.list line items) stack) := by
      rw [step, Open.close, List.reverse_reverse]
    rw [List.cons_append, onStack_cons Shape.noConfusion, hopen]
    change onStack limit last (⟨line, []⟩ :: stack) _ = _
    rw [List.append_assoc, onStack_flattenEach hitems hvs, List.append_nil, List.singleton_append,
      onStack_cons Shape.noConfusion, hclose]

/-! What the recursion reads. -/

theorem flatten_next {limit : Nat} {last : Token} {ts rest : List Token} {e : Expr}
    (h : next limit last ts = .ok (e, rest)) :
    ∃ taken, ts = taken ++ rest ∧ List.Forall₂ Mark.Fits e.flatten taken := by
  obtain ⟨marks, taken, hflat, hts, hfits⟩ := (delivers_of_next h).flatten
  exact ⟨taken, hts, hflat ▸ hfits⟩

theorem topLevel_next {limit : Nat} {last : Token} {ts rest : List Token} {e : Expr}
    (h : next limit last ts = .ok (e, rest)) : e.TopLevel ∧ e.depth ≤ limit :=
  (delivers_of_next h).withinLimit trivial

theorem next_flatten {e : Expr} (he : e.TopLevel) {limit : Nat} {last : Token}
    {ts rest : List Token} (hdepth : e.depth ≤ limit)
    (hfits : List.Forall₂ Mark.Fits e.flatten ts) :
    next limit last (ts ++ rest) = .ok (e, rest) := by
  cases he with
  | clean he =>
    rw [next_eq_onStack]
    exact onStack_flatten he (by simpa using hdepth) hfits
  | stray line =>
    obtain ⟨t, us, ht, hus, rfl⟩ := List.forall₂_cons_left_iff.mp hfits
    obtain rfl := List.forall₂_nil_left_iff.mp hus
    obtain rfl := Mark.fits_some.mp ht
    exact next_of_onStack rfl

end Read
end MiniScheme
