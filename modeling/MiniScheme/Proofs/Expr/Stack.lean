import MiniScheme.Proofs.Expr.Flatten

/-! Reading with a stack in place of a recursion. The lists that are still open stand on the
stack, the innermost on top, and one token is taken at a time. What the recursion reads is what
is read on an empty stack. -/

namespace MiniScheme
namespace Read

structure Open where
  line : Nat
  items : List Expr

namespace Open

def paren (o : Open) : Token := ⟨o.line, .leftParen⟩

def push (o : Open) (e : Expr) : Open := { o with items := e :: o.items }

def close (o : Open) : Expr := .list o.line o.items.reverse

end Open

inductive Progress
  | finished (e : Expr)
  | pending (stack : List Open)

def deliver (e : Expr) : List Open → Progress
  | [] => .finished e
  | o :: outer => .pending (o.push e :: outer)

def step (limit : Nat) (stack : List Open) (t : Token) : Except Failure Progress :=
  match t.shape with
  | .leftParen =>
    if stack.length < limit then .ok (.pending (⟨t.line, []⟩ :: stack)) else .error .tooDeep
  | .rightParen =>
    match stack with
    | [] => .ok (.finished (.stray t.line "unexpected )"))
    | o :: outer => .ok (deliver o.close outer)
  | .atom a => .ok (deliver (.atom t.line a) stack)
  | .badNumber _ => .error (.read ⟨t, .malformedNumber⟩)
  | .endOfInput => .error (.read ⟨t, .unexpectedEnd⟩)

def onStack (limit : Nat) (last : Token) (stack : List Open) :
    List Token → Except Stop (Expr × List Token)
  | [] =>
    match stack with
    | [] => .error ⟨.read ⟨last, .noToken⟩, []⟩
    | o :: _ => .error ⟨.read ⟨o.paren, .unclosed⟩, []⟩
  | t :: ts =>
    match t.shape, stack with
    | .endOfInput, o :: _ => .error ⟨.read ⟨o.paren, .unclosed⟩, t :: ts⟩
    | _, _ =>
      match step limit stack t with
      | .error failure => .error ⟨failure, ts⟩
      | .ok (.finished e) => .ok (e, ts)
      | .ok (.pending stack) => onStack limit last stack ts

def Progress.resume (limit : Nat) (last : Token) :
    Progress → List Token → Except Stop (Expr × List Token)
  | .finished e, ts => .ok (e, ts)
  | .pending stack, ts => onStack limit last stack ts

variable {limit line : Nat} {last paren t : Token} {stack : List Open} {ts : List Token}

theorem onStack_cons (ht : t.shape ≠ .endOfInput) (limit : Nat) (last : Token)
    (stack : List Open) (ts : List Token) :
    onStack limit last stack (t :: ts) =
      match step limit stack t with
      | .error failure => .error ⟨failure, ts⟩
      | .ok p => p.resume limit last ts := by
  rw [onStack]
  · cases step limit stack t with
    | error failure => rfl
    | ok p => cases p <;> rfl
  · exact fun _ _ h _ => ht h

theorem onStack_leftParen_of_lt (h : stack.length < limit) :
    onStack limit last stack (⟨line, .leftParen⟩ :: ts) =
      onStack limit last (⟨line, []⟩ :: stack) ts := by
  rw [onStack_cons Shape.noConfusion]
  simp only [step]
  rw [if_pos h]
  rfl

theorem onStack_leftParen_of_not_lt (h : ¬stack.length < limit) :
    onStack limit last stack (⟨line, .leftParen⟩ :: ts) = .error ⟨.tooDeep, ts⟩ := by
  rw [onStack_cons Shape.noConfusion]
  simp only [step]
  rw [if_neg h]

/-! The recursion, one token at a time. -/

def nextItems (limit : Nat) (last paren : Token) (ts : List Token) :
    Except Stop (List Expr × List Token) := (items limit last paren ts).plain

theorem next_nil : next limit last [] = .error ⟨.read ⟨last, .noToken⟩, []⟩ := by
  rw [next, expression]
  rfl

theorem next_tooDeep : next 0 last (⟨line, .leftParen⟩ :: ts) = .error ⟨.tooDeep, ts⟩ := by
  rw [next, expression]
  rfl

theorem next_leftParen :
    next (limit + 1) last (⟨line, .leftParen⟩ :: ts) =
      (nextItems limit last ⟨line, .leftParen⟩ ts).map fun r => (.list line r.1, r.2) := by
  rw [next, expression, nextItems]
  cases items limit last ⟨line, .leftParen⟩ ts <;> rfl

theorem next_of_ne_leftParen (ht : t.shape ≠ .leftParen) :
    next limit last (t :: ts) = onStack limit last [] (t :: ts) := by
  obtain ⟨line, shape⟩ := t
  rw [next, expression.eq_def]
  cases shape with
  | leftParen => exact absurd rfl ht
  | _ => rfl

theorem nextItems_nil :
    nextItems limit last paren [] = .error ⟨.read ⟨paren, .unclosed⟩, []⟩ := by
  rw [nextItems, items]
  rfl

theorem nextItems_endOfInput :
    nextItems limit last paren (⟨line, .endOfInput⟩ :: ts) =
      .error ⟨.read ⟨paren, .unclosed⟩, ⟨line, .endOfInput⟩ :: ts⟩ := by
  rw [nextItems, items]
  rfl

theorem nextItems_rightParen :
    nextItems limit last paren (⟨line, .rightParen⟩ :: ts) = .ok ([], ts) := by
  rw [nextItems, items]
  rfl

theorem nextItems_cons (hend : t.shape ≠ .endOfInput) (hclose : t.shape ≠ .rightParen) :
    nextItems limit last paren (t :: ts) = (next limit last (t :: ts)).bind fun r =>
      (nextItems limit last paren r.2).map fun s => (r.1 :: s.1, s.2) := by
  rw [nextItems, items, next]
  split
  · exact absurd ‹_› hend
  · exact absurd ‹_› hclose
  · cases expression limit last (t :: ts) with
    | error stop => rfl
    | ok r =>
      obtain ⟨e, rest, h⟩ := r
      change Taken.plain (Except.bind (items limit last paren rest) _) =
        (nextItems limit last paren rest).map _
      rw [nextItems]
      cases items limit last paren rest <;> rfl

mutual

/-- Inside of lists that are open, an expression is read and then belongs to the innermost. -/
theorem onStack_eq_next (limit : Nat) (last : Token) (stack : List Open) (t : Token)
    (ts : List Token)
    (ht : stack = [] ∨ t.shape ≠ .endOfInput ∧ t.shape ≠ .rightParen) :
    onStack (limit + stack.length) last stack (t :: ts) =
      (next limit last (t :: ts)).bind fun r =>
        (deliver r.1 stack).resume (limit + stack.length) last r.2 := by
  obtain ⟨line, shape⟩ := t
  cases shape with
  | leftParen =>
    cases limit with
    | zero =>
      rw [next_tooDeep, onStack_leftParen_of_not_lt (by omega)]
      rfl
    | succ limit =>
      have hlen : limit + 1 + stack.length = limit + ((⟨line, []⟩ : Open) :: stack).length := by
        rw [List.length_cons]
        omega
      rw [next_leftParen, onStack_leftParen_of_lt (by omega), hlen,
        onStack_eq_nextItems limit last ⟨line, []⟩ stack ts]
      change (nextItems limit last ⟨line, .leftParen⟩ ts).bind _ = _
      cases nextItems limit last ⟨line, .leftParen⟩ ts <;> rfl
  | rightParen =>
    obtain rfl : stack = [] := ht.resolve_right fun h => h.2 rfl
    rw [next_of_ne_leftParen Shape.noConfusion]
    rfl
  | atom a =>
    rw [onStack_cons Shape.noConfusion, next_of_ne_leftParen Shape.noConfusion]
    rfl
  | badNumber written =>
    rw [onStack_cons Shape.noConfusion, next_of_ne_leftParen Shape.noConfusion]
    rfl
  | endOfInput =>
    obtain rfl : stack = [] := ht.resolve_right fun h => h.1 rfl
    rw [next_of_ne_leftParen Shape.noConfusion]
    rfl
termination_by 2 * (t :: ts).length
decreasing_by
  rw [List.length_cons]
  omega

theorem onStack_eq_nextItems (limit : Nat) (last : Token) (o : Open) (outer : List Open)
    (ts : List Token) :
    onStack (limit + (o :: outer).length) last (o :: outer) ts =
      (nextItems limit last o.paren ts).bind fun r =>
        (deliver (.list o.line (o.items.reverse ++ r.1)) outer).resume
          (limit + (o :: outer).length) last r.2 := by
  cases ts with
  | nil =>
    rw [nextItems_nil]
    rfl
  | cons t ts =>
    by_cases hend : t.shape = .endOfInput
    · obtain ⟨line, shape⟩ := t
      obtain rfl : shape = .endOfInput := hend
      rw [nextItems_endOfInput]
      rfl
    by_cases hclose : t.shape = .rightParen
    · obtain ⟨line, shape⟩ := t
      obtain rfl : shape = .rightParen := hclose
      rw [nextItems_rightParen, onStack_cons Shape.noConfusion]
      simp [step, Open.close, Except.bind]
    -- an item is read first, and then the list goes on with one item more
    rw [nextItems_cons hend hclose,
      onStack_eq_next limit last (o :: outer) t ts (.inr ⟨hend, hclose⟩)]
    cases hnext : next limit last (t :: ts) with
    | error stop => rfl
    | ok r =>
      have hlt : r.2.length < (t :: ts).length := length_next_lt hnext
      have hrest := onStack_eq_nextItems limit last (o.push r.1) outer r.2
      change onStack (limit + (o.push r.1 :: outer).length) last _ r.2 =
        Except.bind ((nextItems limit last o.paren r.2).map _) _
      rw [hrest]
      change (nextItems limit last o.paren r.2).bind _ = _
      cases nextItems limit last o.paren r.2 with
      | error stop => rfl
      | ok s => simp [Except.bind, Except.map, Open.push]
termination_by 2 * ts.length + 1
decreasing_by
  · exact Nat.lt_succ_self _
  · omega

end

theorem next_eq_onStack (limit : Nat) (last : Token) (ts : List Token) :
    next limit last ts = onStack limit last [] ts := by
  cases ts with
  | nil => exact next_nil
  | cons t ts =>
    have h := onStack_eq_next limit last [] t ts (.inl rfl)
    rw [List.length_nil, Nat.add_zero] at h
    rw [h]
    cases next limit last (t :: ts) <;> rfl

theorem next_of_onStack {r : Except Stop (Expr × List Token)}
    (h : onStack limit last [] ts = r) : next limit last ts = r :=
  (next_eq_onStack limit last ts).trans h

end Read
end MiniScheme
