import MiniScheme.Expr

/-! From tokens to expressions. The reader takes a token and, if that opens a list, reads
expressions again until the list is closed. It hands on the tokens that are left, and they are
fewer each time. The token `last` is reported where there is none to take, and at most `limit`
lists may be open. A right parenthesis that closes nothing is an expression of its own, reported
only when somebody evaluates it. -/

namespace MiniScheme

namespace Read

/-- Why reading stopped, and the tokens not taken by then. -/
structure Stop where
  failure : Failure
  rest : List Token

abbrev Taken (α : Type) (ts : List Token) : Type :=
  Except Stop (α × {rest : List Token // rest.length < ts.length})

mutual

def expression (limit : Nat) (last : Token) (ts : List Token) : Taken Expr ts :=
  match ts with
  | [] => .error ⟨.read ⟨last, .noToken⟩, []⟩
  | t :: ts =>
    match t.shape with
    | .leftParen =>
      match limit with
      | 0 => .error ⟨.tooDeep, ts⟩
      | limit + 1 => do
        let (es, ⟨rest, h⟩) ← items limit last t ts
        return (.list t.line es, ⟨rest, Nat.lt_succ_of_lt h⟩)
    | .rightParen => .ok (.stray t.line "unexpected )", ⟨ts, Nat.lt_succ_self _⟩)
    | .atom a => .ok (.atom t.line a, ⟨ts, Nat.lt_succ_self _⟩)
    | .badNumber _ => .error ⟨.read ⟨t, .malformedNumber⟩, ts⟩
    | .endOfInput => .error ⟨.read ⟨t, .unexpectedEnd⟩, ts⟩
termination_by 2 * ts.length
decreasing_by
  rw [List.length_cons]
  omega

def items (limit : Nat) (last paren : Token) (ts : List Token) : Taken (List Expr) ts :=
  match ts with
  | [] => .error ⟨.read ⟨paren, .unclosed⟩, []⟩
  | t :: ts =>
    match t.shape with
    -- the end of the input closes no list, and is not taken
    | .endOfInput => .error ⟨.read ⟨paren, .unclosed⟩, t :: ts⟩
    | .rightParen => .ok ([], ⟨ts, Nat.lt_succ_self _⟩)
    | _ => do
      let (e, ⟨rest, h⟩) ← expression limit last (t :: ts)
      let (es, ⟨rest', h'⟩) ← items limit last paren rest
      return (e :: es, ⟨rest', Nat.lt_trans h' h⟩)
termination_by 2 * ts.length + 1
decreasing_by
  · exact Nat.lt_succ_self _
  · omega

end

def Taken.plain {α : Type} {ts : List Token} (r : Taken α ts) : Except Stop (α × List Token) :=
  r.map fun (a, rest) => (a, rest.val)

theorem Taken.length_lt_of_plain {α : Type} {ts rest : List Token} {r : Taken α ts} {a : α}
    (h : r.plain = .ok (a, rest)) : rest.length < ts.length := by
  cases r with
  | error stop => cases h
  | ok r =>
    cases h
    exact r.2.2

def next (limit : Nat) (last : Token) (ts : List Token) : Except Stop (Expr × List Token) :=
  (expression limit last ts).plain

theorem length_next_lt {limit : Nat} {last : Token} {ts rest : List Token} {e : Expr}
    (h : next limit last ts = .ok (e, rest)) : rest.length < ts.length :=
  Taken.length_lt_of_plain h

def atEnd : List Token → Bool
  | [] => true
  | t :: _ => t.shape == .endOfInput

def program (limit : Nat) (last : Token) (ts : List Token) : Except Stop (List Expr) :=
  match _h : next limit last ts with
  | .error stop => .error stop
  | .ok (e, rest) =>
    if atEnd rest then .ok [e]
    else (program limit last rest).map (e :: ·)
termination_by ts.length
decreasing_by exact length_next_lt _h

def untilFailure (limit : Nat) (last : Token) (ts : List Token) :
    List (Expr × List Token) × Stop :=
  match _h : next limit last ts with
  | .error stop => ([], stop)
  | .ok (e, rest) => (untilFailure limit last rest).map ((e, rest) :: ·) id
termination_by ts.length
decreasing_by exact length_next_lt _h

def lastToken (ts : List Token) : Token := ts.getLast?.getD ⟨0, .endOfInput⟩

end Read

def readNext (limit : Nat) (ts : List Token) : Except Read.Stop (Expr × List Token) :=
  Read.next limit (Read.lastToken ts) ts

def readProgram (limit : Nat) (ts : List Token) : Except Failure (List Expr) :=
  (Read.program limit (Read.lastToken ts) ts).mapError (·.failure)

def readUntilFailure (limit : Nat) (ts : List Token) : List (Expr × List Token) × Read.Stop :=
  Read.untilFailure limit (Read.lastToken ts) ts

end MiniScheme
