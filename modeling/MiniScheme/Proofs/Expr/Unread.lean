import MiniScheme.Proofs.Expr.Program
import MiniScheme.Proofs.Token.Spelling

/-! Why programs cannot be read: the limit is reached, or an error stands at a token that has a
name. -/

namespace MiniScheme

def Shape.IsReadAnchor : Shape → Prop
  | .leftParen | .badNumber _ | .endOfInput => True
  | _ => False

namespace Read

variable {limit : Nat} {last : Token} {stack : List Open} {ts : List Token}

/-- The limit is reached, or there is an error at `last` or at a token that cannot be taken. -/
def Unread (last : Token) (failure : Failure) : Prop :=
  failure = .tooDeep ∨
    ∃ err, failure = .read err ∧ (err.anchor = last ∨ err.anchor.shape.IsReadAnchor)

theorem step_error {t : Token} {failure : Failure} (h : step limit stack t = .error failure) :
    Unread last failure := by
  cases takes_of_step h with
  | tooDeep => exact .inl rfl
  | malformed | ended => exact .inr ⟨_, rfl, .inr trivial⟩

theorem Stops.unread {stop : Stop} (h : Stops limit last stack ts stop) :
    Unread last stop.failure := by
  induction h with
  | noToken => exact .inr ⟨_, rfl, .inl rfl⟩
  | unclosed => exact .inr ⟨_, rfl, .inr trivial⟩
  | refused hstep => exact step_error hstep
  | onward _ _ ih => exact ih

theorem next_error {stop : Stop} (h : next limit last ts = .error stop) :
    Unread last stop.failure := (stops_of_next h).unread

theorem program_error {stop : Stop} (h : program limit last ts = .error stop) :
    Unread last stop.failure := by
  induction ts using program.induct limit last with
  | case1 ts stop' hnext =>
    rw [program_of_error hnext] at h
    exact Except.error.inj h ▸ next_error hnext
  | case2 ts e rest hnext hend =>
    rw [program_of_ok hnext, if_pos hend] at h
    cases h
  | case3 ts e rest hnext hend ih =>
    rw [program_of_ok hnext, if_neg hend] at h
    exact ih (map_eq_error.mp h)

end Read

theorem readProgram_scan_error {limit : Nat} {source : String} {failure : Failure}
    (h : readProgram limit (scan source) = .error failure) :
    failure = .tooDeep ∨ ∃ err, failure = .read err ∧ err.anchor.shape.IsReadAnchor := by
  obtain ⟨front, line, hscan, _⟩ := scan_eq_append source
  obtain ⟨stop, hstop, rfl⟩ := mapError_eq_error.mp h
  refine (Read.program_error hstop).imp_right ?_
  rintro ⟨err, herr, hlast | hanchor⟩
  · rw [hscan, Read.lastToken, List.getLast?_concat] at hlast
    exact ⟨err, herr, hlast ▸ trivial⟩
  · exact ⟨err, herr, hanchor⟩

end MiniScheme
