import MiniScheme.Proofs.Eval.Raises

/-! The message of the recursion limit. No other error has it: one with a place names that, and the
faults that may be without a place are worded with letters that it has not. -/

namespace MiniScheme

theorem mem_toList_append {a b : String} {c : Char} :
    c ∈ (a ++ b).toList ↔ c ∈ a.toList ∨ c ∈ b.toList := by
  rw [String.toList_append, List.mem_append]

/-- Worded with a letter that is not in the message of the limit. -/
def EvalFault.IsOther (fault : EvalFault) : Prop := ∃ c ∈ ['b', 'l', 'w'], c ∈ fault.message.toList

theorem PrimitiveFault.isOther (fault : PrimitiveFault) : (EvalFault.primitive fault).IsOther := by
  have hnow : ∀ {a kind : String}, 'w' ∈ a.toList → 'w' ∈ (a ++ kind).toList :=
    fun h => mem_toList_append.mpr (.inl h)
  cases fault with
  | notNumber name kind | notList name kind =>
    exact ⟨'w', by decide, hnow (mem_toList_append.mpr (.inr (by decide)))⟩
  | addNotNumbers => exact ⟨'b', by decide, by decide⟩
  | divisionByZero => exact ⟨'b', by decide, by decide⟩
  | emptyList name => exact ⟨'l', by decide, mem_toList_append.mpr (.inr (by decide))⟩
  | consNotList kind | applyNotProcedure kind => exact ⟨'w', by decide, hnow (by decide)⟩

theorem EvalFault.OfCall.isOther {fault : EvalFault} (h : fault.OfCall) : fault.IsOther := by
  have hinner : ∀ {c : Char} {a word count : String}, c ∈ word.toList →
      c ∈ (a ++ word ++ count).toList :=
    fun h => mem_toList_append.mpr (.inl (mem_toList_append.mpr (.inr h)))
  cases fault with
  | tooFewOperands name least found => exact ⟨'l', by decide, hinner (by decide)⟩
  | otherOperandCount name exact found => exact ⟨'b', by decide, hinner (by decide)⟩
  | notCallable kind => exact ⟨'l', by decide, mem_toList_append.mpr (.inr (by decide))⟩
  | primitive fault => exact fault.isOther
  | _ => exact h.elim

mutual

theorem Expr.isOther_of_quoted {err : EvalError} (hnone : err.anchor = none) :
    (e : Expr) → e.quoted = .error err → err.fault.IsOther
  | .atom _ (.symbol _), h => nomatch h
  | .atom _ (.string ..), h => nomatch h
  | .atom _ (.number ..), h => nomatch h
  | .atom _ (.boolean _), h => nomatch h
  | .stray .., h => by
    rw [← Except.error.inj h] at hnone
    cases hnone
  | .list _ items, h => by
    rcases bind_eq_error.mp h with h | ⟨_, _, h⟩
    · exact isOther_of_quotedEach hnone items h
    · exact absurd h pure_ne_error
  | .unknown, h => by
    rw [← Except.error.inj h]
    exact ⟨'w', by decide, by decide⟩

theorem Expr.isOther_of_quotedEach {err : EvalError} (hnone : err.anchor = none) :
    (es : List Expr) → quotedEach es = .error err → err.fault.IsOther
  | [], h => nomatch h
  | e :: es, h => by
    rcases bind_eq_error.mp h with h | ⟨_, _, h⟩
    · exact isOther_of_quoted hnone e h
    · rcases bind_eq_error.mp h with h | ⟨_, _, h⟩
      · exact isOther_of_quotedEach hnone es h
      · exact absurd h pure_ne_error

end

theorem Expr.Raises.isOther {e : Expr} {err : EvalError} (h : e.Raises err)
    (hnone : err.anchor = none) : err.fault.IsOther := by
  cases h with
  | quoted h => exact e.isOther_of_quoted hnone h
  | form h =>
    cases Form.ofItems_eq_iff.mp h with
    | lambdaNames h => cases h <;> cases hnone
    | _ => cases hnone
  | _ => cases hnone

theorem EvalError.text_ne_limit {err : EvalError} (h : err.anchor = none → err.fault.IsOther) :
    err.text ≠ .ok "runtime error: maximum recursion depth exceeded" := by
  obtain ⟨anchor, fault⟩ := err
  intro htext
  cases anchor with
  | none =>
    obtain ⟨c, hc, hmem⟩ := h rfl
    have hmem : c ∈ ("runtime error: " ++ fault.message).toList := mem_toList_append.mpr (.inr hmem)
    have hlimit : ∀ c ∈ ['b', 'l', 'w'],
        c ∉ "runtime error: maximum recursion depth exceeded".toList := by
      simp only [List.forall_mem_cons]
      exact ⟨by decide, by decide, by decide, List.forall_mem_nil _⟩
    exact hlimit c hc (Except.ok.inj htext ▸ hmem)
  | some t =>
    obtain ⟨place, _, htext⟩ := bind_eq_ok.mp htext
    have hstart := congrArg (fun text : String => text.toList.take 14) (pure_eq_ok.mp htext)
    simp only [String.toList_append, List.append_assoc] at hstart
    rw [List.take_append_of_le_length (by decide)] at hstart
    revert hstart
    decide

end MiniScheme
