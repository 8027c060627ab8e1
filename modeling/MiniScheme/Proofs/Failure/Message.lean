import MiniScheme.Proofs.Eval.Anchors
import MiniScheme.Proofs.Expr.Unread

/-! The messages of errors. Every token that an error is reported at has a name, so every error has
a message, and its first words tell the reader's errors from those of evaluation. -/

namespace MiniScheme

theorem Shape.IsAnchor.tag_mem {shape : Shape} (h : shape.IsAnchor) :
    shape.tag ∈ ["SYMBOL", "LEFT_PAREN", "RIGHT_PAREN"] := by
  cases shape with
  | leftParen | rightParen => decide
  | atom a =>
    cases a with
    | symbol name => exact List.mem_cons_self
    | _ => exact h.elim
  | _ => exact h.elim

theorem Shape.IsReadAnchor.tag_mem {shape : Shape} (h : shape.IsReadAnchor) :
    shape.tag ∈ ["EOF", "LEFT_PAREN", "NUMBER"] := by
  cases shape with
  | leftParen | endOfInput => decide
  | badNumber written => exact List.mem_of_mem_getLast? rfl
  | _ => exact h.elim

theorem Shape.describe_ok {shape : Shape} (h : shape.IsAnchor ∨ shape.IsReadAnchor) :
    ∃ name, shape.describe = .ok name := by
  cases shape with
  | atom a =>
    cases a with
    | symbol name => exact ⟨_, rfl⟩
    | _ => exact (h.elim id id).elim
  | _ => exact ⟨_, rfl⟩

theorem Token.position_ok {t : Token} (h : t.shape.IsAnchor ∨ t.shape.IsReadAnchor) :
    ∃ place, t.position = .ok place := by
  obtain ⟨name, hname⟩ := Shape.describe_ok h
  rw [Token.position, hname]
  exact ⟨_, rfl⟩

theorem Token.position_eq_ok {t : Token} {place : String} (h : t.position = .ok place) :
    ∃ name, t.shape.describe = .ok name ∧ place = name ++ " in line " ++ (t.line + 1).repr := by
  obtain ⟨name, hname, h⟩ := bind_eq_ok.mp h
  exact ⟨name, hname, (pure_eq_ok.mp h).symm⟩

theorem ReadError.text_ok {err : ReadError} (h : err.anchor.shape.IsReadAnchor) :
    ∃ rest, err.text = .ok ("parser error at " ++ rest) := by
  obtain ⟨place, hplace⟩ := Token.position_ok (.inr h)
  rw [ReadError.text, hplace]
  refine ⟨place ++ ": " ++ err.fault.message, congrArg Except.ok ?_⟩
  simp only [String.append_assoc]

theorem EvalError.text_ok {err : EvalError} (h : ∀ t ∈ err.anchor, t.shape.IsAnchor) :
    ∃ rest, err.text = .ok ("runtime error" ++ rest) := by
  obtain ⟨anchor, fault⟩ := err
  cases anchor with
  | none =>
    refine ⟨": " ++ fault.message, congrArg Except.ok ?_⟩
    rw [← String.append_assoc]
    rfl
  | some t =>
    obtain ⟨place, hplace⟩ := Token.position_ok (.inl (h t rfl))
    simp only [EvalError.text, hplace]
    refine ⟨" at " ++ (place ++ (": " ++ fault.message)), congrArg Except.ok ?_⟩
    simp only [← String.append_assoc]
    rfl

end MiniScheme
