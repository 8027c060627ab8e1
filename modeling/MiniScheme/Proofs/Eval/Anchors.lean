import MiniScheme.Proofs.Eval.Shapes
import MiniScheme.Proofs.Expr.Flatten

/-! The forms of lists: of which expressions they are made, and at which tokens the faults of a
wrong shape are reported. -/

namespace MiniScheme

def Shape.IsAnchor : Shape → Prop
  | .leftParen | .rightParen | .atom (.symbol _) => True
  | _ => False

/-- A token of the expression at which an error may be reported. -/
structure Token.Anchors (t : Token) (e : Expr) : Prop where
  isAnchor : t.shape.IsAnchor
  mem : ⟨some t.line, t.shape⟩ ∈ e.flatten

namespace Token.Anchors

theorem paren (line : Nat) (items : List Expr) :
    Token.Anchors ⟨line, .leftParen⟩ (.list line items) := ⟨trivial, List.mem_cons_self⟩

theorem symbol (line : Nat) (name : String) :
    Token.Anchors ⟨line, .atom (.symbol name)⟩ (.atom line (.symbol name)) :=
  ⟨trivial, List.mem_cons_self⟩

theorem stray (line : Nat) (message : String) :
    Token.Anchors ⟨line, .rightParen⟩ (.stray line message) := ⟨trivial, List.mem_cons_self⟩

theorem list {t : Token} {e : Expr} {items : List Expr} {line : Nat} (h : t.Anchors e)
    (he : e ∈ items) : t.Anchors (.list line items) where
  isAnchor := h.isAnchor
  mem := List.mem_cons_of_mem _ (List.mem_append_left _ (Expr.flatten_subset_flattenEach he h.mem))

end Token.Anchors

namespace Form

def exprs : Form → List Expr
  | .empty => []
  | .define _ value => [value]
  | .cond test yes no => test :: yes :: no.toList
  | .quote e => [e]
  | .assign _ _ value => [value]
  | .lambda _ body => [body]
  | .call operator operands => operator :: operands

variable {t : Token} {line : Nat} {items : List Expr} {err : EvalError}

theorem exprs_subset {form : Form} (h : ofItems line items = .ok form) : form.exprs ⊆ items := by
  cases ofItems_eq_iff.mp h with
  | empty => exact List.nil_subset _
  | call => exact List.Subset.refl _
  | _ => simp [exprs]

theorem Parameters.anchors {anchor : Token} (h : Parameters anchor items (.error err))
    (ht : t ∈ err.anchor) : t = anchor ∨ ∃ e ∈ items, t.Anchors e := by
  cases h with
  | notSymbol => exact .inl (Option.some.inj ht).symm
  | @repeated _ _ _ line name =>
    obtain rfl := Option.some.inj ht
    exact .inr ⟨_, List.mem_append_right _ List.mem_cons_self, .symbol line name⟩

theorem ofItems_error (h : ofItems line items = .error err) (ht : t ∈ err.anchor) :
    t.Anchors (.list line items) := by
  cases ofItems_eq_iff.mp h with
  | @lambdaNames _ l' params _ _ h =>
    rcases h.anchors ht with rfl | ⟨e, he, h⟩
    · exact .paren line _
    · have hparams : t.Anchors (.list l' params) := h.list he
      exact hparams.list (List.mem_cons_of_mem _ List.mem_cons_self)
  | _ =>
    obtain rfl := Option.some.inj ht
    exact .paren line _

theorem anchors_of_assign {nameLine : Nat} {name : String} {value : Expr}
    (h : ofItems line items = .ok (.assign name nameLine value)) :
    Token.Anchors ⟨nameLine, .atom (.symbol name)⟩ (.list line items) := by
  cases ofItems_eq_iff.mp h with
  | assign =>
    exact (Token.Anchors.symbol nameLine name).list (List.mem_cons_of_mem _ List.mem_cons_self)

end Form

end MiniScheme
