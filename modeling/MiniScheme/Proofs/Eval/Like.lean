import MiniScheme.Proofs.Eval.MatchesTop
import MiniScheme.Proofs.Eval.Shapes

/-! Expressions that are the same up to the lines of their tokens, with symbols from a given set
only. A keyword at the head of a list is told before anything is looked up, so that it need not be
in the set. -/

namespace MiniScheme

inductive Expr.Like (L : Nat → Nat → Prop) (N : String → Prop) : Expr → Expr → Prop
  | symbol {line line' : Nat} {name : String} (hline : L line line') (hname : N name) :
      Like L N (.atom line (.symbol name)) (.atom line' (.symbol name))
  | atom {line line' : Nat} {a : Atom} (hline : L line line') (ha : ∀ name, a ≠ .symbol name) :
      Like L N (.atom line a) (.atom line' a)
  | stray {line line' : Nat} (hline : L line line') (message : String) :
      Like L N (.stray line message) (.stray line' message)
  | list {line line' : Nat} {items items' : List Expr} (hline : L line line')
      (hlength : items.length = items'.length)
      (hitems : ∀ e e', (e, e') ∈ items.zip items' → Like L N e e') :
      Like L N (.list line items) (.list line' items')
  | form {line line' l l' : Nat} {items items' : List Expr} (k : Keyword) (hline : L line line')
      (hhead : L l l') (hlength : items.length = items'.length)
      (hitems : ∀ e e', (e, e') ∈ items.zip items' → Like L N e e') :
      Like L N (.list line (.atom l (.symbol k.name) :: items))
        (.list line' (.atom l' (.symbol k.name) :: items'))
  | unknown : Like L N .unknown .unknown

inductive Expr.Namesakes (L : Nat → Nat → Prop) : Expr → Expr → Prop
  | symbol {line line' : Nat} (hline : L line line') (name : String) :
      Namesakes L (.atom line (.symbol name)) (.atom line' (.symbol name))
  | other {e e' : Expr} (he : ∀ name, ¬e.IsSymbol name) (he' : ∀ name, ¬e'.IsSymbol name)
      (hkind : e'.kind = e.kind) : Namesakes L e e'

namespace Expr

variable {L : Nat → Nat → Prop} {N : String → Prop} {line line' : Nat} {e e' : Expr}
  {items items' : List Expr}

theorem like_list (hline : L line line') (h : List.Forall₂ (Like L N) items items') :
    Like L N (.list line items) (.list line' items') :=
  .list hline h.length_eq fun _ _ hmem => List.forall₂_zip h hmem

theorem forall₂_of_zip {R : Expr → Expr → Prop} (hlength : items.length = items'.length)
    (hitems : ∀ e e', (e, e') ∈ items.zip items' → R e e') : List.Forall₂ R items items' :=
  List.forall₂_iff_zip.mpr ⟨hlength, fun {_ _} hmem => hitems _ _ hmem⟩

theorem Like.namesakes (h : Like L N e e') : Namesakes L e e' := by
  cases h with
  | symbol hline => exact .symbol hline _
  | @atom _ _ a _ ha =>
    refine .other ?_ ?_ ?_
    · rintro name ⟨_, h⟩
      exact ha name (Expr.atom.inj h).2
    · rintro name ⟨_, h⟩
      exact ha name (Expr.atom.inj h).2
    · cases a <;> rfl
  | _ => exact .other (fun _ ⟨_, h⟩ => nomatch h) (fun _ ⟨_, h⟩ => nomatch h) rfl

theorem Like.items_namesakes (h : Like L N (.list line items) e') :
    ∃ line' items', e' = .list line' items' ∧ List.Forall₂ (Namesakes L) items items' := by
  cases h with
  | list _ hlength hitems =>
    exact ⟨_, _, rfl, forall₂_of_zip hlength fun e e' hmem => (hitems e e' hmem).namesakes⟩
  | form k _ hhead hlength hitems =>
    refine ⟨_, _, rfl, .cons (.symbol hhead k.name) ?_⟩
    exact forall₂_of_zip hlength fun e e' hmem => (hitems e e' hmem).namesakes

end Expr

namespace Correspondence

/-- Errors at tokens on lines that correspond do so, and the names `N` are compared everywhere. -/
structure UpTo (C : Correspondence) (L : Nat → Nat → Prop) (N : String → Prop) : Prop where
  expr {e e' : Expr} (h : e.Like L N e') : C.expr e e'
  name {n : String} (h : N n) (a : Address) : C.name a n
  error {line line' : Nat} (h : L line line') (shape : Shape) (fault : EvalFault) :
    C.error ⟨some ⟨line, shape⟩, fault⟩ ⟨some ⟨line', shape⟩, fault⟩
  error_refl (err : EvalError) : C.error err err

variable {C : Correspondence} {L : Nat → Nat → Prop} {N : String → Prop} {line line' : Nat}
  {e e' : Expr} {items items' : List Expr}

theorem UpTo.quoted (hC : C.UpTo L N) (h : e.Like L N e') :
    ExceptRel C.Matches C.error e.quoted e'.quoted := by
  have hlist : ∀ {items items' : List Expr} {line line' : Nat},
      List.Forall₂ (fun e e' => ExceptRel C.Matches C.error e.quoted e'.quoted) items items' →
      ExceptRel C.Matches C.error (Expr.list line items).quoted
        (Expr.list line' items').quoted := by
    intro items items' line line' h
    rw [Expr.quoted, Expr.quoted, Expr.quotedEach_eq_mapM, Expr.quotedEach_eq_mapM]
    exact (exceptRel_mapM h).bind fun vs vs' hvs => .ok (.list hvs)
  induction h with
  | symbol => exact .ok (.plain trivial)
  | @atom _ _ a => cases a <;> exact .ok (.plain trivial)
  | stray hline message => exact .error (hC.error hline _ _)
  | list _ hlength _ ih => exact hlist (Expr.forall₂_of_zip hlength ih)
  | form k _ _ hlength _ ih =>
    exact hlist (.cons (.ok (.plain trivial)) (Expr.forall₂_of_zip hlength ih))
  | unknown => exact .error (hC.error_refl _)

section Forms

variable (hC : C.UpTo L N) (hline : L line line')
include hC hline

theorem UpTo.target (role : String) (h : e.Namesakes L e') :
    ExceptRel (fun p q => p.1 = q.1 ∧ L p.2 q.2) C.error
      (Form.target ⟨line, .leftParen⟩ role e) (Form.target ⟨line', .leftParen⟩ role e') := by
  cases h with
  | symbol h name => exact .ok ⟨rfl, h⟩
  | other he he' hkind =>
    rw [Form.target_eq_error he, Form.target_eq_error he', hkind]
    exact .error (hC.error hline _ _)

theorem UpTo.distinctNames (h : List.Forall₂ (Expr.Namesakes L) items items')
    (seen : List String) :
    ExceptRel Eq C.error (Form.distinctNames ⟨line, .leftParen⟩ seen items)
      (Form.distinctNames ⟨line', .leftParen⟩ seen items') := by
  induction h generalizing seen with
  | nil => exact .ok rfl
  | cons he _ ih =>
    refine (hC.target hline "parameter" he).bind fun p q hpq => ?_
    obtain ⟨name, l⟩ := p
    obtain ⟨_, l'⟩ := q
    obtain ⟨rfl, hl⟩ := hpq
    dsimp only
    split
    · exact .error (hC.error hl _ _)
    · exact (ih (name :: seen)).bind fun names _ hnames => .ok (hnames ▸ rfl)

theorem UpTo.parameters (h : e.Like L N e') :
    ExceptRel Eq C.error (Form.parameters ⟨line, .leftParen⟩ e)
      (Form.parameters ⟨line', .leftParen⟩ e') := by
  cases e with
  | list l items =>
    obtain ⟨l', items', rfl, hitems⟩ := h.items_namesakes
    exact hC.distinctNames hline hitems []
  | _ => cases h <;> exact .error (hC.error hline _ _)

theorem UpTo.ofKeyword (k : Keyword) {head head' : Expr} {rest rest' : List Expr}
    (h : List.Forall₂ (Expr.Like L N) rest rest') :
    ExceptRel C.FormMatches C.error (Form.ofKeyword ⟨line, .leftParen⟩ k (head :: rest))
      (Form.ofKeyword ⟨line', .leftParen⟩ k (head' :: rest')) := by
  by_cases hlength : (head :: rest).length ∈ k.lengths
  · cases k with
    | define =>
      obtain ⟨e, value, rfl⟩ := List.length_eq_two.mp (by simpa [Keyword.lengths] using hlength)
      rcases h with _ | ⟨he, _ | ⟨hvalue, _ | _⟩⟩
      refine (hC.target hline "define name" he.namesakes).bind fun p q hpq => ?_
      obtain ⟨name, l⟩ := p
      obtain ⟨_, l'⟩ := q
      obtain ⟨rfl, _⟩ := hpq
      exact .ok (.define (hC.expr hvalue))
    | cond =>
      have hlength : rest.length = 2 ∨ rest.length = 3 := by simpa [Keyword.lengths] using hlength
      rcases hlength with hlength | hlength
      · obtain ⟨test, yes, rfl⟩ := List.length_eq_two.mp hlength
        rcases h with _ | ⟨htest, _ | ⟨hyes, _ | _⟩⟩
        exact .ok (.cond (hC.expr htest) (hC.expr hyes) .none)
      · obtain ⟨test, yes, no, rfl⟩ := List.length_eq_three.mp hlength
        rcases h with _ | ⟨htest, _ | ⟨hyes, _ | ⟨hno, _ | _⟩⟩⟩
        exact .ok (.cond (hC.expr htest) (hC.expr hyes) (.some (hC.expr hno)))
    | quote =>
      obtain ⟨e, rfl⟩ := List.length_eq_one_iff.mp (by simpa [Keyword.lengths] using hlength)
      rcases h with _ | ⟨he, _ | _⟩
      exact .ok (.quote (hC.quoted he))
    | assign =>
      obtain ⟨e, value, rfl⟩ := List.length_eq_two.mp (by simpa [Keyword.lengths] using hlength)
      rcases h with _ | ⟨he, _ | ⟨hvalue, _ | _⟩⟩
      cases he with
      | symbol hl hname =>
        exact .ok (.assign (hC.name hname) (hC.expr hvalue) (hC.error hl _ _))
      | @atom _ _ a _ ha =>
        cases a with
        | symbol name => exact absurd rfl (ha name)
        | _ => exact .error (hC.error hline _ _)
      | _ => exact .error (hC.error hline _ _)
    | lambda =>
      obtain ⟨e, body, rfl⟩ := List.length_eq_two.mp (by simpa [Keyword.lengths] using hlength)
      rcases h with _ | ⟨he, _ | ⟨hbody, _ | _⟩⟩
      refine (hC.parameters hline he).bind fun names _ hnames => ?_
      exact .ok (hnames ▸ .lambda (hC.expr hbody))
  · have hlength' : (head' :: rest').length ∉ k.lengths := by
      rwa [List.length_cons, ← h.length_eq]
    rw [Form.ofKeyword_eq_error hlength, Form.ofKeyword_eq_error hlength', List.length_cons,
      List.length_cons, h.length_eq]
    exact .error (hC.error hline _ _)

end Forms

theorem UpTo.ofItems (hC : C.UpTo L N) (hline : L line line')
    (h : List.Forall₂ (Expr.Like L N) items items') :
    ExceptRel C.FormMatches C.error (Form.ofItems line items) (Form.ofItems line' items') := by
  cases h with
  | nil => exact .ok .empty
  | @cons head head' rest rest' hhead hrest =>
    -- lines do not decide what a keyword is
    have hkeyword : Form.keyword? head' = Form.keyword? head := by
      cases hhead with
      | @atom _ _ a => cases a <;> rfl
      | _ => rfl
    rw [Form.ofItems, Form.ofItems, hkeyword]
    cases Form.keyword? head with
    | some k => exact hC.ofKeyword hline k hrest
    | none =>
      exact .ok (.call (hC.expr hhead) (hrest.imp fun _ _ he => hC.expr he))

theorem UpTo.expands (hC : C.UpTo L N) (h : e.Like L N e') : C.Expands e e' := by
  have hquoted := hC.quoted h
  cases h with
  | symbol hline hname => exact .symbol (hC.name hname) (hC.error hline _ _)
  | @atom _ _ a _ ha =>
    have hdatum : ∀ line, (Expr.atom line a).IsDatum := by
      cases a with
      | symbol name => exact absurd rfl (ha name)
      | _ => exact fun _ => trivial
    exact .datum (hdatum _) (hdatum _) hquoted
  | stray => exact .datum trivial trivial hquoted
  | unknown => exact .datum trivial trivial hquoted
  | list hline hlength hitems =>
    refine .list ?_ fun fault _ => hC.error hline _ _
    exact hC.ofItems hline (Expr.forall₂_of_zip hlength hitems)
  | form k hline _ hlength hitems =>
    refine .list ?_ fun fault _ => hC.error hline _ _
    rw [Form.ofItems_keyword, Form.ofItems_keyword]
    exact hC.ofKeyword hline k (Expr.forall₂_of_zip hlength hitems)

end Correspondence
end MiniScheme
