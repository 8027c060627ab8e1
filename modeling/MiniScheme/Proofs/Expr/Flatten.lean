import Mathlib.Data.List.Forall2
import MiniScheme.Expr.Read

/-! Expressions as the tokens that they are read from, and the expressions that can be read. -/

namespace MiniScheme

theorem exists_mem_of_forall₂ {α β : Type} {R : α → β → Prop} {as : List α} {bs : List β}
    (h : List.Forall₂ R as bs) {a : α} (ha : a ∈ as) : ∃ b ∈ bs, R a b := by
  induction h with
  | nil => exact absurd ha List.not_mem_nil
  | @cons a' b' as bs hab _ ih =>
    rcases List.mem_cons.mp ha with rfl | ha
    · exact ⟨b', List.mem_cons_self, hab⟩
    · obtain ⟨b, hb, hab⟩ := ih ha
      exact ⟨b, List.mem_cons_of_mem b' hb, hab⟩

/-- A token with its line, or with none: nothing keeps the line on which a list is closed. -/
structure Mark where
  line : Option Nat
  shape : Shape

namespace Mark

def closing : Mark := ⟨none, .rightParen⟩

def Fits (m : Mark) (t : Token) : Prop := m.shape = t.shape ∧ ∀ line ∈ m.line, line = t.line

theorem fits_some {line : Nat} {shape : Shape} {t : Token} :
    Fits ⟨some line, shape⟩ t ↔ t = ⟨line, shape⟩ := by
  constructor
  · rintro ⟨hshape, hline⟩
    obtain ⟨line', shape'⟩ := t
    obtain rfl : line = line' := hline line rfl
    obtain rfl : shape = shape' := hshape
    rfl
  · rintro rfl
    exact ⟨rfl, fun _ h => (Option.some.inj h).symm⟩

theorem fits_closing {t : Token} : closing.Fits t ↔ t.shape = .rightParen := by
  constructor
  · exact fun h => h.1.symm
  · exact fun h => ⟨h.symm, fun _ hline => nomatch hline⟩

theorem forall₂_fits_append {ms ns : List Mark} {ts : List Token} :
    List.Forall₂ Fits (ms ++ ns) ts ↔
      ∃ us vs, List.Forall₂ Fits ms us ∧ List.Forall₂ Fits ns vs ∧ ts = us ++ vs := by
  constructor
  · intro h
    refine ⟨ts.take ms.length, ts.drop ms.length, ?_, ?_, (List.take_append_drop _ ts).symm⟩
    · simpa using List.forall₂_take ms.length h
    · simpa using List.forall₂_drop ms.length h
  · rintro ⟨us, vs, hus, hvs, rfl⟩
    exact List.rel_append hus hvs

end Mark

namespace Expr

mutual

def flatten : Expr → List Mark
  | .atom line a => [⟨some line, .atom a⟩]
  | .stray line _ => [⟨some line, .rightParen⟩]
  | .list line items => ⟨some line, .leftParen⟩ :: (flattenEach items ++ [.closing])
  | .unknown => []

def flattenEach : List Expr → List Mark
  | [] => []
  | e :: es => e.flatten ++ flattenEach es

end

mutual

def depth : Expr → Nat
  | .list _ items => depthEach items + 1
  | _ => 0

def depthEach : List Expr → Nat
  | [] => 0
  | e :: es => max e.depth (depthEach es)

end

inductive Every (P : Atom → Prop) : Expr → Prop
  | atom (line : Nat) {a : Atom} (h : P a) : Every P (.atom line a)
  | list (line : Nat) {items : List Expr} (h : ∀ e ∈ items, Every P e) :
      Every P (.list line items)

abbrev Clean (e : Expr) : Prop := e.Every fun _ => True

inductive TopLevel : Expr → Prop
  | clean {e : Expr} (h : Clean e) : TopLevel e
  | stray (line : Nat) : TopLevel (.stray line "unexpected )")

theorem TopLevel.flatten_ne_nil {e : Expr} (h : e.TopLevel) : e.flatten ≠ [] := by
  cases h with
  | clean h => cases h <;> exact List.cons_ne_nil _ _
  | stray line => exact List.cons_ne_nil _ _

mutual

theorem shape_flatten : (e : Expr) → ∀ m ∈ e.flatten, m.shape ≠ .endOfInput
  | .atom line a => by simp [flatten]
  | .stray line _ => by simp [flatten]
  | .list line items => by
    have h := shape_flattenEach items
    intro m hm
    rcases List.mem_cons.mp hm with rfl | hm
    · exact Shape.noConfusion
    · rcases List.mem_append.mp hm with hm | hm
      · exact h m hm
      · obtain rfl := List.mem_singleton.mp hm
        exact Shape.noConfusion
  | .unknown => List.forall_mem_nil _

theorem shape_flattenEach : (es : List Expr) → ∀ m ∈ flattenEach es, m.shape ≠ .endOfInput
  | [] => List.forall_mem_nil _
  | e :: es => fun m hm => (List.mem_append.mp hm).elim (shape_flatten e m) (shape_flattenEach es m)

end

theorem flattenEach_append (es fs : List Expr) :
    flattenEach (es ++ fs) = flattenEach es ++ flattenEach fs := by
  induction es with
  | nil => rfl
  | cons e es ih => simp only [List.cons_append, flattenEach, ih, List.append_assoc]

theorem flatten_subset_flattenEach {e : Expr} {es : List Expr} (h : e ∈ es) :
    e.flatten ⊆ flattenEach es := by
  obtain ⟨front, rest, rfl⟩ := List.append_of_mem h
  rw [flattenEach_append, flattenEach]
  exact fun m hm => List.mem_append_right _ (List.mem_append_left _ hm)

theorem Every.of_flatten {P Q : Atom → Prop} {e : Expr} (h : e.Every P)
    (hQ : ∀ line a, ⟨some line, .atom a⟩ ∈ e.flatten → Q a) : e.Every fun a => Q a ∧ P a := by
  induction h with
  | atom line h => exact .atom line ⟨hQ line _ List.mem_cons_self, h⟩
  | @list line items _ ih =>
    refine .list line fun e he => ih e he fun line' a hmem => hQ line' a ?_
    exact List.mem_cons_of_mem _ (List.mem_append_left _ (flatten_subset_flattenEach he hmem))

theorem depth_le_depthEach {e : Expr} {es : List Expr} (h : e ∈ es) : e.depth ≤ depthEach es := by
  induction es with
  | nil => exact absurd h List.not_mem_nil
  | cons f es ih =>
    rw [depthEach]
    rcases List.mem_cons.mp h with rfl | h
    · exact Nat.le_max_left _ _
    · exact Nat.le_trans (ih h) (Nat.le_max_right _ _)

theorem depthEach_le {es : List Expr} {n : Nat} (h : ∀ e ∈ es, e.depth ≤ n) : depthEach es ≤ n := by
  induction es with
  | nil => exact Nat.zero_le n
  | cons e es ih =>
    obtain ⟨he, hes⟩ := List.forall_mem_cons.mp h
    exact Nat.max_le.mpr ⟨he, ih hes⟩

end Expr

end MiniScheme
