import MiniScheme.Proofs.Expr.RoundTrip
import MiniScheme.Proofs.Number.Rescan

/-! Programs printed and read twice. What a number loses in print it loses the first time, so the
second text is read as an expression that is printed as the same text. -/

namespace MiniScheme

open Lexical

theorem Atom.isFinite_of_scanned {written : String} {x : Double}
    (h : Scanned (.number written (.double x))) (hfinite : ¬x.IsInfinite) :
    ∃ u hu, x = .finite false u hu := by
  obtain ⟨text, rest, hlexeme⟩ := h
  cases hlexeme with
  | number hfirst hchars hrest hvalue =>
    rcases hvalue.finite_or_infinite with hx | rfl
    · exact hx
    · exact absurd trivial hfinite

namespace Atom

variable {a b c : Atom}

theorem Reprints.not_isInfinite (h : a.Reprints b) (ha : Scanned a) (hfinite : ¬a.IsInfinite) :
    ¬b.IsInfinite := by
  cases h with
  | number written hscan hwhole =>
    obtain ⟨u, hu, rfl⟩ := isFinite_of_scanned ha hfinite
    obtain ⟨v, hv, hsettles⟩ := Double.exists_settles hu
    obtain rfl := hsettles.rescans.right_unique hscan
    exact id
  | _ => exact id

theorem Reprints.text_eq (hab : a.Reprints b) (hbc : b.Reprints c) (ha : Scanned a)
    (hfinite : ¬a.IsInfinite) (line line' : Nat) :
    (Expr.atom line' c).text = (Expr.atom line b).text := by
  cases hab with
  | number written hscan hwhole =>
    obtain ⟨u, hu, rfl⟩ := isFinite_of_scanned ha hfinite
    obtain ⟨v, hv, hsettles⟩ := Double.exists_settles hu
    obtain rfl := hsettles.rescans.right_unique hscan
    cases hbc with
    | number _ hscan' hwhole' =>
      obtain rfl := hsettles.again.right_unique hscan'
      rfl
  | _ =>
    cases hbc
    rfl

end Atom

namespace Expr

variable {e f g : Expr} {es fs gs : List Expr}

theorem Reprints.every_finite (h : e.Every fun a => Scanned a ∧ ¬a.IsInfinite)
    (hef : e.Reprints f) : f.Every fun a => ¬a.IsInfinite := by
  induction h generalizing f with
  | atom line h =>
    cases hef with
    | atom _ line' hab => exact .atom line' (hab.not_isInfinite h.1 h.2)
  | list line _ ih =>
    cases hef with
    | list _ line' hes =>
      refine .list line' fun f hf => ?_
      obtain ⟨e, he, hef⟩ := exists_mem_of_forall₂ hes.flip hf
      exact ih e he hef

theorem textEach_eq (h : ∀ e ∈ es, ∀ {f g : Expr}, e.Reprints f → f.Reprints g → g.text = f.text)
    (hes : List.Forall₂ Reprints es fs) (hfs : List.Forall₂ Reprints fs gs) :
    textEach gs = textEach fs := by
  induction hes generalizing gs with
  | nil =>
    cases hfs
    rfl
  | cons hef _ ih =>
    cases hfs with
    | cons hfg hfs =>
      obtain ⟨hfirst, hrest⟩ := List.forall_mem_cons.mp h
      rw [textEach, textEach, hfirst hef hfg, ih hrest hfs]

theorem Reprints.text_eq (h : e.Every fun a => Scanned a ∧ ¬a.IsInfinite)
    (hef : e.Reprints f) (hfg : f.Reprints g) : g.text = f.text := by
  induction h generalizing f g with
  | atom line h =>
    cases hef with
    | atom _ line' hab =>
      cases hfg with
      | atom _ line'' hbc => exact hab.text_eq hbc h.1 h.2 line' line''
  | list line _ ih =>
    cases hef with
    | list _ line' hes =>
      cases hfg with
      | list _ line'' hfs =>
        rw [text, text, textEach_eq (fun e he {_ _} => ih e he) hes hfs]

end Expr

variable {limit : Nat} {source : String} {es fs : List Expr}

theorem exists_reread (hread : readProgram limit (scan source) = .ok es)
    (hplain : ∀ e ∈ es, e.Every fun a => ¬a.IsInfinite) :
    ∃ text fs, Expr.programText es = .ok text ∧ readProgram limit (scan text) = .ok fs ∧
      List.Forall₂ Expr.Reprints es fs ∧ ∀ f ∈ fs, f.Every fun a => ¬a.IsInfinite := by
  have hatoms := every_scanned hread hplain
  obtain ⟨hne, hdepth⟩ := depth_le_of_readProgram hread
  obtain ⟨text, fs, htext, hreread, hreprints⟩ := exists_readProgram_programText hne hdepth hatoms
  refine ⟨text, fs, htext, hreread, hreprints, fun f hf => ?_⟩
  obtain ⟨e, he, hef⟩ := exists_mem_of_forall₂ hreprints.flip hf
  exact hef.every_finite (hatoms e he)

/-- Numbers and programs settle the first time that they are printed and read. Every finite double
that is not negative is scanned of its text as one that is scanned of its own text, and a program
without infinities has a second text from which the same text is printed again. -/
theorem second_round_settles :
    (∀ (u : Nat) (h : Representable u), ∃ v hv,
      (Double.finite false u h).Settles (.finite false v hv)) ∧
    ∀ (limit : Nat) (source : String) (es : List Expr),
      readProgram limit (scan source) = .ok es →
      (∀ e ∈ es, e.Every fun a => ¬a.IsInfinite) →
      ∃ text₁ fs text₂ gs, Expr.programText es = .ok text₁ ∧
        readProgram limit (scan text₁) = .ok fs ∧ Expr.programText fs = .ok text₂ ∧
        readProgram limit (scan text₂) = .ok gs ∧ Expr.programText gs = .ok text₂ := by
  refine ⟨fun u h => Double.exists_settles h, fun limit source es hread hplain => ?_⟩
  obtain ⟨text₁, fs, htext₁, hread₁, hes, hplain₁⟩ := exists_reread hread hplain
  obtain ⟨text₂, gs, htext₂, hread₂, hfs, _⟩ := exists_reread hread₁ hplain₁
  have hatoms := every_scanned hread hplain
  have hsame : Expr.textEach gs = Expr.textEach fs :=
    Expr.textEach_eq (fun e he {_ _} => Expr.Reprints.text_eq (hatoms e he)) hes hfs
  refine ⟨text₁, fs, text₂, gs, htext₁, hread₁, htext₂, hread₂, ?_⟩
  rw [Expr.programText, hsame]
  exact htext₂

end MiniScheme
