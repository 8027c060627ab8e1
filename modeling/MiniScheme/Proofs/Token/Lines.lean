import MiniScheme.Proofs.Token.Concat

/-! The places of tokens in their source, and their lines. The line of a token is the number of
newlines in front of its end, wherever else in the source the same lexeme may stand. -/

namespace MiniScheme
namespace Lexical

structure Placed where
  before : List Char
  token : Token

def Placed.through (p : Placed) : List Char := p.before ++ p.token.shape.lexeme.toList

inductive Places : List Char → List Char → List Placed → Prop
  | ends {front : List Char} {line : Nat} : Places front [] [⟨front, ⟨line, .endOfInput⟩⟩]
  | blank {front cs : List Char} {c : Char} {ps : List Placed} (hc : IsBlank c)
      (h : Places (front ++ [c]) cs ps) : Places front (c :: cs) ps
  | token {front cs rest : List Char} {t : Token} {ps : List Placed}
      (hbegins : BeginsIn (¬IsBlank ·) t.shape.lexeme.toList)
      (hcs : cs = t.shape.lexeme.toList ++ rest)
      (h : Places (front ++ t.shape.lexeme.toList) rest ps) : Places front cs (⟨front, t⟩ :: ps)

variable {front cs text rest : List Char} {shape : Shape} {ps qs : List Placed}

theorem Lexeme.ne_nil (h : Lexeme text shape rest) : text ≠ [] := by
  cases h with
  | number hfirst | badNumber hfirst =>
    obtain ⟨_, _, rfl, _⟩ := hfirst.exists_cons
    exact List.cons_ne_nil _ _
  | symbol hne => exact hne
  | _ => exact List.cons_ne_nil _ _

theorem Lexeme.beginsIn (h : Lexeme text shape rest) : BeginsIn (¬IsBlank ·) text := by
  obtain ⟨c, cs, heq, hc, _⟩ := h.scanned
  cases text with
  | nil => exact absurd rfl h.ne_nil
  | cons d text =>
    obtain ⟨rfl, _⟩ := List.cons.inj heq
    exact (beginsIn_cons _ d text).mpr hc

theorem Lexeme.newlines_eq_zero (h : Lexeme text shape rest)
    (hstring : ∀ value closed, shape ≠ .atom (.string value closed)) : text.count '\n' = 0 := by
  rw [← h.newlines_eq]
  cases h with
  | closed | unclosed => exact absurd rfl (hstring _ _)
  | _ => rfl

theorem Places.between (h : Places front cs ps) :
    ∀ p ∈ ps, front <+: p.before ∧ p.through <+: front ++ cs := by
  induction h with
  | @ends front line =>
    refine List.forall_mem_singleton.mpr ⟨List.prefix_rfl, ?_⟩
    simp [Placed.through, Shape.lexeme]
  | @blank front cs c ps _ _ ih =>
    intro p hp
    obtain ⟨hbefore, hthrough⟩ := ih p hp
    refine ⟨(List.prefix_append front [c]).trans hbefore, ?_⟩
    rwa [List.append_assoc, List.singleton_append] at hthrough
  | @token front cs rest t ps _ hcs _ ih =>
    subst hcs
    refine List.forall_mem_cons.mpr ⟨⟨List.prefix_rfl, ?_⟩, fun p hp => ?_⟩
    · rw [← List.append_assoc]
      exact List.prefix_append _ rest
    · obtain ⟨hbefore, hthrough⟩ := ih p hp
      refine ⟨(List.prefix_append front _).trans hbefore, ?_⟩
      rwa [List.append_assoc] at hthrough

theorem Places.pairwise (h : Places front cs ps) :
    ps.Pairwise fun p q => p.through <+: q.before := by
  induction h with
  | ends => exact List.pairwise_singleton _ _
  | blank _ _ ih => exact ih
  | token _ _ hrest ih => exact List.pairwise_cons.mpr ⟨fun q hq => (hrest.between q hq).1, ih⟩

theorem Places.unique (h : Places front cs ps) (h' : Places front cs qs)
    (htokens : ps.map (·.token) = qs.map (·.token)) : ps = qs := by
  induction h generalizing qs with
  | ends =>
    cases h' with
    | ends =>
      obtain ⟨rfl, _⟩ := Token.mk.inj (List.cons.inj htokens).1
      rfl
    | token hbegins hcs _ =>
      obtain ⟨c, cs, heq, _⟩ := hbegins.exists_cons
      rw [heq] at hcs
      cases hcs
  | blank hc _ ih =>
    cases h' with
    | blank _ h' => exact ih h' htokens
    | token hbegins hcs _ =>
      obtain ⟨d, ds, heq, hd⟩ := hbegins.exists_cons
      rw [heq] at hcs
      exact absurd hc ((List.cons.inj hcs).1 ▸ hd)
  | token hbegins hcs _ ih =>
    obtain ⟨d, ds, heq, hd⟩ := hbegins.exists_cons
    cases h' with
    | ends =>
      rw [heq] at hcs
      cases hcs
    | blank hc _ =>
      rw [heq] at hcs
      exact absurd hc ((List.cons.inj hcs).1 ▸ hd)
    | token _ hcs' h' =>
      obtain ⟨htoken, hmore⟩ := List.cons.inj htokens
      cases htoken
      obtain rfl := List.append_cancel_left (hcs.symm.trans hcs')
      rw [ih h' hmore]

def Placed.IsCounted (p : Placed) : Prop :=
  p.token.line = p.through.count '\n' ∧
    ((∀ value closed, p.token.shape ≠ .atom (.string value closed)) →
      p.token.line = p.before.count '\n')

theorem exists_places (line : Nat) (cs : List Char) : ∀ front : List Char,
    line = front.count '\n' → ∃ ps, Places front cs ps ∧
      ps.map (·.token) = Scan.tokens line cs ∧ ∀ p ∈ ps, p.IsCounted := by
  -- the cases of the scanner: the end, a blank, a lexeme
  induction line, cs using Scan.tokens.induct with
  | case1 line =>
    intro front hline
    refine ⟨_, .ends, by rw [Scan.tokens]; rfl, List.forall_mem_singleton.mpr ⟨?_, fun _ => hline⟩⟩
    simpa [Placed.through, Shape.lexeme] using hline
  | case2 line c cs h ih =>
    intro front hline
    simp only [dite_eq_ite] at ih
    have hc := (isBlank_iff c).mp h
    have hnext : (if c = '\n' then line + 1 else line) = (front ++ [c]).count '\n' := by
      rw [List.count_append, ← hline, List.count_singleton]
      by_cases hnl : c = '\n' <;> simp [hnl]
    obtain ⟨ps, hplaces, htokens, hlines⟩ := ih _ hnext
    exact ⟨ps, .blank hc hplaces, by rw [tokens_blank hc, htokens], hlines⟩
  | case3 line c cs h found last ih =>
    intro front hline
    have hc := fun hb => h ((isBlank_iff c).mpr hb)
    have hlexeme : Lexeme found.1.lexeme.toList found.1 found.2 := lexeme_scanned hc cs
    have hlast : last = (front ++ found.1.lexeme.toList).count '\n' := by
      rw [List.count_append, ← hline, ← hlexeme.newlines_eq]
    obtain ⟨ps, hplaces, htokens, hlines⟩ := ih _ hlast
    refine ⟨⟨front, ⟨last, found.1⟩⟩ :: ps, .token hlexeme.beginsIn ?_ hplaces, ?_,
      List.forall_mem_cons.mpr ⟨⟨hlast, fun hstring => ?_⟩, hlines⟩⟩
    · exact (Scan.lexeme_append c cs).symm
    · rw [tokens_lexeme hc, List.map_cons, htokens]
    · rw [hlast, List.count_append, hlexeme.newlines_eq_zero hstring, Nat.add_zero]

theorem Places.exists_last (h : Places front cs ps) :
    ∃ init line, ps = init ++ [⟨front ++ cs, ⟨line, .endOfInput⟩⟩] := by
  induction h with
  | @ends front line => exact ⟨[], line, by rw [List.append_nil, List.nil_append]⟩
  | blank _ _ ih =>
    obtain ⟨init, line, rfl⟩ := ih
    exact ⟨init, line, by rw [List.append_assoc, List.singleton_append]⟩
  | @token front _ rest t _ _ hcs _ ih =>
    obtain ⟨init, line, rfl⟩ := ih
    exact ⟨⟨front, t⟩ :: init, line, by rw [hcs, List.append_assoc, List.cons_append]⟩

end Lexical

open Lexical

/-- The tokens of a source have one place each, and the line of each is the number of newlines from
the beginning of the source through its last character. Lines never decrease, and the end of the
input is on the last of them. -/
theorem scan_lines (source : String) :
    ∃ ps, (∀ qs, Places [] source.toList qs ∧ qs.map (·.token) = scan source ↔ qs = ps) ∧
      (∀ p ∈ ps, p.through <+: source.toList ∧ p.IsCounted) ∧
      (scan source).Pairwise (fun t u => t.line ≤ u.line) ∧
      ∃ front, scan source = front ++ [⟨source.toList.count '\n', .endOfInput⟩] := by
  obtain ⟨ps, hplaces, htokens, hlines⟩ := exists_places 0 source.toList [] rfl
  refine ⟨ps, fun qs => ⟨fun ⟨hqs, heq⟩ => ?_, ?_⟩, fun p hp => ?_, ?_, ?_⟩
  · exact hqs.unique hplaces (heq.trans htokens.symm)
  · rintro rfl
    exact ⟨hplaces, htokens⟩
  · exact ⟨(hplaces.between p hp).2, hlines p hp⟩
  · unfold scan
    rw [← htokens, List.pairwise_map]
    refine hplaces.pairwise.imp_of_mem fun {p q} hp hq hprefix => ?_
    calc p.token.line = p.through.count '\n' := (hlines p hp).1
      _ ≤ q.before.count '\n' := hprefix.sublist.count_le '\n'
      _ ≤ q.through.count '\n' := (List.prefix_append _ _).sublist.count_le '\n'
      _ = q.token.line := (hlines q hq).1.symm
  · obtain ⟨init, line, rfl⟩ := hplaces.exists_last
    have hlast : line = source.toList.count '\n' := by
      have hend := (hlines _ (List.mem_append_right init (List.mem_singleton.mpr rfl))).1
      simpa [Placed.through, Shape.lexeme] using hend
    refine ⟨init.map (·.token), ?_⟩
    unfold scan
    rw [← htokens, List.map_append, List.map_singleton, ← hlast]

end MiniScheme
